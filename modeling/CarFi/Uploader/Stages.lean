import CarFi.Uploader.Server

/-!
# The stages of a thread

Which call a thread is in, and how the result of a call moves it on, as far as its file is
concerned: it has none (`early`), it fills it, it has flushed it and waits for the decision, or
it is done with it (`late`), also after an exception.
-/
namespace CarFi.Uploader

open Library

namespace Server

inductive Stage where
  | early | filling | flushed | late
  deriving DecidableEq

def Pc.stage : Pc → Stage
  | .nameLen _ | .name _ | .opening => .early
  | .sizeLen _ | .content _ _ | .writing _ _ | .flushing => .filling
  | .digestLen _ | .digest _ | .moving => .flushed
  | .sendLen _ | .sendDigest | .closing | .closingSocket | .done => .late

def Handler.stage (h : Handler) : Stage := h.pc.stage

section Program

variable {recvDir tarDir : Bytes} {hexdigest : Bytes → Bytes} {h : Handler}

theorem Handler.op_openWrite {path : Bytes}
    (ho : h.op recvDir tarDir hexdigest = some (.openWrite path)) :
    h.pc = .opening ∧ path = join recvDir h.fileName := by
  unfold Handler.op at ho
  split at ho <;> simp_all [Handler.filePath]

theorem Handler.op_write {chunk : Bytes}
    (ho : h.op recvDir tarDir hexdigest = some (.write chunk)) :
    ∃ msgLen, h.pc = .writing msgLen chunk := by
  unfold Handler.op at ho
  split at ho <;> simp_all

theorem Handler.op_flush (ho : h.op recvDir tarDir hexdigest = some .flush) : h.pc = .flushing := by
  unfold Handler.op at ho
  split at ho <;> simp_all

theorem Handler.op_system {command : Bytes}
    (ho : h.op recvDir tarDir hexdigest = some (.system command)) :
    h.pc = .moving ∧ command = mvCommand tarDir (join recvDir h.fileName) := by
  unfold Handler.op at ho
  split at ho <;> simp_all [Handler.filePath]

theorem Handler.op_send {msg : Bytes} (ho : h.op recvDir tarDir hexdigest = some (.send msg)) :
    (∃ hdr, h.pc = .sendLen hdr ∧ msg = hdr) ∨ h.pc = .sendDigest ∧
      msg = hexdigest h.localMd5 := by
  unfold Handler.op at ho
  split at ho <;> simp_all

theorem Handler.op_closeFile (ho : h.op recvDir tarDir hexdigest = some .closeFile) :
    h.pc = .closing := by
  unfold Handler.op at ho
  split at ho <;> simp_all

theorem Handler.op_closeSocket (ho : h.op recvDir tarDir hexdigest = some .closeSocket) :
    h.pc = .closingSocket := by
  unfold Handler.op at ho
  split at ho <;> simp_all

/-- A handler that has gone on without a change of what it received. -/
structure Handler.Same (h h' : Handler) : Prop where
  localMd5 : h'.localMd5 = h.localMd5
  fileName : h'.fileName = h.fileName

theorem Handler.finish_stage (h : Handler) : h.finish.stage = .late := by
  unfold Handler.finish
  cases h.tarFile <;> rfl

theorem Handler.finish_same (h : Handler) : h.Same h.finish := ⟨rfl, rfl⟩

theorem Handler.reply_late (hexdigest : Bytes → Bytes) (h : Handler) :
    (h.reply hexdigest).stage = .late ∧ h.Same (h.reply hexdigest) := by
  cases hp : packInt (hexdigest h.localMd5).length with
  | none =>
    have hreply : h.reply hexdigest = h.finish := by simp only [Handler.reply, hp]
    rw [hreply]
    exact ⟨h.finish_stage, h.finish_same⟩
  | some hdr =>
    have hreply : h.reply hexdigest = { h with pc := .sendLen hdr } := by
      simp only [Handler.reply, hp]
    rw [hreply]
    exact ⟨rfl, rfl, rfl⟩

theorem Handler.resume_raised (hexdigest : Bytes → Bytes) (h : Handler) :
    (h.resume hexdigest .raised).stage = .late ∧ h.Same (h.resume hexdigest .raised) := by
  cases hpc : h.pc
  case closing => exact ⟨by simp [Handler.resume, hpc, Handler.stage, Pc.stage],
    by constructor <;> simp [Handler.resume, hpc]⟩
  case closingSocket => exact ⟨by simp [Handler.resume, hpc, Handler.stage, Pc.stage],
    by constructor <;> simp [Handler.resume, hpc]⟩
  case done => exact ⟨by simp [Handler.resume, hpc, Handler.stage, Pc.stage],
    by constructor <;> simp [Handler.resume, hpc]⟩
  all_goals
    have hfinish : h.resume hexdigest .raised = h.finish := by simp [Handler.resume, hpc]
    rw [hfinish]
    exact ⟨h.finish_stage, h.finish_same⟩

theorem Handler.nextChunk_filling (h : Handler) (msgLen : Int) :
    (h.nextChunk msgLen).stage = .filling ∧ h.Same (h.nextChunk msgLen) := by
  unfold Handler.nextChunk
  split <;> exact ⟨rfl, rfl, rfl⟩

/-- A handler that stays in its stage or ends, with the bytes it has digested. -/
structure Handler.Goes (h h' : Handler) : Prop where
  stage : h'.stage = h.stage ∨ h'.stage = .late
  localMd5 : h'.localMd5 = h.localMd5
  fileName : h.stage ≠ .early → h'.fileName = h.fileName

theorem Handler.finish_goes (h : Handler) : h.Goes h.finish :=
  ⟨.inr h.finish_stage, rfl, fun _ => rfl⟩

theorem Handler.goes_of_stage {h : Handler} {pc : Pc} (hpc : pc.stage = h.stage) :
    h.Goes { h with pc := pc } :=
  ⟨.inl hpc, rfl, fun _ => rfl⟩

theorem Handler.recvMsg_goes {h : Handler} {pc : RecvMsg → Pc} {k : Bytes → Handler}
    (hpc : ∀ r, (pc r).stage = h.stage) (hk : ∀ msg, h.Goes (k msg)) (r : RecvMsg) :
    h.Goes (h.recvMsg pc k r) :=
  RecvMsg.loop_of h.Goes hk (goes_of_stage (hpc r))

theorem Handler.gotName_goes {h : Handler} (hs : h.stage = .early) (msg : Bytes) :
    h.Goes (h.gotName msg) := by
  unfold Handler.gotName
  split
  · exact ⟨.inl hs.symm, rfl, fun hne => absurd hs hne⟩
  · exact h.finish_goes

theorem Handler.gotNameLen_goes {h : Handler} (hs : h.stage = .early) (msg : Bytes) :
    h.Goes (h.gotNameLen msg) := by
  apply recvMsg_goes (fun _ => ?_) (gotName_goes hs)
  exact hs.symm

theorem Handler.gotDigest_goes {h : Handler} (hs : h.stage = .flushed) (peer : Bytes) :
    h.Goes (h.gotDigest hexdigest peer) := by
  unfold Handler.gotDigest
  split
  · simp only
    split
    · exact ⟨.inl hs.symm, rfl, fun _ => rfl⟩
    · obtain ⟨hlate, hsame⟩ := Handler.reply_late hexdigest { h with peerDigest := peer }
      exact ⟨.inr hlate, hsame.localMd5, fun _ => hsame.fileName⟩
  · exact h.finish_goes

theorem Handler.gotDigestLen_goes {h : Handler} (hs : h.stage = .flushed) (msg : Bytes) :
    h.Goes (h.gotDigestLen hexdigest msg) := by
  apply recvMsg_goes (fun _ => ?_) (gotDigest_goes hs)
  exact hs.symm

/-- Bytes that come in keep a thread in its stage or end it. -/
theorem Handler.resume_bytes (h : Handler) (tmp : Bytes) :
    h.Goes (h.resume hexdigest (.bytes tmp)) := by
  have hstage : h.stage = h.pc.stage := rfl
  cases hpc : h.pc <;> rw [hpc] at hstage <;> simp only [Handler.resume, hpc]
  case nameLen =>
    apply recvMsg_goes (fun _ => ?_) (gotNameLen_goes hstage)
    exact hstage.symm
  case name =>
    apply recvMsg_goes (fun _ => ?_) (gotName_goes hstage)
    exact hstage.symm
  case sizeLen =>
    apply recvMsg_goes (fun _ => ?_) fun msg => ?_
    · exact hstage.symm
    · obtain ⟨hnext, hsame⟩ := h.nextChunk_filling (unpackInt msg)
      exact ⟨.inl (hnext.trans hstage.symm), hsame.localMd5, fun _ => hsame.fileName⟩
  case content =>
    apply recvMsg_goes (fun _ => ?_) fun _ => ?_
    · exact hstage.symm
    · apply goes_of_stage
      exact hstage.symm
  case digestLen =>
    apply recvMsg_goes (fun _ => ?_) (gotDigestLen_goes hstage)
    exact hstage.symm
  case digest =>
    apply recvMsg_goes (fun _ => ?_) (gotDigest_goes hstage)
    exact hstage.symm
  case closingSocket =>
    apply goes_of_stage
    exact hstage.symm
  case done => exact ⟨.inl rfl, rfl, fun _ => rfl⟩
  all_goals exact h.finish_goes

theorem Handler.goes_of_late {h h' : Handler} (hlate : h'.stage = .late) (hsame : h.Same h') :
    h.Goes h' :=
  ⟨.inr hlate, hsame.localMd5, fun _ => hsame.fileName⟩

theorem Handler.resume_send {msg : Bytes} (ho : h.op recvDir tarDir hexdigest = some (.send msg)) :
    h.Goes (h.resume hexdigest .done) := by
  rcases Handler.op_send ho with ⟨hdr, hpc, -⟩ | ⟨hpc, -⟩ <;>
    simp only [Handler.resume, hpc]
  · exact goes_of_late rfl ⟨rfl, rfl⟩
  · exact h.finish_goes

theorem Handler.resume_closeSocket (ho : h.op recvDir tarDir hexdigest = some .closeSocket) :
    h.Goes (h.resume hexdigest .done) := by
  simp only [Handler.resume, Handler.op_closeSocket ho]
  exact goes_of_late rfl ⟨rfl, rfl⟩

theorem Handler.resume_system {command : Bytes}
    (ho : h.op recvDir tarDir hexdigest = some (.system command)) :
    h.stage = .flushed ∧ (h.resume hexdigest .done).stage = .late ∧
      h.Same (h.resume hexdigest .done) := by
  have hpc := (Handler.op_system ho).1
  refine ⟨by simp [Handler.stage, hpc, Pc.stage], ?_⟩
  simp only [Handler.resume, hpc]
  exact h.reply_late hexdigest

theorem Handler.resume_write (hexdigest : Bytes → Bytes) {msgLen : Int} {chunk : Bytes}
    (hpc : h.pc = .writing msgLen chunk) :
    (h.resume hexdigest .done).stage = .filling ∧
      (h.resume hexdigest .done).localMd5 = h.localMd5 ++ chunk ∧
      (h.resume hexdigest .done).fileName = h.fileName := by
  obtain ⟨hstage, hsame⟩ := Handler.nextChunk_filling
    { h with localMd5 := h.localMd5 ++ chunk } msgLen
  have hresume : h.resume hexdigest .done =
      Handler.nextChunk { h with localMd5 := h.localMd5 ++ chunk } msgLen := by
    simp only [Handler.resume, hpc]
  rw [hresume]
  exact ⟨hstage, hsame.localMd5, hsame.fileName⟩

end Program

end Server

end CarFi.Uploader
