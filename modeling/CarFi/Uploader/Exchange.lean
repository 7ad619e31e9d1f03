import CarFi.Uploader.Session

/-!
# The messages of an upload, as the server sees them

The client sends the name, the content and the digest, each after its length, and the server
answers with its digest. `ServerAt` gives the states that the thread of the server goes through
when nothing fails, with the bytes that it has still to receive and to send. A call that does not
raise takes the thread to the next of these states.
-/
namespace CarFi.Uploader

open Library Server

namespace Transfer

variable (x : Transfer)

def name : Bytes := x.client.tarName

def digest : Bytes := x.site.hexdigest x.content

/-! The bytes from the client, from each message on. -/

def digestMsg : Bytes := be32 x.digest.length ++ x.digest

def contentOn : Bytes := x.content ++ x.digestMsg

def sizeOn : Bytes := be32 x.content.length ++ x.contentOn

def nameOn : Bytes := x.name ++ x.sizeOn

def wire : Bytes := be32 x.name.length ++ x.nameOn

/-- Every message can be sent: the lengths fit a header and the texts can be encoded. -/
structure Sendable : Prop where
  name : isUtf8 x.name = true
  size : x.content.length < 2 ^ 31
  digestLen : x.digest.length < 2 ^ 31
  digest : isUtf8 x.digest = true

/-- The place of the tarball in `recv_dir`. -/
def recvLoc : Loc := ⟨x.site.recv, x.name⟩

def tarLoc : Loc := ⟨x.site.tar, x.name⟩

def mvCommand : Bytes := Server.mvCommand x.site.tarDir (join x.site.recvDir x.name)

def rmCommand : Bytes := Client.rmCommand x.client.tarDir x.name

/-- The file of the server after `data` has been written to it. -/
def filled (fs : Fs) (data : Bytes) : Fs :=
  (fs.openTrunc x.recvLoc).2.setData (fs.openTrunc x.recvLoc).1 data

/-- The writer of the thread has received `bs`, starting from the files `fs₀`. -/
structure Fills (fs₀ fs : Fs) (w : Writer) (bs : Bytes) : Prop where
  file : w.file = (fs₀.openTrunc x.recvLoc).1
  fs_eq : ∃ data, fs = x.filled fs₀ data ∧ data ++ w.buf = bs ∧ w.pos = data.length

end Transfer

variable (x : Transfer)

/-- The state of a thread of the server that has the file open. -/
def openThread (pc : Server.Pc) (w : Writer) (localMd5 : Bytes) : Server.Thread where
  handler := { pc := pc, fileName := x.name, tarFile := true, localMd5 := localMd5 }
  writer := some w

/-- The state of a thread of the server that has received everything. -/
def fullThread (pc : Server.Pc) (w : Option Writer) : Server.Thread where
  handler := { pc := pc, fileName := x.name, tarFile := true, localMd5 := x.content
               peerDigest := x.digest }
  writer := w

/-- The states of the server from the files `fs₀` on, up to the move and without exceptions, with
the bytes that it has not received. -/
inductive ServerAt (fs₀ : Fs) : Fs → Server.Thread → Bytes → Prop where
  | nameLen {r rest} (hr : r.Within (be32 x.name.length) rest) (hne : rest ≠ []) :
      ServerAt fs₀ fs₀ { handler := { pc := .nameLen r } } (rest ++ x.nameOn)
  | name {r rest} (hr : r.Within x.name rest) (hne : rest ≠ []) :
      ServerAt fs₀ fs₀ { handler := { pc := .name r } } (rest ++ x.sizeOn)
  | opening : ServerAt fs₀ fs₀ { handler := { pc := .opening, fileName := x.name } } x.sizeOn
  | sizeLen {fs w r rest} (hf : x.Fills fs₀ fs w []) (hr : r.Within (be32 x.content.length) rest)
      (hne : rest ≠ []) : ServerAt fs₀ fs (openThread x (.sizeLen r) w []) (rest ++ x.contentOn)
  | content {fs w md5 r chunk rest later} (hf : x.Fills fs₀ fs w md5) (hr : r.Within chunk rest)
      (hne : rest ≠ []) (hsplit : md5 ++ chunk ++ later = x.content) :
      ServerAt fs₀ fs (openThread x (.content later.length r) w md5)
        (rest ++ later ++ x.digestMsg)
  | writing {fs w md5 chunk later} (hf : x.Fills fs₀ fs w md5)
      (hsplit : md5 ++ chunk ++ later = x.content) :
      ServerAt fs₀ fs (openThread x (.writing later.length chunk) w md5) (later ++ x.digestMsg)
  | flushing {fs w} (hf : x.Fills fs₀ fs w x.content) :
      ServerAt fs₀ fs (openThread x .flushing w x.content) x.digestMsg
  | digestLen {w r rest} (hbuf : w.buf = []) (hr : r.Within (be32 x.digest.length) rest)
      (hne : rest ≠ []) :
      ServerAt fs₀ (x.filled fs₀ x.content) (openThread x (.digestLen r) w x.content)
        (rest ++ x.digest)
  | digest {w r rest} (hbuf : w.buf = []) (hr : r.Within x.digest rest) (hne : rest ≠ []) :
      ServerAt fs₀ (x.filled fs₀ x.content) (openThread x (.digest r) w x.content) rest
  | moving {w} (hbuf : w.buf = []) :
      ServerAt fs₀ (x.filled fs₀ x.content) (fullThread x .moving (some w)) []

/-- The states of the server after the move, with the bytes that it has not sent. -/
inductive ServerAfter : Server.Thread → Bytes → Prop where
  | sendLen {w} (hbuf : w.buf = []) :
      ServerAfter (fullThread x (.sendLen (be32 x.digest.length)) (some w)) x.digestMsg
  | sendDigest {w} (hbuf : w.buf = []) :
      ServerAfter (fullThread x .sendDigest (some w)) x.digest
  | closing {w} (hbuf : w.buf = []) : ServerAfter (fullThread x .closing (some w)) []
  | closingSocket : ServerAfter (fullThread x .closingSocket none) []
  | done : ServerAfter (fullThread x .done none) []

/-- The bytes that a call receives. -/
def received : Op → Res → Bytes
  | .recv _, .bytes tmp => tmp
  | _, _ => []

/-- The bytes that a call sends. -/
def sent : Op → Res → Bytes
  | .send msg, .done => msg
  | _, _ => []

/-! ## Receiving a message -/

/-- A piece of the rest of a message arrives. -/
theorem RecvMsg.Within.recv {r : RecvMsg} {msg rest tail tmp : Bytes} (h : r.Within msg rest)
    (hpre : tmp <+: rest ++ tail) (hlen : (tmp.length : Int) ≤ r.left) :
    ∃ rest', rest ++ tail = tmp ++ (rest' ++ tail) ∧ (r.add tmp).Within msg rest' := by
  have hle : tmp.length ≤ rest.length := by
    have hleft := h.left
    omega
  obtain ⟨rest', rfl⟩ := List.prefix_of_prefix_length_le hpre (List.prefix_append rest tail) hle
  exact ⟨rest', by simp, h.add⟩

/-- The piece completes the message, or the loop receives on. -/
theorem RecvMsg.Within.recv_loop {σ : Type*} (P : σ → Bytes → Prop) {wait : RecvMsg → σ}
    {k : Bytes → σ} {r : RecvMsg} {msg rest tail tmp : Bytes} (h : r.Within msg rest)
    (hpre : tmp <+: rest ++ tail) (hlen : (tmp.length : Int) ≤ r.left) (hk : P (k msg) tail)
    (hwait : ∀ rest', (r.add tmp).Within msg rest' → rest' ≠ [] →
      P (wait (r.add tmp)) (rest' ++ tail)) :
    ∃ pending, rest ++ tail = tmp ++ pending ∧ P ((r.add tmp).loop wait k) pending := by
  obtain ⟨rest', hsplit, hr⟩ := h.recv hpre hlen
  refine ⟨_, hsplit, ?_⟩
  rw [hr.loop_eq]
  split
  · rename_i hrest
    subst hrest
    exact hk
  · rename_i hrest
    exact hwait rest' hr hrest

variable {x}

theorem name_ne_nil (x : Transfer) : x.name ≠ [] := x.fileName.nonempty

theorem name_length_lt (x : Transfer) : x.name.length < 2 ^ 31 :=
  Nat.lt_of_le_of_lt x.fileName.short (by decide)

/-- The head of the loop over the content, with `rest` still to come. -/
theorem nextChunk_serverAt {fs₀ fs : Fs} {w : Writer} {md5 rest : Bytes} (pc : Pc)
    (hf : x.Fills fs₀ fs w md5) (hsplit : md5 ++ rest = x.content) :
    ServerAt x fs₀ fs
      { openThread x pc w md5 with
        handler := (openThread x pc w md5).handler.nextChunk rest.length }
      (rest ++ x.digestMsg) := by
  unfold Handler.nextChunk
  split
  · rename_i hpos
    -- the chunk is the first 4096 bytes of the rest, or all of it
    have hchunk : (if (rest.length : Int) > chunkLimit then chunkLimit else rest.length) =
        ((rest.take 4096).length : Int) := by
      unfold chunkLimit
      simp only [List.length_take]
      split <;> omega
    have hlater : (rest.length : Int) - (rest.take 4096).length = (rest.drop 4096).length := by
      simp only [List.length_take, List.length_drop]
      omega
    have hne : rest.take 4096 ≠ [] := by
      rintro hnil
      have hlen := congrArg List.length hnil
      simp only [List.length_take, List.length_nil] at hlen
      omega
    have hsplit' : md5 ++ rest.take 4096 ++ rest.drop 4096 = x.content := by
      rw [List.append_assoc, List.take_append_drop, hsplit]
    have hat := ServerAt.content hf (RecvMsg.within_start (rest.take 4096)) hne hsplit'
    rw [List.take_append_drop] at hat
    simp only [hchunk, hlater]
    exact hat
  · rename_i hpos
    have hnil : rest = [] := List.length_eq_zero_iff.mp (by omega)
    subst hnil
    obtain rfl : md5 = x.content := by simpa using hsplit
    exact .flushing hf

theorem gotDigest_serverAt (hx : x.Sendable) (fs₀ : Fs) {w : Writer}
    (hbuf : w.buf = []) (pc : Pc) : ServerAt x fs₀ (x.filled fs₀ x.content)
      { openThread x pc w x.content with
        handler := (openThread x pc w x.content).handler.gotDigest x.site.hexdigest x.digest }
          [] := by
  have hgot : (openThread x pc w x.content).handler.gotDigest x.site.hexdigest x.digest =
      (fullThread x .moving (some w)).handler := by
    unfold Handler.gotDigest
    rw [if_pos hx.digest]
    exact if_pos rfl
  rw [hgot]
  exact .moving hbuf

/-- A piece of what the server has not received arrives. -/
theorem ServerAt.recv (hx : x.Sendable) {fs₀ fs : Fs} {t : Thread} {pending tmp : Bytes}
    {n : Int} (h : ServerAt x fs₀ fs t pending) (ho : t.op x.site = some (.recv n))
    (hlen : (tmp.length : Int) ≤ n) (hpre : tmp <+: pending) :
    ∃ pending', pending = tmp ++ pending' ∧
      ServerAt x fs₀ fs (t.resume x.site (.bytes tmp)) pending' := by
  cases h with
  | nameLen hr hne =>
    obtain rfl := Op.recv.inj (Option.some.inj ho)
    simp only [Thread.resume, Handler.resume, Handler.recvMsg]
    refine hr.recv_loop (fun h => ServerAt x fs₀ fs₀ { handler := h }) hpre hlen ?_ ?_
    · rw [Handler.gotNameLen, Handler.recvMsg, RecvMsg.loop_start (name_length_lt x),
        if_neg (name_ne_nil x)]
      exact .name (RecvMsg.within_start _) (name_ne_nil x)
    · exact fun _ => .nameLen
  | name hr hne =>
    obtain rfl := Op.recv.inj (Option.some.inj ho)
    simp only [Thread.resume, Handler.resume, Handler.recvMsg]
    refine hr.recv_loop (fun h => ServerAt x fs₀ fs₀ { handler := h }) hpre hlen ?_ ?_
    · rw [Handler.gotName, if_pos hx.name]
      exact .opening
    · exact fun _ => .name
  | @sizeLen _ w _ _ hf hr hne =>
    obtain rfl := Op.recv.inj (Option.some.inj ho)
    simp only [Thread.resume, openThread, Handler.resume, Handler.recvMsg]
    refine hr.recv_loop (fun h => ServerAt x fs₀ fs { handler := h, writer := some w })
      hpre hlen ?_ ?_
    · rw [unpackInt_be32 hx.size]
      exact nextChunk_serverAt _ hf rfl
    · exact fun _ => .sizeLen hf
  | @content _ w _ _ _ _ later hf hr hne hsplit =>
    obtain rfl := Op.recv.inj (Option.some.inj ho)
    rw [List.append_assoc] at hpre ⊢
    simp only [Thread.resume, openThread, Handler.resume, Handler.recvMsg]
    refine hr.recv_loop (fun h => ServerAt x fs₀ fs { handler := h, writer := some w })
      hpre hlen ?_ fun rest hr' hrest => ?_
    · exact .writing hf hsplit
    · rw [← List.append_assoc]
      exact .content hf hr' hrest hsplit
  | @digestLen w r _ hbuf hr hne =>
    obtain rfl := Op.recv.inj (Option.some.inj ho)
    simp only [Thread.resume, openThread, Handler.resume, Handler.recvMsg]
    refine hr.recv_loop
      (fun h => ServerAt x fs₀ (x.filled fs₀ x.content) { handler := h, writer := some w })
      hpre hlen ?_ ?_
    · rw [Handler.gotDigestLen, Handler.recvMsg, RecvMsg.loop_start hx.digestLen]
      split
      · rename_i hnil
        have hat := gotDigest_serverAt hx fs₀ hbuf (.digestLen r)
        rw [hnil] at hat ⊢
        exact hat
      · rename_i hnil
        exact .digest hbuf (RecvMsg.within_start _) hnil
    · exact fun _ => .digestLen hbuf
  | @digest w _ _ hbuf hr hne =>
    obtain rfl := Op.recv.inj (Option.some.inj ho)
    rw [← List.append_nil pending] at hpre ⊢
    simp only [Thread.resume, openThread, Handler.resume, Handler.recvMsg]
    refine hr.recv_loop
      (fun h => ServerAt x fs₀ (x.filled fs₀ x.content) { handler := h, writer := some w })
      hpre hlen ?_ fun rest hr' hrest => ?_
    · exact gotDigest_serverAt hx fs₀ hbuf _
    · rw [List.append_nil]
      exact .digest hbuf hr' hrest
  | _ => cases ho

/-! ## The other calls of the server -/

theorem Transfer.filled_nil (fs : Fs) : x.filled fs [] = (fs.openTrunc x.recvLoc).2 :=
  Fs.setData_of_data_eq (Fs.openTrunc_data_self fs x.recvLoc)

/-- What a write adds, and what of it the buffer keeps. -/
theorem Transfer.Fills.emit {fs₀ fs : Fs} {w : Writer} {bs : Bytes} (h : x.Fills fs₀ fs w bs)
    (chunk : Bytes) (k : Nat) :
    x.Fills fs₀ ((w.put chunk).emitted k fs) ((w.put chunk).emit k) (bs ++ chunk) := by
  obtain ⟨hfile, data, rfl, hbuf, hpos⟩ := h
  refine ⟨hfile, data ++ (w.buf ++ chunk).take k, ?_, ?_, ?_⟩
  · have hdata : (x.filled fs₀ data).data (w.put chunk).file = data := by
      rw [Writer.put, hfile]
      exact Function.update_self ..
    have hpos' : (w.put chunk).pos = data.length := hpos
    rw [Writer.emitted, hdata, hpos', overwrite_end]
    simp only [Writer.put, hfile]
    exact Fs.setData_setData _ _ _ _
  · simp [Writer.emit, Writer.put, List.append_assoc, List.take_append_drop, ← hbuf]
  · simp [Writer.emit, Writer.put, hpos]

theorem Transfer.Fills.flushed {fs₀ fs : Fs} {w : Writer} {bs : Bytes} (h : x.Fills fs₀ fs w bs)
    (hbuf : w.buf = []) : fs = x.filled fs₀ bs := by
  obtain ⟨-, data, rfl, hsplit, -⟩ := h
  rw [hbuf, List.append_nil] at hsplit
  rw [hsplit]

theorem reply_fullThread (hx : x.Sendable) (w : Option Writer) :
    (fullThread x .moving w).resume x.site .done =
      fullThread x (.sendLen (be32 x.digest.length)) w := by
  have hpack : packInt (x.site.hexdigest (fullThread x .moving w).handler.localMd5).length =
      some (be32 x.digest.length) := packInt_of_lt hx.digestLen
  have hreply : (fullThread x .moving w).handler.reply x.site.hexdigest =
      (fullThread x (.sendLen (be32 x.digest.length)) w).handler := by
    simp only [Handler.reply, hpack]
    rfl
  simp only [Thread.resume, Handler.resume, fullThread]
  exact congrArg (Thread.mk · w) hreply

/-- A call of the server that does not raise takes it on, up to the move. -/
theorem ServerAt.call (hx : x.Sendable) {fs₀ fs fs' : Fs} {t t' : Thread} {pending : Bytes}
    {o : Op} {res : Res} (h : ServerAt x fs₀ fs t pending)
    (hstep : ThreadStep x.site fs t o res fs' t') (hres : res ≠ .raised)
    (hpre : received o res <+: pending) :
    (∃ pending', pending = received o res ++ pending' ∧ ServerAt x fs₀ fs' t' pending') ∨
      (t.handler.pc = .moving ∧ fs = x.filled fs₀ x.content ∧
        x.site.system x.mvCommand fs fs' ∧ ServerAfter x t' x.digestMsg) := by
  cases hstep with
  | recv ho hpos hlen => exact .inl (h.recv hx ho hlen hpre)
  | openWrite ho hloc =>
    cases h with
    | opening =>
      obtain rfl := Op.openWrite.inj (Option.some.inj ho)
      obtain rfl := Option.some.inj (hloc.symm.trans (x.site.walk_name _ x.fileName))
      have hfills : x.Fills fs₀ (fs₀.openTrunc x.recvLoc).2
          { file := (fs₀.openTrunc x.recvLoc).1 } [] :=
        ⟨rfl, [], (x.filled_nil fs₀).symm, rfl, rfl⟩
      exact .inl ⟨_, rfl, .sizeLen hfills (RecvMsg.within_start _) (by simp [be32])⟩
    | _ => cases ho
  | @file _ _ bs w ho hbs hw k hdone hall =>
    cases h with
    | writing hf hsplit =>
      obtain rfl := Option.some.inj ho
      obtain rfl := Option.some.inj hbs
      obtain rfl := Option.some.inj hw
      obtain rfl := hdone.resolve_right hres
      exact .inl ⟨_, rfl, nextChunk_serverAt (.writing _ _) (hf.emit _ k) hsplit⟩
    | @flushing _ v hf =>
      obtain rfl := Option.some.inj ho
      obtain rfl := Option.some.inj hbs
      obtain rfl := Option.some.inj hw
      obtain rfl := hdone.resolve_right hres
      have hbuf : ((v.put []).emit k).buf = [] := by
        simpa [Writer.emit, Writer.put] using hall rfl (.inl rfl)
      have hfills := (hf.emit [] k).flushed hbuf
      rw [List.append_nil] at hfills
      rw [hfills]
      exact .inl ⟨_, rfl, .digestLen hbuf (RecvMsg.within_start _) (by simp [be32])⟩
    | _ =>
      cases ho
      cases hbs
  | system ho hrun =>
    cases h with
    | moving hbuf =>
      obtain rfl := Op.system.inj (Option.some.inj ho)
      refine .inr ⟨rfl, rfl, hrun, ?_⟩
      rw [reply_fullThread hx]
      exact .sendLen hbuf
    | _ => cases ho
  | send ho => cases h <;> cases ho
  | closeSocket ho => cases h <;> cases ho
  | raise ho hbs hsys => exact absurd rfl hres

/-- After the move a call leaves the files and sends the reply. -/
theorem ServerAfter.call {fs fs' : Fs} {t t' : Thread} {reply : Bytes} {o : Op} {res : Res}
    (h : ServerAfter x t reply) (hstep : ThreadStep x.site fs t o res fs' t')
    (hres : res ≠ .raised) :
    fs' = fs ∧ received o res = [] ∧ ∃ reply', reply = sent o res ++ reply' ∧
      ServerAfter x t' reply' := by
  cases hstep with
  | @file _ _ bs w ho hbs hw k hdone hall =>
    cases h with
    | @closing v hbuf =>
      obtain rfl := Option.some.inj ho
      obtain rfl := Option.some.inj hbs
      obtain rfl := Option.some.inj hw
      obtain rfl := hdone.resolve_right hres
      have hput : (v.put []).buf = [] := by simp [Writer.put, hbuf]
      exact ⟨Writer.emitted_of_buf_eq_nil hput k fs, rfl, _, rfl, .closingSocket⟩
    | _ => cases ho <;> cases hbs
  | send ho =>
    cases h with
    | sendLen hbuf =>
      obtain rfl := Op.send.inj (Option.some.inj ho)
      exact ⟨rfl, rfl, _, rfl, .sendDigest hbuf⟩
    | sendDigest hbuf =>
      obtain rfl := Op.send.inj (Option.some.inj ho)
      exact ⟨rfl, rfl, _, (List.append_nil _).symm, .closing hbuf⟩
    | _ => cases ho
  | closeSocket ho =>
    cases h with
    | closingSocket => exact ⟨rfl, rfl, _, rfl, .done⟩
    | _ => cases ho
  | raise ho hbs hsys => exact absurd rfl hres
  | recv ho => cases h <;> cases ho
  | openWrite ho => cases h <;> cases ho
  | system ho => cases h <;> cases ho

end CarFi.Uploader
