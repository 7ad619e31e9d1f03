import CarFi.Library.Machine
import CarFi.Uploader.Progress
import Mathlib.Data.Prod.Lex

/-!
# When the loops of the uploader end

Both programs against any results of their calls. `_recv_msg` counts down what `recv` returns, so
the empty string that a closed connection gives leaves it where it is; the loop over the content
of a tarball counts down what `read` returns. Every other result brings a program nearer to its
end (`measure_lt`), and the two theorems at the end say that nothing else keeps it from ending.
-/
namespace CarFi.Uploader

open Library

/-- The results that a call can have. `recv` raises on a negative length. -/
def Fits : Op → Res → Prop
  | _, .raised => True
  | .recv n, .bytes tmp => 0 < n ∧ (tmp.length : Int) ≤ n
  | .read n, .bytes tmp => tmp.length ≤ n
  | .getsize _, .size _ => True
  | .recv _, _ | .read _, _ | .getsize _, _ => False
  | _, .done => True
  | _, _ => False

/-- The results of all calls of a program. Once the peer has closed the connection, `recv` returns
the empty string for ever. -/
structure Behaviour {σ : Type*} (M : Machine σ Op Res) where
  res : ℕ → Res
  fits : ∀ i o, M.op (M.state res i) = some o → Fits o (res i)
  eof : ∀ i j n m, i ≤ j → M.op (M.state res i) = some (.recv n) → res i = .bytes [] →
    M.op (M.state res j) = some (.recv m) → res j = .bytes []

/-- No `recv` of the program returns the empty string. -/
def Behaviour.NeverCloses {σ : Type*} {M : Machine σ Op Res} (b : Behaviour M) : Prop :=
  ∀ i n, M.op (M.state b.res i) = some (.recv n) → b.res i ≠ .bytes []

/-- A program that waits for bytes on a closed connection does not end. -/
theorem Behaviour.neverCloses_of_ends {σ : Type*} {M : Machine σ Op Res} {b : Behaviour M}
    (hnil : ∀ s n, M.op s = some (.recv n) → 0 < n → M.resume s (.bytes []) = s)
    (hdone : ∀ s res, M.op s = none → M.op (M.resume s res) = none) (hends : M.Ends b.res) :
    b.NeverCloses := by
  intro i n ho hres
  have hpos : 0 < n := by
    have hfit := b.fits i _ ho
    rw [hres] at hfit
    exact hfit.1
  have hstays : ∀ j, M.state b.res (i + j) = M.state b.res i := by
    intro j
    induction j with
    | zero => rfl
    | succ j ih =>
      have hj := b.eof i (i + j) n n (by omega) ho hres (ih ▸ ho)
      rw [← Nat.add_assoc, Machine.state, ih, hj]
      exact hnil _ _ ho hpos
  obtain ⟨k, hk⟩ := hends
  have hnone := Machine.op_eq_none_of_le hdone hk (show k ≤ i + k by omega)
  rw [hstays, ho] at hnone
  cases hnone

/-! ## The server -/

namespace Server

def machine (recvDir tarDir : Bytes) (hexdigest : Bytes → Bytes) : Machine Handler Op Res where
  start := {}
  op := Handler.op recvDir tarDir hexdigest
  resume := Handler.resume hexdigest

/-- What is left of the phase that a thread is in. -/
def Pc.weight : Pc → Nat
  | .nameLen r | .name r | .sizeLen r | .digestLen r | .digest r => r.left.toNat
  | .content msgLen r => 2 * (msgLen.toNat + r.left.toNat)
  | .writing msgLen _ => 2 * msgLen.toNat + 1
  | _ => 0

/-- Receiving a chunk and writing it are one phase. -/
def Pc.phase : Pc → Nat
  | .writing _ _ => 9
  | pc => pc.rank

def Pc.measure (pc : Pc) : ℕ ×ₗ ℕ := toLex (pc.phase, pc.weight)

theorem Pc.phase_le_rank (pc : Pc) : pc.phase ≤ pc.rank := by
  cases pc <;> simp [Pc.phase]

/-- A later phase is nearer to the end. -/
theorem Pc.measure_lt_of_rank {p q : Pc} (h : p.rank < q.phase) : p.measure < q.measure :=
  Prod.Lex.toLex_lt_toLex.mpr (.inl (p.phase_le_rank.trans_lt h))

section Program

variable {recvDir tarDir : Bytes} {hexdigest : Bytes → Bytes} {h : Handler}

theorem Handler.gotName_rank (h : Handler) (msg : Bytes) : (h.gotName msg).pc.rank ≤ 12 := by
  unfold Handler.gotName
  split
  · exact Nat.le_refl 12
  · exact h.finish_rank.trans (by decide)

theorem Handler.measure_recv {n : Int} {tmp : Bytes}
    (ho : h.op recvDir tarDir hexdigest = some (.recv n)) (hpos : 0 < n) (hne : tmp ≠ []) :
    (h.resume hexdigest (.bytes tmp)).pc.measure < h.pc.measure := by
  have hdigest : ∀ msg, (h.gotDigest hexdigest msg).pc.rank ≤ 5 := h.gotDigest_rank hexdigest
  cases hpc : h.pc with
  | nameLen r =>
    obtain rfl : r.left = n := by simpa [Handler.op, hpc] using ho
    simp only [Handler.resume, hpc]
    refine RecvMsg.loop_add_of (fun h : Handler => h.pc.measure < (Pc.nameLen r).measure) hpos hne
      (fun r' hr => Prod.Lex.toLex_lt_toLex.mpr (.inr ⟨rfl, hr⟩)) fun msg => ?_
    have hrank : (h.gotNameLen msg).pc.rank ≤ 13 :=
      RecvMsg.loop_of (fun h : Handler => h.pc.rank ≤ 13)
        (fun msg => (h.gotName_rank msg).trans (by decide)) (by simp)
    exact Pc.measure_lt_of_rank (Nat.lt_succ_of_le hrank)
  | name r =>
    obtain rfl : r.left = n := by simpa [Handler.op, hpc] using ho
    simp only [Handler.resume, hpc]
    refine RecvMsg.loop_add_of (fun h : Handler => h.pc.measure < (Pc.name r).measure) hpos hne
      (fun r' hr => Prod.Lex.toLex_lt_toLex.mpr (.inr ⟨rfl, hr⟩)) fun msg => ?_
    exact Pc.measure_lt_of_rank (Nat.lt_succ_of_le (h.gotName_rank msg))
  | sizeLen r =>
    obtain rfl : r.left = n := by simpa [Handler.op, hpc] using ho
    simp only [Handler.resume, hpc]
    refine RecvMsg.loop_add_of (fun h : Handler => h.pc.measure < (Pc.sizeLen r).measure) hpos hne
      (fun r' hr => Prod.Lex.toLex_lt_toLex.mpr (.inr ⟨rfl, hr⟩)) fun msg => ?_
    exact Pc.measure_lt_of_rank (Nat.lt_of_le_of_lt (h.nextChunk_rank _) (by simp [Pc.phase]))
  | content msgLen r =>
    obtain rfl : r.left = n := by simpa [Handler.op, hpc] using ho
    simp only [Handler.resume, hpc]
    refine RecvMsg.loop_add_of (fun h : Handler => h.pc.measure < (Pc.content msgLen r).measure)
      hpos hne (fun r' hr => Prod.Lex.toLex_lt_toLex.mpr (.inr ⟨rfl, ?_⟩)) fun msg =>
      Prod.Lex.toLex_lt_toLex.mpr (.inr ⟨rfl, ?_⟩)
    · simp only [Pc.weight]
      omega
    · simp only [Pc.weight]
      omega
  | digestLen r =>
    obtain rfl : r.left = n := by simpa [Handler.op, hpc] using ho
    simp only [Handler.resume, hpc]
    refine RecvMsg.loop_add_of (fun h : Handler => h.pc.measure < (Pc.digestLen r).measure) hpos hne
      (fun r' hr => Prod.Lex.toLex_lt_toLex.mpr (.inr ⟨rfl, hr⟩)) fun msg => ?_
    have hrank : (h.gotDigestLen hexdigest msg).pc.rank ≤ 6 :=
      RecvMsg.loop_of (fun h : Handler => h.pc.rank ≤ 6)
        (fun msg => (hdigest msg).trans (by decide)) (by simp)
    exact Pc.measure_lt_of_rank (Nat.lt_succ_of_le hrank)
  | digest r =>
    obtain rfl : r.left = n := by simpa [Handler.op, hpc] using ho
    simp only [Handler.resume, hpc]
    refine RecvMsg.loop_add_of (fun h : Handler => h.pc.measure < (Pc.digest r).measure) hpos hne
      (fun r' hr => Prod.Lex.toLex_lt_toLex.mpr (.inr ⟨rfl, hr⟩)) fun msg => ?_
    exact Pc.measure_lt_of_rank (Nat.lt_succ_of_le (hdigest msg))
  | _ => simp [Handler.op, hpc] at ho

theorem Handler.measure_raised {o : Op} (ho : h.op recvDir tarDir hexdigest = some o) :
    (h.resume hexdigest .raised).pc.measure < h.pc.measure := by
  cases hpc : h.pc with
  | done => simp [Handler.op, hpc] at ho
  | closing | closingSocket =>
    simp only [Handler.resume, hpc]
    exact Pc.measure_lt_of_rank (by simp [Pc.phase])
  | _ =>
    simp only [Handler.resume, hpc]
    exact Pc.measure_lt_of_rank (Nat.lt_of_le_of_lt h.finish_rank (by simp [Pc.phase]))

theorem Handler.measure_done {o : Op} (ho : h.op recvDir tarDir hexdigest = some o)
    (hnr : ∀ n, o ≠ .recv n) : (h.resume hexdigest .done).pc.measure < h.pc.measure := by
  have hlimit : chunkLimit = 4096 := rfl
  cases hpc : h.pc with
  | writing msgLen chunk =>
    simp only [Handler.resume, hpc, Handler.nextChunk]
    split_ifs
    · refine Prod.Lex.toLex_lt_toLex.mpr (.inr ⟨rfl, ?_⟩)
      simp only [Pc.weight]
      omega
    · refine Prod.Lex.toLex_lt_toLex.mpr (.inr ⟨rfl, ?_⟩)
      simp only [Pc.weight]
      omega
    · exact Pc.measure_lt_of_rank (by simp [Pc.phase])
  | _ =>
    have hrank := Handler.resume_done_rank ho hnr
    rw [hpc] at hrank
    exact Pc.measure_lt_of_rank hrank

/-- Every result but the empty string brings the thread nearer to its end. -/
theorem Handler.measure_lt {o : Op} {res : Res} (ho : h.op recvDir tarDir hexdigest = some o)
    (hfit : Fits o res) (hne : ∀ n, o = .recv n → res ≠ .bytes []) :
    (h.resume hexdigest res).pc.measure < h.pc.measure := by
  cases res with
  | raised => exact measure_raised ho
  | done =>
    refine measure_done ho ?_
    rintro n rfl
    exact hfit
  | bytes tmp =>
    cases o with
    | recv n => exact measure_recv ho hfit.1 fun htmp => hne n rfl (by rw [htmp])
    | read n => cases hpc : h.pc <;> simp [Handler.op, hpc] at ho
    | _ => exact hfit.elim
  | size n =>
    cases o with
    | getsize path => cases hpc : h.pc <;> simp [Handler.op, hpc] at ho
    | _ => exact hfit.elim

/-- The empty string leaves the thread where it is. -/
theorem Handler.resume_nil {n : Int} (ho : h.op recvDir tarDir hexdigest = some (.recv n))
    (hpos : 0 < n) : h.resume hexdigest (.bytes []) = h := by
  have hloop {pc : RecvMsg → Pc} {k : Bytes → Handler} {r : RecvMsg} (hpc : h.pc = pc r)
      (hleft : r.left = n) : h.recvMsg pc k (r.add []) = h := by
    rw [Handler.recvMsg, RecvMsg.loop_add_nil (hleft ▸ hpos), ← hpc]
  cases hpc : h.pc with
  | nameLen r | name r | sizeLen r | content msgLen r | digestLen r | digest r =>
    simp only [Handler.resume, hpc]
    exact hloop hpc (by simpa [Handler.op, hpc] using ho)
  | _ => simp [Handler.op, hpc] at ho

/-- A thread that is done stays as it is. -/
theorem Handler.resume_eq_self {res : Res} (ho : h.op recvDir tarDir hexdigest = none) :
    h.resume hexdigest res = h := by
  cases hpc : h.pc with
  | done => simp [Handler.resume, hpc]
  | _ => simp [Handler.op, hpc] at ho

end Program

/-- The thread ends unless the connection is closed while it waits for bytes. -/
theorem ends_iff {recvDir tarDir : Bytes} {hexdigest : Bytes → Bytes}
    (b : Behaviour (machine recvDir tarDir hexdigest)) :
    (machine recvDir tarDir hexdigest).Ends b.res ↔ b.NeverCloses := by
  constructor
  · refine Behaviour.neverCloses_of_ends (fun _ _ => Handler.resume_nil) fun h res ho => ?_
    have hstays : (machine recvDir tarDir hexdigest).resume h res = h := Handler.resume_eq_self ho
    rwa [hstays]
  · intro hopen
    refine Machine.ends_of_lt (fun h => h.pc.measure) fun i o ho => ?_
    refine Handler.measure_lt ho (b.fits i o ho) ?_
    rintro n rfl
    exact hopen i n ho

end Server

/-! ## The client -/

namespace Client

def machine (tarDir tarName : Bytes) (hexdigest : Bytes → Bytes) : Machine Upload Op Res where
  start := {}
  op := Upload.op tarDir tarName hexdigest
  resume := Upload.resume tarName hexdigest

def Pc.weight : Pc → Nat
  | .recvLen r | .recvDigest r => r.left.toNat
  | .reading tarFs => 2 * tarFs.toNat + 1
  | .sending tarFs chunk => 2 * (tarFs - chunk.length).toNat + if chunk = [] then 1 else 2
  | _ => 0

/-- Reading a chunk and sending it are one phase. -/
def Pc.phase : Pc → Nat
  | .sending _ _ => 9
  | pc => pc.rank

def Pc.measure (pc : Pc) : ℕ ×ₗ ℕ := toLex (pc.phase, pc.weight)

theorem Pc.measure_le {p q : Pc}
    (h : p.phase < q.phase ∨ p.phase = q.phase ∧ p.weight ≤ q.weight) :
    p.measure ≤ q.measure :=
  Prod.Lex.toLex_le_toLex.mpr h

theorem Pc.phase_of_rank {pc : Pc} (h : pc.rank ≠ 8) : pc.phase = pc.rank := by
  cases pc <;> simp_all [Pc.phase]

/-- Before the loop over the content and after it, a later phase is nearer to the end. -/
theorem Pc.measure_lt_of_rank {p q : Pc} (h : p.rank < q.rank) (hp : p.rank ≠ 8) :
    p.measure < q.measure := by
  refine Prod.Lex.toLex_lt_toLex.mpr (.inl ?_)
  rw [Pc.phase_of_rank hp]
  cases q <;> simp_all [Pc.phase]
  omega

section Program

variable {tarDir tarName : Bytes} {hexdigest : Bytes → Bytes} {u : Upload}

theorem Upload.packed_rank_ne (u : Upload) (n : Nat) {pc : Bytes → Pc}
    (hpc : ∀ hdr, (pc hdr).rank ≠ 8) : (u.packed n pc).pc.rank ≠ 8 := by
  have hfinish := u.finish_rank
  unfold Upload.packed
  split
  · exact hpc _
  · omega

theorem Upload.nextChunk_rank_ne (u : Upload) (hexdigest : Bytes → Bytes) (tarFs : Int) :
    (u.nextChunk hexdigest tarFs).pc.rank ≠ 8 := by
  unfold Upload.nextChunk
  split
  · simp
  · exact u.packed_rank_ne _ (by simp)

/-- Only a `read` leads to the sending of a chunk. -/
theorem Upload.resume_done_rank_ne (hns : ∀ tarFs chunk, u.pc ≠ .sending tarFs chunk)
    (tarName : Bytes) (hexdigest : Bytes → Bytes) :
    (u.resume tarName hexdigest .done).pc.rank ≠ 8 := by
  have hfinish := u.finish_rank
  cases hpc : u.pc with
  | sending tarFs chunk => exact absurd hpc (hns tarFs chunk)
  | connecting =>
    simp only [Upload.resume, hpc, Upload.connected]
    split
    · exact u.packed_rank_ne _ (by simp)
    · omega
  | opening tarFs =>
    simp only [Upload.resume, hpc]
    exact Upload.packed_rank_ne _ _ (by simp)
  | sendSize tarFs hdr =>
    simp only [Upload.resume, hpc]
    exact u.nextChunk_rank_ne _ _
  | sendNameLen | sendName | sendDigestLen | sendDigest | closing | closingSocket | done =>
    simp [Upload.resume, hpc]
  | _ =>
    simp only [Upload.resume, hpc]
    omega

/-- The loop over the content goes on with what is left, or it is over. -/
theorem Upload.nextChunk_measure (u : Upload) (hexdigest : Bytes → Bytes) (tarFs : Int) :
    (u.nextChunk hexdigest tarFs).pc.measure ≤ toLex (9, 2 * tarFs.toNat + 1) := by
  unfold Upload.nextChunk
  split
  · exact le_rfl
  · refine le_of_lt (Prod.Lex.toLex_lt_toLex.mpr (.inl ?_))
    have hrank : (u.packed (hexdigest u.localMd5).length .sendDigestLen).pc.rank ≤ 7 :=
      u.packed_rank _ (by simp) (by decide)
    rw [Pc.phase_of_rank (by omega)]
    omega

theorem Upload.measure_recv {n : Int} {tmp : Bytes}
    (ho : u.op tarDir tarName hexdigest = some (.recv n)) (hpos : 0 < n) (hne : tmp ≠ []) :
    (u.resume tarName hexdigest (.bytes tmp)).pc.measure < u.pc.measure := by
  have hdigest : ∀ msg, (u.gotDigest hexdigest msg).pc.rank ≤ 3 := u.gotDigest_rank hexdigest
  cases hpc : u.pc with
  | recvLen r =>
    obtain rfl : r.left = n := by simpa [Upload.op, hpc] using ho
    simp only [Upload.resume, hpc]
    refine RecvMsg.loop_add_of (fun u : Upload => u.pc.measure < (Pc.recvLen r).measure) hpos hne
      (fun r' hr => Prod.Lex.toLex_lt_toLex.mpr (.inr ⟨rfl, hr⟩)) fun msg => ?_
    have hrank : (u.gotLen hexdigest msg).pc.rank ≤ 4 :=
      RecvMsg.loop_of (fun u : Upload => u.pc.rank ≤ 4)
        (fun msg => (hdigest msg).trans (by decide)) (by simp)
    exact Pc.measure_lt_of_rank (Nat.lt_succ_of_le hrank) (by omega)
  | recvDigest r =>
    obtain rfl : r.left = n := by simpa [Upload.op, hpc] using ho
    simp only [Upload.resume, hpc]
    refine RecvMsg.loop_add_of (fun u : Upload => u.pc.measure < (Pc.recvDigest r).measure) hpos hne
      (fun r' hr => Prod.Lex.toLex_lt_toLex.mpr (.inr ⟨rfl, hr⟩)) fun msg => ?_
    have hrank := hdigest msg
    exact Pc.measure_lt_of_rank (Nat.lt_succ_of_le hrank) (by omega)
  | _ => simp [Upload.op, hpc] at ho

theorem Upload.measure_raised {o : Op} (ho : u.op tarDir tarName hexdigest = some o) :
    (u.resume tarName hexdigest .raised).pc.measure < u.pc.measure := by
  have hfinish := u.finish_rank
  cases hpc : u.pc with
  | done => simp [Upload.op, hpc] at ho
  | closing | closingSocket =>
    simp only [Upload.resume, hpc]
    exact Pc.measure_lt_of_rank (by simp) (by simp)
  | _ =>
    simp only [Upload.resume, hpc]
    exact Pc.measure_lt_of_rank (Nat.lt_of_le_of_lt hfinish (by simp)) (by omega)

/-- A read that returns nothing, and the sending of nothing. -/
def Stalls (o : Op) (res : Res) : Prop :=
  (∃ n, o = .read n ∧ res = .bytes []) ∨ o = .send [] ∧ res = .done

/-- The chunk that was read is not sent yet. -/
theorem Upload.measure_read {n : Nat} {tmp : Bytes}
    (ho : u.op tarDir tarName hexdigest = some (.read n)) (hlen : tmp.length ≤ n) :
    Stalls (.read n) (.bytes tmp) ∧
        (u.resume tarName hexdigest (.bytes tmp)).pc.measure ≤ u.pc.measure ∨
      (u.resume tarName hexdigest (.bytes tmp)).pc.measure < u.pc.measure := by
  have hlimit : chunkLimit = 4096 := rfl
  cases hpc : u.pc with
  | reading tarFs =>
    obtain rfl : chunkSize tarFs = n := by simpa [Upload.op, hpc] using ho
    simp only [Upload.resume, hpc]
    rcases eq_or_ne tmp [] with rfl | hne
    · refine .inl ⟨.inl ⟨_, rfl, rfl⟩, Pc.measure_le (.inr ⟨rfl, ?_⟩)⟩
      simp [Pc.weight]
    · refine .inr (Prod.Lex.toLex_lt_toLex.mpr (.inr ⟨rfl, ?_⟩))
      have hpos := List.length_pos_iff.mpr hne
      simp only [chunkSize] at hlen
      simp only [Pc.weight, if_neg hne]
      split_ifs at hlen <;> omega
  | _ => simp [Upload.op, hpc] at ho

theorem Upload.measure_sending {tarFs : Int} {chunk : Bytes} (hpc : u.pc = .sending tarFs chunk) :
    Stalls (.send chunk) .done ∧
        (u.resume tarName hexdigest .done).pc.measure ≤ u.pc.measure ∨
      (u.resume tarName hexdigest .done).pc.measure < u.pc.measure := by
  have hnext := Upload.nextChunk_measure { u with localMd5 := u.localMd5 ++ chunk } hexdigest
    (tarFs - chunk.length)
  simp only [Upload.resume, hpc]
  rcases eq_or_ne chunk [] with rfl | hne
  · exact .inl ⟨.inr ⟨rfl, rfl⟩, hnext⟩
  · refine .inr (hnext.trans_lt (Prod.Lex.toLex_lt_toLex.mpr (.inr ⟨rfl, ?_⟩)))
    simp [Pc.weight, hne]

/-- Every result but an empty one brings the upload nearer to its end. -/
theorem Upload.measure_lt {o : Op} {res : Res} (ho : u.op tarDir tarName hexdigest = some o)
    (hfit : Fits o res) (hne : ∀ n, o = .recv n → res ≠ .bytes []) :
    Stalls o res ∧ (u.resume tarName hexdigest res).pc.measure ≤ u.pc.measure ∨
      (u.resume tarName hexdigest res).pc.measure < u.pc.measure := by
  cases res with
  | raised => exact .inr (measure_raised ho)
  | bytes tmp =>
    cases o with
    | recv n => exact .inr (measure_recv ho hfit.1 fun htmp => hne n rfl (by rw [htmp]))
    | read n => exact measure_read ho hfit
    | _ => exact hfit.elim
  | size n =>
    cases o with
    | getsize path =>
      cases hpc : u.pc with
      | stat =>
        simp only [Upload.resume, hpc]
        exact .inr (Pc.measure_lt_of_rank (by simp) (by simp))
      | _ => simp [Upload.op, hpc] at ho
    | _ => exact hfit.elim
  | done =>
    by_cases hsending : ∃ tarFs chunk, u.pc = .sending tarFs chunk
    · obtain ⟨tarFs, chunk, hpc⟩ := hsending
      obtain rfl : .send chunk = o := by simpa [Upload.op, hpc] using ho
      exact measure_sending hpc
    · have hns : ∀ tarFs chunk, u.pc ≠ .sending tarFs chunk := fun tarFs chunk hpc =>
        hsending ⟨tarFs, chunk, hpc⟩
      have hrank := Upload.resume_done_rank_lt ho (by rintro n rfl; exact hfit)
        (by rintro n rfl; exact hfit) (by rintro n rfl; exact hfit) hns
      exact .inr (Pc.measure_lt_of_rank hrank (resume_done_rank_ne hns tarName hexdigest))

theorem Upload.resume_nil {n : Int} (ho : u.op tarDir tarName hexdigest = some (.recv n))
    (hpos : 0 < n) : u.resume tarName hexdigest (.bytes []) = u := by
  have hloop {pc : RecvMsg → Pc} {k : Bytes → Upload} {r : RecvMsg} (hpc : u.pc = pc r)
      (hleft : r.left = n) : u.recvMsg pc k (r.add []) = u := by
    rw [Upload.recvMsg, RecvMsg.loop_add_nil (hleft ▸ hpos), ← hpc]
  cases hpc : u.pc with
  | recvLen r | recvDigest r =>
    simp only [Upload.resume, hpc]
    exact hloop hpc (by simpa [Upload.op, hpc] using ho)
  | _ => simp [Upload.op, hpc] at ho

theorem Upload.op_resume_done {res : Res} (ho : u.op tarDir tarName hexdigest = none) :
    (u.resume tarName hexdigest res).op tarDir tarName hexdigest = none := by
  cases hpc : u.pc with
  | done => simp [Upload.resume, Upload.op, hpc]
  | _ => simp [Upload.op, hpc] at ho

end Program

/-- The file stays shorter than the size that was announced: from some time on it has nothing to
read whenever the program reads, and nothing is sent. -/
def StaysShort {tarDir tarName : Bytes} {hexdigest : Bytes → Bytes}
    (b : Behaviour (machine tarDir tarName hexdigest)) : Prop :=
  ∃ i, ∀ j ≥ i, ∃ o,
    (machine tarDir tarName hexdigest).op ((machine tarDir tarName hexdigest).state b.res j) =
      some o ∧ Stalls o (b.res j)

/-- The upload ends unless the connection is closed while it waits for bytes, or the file stays
shorter than it was. -/
theorem ends_iff {tarDir tarName : Bytes} {hexdigest : Bytes → Bytes}
    (b : Behaviour (machine tarDir tarName hexdigest)) :
    (machine tarDir tarName hexdigest).Ends b.res ↔ b.NeverCloses ∧ ¬StaysShort b := by
  have hdone : ∀ u res, (machine tarDir tarName hexdigest).op u = none →
      (machine tarDir tarName hexdigest).op ((machine tarDir tarName hexdigest).resume u res) =
        none := fun _ _ => Upload.op_resume_done
  constructor
  · intro hends
    refine ⟨Behaviour.neverCloses_of_ends (fun _ _ => Upload.resume_nil) hdone hends, ?_⟩
    rintro ⟨i, hi⟩
    obtain ⟨k, hk⟩ := hends
    obtain ⟨o, ho, -⟩ := hi (k + i) (by omega)
    have hnone := Machine.op_eq_none_of_le hdone hk (show k ≤ k + i by omega)
    cases ho.symm.trans hnone
  · rintro ⟨hopen, hstalls⟩
    refine (Machine.ends_or_idles (fun u => u.pc.measure) Stalls fun i o ho => ?_).resolve_right
      hstalls
    refine Upload.measure_lt ho (b.fits i o ho) ?_
    rintro n rfl
    exact hopen i n ho

end Client

/-! ## Both programs -/

/-- When the thread of the server and the upload of the client end. -/
theorem uploader_ends_iff (recvDir tarDir : Bytes) (hexdigest : Bytes → Bytes)
    (server : Behaviour (Server.machine recvDir tarDir hexdigest)) (tarDir' tarName : Bytes)
    (client : Behaviour (Client.machine tarDir' tarName hexdigest)) :
    ((Server.machine recvDir tarDir hexdigest).Ends server.res ↔ server.NeverCloses) ∧
    ((Client.machine tarDir' tarName hexdigest).Ends client.res ↔
      client.NeverCloses ∧ ¬Client.StaysShort client) :=
  ⟨Server.ends_iff server, Client.ends_iff client⟩

/-- The peer of the server closes the connection after two bytes. -/
def closedEarly : ℕ → Res
  | 0 => .bytes [0, 0]
  | _ + 1 => .bytes []

def demoServer : Machine Server.Handler Op Res := Server.machine (ascii "r") (ascii "t") id

theorem demoServer_state (i : ℕ) : demoServer.state closedEarly (i + 1) =
    { pc := .nameLen { left := 2, msg := [0, 0] } } := by
  induction i with
  | zero => rfl
  | succ i ih =>
    rw [Machine.state, ih]
    rfl

/-- The file has one byte when the client asks for its size, and none when the client reads. -/
def shrunk : ℕ → Res
  | 3 => .size 1
  | 0 | 1 | 2 | 4 | 5 => .done
  | n + 6 => if n % 2 = 0 then .bytes [] else .done

def demoClient : Machine Client.Upload Op Res := Client.machine (ascii "c") (ascii "x") id

theorem demoClient_state (n : ℕ) : demoClient.state shrunk (n + 6) =
    { pc := if n % 2 = 0 then .reading 1 else .sending 1 [], tarFile := true } := by
  induction n with
  | zero => rfl
  | succ n ih =>
    rw [Nat.succ_add, Machine.state, ih, shrunk]
    rcases Nat.mod_two_eq_zero_or_one n with hn | hn
    · have hsucc : (n + 1) % 2 = 1 := by omega
      simp only [hn, hsucc]
      rfl
    · have hsucc : (n + 1) % 2 = 0 := by omega
      simp only [hn, hsucc]
      rfl

/-- The thread of the server never ends after the peer has closed the connection in the middle of
a header, and the upload of the client never ends after the file has shrunk. -/
theorem loops_for_ever :
    (∃ b : Behaviour demoServer, b.res = closedEarly ∧ ¬demoServer.Ends b.res) ∧
    ∃ b : Behaviour demoClient, b.res = shrunk ∧ ¬demoClient.Ends b.res := by
  constructor
  · refine ⟨⟨closedEarly, fun i o ho => ?_, fun i j n m hij ho hres ho' => ?_⟩, rfl, ?_⟩
    · cases i with
      | zero =>
        obtain rfl : .recv 4 = o := Option.some.inj ho
        exact ⟨by decide, by decide⟩
      | succ i =>
        rw [demoServer_state] at ho
        obtain rfl : .recv 2 = o := Option.some.inj ho
        exact ⟨by decide, by decide⟩
    · cases j with
      | zero =>
        obtain rfl : i = 0 := by omega
        exact hres
      | succ j => rfl
    · rintro ⟨i, hi⟩
      cases i with
      | zero => cases hi
      | succ i =>
        rw [demoServer_state] at hi
        cases hi
  · have hop : ∀ i, ∃ o, demoClient.op (demoClient.state shrunk i) = some o ∧
        Fits o (shrunk i) ∧ ∀ n, o ≠ .recv n := by
      intro i
      match i with
      | 0 => exact ⟨.connect, rfl, trivial, by simp⟩
      | 1 => exact ⟨.send (be32 1), rfl, trivial, by simp⟩
      | 2 => exact ⟨.send (ascii "x"), rfl, trivial, by simp⟩
      | 3 => exact ⟨.getsize (ascii "c/x"), rfl, trivial, by simp⟩
      | 4 => exact ⟨.openRead (ascii "c/x"), rfl, trivial, by simp⟩
      | 5 => exact ⟨.send (be32 1), rfl, trivial, by simp⟩
      | n + 6 =>
        rw [demoClient_state, shrunk]
        rcases Nat.mod_two_eq_zero_or_one n with hn | hn
        · simp only [hn, if_true]
          exact ⟨.read 1, rfl, Nat.zero_le 1, by simp⟩
        · simp only [hn]
          exact ⟨.send [], rfl, trivial, by simp⟩
    refine ⟨⟨shrunk, fun i o ho => ?_, fun i j n m hij ho hres ho' => ?_⟩, rfl, ?_⟩
    · obtain ⟨o', ho', hfit, -⟩ := hop i
      obtain rfl := Option.some.inj (ho.symm.trans ho')
      exact hfit
    · obtain ⟨o', ho', -, hne⟩ := hop i
      exact absurd (Option.some.inj (ho'.symm.trans ho)) (hne n)
    · rintro ⟨i, hi⟩
      obtain ⟨o, ho, -⟩ := hop i
      cases hi.symm.trans ho

end CarFi.Uploader
