import CarFi.Uploader.Delivery

/-!
# The progress of an upload without failures

When no call raises and the connection is not cut, both programs go through the states of
`ServerAt` and `ClientAt`, and each call brings one of them nearer to its end. Until both are done,
one of them can go on or waits for the shell.
-/
namespace CarFi.Uploader

open Library Server

variable {x : Transfer}

/-- No call raises and the connection is not cut. -/
def SessionEvent.Smooth : SessionEvent → Prop
  | .client _ res | .server _ res => res ≠ .raised
  | .cutUp _ | .cutDown _ => False

def SmoothStep (x : Transfer) : Session → SessionEvent → Session → Prop :=
  Guarded (fun _ e => e.Smooth) (SessionStep x)

/-! ## The calls that are left -/

/-- The phases of a thread that are left, counted backwards. -/
@[simp] def Server.Pc.rank : Server.Pc → Nat
  | .nameLen _ => 14
  | .name _ => 13
  | .opening => 12
  | .sizeLen _ => 11
  | .writing _ _ => 10
  | .content _ _ => 9
  | .flushing => 8
  | .digestLen _ => 7
  | .digest _ => 6
  | .moving => 5
  | .sendLen _ => 4
  | .sendDigest => 3
  | .closing => 2
  | .closingSocket => 1
  | .done => 0

@[simp] def Client.Pc.rank : Client.Pc → Nat
  | .connecting => 15
  | .sendNameLen _ => 14
  | .sendName => 13
  | .stat => 12
  | .opening _ => 11
  | .sendSize _ _ => 10
  | .reading _ => 9
  | .sending _ _ => 8
  | .sendDigestLen _ => 7
  | .sendDigest => 6
  | .recvLen _ => 5
  | .recvDigest _ => 4
  | .removing => 3
  | .closing => 2
  | .closingSocket => 1
  | .done => 0

theorem Server.Handler.finish_rank (h : Handler) : h.finish.pc.rank ≤ 2 := by
  unfold Handler.finish
  cases h.tarFile <;> simp

theorem Server.Handler.gotDigest_rank (h : Handler) (hexdigest : Bytes → Bytes) (msg : Bytes) :
    (h.gotDigest hexdigest msg).pc.rank ≤ 5 := by
  have hfinish : ∀ g : Handler, g.finish.pc.rank ≤ 5 := fun g => g.finish_rank.trans (by decide)
  unfold Handler.gotDigest Handler.reply
  split
  · simp only
    split
    · exact Nat.le_refl 5
    · split
      · exact (by decide : 4 ≤ 5)
      · exact hfinish _
  · exact hfinish _

theorem Server.Handler.nextChunk_rank (h : Handler) (msgLen : Int) :
    (h.nextChunk msgLen).pc.rank ≤ 9 := by
  unfold Handler.nextChunk
  split
  · exact Nat.le_refl 9
  · exact (by decide : 8 ≤ 9)

/-- A `recv` adds at most the phase of writing what has come. -/
theorem Server.Handler.resume_bytes_rank {h : Handler} {recvDir tarDir : Bytes}
    {hexdigest : Bytes → Bytes} {n : Int} (ho : h.op recvDir tarDir hexdigest = some (.recv n))
    (tmp : Bytes) : (h.resume hexdigest (.bytes tmp)).pc.rank ≤ h.pc.rank + 1 := by
  have hname : ∀ msg, (h.gotName msg).pc.rank ≤ 12 := by
    intro msg
    unfold Handler.gotName
    split
    · exact Nat.le_refl 12
    · exact (h.finish_rank).trans (by decide)
  have hdigest (msg : Bytes) : (h.gotDigest hexdigest msg).pc.rank ≤ 5 := h.gotDigest_rank _ msg
  cases hpc : h.pc with
  | nameLen r =>
    simp only [Handler.resume, hpc]
    refine RecvMsg.loop_of (fun h : Handler => h.pc.rank ≤ 15) (fun msg => ?_) (by simp)
    exact RecvMsg.loop_of (fun h : Handler => h.pc.rank ≤ 15)
      (fun msg => (hname msg).trans (by decide)) (by simp)
  | name r =>
    simp only [Handler.resume, hpc]
    exact RecvMsg.loop_of (fun h : Handler => h.pc.rank ≤ 14)
      (fun msg => (hname msg).trans (by decide)) (by simp)
  | sizeLen r =>
    simp only [Handler.resume, hpc]
    exact RecvMsg.loop_of (fun h : Handler => h.pc.rank ≤ 12)
      (fun msg => (h.nextChunk_rank _).trans (by decide)) (by simp)
  | content msgLen r =>
    simp only [Handler.resume, hpc]
    exact RecvMsg.loop_of (fun h : Handler => h.pc.rank ≤ 10) (by simp) (by simp)
  | digestLen r =>
    simp only [Handler.resume, hpc]
    refine RecvMsg.loop_of (fun h : Handler => h.pc.rank ≤ 8) (fun msg => ?_) (by simp)
    exact RecvMsg.loop_of (fun h : Handler => h.pc.rank ≤ 8)
      (fun msg => (hdigest msg).trans (by decide)) (by simp)
  | digest r =>
    simp only [Handler.resume, hpc]
    exact RecvMsg.loop_of (fun h : Handler => h.pc.rank ≤ 7)
      (fun msg => (hdigest msg).trans (by decide)) (by simp)
  | _ => simp [Handler.op, hpc] at ho

/-- Every other call ends a phase. -/
theorem Server.Handler.resume_done_rank {h : Handler} {recvDir tarDir : Bytes}
    {hexdigest : Bytes → Bytes} {o : Op} (ho : h.op recvDir tarDir hexdigest = some o)
    (hnr : ∀ n, o ≠ .recv n) : (h.resume hexdigest .done).pc.rank < h.pc.rank := by
  cases hpc : h.pc with
  | opening => simp [Handler.resume, hpc]
  | writing msgLen chunk =>
    simp only [Handler.resume, hpc]
    exact Nat.lt_of_le_of_lt (Handler.nextChunk_rank _ _) (by simp)
  | flushing => simp [Handler.resume, hpc]
  | moving =>
    simp only [Handler.resume, hpc, Handler.reply]
    split
    · simp
    · exact Nat.lt_of_le_of_lt h.finish_rank (by simp)
  | sendLen hdr => simp [Handler.resume, hpc]
  | sendDigest =>
    simp only [Handler.resume, hpc]
    exact Nat.lt_of_le_of_lt h.finish_rank (by simp)
  | closing => simp [Handler.resume, hpc]
  | closingSocket => simp [Handler.resume, hpc]
  | done => simp [Handler.op, hpc] at ho
  | _ =>
    simp only [Handler.op, hpc] at ho
    exact absurd (Option.some.inj ho).symm (hnr _)

/-- A call of the server that receives what it waits for brings it nearer to its end. -/
theorem ThreadStep.rank_lt {site : Site} {fs fs' : Fs} {t t' : Thread} {o : Op} {res : Res}
    (h : ThreadStep site fs t o res fs' t') (hres : res ≠ .raised)
    (hrecv : ∀ n, o = .recv n → received o res ≠ []) :
    t'.handler.pc.rank < t.handler.pc.rank + 2 * (received o res).length := by
  cases h with
  | recv ho hpos hlen =>
    have hrank := Handler.resume_bytes_rank ho
    have hlen := List.length_pos_iff.mpr (hrecv _ rfl)
    exact Nat.lt_of_le_of_lt (hrank _) (by omega)
  | file ho hbs hw k hdone hall =>
    obtain rfl := hdone.resolve_right hres
    have hnr : ∀ n, o ≠ .recv n := by
      rintro n rfl
      cases hbs
    exact Nat.lt_add_right _ (Handler.resume_done_rank ho hnr)
  | raise ho hbs hsys => exact absurd rfl hres
  | openWrite ho hloc => exact Handler.resume_done_rank ho (by simp)
  | system ho hrun => exact Handler.resume_done_rank ho (by simp)
  | send ho => exact Handler.resume_done_rank ho (by simp)
  | closeSocket ho => exact Handler.resume_done_rank ho (by simp)

theorem Client.Upload.finish_rank (u : Client.Upload) : u.finish.pc.rank ≤ 2 := by
  unfold Client.Upload.finish
  cases u.tarFile <;> simp

theorem Client.Upload.packed_rank (u : Client.Upload) (n : Nat) {pc : Bytes → Client.Pc} {k : Nat}
    (hpc : ∀ hdr, (pc hdr).rank ≤ k) (hk : 2 ≤ k) : (u.packed n pc).pc.rank ≤ k := by
  unfold Client.Upload.packed
  split
  · exact hpc _
  · exact u.finish_rank.trans hk

theorem Client.Upload.nextChunk_rank (u : Client.Upload) (hexdigest : Bytes → Bytes)
    (tarFs : Int) : (u.nextChunk hexdigest tarFs).pc.rank ≤ 9 := by
  unfold Client.Upload.nextChunk
  split
  · exact Nat.le_refl 9
  · exact u.packed_rank _ (by simp) (by decide)

theorem Client.Upload.gotDigest_rank (u : Client.Upload) (hexdigest : Bytes → Bytes)
    (peerDigest : Bytes) : (u.gotDigest hexdigest peerDigest).pc.rank ≤ 3 := by
  unfold Client.Upload.gotDigest
  split
  · exact Nat.le_refl 3
  · exact u.finish_rank.trans (by decide)

theorem Client.Upload.resume_recv_rank {u : Client.Upload} {tarDir tarName : Bytes}
    {hexdigest : Bytes → Bytes} {n : Int} (ho : u.op tarDir tarName hexdigest = some (.recv n))
    (tmp : Bytes) : (u.resume tarName hexdigest (.bytes tmp)).pc.rank ≤ u.pc.rank := by
  have hgot : ∀ msg, (u.gotDigest hexdigest msg).pc.rank ≤ 4 := fun msg =>
    (u.gotDigest_rank hexdigest msg).trans (by decide)
  cases hpc : u.pc with
  | recvLen r =>
    simp only [Client.Upload.resume, hpc]
    refine RecvMsg.loop_of (fun u : Client.Upload => u.pc.rank ≤ 5) (fun msg => ?_) (by simp)
    exact RecvMsg.loop_of (fun u : Client.Upload => u.pc.rank ≤ 5)
      (fun msg => (hgot msg).trans (by decide)) (by simp)
  | recvDigest r =>
    simp only [Client.Upload.resume, hpc]
    exact RecvMsg.loop_of (fun u : Client.Upload => u.pc.rank ≤ 4) hgot (by simp)
  | _ => simp [Client.Upload.op, hpc] at ho

/-- A call on the socket other than `recv`, the open, the `rm` or the close ends a phase, unless it
sends a chunk. -/
theorem Client.Upload.resume_done_rank_lt {u : Client.Upload} {tarDir tarName : Bytes}
    {hexdigest : Bytes → Bytes} {o : Op} (ho : u.op tarDir tarName hexdigest = some o)
    (hnr : ∀ n, o ≠ .recv n) (hnread : ∀ n, o ≠ .read n)
    (hnstat : ∀ path, o ≠ .getsize path)
    (hns : ∀ tarFs chunk, u.pc ≠ .sending tarFs chunk) :
    (u.resume tarName hexdigest .done).pc.rank < u.pc.rank := by
  have hfinish := u.finish_rank
  cases hpc : u.pc with
  | connecting =>
    simp only [Client.Upload.resume, hpc, Client.Upload.connected]
    split
    · exact Nat.lt_succ_of_le (u.packed_rank _ (by simp) (by decide))
    · exact Nat.lt_of_le_of_lt hfinish (by simp)
  | opening tarFs =>
    simp only [Client.Upload.resume, hpc]
    exact Nat.lt_succ_of_le (Client.Upload.packed_rank _ _ (by simp) (by decide))
  | sendSize tarFs hdr =>
    simp only [Client.Upload.resume, hpc]
    exact Nat.lt_succ_of_le (u.nextChunk_rank _ _)
  | sending tarFs chunk => exact absurd hpc (hns tarFs chunk)
  | removing =>
    simp only [Client.Upload.resume, hpc]
    exact Nat.lt_of_le_of_lt hfinish (by simp)
  | stat =>
    simp only [Client.Upload.op, hpc] at ho
    exact absurd (Option.some.inj ho).symm (hnstat _)
  | reading tarFs =>
    simp only [Client.Upload.op, hpc] at ho
    exact absurd (Option.some.inj ho).symm (hnread _)
  | recvLen r =>
    simp only [Client.Upload.op, hpc] at ho
    exact absurd (Option.some.inj ho).symm (hnr _)
  | recvDigest r =>
    simp only [Client.Upload.op, hpc] at ho
    exact absurd (Option.some.inj ho).symm (hnr _)
  | done => simp [Client.Upload.op, hpc] at ho
  | _ => simp [Client.Upload.resume, hpc]

/-- A chunk that is sent counts with its bytes. -/
theorem Client.Upload.resume_done_rank {u : Client.Upload} {tarDir tarName : Bytes}
    {hexdigest : Bytes → Bytes} {o : Op} (ho : u.op tarDir tarName hexdigest = some o)
    (hnr : ∀ n, o ≠ .recv n) (hnread : ∀ n, o ≠ .read n)
    (hnstat : ∀ path, o ≠ .getsize path)
    (hchunk : ∀ tarFs chunk, u.pc = .sending tarFs chunk → chunk ≠ []) :
    (u.resume tarName hexdigest .done).pc.rank < u.pc.rank + 2 * (sent o .done).length := by
  by_cases hsending : ∃ tarFs chunk, u.pc = .sending tarFs chunk
  · obtain ⟨tarFs, chunk, hpc⟩ := hsending
    simp only [Client.Upload.op, hpc] at ho
    obtain rfl := Option.some.inj ho
    have hpos := List.length_pos_iff.mpr (hchunk tarFs chunk hpc)
    simp only [Client.Upload.resume, hpc]
    refine Nat.lt_of_le_of_lt (Client.Upload.nextChunk_rank _ _ _) ?_
    simp only [Client.Pc.rank, sent]
    omega
  · exact Nat.lt_add_right _ (resume_done_rank_lt ho hnr hnread hnstat fun tarFs chunk hpc =>
      hsending ⟨tarFs, chunk, hpc⟩)

/-- A call of the client that receives what it waits for, or sends a chunk that is not empty, brings
it nearer to its end. -/
theorem UploadStep.rank_lt {tb tb' : Option Bytes} {pos pos' : Nat} {u u' : Client.Upload}
    {o : Op} {res : Res} {inp inp' out out' : Chan}
    (h : Client.UploadStep x.client x.site.hexdigest tb pos u o res tb' pos' u')
    (hw : Wires inp out o res inp' out') (hres : res ≠ .raised)
    (hchunk : ∀ tarFs chunk, u.pc = .sending tarFs chunk → chunk ≠ [])
    (hrecv : ∀ n, o = .recv n → received o res ≠ []) :
    u'.pc.rank < u.pc.rank + 2 * (received o res).length + 2 * (sent o res).length := by
  have hdone : ∀ o, u.op x.client.tarDir x.client.tarName x.site.hexdigest = some o →
      (∀ n, o ≠ .recv n) → (∀ n, o ≠ .read n) → (∀ path, o ≠ .getsize path) →
      (u.resume x.client.tarName x.site.hexdigest .done).pc.rank <
        u.pc.rank + 2 * (received o .done).length + 2 * (sent o .done).length := by
    intro o ho hnr hnread hnstat
    have hrank := Client.Upload.resume_done_rank ho hnr hnread hnstat hchunk
    omega
  cases h with
  | socket ho hs hres' =>
    cases hw with
    | recv hr =>
      have hrank := Client.Upload.resume_recv_rank ho
      have hlen := List.length_pos_iff.mpr (hrecv _ rfl)
      exact Nat.lt_of_le_of_lt (hrank _) (by omega)
    | send => exact hdone _ ho (by simp) (by simp) (by simp)
    | connect =>
      obtain rfl := (hres' (.inl rfl)).resolve_right hres
      exact hdone _ ho (by simp) (by simp) (by simp)
    | closeSocket =>
      obtain rfl := (hres' (.inr rfl)).resolve_right hres
      exact hdone _ ho (by simp) (by simp) (by simp)
    | recvRaised => exact absurd rfl hres
    | sendRaised k => exact absurd rfl hres
    | other hs' => exact absurd (hs.symm.trans hs') (by decide)
  | getsize ho =>
    cases hpc : u.pc with
    | stat => simp [Client.Upload.resume, hpc, received, sent]
    | _ => simp [Client.Upload.op, hpc] at ho
  | read ho =>
    cases hpc : u.pc with
    | reading tarFs => simp [Client.Upload.resume, hpc, received, sent]
    | _ => simp [Client.Upload.op, hpc] at ho
  | openRead ho => exact hdone _ ho (by simp) (by simp) (by simp)
  | system ho hrun => exact hdone _ ho (by simp) (by simp) (by simp)
  | closeFile ho => exact hdone _ ho (by simp) (by simp) (by simp)
  | raise ho hs hsys => exact absurd rfl hres

/-! ## Where both ends are -/

/-- Both ends without failures: `pending` is what the server has not received and `unsent` what the
client has not sent of it, `awaited` is what the client has not received and `reply` what the
server has not sent of it. -/
structure Stands (x : Transfer) (fs₀ : Fs) (s : Session) (pending reply unsent awaited : Bytes) :
    Prop where
  server : ServerAt x fs₀ s.fs s.thread pending ∧ reply = x.digestMsg ∨
    pending = [] ∧ ServerAfter x s.thread reply ∧ Moved x fs₀ s
  client : s.tarball = some x.content ∧ ClientAt x s.pos s.upload unsent ∧
      Awaits x s.upload awaited ∨
    unsent = [] ∧ awaited = [] ∧ ClientAfter x s.tarball s.upload
  up : pending = s.up.queue ++ unsent
  down : awaited = s.down.queue ++ reply
  upEnd : s.up.ended = true → s.upload.pc = .done
  downEnd : s.down.ended = true → s.thread.handler.pc = .done

theorem stands_start (fs₀ : Fs) :
    Stands x fs₀ (x.start fs₀) x.wire x.digestMsg x.wire x.digestMsg where
  server := .inl ⟨serverAt_start fs₀, rfl⟩
  client := .inl ⟨rfl, .connecting, rfl⟩
  up := rfl
  down := rfl
  upEnd h := by cases h
  downEnd h := by cases h

theorem RecvMsg.Within.left_pos {r : RecvMsg} {msg rest : Bytes} (h : r.Within msg rest)
    (hne : rest ≠ []) : 0 < r.left := by
  have hlen := List.length_pos_iff.mpr hne
  have hleft := h.left
  omega

/-- A server that receives has something to receive. -/
theorem ServerAt.recv_pos {fs₀ fs : Fs} {t : Thread} {pending : Bytes} {n : Int}
    (h : ServerAt x fs₀ fs t pending) (ho : t.op x.site = some (.recv n)) :
    0 < n ∧ pending ≠ [] := by
  cases h with
  | nameLen hr hne | name hr hne | sizeLen _ hr hne | digestLen _ hr hne =>
    obtain rfl := Op.recv.inj (Option.some.inj ho)
    exact ⟨hr.left_pos hne, by simp [hne]⟩
  | content _ hr hne | digest _ hr hne =>
    obtain rfl := Op.recv.inj (Option.some.inj ho)
    exact ⟨hr.left_pos hne, by simp [hne]⟩
  | _ => cases ho

theorem ClientAt.recv_pos {pos : Nat} {u : Client.Upload} {unsent awaited : Bytes} {n : Int}
    (h : ClientAt x pos u unsent) (ha : Awaits x u awaited)
    (ho : u.op x.client.tarDir x.client.tarName x.site.hexdigest = some (.recv n)) :
    unsent = [] ∧ 0 < n ∧ awaited ≠ [] := by
  cases h with
  | recvLen =>
    obtain rfl := Op.recv.inj (Option.some.inj ho)
    obtain ⟨rest, hr, hne, rfl⟩ := ha
    exact ⟨rfl, hr.left_pos hne, by simp [hne]⟩
  | recvDigest =>
    obtain rfl := Op.recv.inj (Option.some.inj ho)
    exact ⟨rfl, ha.1.left_pos ha.2, ha.2⟩
  | _ => cases ho

theorem ServerAt.not_late {fs₀ fs : Fs} {t : Thread} {pending : Bytes}
    (h : ServerAt x fs₀ fs t pending) : t.handler.stage ≠ .late := by
  cases h <;> (intro hs; cases hs)

theorem ServerAt.pending_of_moving {fs₀ fs : Fs} {t : Thread} {pending : Bytes}
    (h : ServerAt x fs₀ fs t pending) (hpc : t.handler.pc = .moving) : pending = [] := by
  cases h with
  | moving => rfl
  | _ => cases hpc

theorem ServerAfter.not_recv {t : Thread} {reply : Bytes} (h : ServerAfter x t reply) (n : Int) :
    t.op x.site ≠ some (.recv n) := by
  intro ho
  cases h <;> cases ho

theorem ServerAfter.reply_of_done {t : Thread} {reply : Bytes} (h : ServerAfter x t reply)
    (hpc : t.handler.pc = .done) : reply = [] := by
  cases h with
  | done => rfl
  | _ => cases hpc

theorem ClientAt.not_quit {pos : Nat} {u : Client.Upload} {unsent : Bytes}
    (h : ClientAt x pos u unsent) : ¬ u.Quit := by
  rintro (hpc | hpc | hpc) <;> cases h <;> cases hpc

theorem ClientAt.chunk_ne_nil {pos : Nat} {u : Client.Upload} {unsent : Bytes} {tarFs : Int}
    {chunk : Bytes} (h : ClientAt x pos u unsent) (hpc : u.pc = .sending tarFs chunk) :
    chunk ≠ [] := by
  cases h with
  | sending _ _ _ hne =>
    cases hpc
    exact hne
  | _ => cases hpc

/-- Only the close of a socket ends its direction. -/
theorem Wires.ended {inp out inp' out' : Chan} {o : Op} {res : Res}
    (h : Wires inp out o res inp' out') (hended : out'.ended = true) :
    out.ended = true ∨ o = .closeSocket := by
  cases h with
  | closeSocket => exact .inr rfl
  | send | sendRaised =>
    refine .inl ?_
    by_contra hn
    simp [Chan.push, hn] at hended
  | _ => exact .inl hended

/-- What is received is not empty, unless the direction has ended. -/
theorem Wires.received_ne_nil {inp out inp' out' : Chan} {n : Int} {res : Res}
    (h : Wires inp out (.recv n) res inp' out') (hres : res ≠ .raised) :
    CarFi.Uploader.received (.recv n) res ≠ [] ∨ inp.queue = [] ∧ inp.ended = true := by
  cases h with
  | recv hr =>
    cases hr with
    | some hpos hn hk =>
      refine .inl (List.ne_nil_of_length_pos ?_)
      simpa [CarFi.Uploader.received, Nat.min_eq_left hk] using hpos
    | eof hn hq hended => exact .inr ⟨hq, hended⟩
  | recvRaised => exact absurd rfl hres
  | other hs => cases hs

/-! ## Steps -/

/-- After the close of its socket a program is done. -/
theorem ThreadStep.closed {fs fs' : Fs} {t t' : Thread} {res : Res}
    (h : ThreadStep x.site fs t .closeSocket res fs' t') : t'.handler.pc = .done := by
  have hpc : t.handler.pc = .closingSocket := by
    have ho := ThreadStep.op_eq h
    cases hpc : t.handler.pc <;> simp [Thread.op, Handler.op, hpc] at ho ⊢
  cases h with
  | closeSocket => simp [Thread.resume, Handler.resume, hpc]
  | raise => simp [Thread.resume, Handler.resume, hpc]
  | file _ hbs => cases hbs

theorem UploadStep.closed {tb tb' : Option Bytes} {pos pos' : Nat}
    {u u' : Client.Upload} {res : Res}
    (h : Client.UploadStep x.client x.site.hexdigest tb pos u .closeSocket res tb' pos' u') :
    u'.pc = .done := by
  have hpc : u.pc = .closingSocket := by
    have ho := UploadStep.op_eq h
    cases hpc : u.pc <;> simp [Client.Upload.op, hpc] at ho ⊢
  cases h with
  | socket => simp [Client.Upload.resume, hpc]
  | raise => simp [Client.Upload.resume, hpc]

section Step

variable {fs₀ : Fs} {s : Session} {pending reply unsent awaited : Bytes}

/-- A server that receives gets something: the client has not closed before it has sent all. -/
theorem Stands.server_receives (h : Stands x fs₀ s pending reply unsent awaited)
    {n : Int} {res : Res} {up down : Chan} (ho : s.thread.op x.site = some (.recv n))
    (hw : Wires s.up s.down (.recv n) res up down) (hres : res ≠ .raised) :
    received (.recv n) res ≠ [] := by
  refine (hw.received_ne_nil hres).resolve_right ?_
  rintro ⟨hq, hended⟩
  have hunsent : unsent = [] := by
    rcases h.client with ⟨-, hat, -⟩ | ⟨hnil, -⟩
    · exact absurd (.inr (.inr (h.upEnd hended))) hat.not_quit
    · exact hnil
  rcases h.server with ⟨hat, -⟩ | ⟨-, hafter, -⟩
  · exact (hat.recv_pos ho).2 (by rw [h.up, hq, hunsent, List.append_nil])
  · exact hafter.not_recv n ho

theorem Stands.client_receives (h : Stands x fs₀ s pending reply unsent awaited)
    {n : Int} {res : Res} {up down : Chan}
    (ho : s.upload.op x.client.tarDir x.client.tarName x.site.hexdigest =
      some (.recv n)) (hw : Wires s.down s.up (.recv n) res down up) (hres : res ≠ .raised) :
    received (.recv n) res ≠ [] := by
  refine (hw.received_ne_nil hres).resolve_right ?_
  rintro ⟨hq, hended⟩
  have hpc := h.downEnd hended
  have hreply : reply = [] := by
    rcases h.server with ⟨hat, -⟩ | ⟨-, hafter, -⟩
    · exact absurd (by simp [Handler.stage, hpc, Pc.stage]) hat.not_late
    · exact hafter.reply_of_done hpc
  rcases h.client with ⟨-, hat, ha⟩ | ⟨-, -, hafter⟩
  · exact (hat.recv_pos ha ho).2.2 (by rw [h.down, hq, hreply, List.append_nil])
  · rcases hafter.quit with hpc | hpc | hpc <;> simp [Client.Upload.op, hpc] at ho

/-- A call of the server. -/
theorem Stands.serverStep (hx : x.Sendable) (h : Stands x fs₀ s pending reply unsent awaited)
    {o : Op} {res : Res} {fs : Fs} {t : Thread} {up down : Chan}
    (hstep : ThreadStep x.site s.fs s.thread o res fs t) (hw : Wires s.up s.down o res up down)
    (hres : res ≠ .raised) :
    ∃ pending' reply', Stands x fs₀ { s with fs := fs, thread := t, up := up, down := down }
        pending' reply' unsent awaited ∧
      2 * pending'.length + t.handler.pc.rank <
        2 * pending.length + s.thread.handler.pc.rank := by
  have ho := ThreadStep.op_eq hstep
  have hopen : s.down.ended = false := by
    by_contra hended
    have hpc := h.downEnd (by simpa using hended)
    simp [Thread.op, Handler.op, hpc] at ho
  have hend : down.ended = true → t.handler.pc = .done := by
    intro hended
    obtain rfl := (hw.ended hended).resolve_left (by simp [hopen])
    exact ThreadStep.closed hstep
  have hrank := ThreadStep.rank_lt hstep hres fun n hn => by
    subst hn
    exact h.server_receives ho hw hres
  obtain ⟨hin, hinEnd⟩ := hw.received
  have hout := hw.sent_eq hres hopen
  -- it is enough to split what is received and sent off
  suffices hsplit : ∃ pending' reply', pending = received o res ++ pending' ∧
      reply = sent o res ++ reply' ∧ (ServerAt x fs₀ fs t pending' ∧ reply' = x.digestMsg ∨
        pending' = [] ∧ ServerAfter x t reply' ∧
          Moved x fs₀ { s with fs := fs, thread := t, up := up, down := down }) by
    obtain ⟨pending', reply', hpending, hreply, hserver⟩ := hsplit
    refine ⟨pending', reply', ⟨hserver, h.client, ?_, ?_, fun hended => ?_, hend⟩, ?_⟩
    · have hup := h.up
      rw [hpending, hin, List.append_assoc] at hup
      exact List.append_cancel_left hup
    · rw [h.down, hreply, ← List.append_assoc, hout]
    · exact h.upEnd (hinEnd ▸ hended)
    · rw [hpending, List.length_append]
      omega
  rcases h.server with ⟨hat, hreply⟩ | ⟨hpending, hafter, hmoved⟩
  · have hpre : received o res <+: pending := by
      rw [h.up, hin, List.append_assoc]
      exact List.prefix_append _ _
    have hsent : sent o res = [] := by
      cases o with
      | send msg => exact absurd ho (hat.silent msg)
      | _ => rfl
    rcases hat.call hx hstep hres hpre with
      ⟨pending', hpend, hat'⟩ | ⟨hpc, hfs, hmv, hafter⟩
    · exact ⟨pending', reply, hpend, by rw [hsent, List.nil_append], .inl ⟨hat', hreply⟩⟩
    · have hpend := hat.pending_of_moving hpc
      have hrecv : received o res = [] := by
        rw [hpend] at hpre
        exact List.prefix_nil.mp hpre
      refine ⟨[], reply, by
        rw [hpend, hrecv]; rfl, by rw [hsent, List.nil_append], .inr ⟨rfl, ?_, ?_⟩⟩
      · rw [hreply]
        exact hafter
      · rw [hfs] at hmv
        exact ⟨hmv, hafter.late.1, hafter.late.2⟩
  · obtain ⟨hfs, hrecv, reply', hreply, hafter'⟩ := hafter.call hstep hres
    refine ⟨[], reply', by rw [hpending, hrecv]; rfl, hreply, .inr ⟨rfl, hafter', ?_⟩⟩
    have hmv := hmoved.mv
    rw [← hfs] at hmv
    exact ⟨hmv, hafter'.late.1, hafter'.late.2⟩

/-- A call of the client sends the first bytes that it has not sent, or receives the first ones that
it awaits. -/
theorem Stands.client_moves (hx : x.Sendable) (h : Stands x fs₀ s pending reply unsent awaited)
    {o : Op} {res : Res} {tb : Option Bytes} {pos : Nat} {u : Client.Upload} {up down : Chan}
    (hstep : Client.UploadStep x.client x.site.hexdigest s.tarball s.pos s.upload o res tb pos u)
    (hw : Wires s.down s.up o res down up) (hres : res ≠ .raised) :
    ∃ unsent' awaited', unsent = sent o res ++ unsent' ∧
      awaited = received o res ++ awaited' ∧
      (tb = some x.content ∧ ClientAt x pos u unsent' ∧ Awaits x u awaited' ∨
        unsent' = [] ∧ awaited' = [] ∧ ClientAfter x tb u) := by
  have ho := UploadStep.op_eq hstep
  rcases h.client with ⟨htb, hat, ha⟩ | ⟨hunsent, hawaited, hafter⟩
  · rw [htb] at hstep
    by_cases hr : ∃ n, o = .recv n
    · obtain ⟨n, rfl⟩ := hr
      obtain ⟨rfl, rfl, -, rfl, ⟨rfl, -⟩ | ⟨tmp, rfl, hrecv⟩⟩ :=
        UploadStep.recv hstep hw
      · exact absurd rfl hres
      · have hpre : tmp <+: awaited := by
          rw [h.down, hrecv.split.1, List.append_assoc]
          exact List.prefix_append _ _
        obtain ⟨awaited', hsplit, hat', ha'⟩ := hat.recv_reply hx ho hrecv.split.2.2 ha hpre
        exact ⟨unsent, awaited', rfl, hsplit, .inl ⟨rfl, hat', ha'⟩⟩
    · have hnr : ∀ n, o ≠ .recv n := fun n hn => hr ⟨n, hn⟩
      have hrecv : received o res = [] := by
        cases o with
        | recv n => exact absurd rfl (hnr n)
        | _ => rfl
      rcases hat.call hstep hw hnr with
        ⟨unsent', hsplit, -, htb', hat', htrans⟩ | ⟨-, -, hwhy⟩ | ⟨hpc, hsplit, hafter⟩
      · exact ⟨unsent', awaited, hsplit,
          by rw [hrecv]; rfl, .inl ⟨htb', hat', htrans _ ha⟩⟩
      · exact (hwhy.elim hres fun hn => hn hx).elim
      · simp only [Awaits, hpc] at ha
        refine ⟨[], [], by rw [hsplit, List.append_nil], ?_, .inr ⟨rfl, rfl, hafter⟩⟩
        rw [ha, hrecv]
        rfl
  · obtain ⟨hq, rfl, hclose⟩ := hafter.quit.step hstep
    have hnil : sent o res = [] ∧ received o res = [] := by
      rcases hclose with rfl | rfl <;> exact ⟨rfl, rfl⟩
    refine ⟨[], [], ?_, ?_, .inr ⟨rfl, rfl, hafter.sendable, hafter.rm, hq⟩⟩
    · rw [hunsent, hnil.1]
      rfl
    · rw [hawaited, hnil.2]
      rfl

/-- A call of the client. -/
theorem Stands.clientStep (hx : x.Sendable) (h : Stands x fs₀ s pending reply unsent awaited)
    {o : Op} {res : Res} {tb : Option Bytes} {pos : Nat} {u : Client.Upload} {up down : Chan}
    (hstep : Client.UploadStep x.client x.site.hexdigest s.tarball s.pos s.upload o res tb pos u)
    (hw : Wires s.down s.up o res down up) (hres : res ≠ .raised) :
    ∃ unsent' awaited',
      Stands x fs₀ { s with tarball := tb, pos := pos, upload := u, up := up, down := down }
        pending reply unsent' awaited' ∧
      2 * unsent'.length + 2 * awaited'.length + u.pc.rank <
        2 * unsent.length + 2 * awaited.length + s.upload.pc.rank := by
  have ho := UploadStep.op_eq hstep
  have hopen : s.up.ended = false := by
    by_contra hended
    have hpc := h.upEnd (by simpa using hended)
    simp [Client.Upload.op, hpc] at ho
  have hend : up.ended = true → u.pc = .done := by
    intro hended
    obtain rfl := (hw.ended hended).resolve_left (by simp [hopen])
    exact UploadStep.closed hstep
  have hchunk : ∀ tarFs chunk, s.upload.pc = .sending tarFs chunk → chunk ≠ [] := by
    intro tarFs chunk hpc
    rcases h.client with ⟨-, hat, -⟩ | ⟨-, -, hafter⟩
    · exact hat.chunk_ne_nil hpc
    · rcases hafter.quit with hq | hq | hq <;> cases hpc.symm.trans hq
  have hrank := UploadStep.rank_lt hstep hw hres hchunk fun n hn => by
    subst hn
    exact h.client_receives ho hw hres
  obtain ⟨hin, hinEnd⟩ := hw.received
  have hout := hw.sent_eq hres hopen
  obtain ⟨unsent', awaited', hunsent, hawaited, hclient⟩ := h.client_moves hx hstep hw hres
  refine ⟨unsent', awaited', ⟨?_, hclient, ?_, ?_, hend, fun hended => ?_⟩, ?_⟩
  · rcases h.server with hat | ⟨hnil, hafter, hmoved⟩
    · exact .inl hat
    · exact .inr ⟨hnil, hafter, hmoved.mv, hmoved.late, hmoved.buf⟩
  · rw [h.up, hunsent, ← List.append_assoc, hout]
  · have hdown := h.down
    rw [hawaited, hin, List.append_assoc] at hdown
    exact List.append_cancel_left hdown
  · exact h.downEnd (hinEnd ▸ hended)
  · rw [hunsent, hawaited, List.length_append, List.length_append]
    omega

/-- The calls that are left, for the rank of a run. -/
def StandsAt (x : Transfer) (fs₀ : Fs) (n : Nat) (s : Session) : Prop :=
  ∃ pending reply unsent awaited, Stands x fs₀ s pending reply unsent awaited ∧
    n = 2 * pending.length + s.thread.handler.pc.rank +
      (2 * unsent.length + 2 * awaited.length + s.upload.pc.rank)

theorem StandsAt.step (hx : x.Sendable) {n : Nat} {s s' : Session} {e : SessionEvent}
    (h : StandsAt x fs₀ n s) (hstep : SmoothStep x s e s') :
    ∃ m < n, StandsAt x fs₀ m s' := by
  obtain ⟨pending, reply, unsent, awaited, hstands, rfl⟩ := h
  obtain ⟨hsmooth, hstep⟩ := hstep
  cases hstep with
  | client hcall hw =>
    obtain ⟨unsent', awaited', hstands', hlt⟩ := hstands.clientStep hx hcall hw hsmooth
    exact ⟨_, by gcongr, pending, reply, unsent', awaited', hstands', rfl⟩
  | server hcall hw =>
    obtain ⟨pending', reply', hstands', hlt⟩ := hstands.serverStep hx hcall hw hsmooth
    exact ⟨_, by gcongr, pending', reply', unsent, awaited, hstands', rfl⟩
  | cutUp k => exact hsmooth.elim
  | cutDown k => exact hsmooth.elim

end Step

/-! ## Progress -/

/-- A client up to the removal receives, or its call can return. -/
theorem ClientAt.enabled {pos : Nat} {u : Client.Upload} {unsent : Bytes}
    (h : ClientAt x pos u unsent) (inp out : Chan) :
    u.pc = .removing ∨
      (∃ n, u.op x.client.tarDir x.client.tarName x.site.hexdigest = some (.recv n)) ∨
      ∃ o res pos' u' out', res ≠ .raised ∧
        Client.UploadStep x.client x.site.hexdigest (some x.content) pos u o res (some x.content)
          pos' u' ∧ Wires inp out o res inp out' := by
  cases h with
  | removing => exact .inl rfl
  | recvLen | recvDigest => exact .inr (.inl ⟨_, rfl⟩)
  | connecting =>
    exact .inr (.inr ⟨_, .done, _, _, _, by simp, .socket rfl rfl (by simp), .connect⟩)
  | stat => exact .inr (.inr ⟨_, _, _, _, _, by simp, .getsize rfl, .other rfl⟩)
  | opening => exact .inr (.inr ⟨_, _, _, _, _, by simp, .openRead rfl, .other rfl⟩)
  | reading => exact .inr (.inr ⟨_, _, _, _, _, by simp, .read rfl, .other rfl⟩)
  | _ => exact .inr (.inr ⟨_, .done, _, _, _, by simp, .socket rfl rfl (by simp), .send⟩)

/-- In the `finally` block a call can return. -/
theorem Client.Upload.Quit.enabled {u : Client.Upload} (hq : u.Quit) (tb : Option Bytes) (pos : Nat)
    (inp out : Chan) :
    u.pc = .done ∨ ∃ o u' out', Client.UploadStep x.client x.site.hexdigest tb pos u o
      .done tb pos u' ∧ Wires inp out o .done inp out' := by
  rcases hq with hpc | hpc | hpc
  · exact .inr ⟨_, _, _, .closeFile (by simp [Client.Upload.op, hpc]), .other rfl⟩
  · exact .inr ⟨.closeSocket, _, _, .socket (by simp [Client.Upload.op, hpc]) rfl (by simp),
      .closeSocket⟩
  · exact .inl hpc

theorem ServerAt.enabled {fs₀ fs : Fs} {t : Thread} {pending : Bytes}
    (h : ServerAt x fs₀ fs t pending) (inp out : Chan) :
    t.handler.pc = .moving ∨ (∃ n, t.op x.site = some (.recv n)) ∨
      ∃ o fs' t', ThreadStep x.site fs t o .done fs' t' ∧ Wires inp out o .done inp out := by
  cases h with
  | moving => exact .inl rfl
  | opening =>
    exact .inr (.inr ⟨_, _, _, .openWrite rfl (x.site.walk_name _ x.fileName), .other rfl⟩)
  | writing => exact .inr (.inr ⟨_, _, _, .file rfl rfl rfl 0 (.inl rfl) (by simp), .other rfl⟩)
  | @flushing _ w =>
    exact .inr (.inr ⟨_, _, _, .file rfl rfl rfl w.buf.length (.inl rfl) (by simp), .other rfl⟩)
  | _ => exact .inr (.inl ⟨_, rfl⟩)

theorem ServerAfter.enabled {fs : Fs} {t : Thread} {reply : Bytes} (h : ServerAfter x t reply)
    (inp out : Chan) : t.handler.pc = .done ∨
      ∃ o fs' t' out', ThreadStep x.site fs t o .done fs' t' ∧
        Wires inp out o .done inp out' := by
  cases h with
  | done => exact .inl rfl
  | sendLen | sendDigest => exact .inr ⟨_, _, _, _, .send rfl, .send⟩
  | @closing w =>
    exact .inr ⟨_, _, _, _, .file rfl rfl rfl w.buf.length (.inl rfl) (by simp), .other rfl⟩
  | closingSocket => exact .inr ⟨_, _, _, _, .closeSocket rfl, .closeSocket⟩

/-- Unless both are done, an end waits for the shell or its call can return. -/
theorem Stands.progress {fs₀ : Fs} {s : Session} {pending reply unsent awaited : Bytes}
    (h : Stands x fs₀ s pending reply unsent awaited) :
    (s.upload.pc = .done ∧ s.thread.handler.pc = .done) ∨ s.upload.pc = .removing ∨
      s.thread.handler.pc = .moving ∨ ∃ e s', SmoothStep x s e s' := by
  -- the client is done or waits, and then it has sent everything
  have hclient : (∃ e s', SmoothStep x s e s') ∨ s.upload.pc = .removing ∨
      unsent = [] ∧ (s.upload.pc = .done ∨ reply ≠ []) := by
    rcases h.client with ⟨htb, hat, ha⟩ | ⟨hnil, -, hafter⟩
    · rcases hat.enabled s.down s.up with
        hpc | ⟨n, ho⟩ | ⟨o, res, pos', u', out', hres, hstep, hw⟩
      · exact .inr (.inl hpc)
      · obtain ⟨hunsent, hpos, hne⟩ := hat.recv_pos ha ho
        by_cases hq : s.down.queue = []
        · rw [h.down, hq] at hne
          exact .inr (.inr ⟨hunsent, .inr hne⟩)
        · have hlen := List.length_pos_iff.mpr hq
          exact .inl ⟨_, _, by simp [SessionEvent.Smooth],
            SessionStep.clientRecv 1 ho (by decide) (by omega) (by omega)⟩
      · rw [← htb] at hstep
        exact .inl ⟨.client o res, _, hres, .client hstep hw⟩
    · rcases hafter.quit.enabled s.tarball s.pos s.down s.up with
        hpc | ⟨o, u', out', hstep, hw⟩
      · exact .inr (.inr ⟨hnil, .inl hpc⟩)
      · exact .inl ⟨.client o .done, _, by simp [SessionEvent.Smooth], .client hstep hw⟩
  rcases hclient with hstep | hpc | ⟨hunsent, hwait⟩
  · exact .inr (.inr (.inr hstep))
  · exact .inr (.inl hpc)
  rcases h.server with ⟨hat, -⟩ | ⟨-, hafter, -⟩
  · rcases hat.enabled s.up s.down with hpc | ⟨n, ho⟩ | ⟨o, fs', t', hstep, hw⟩
    · exact .inr (.inr (.inl hpc))
    · obtain ⟨hpos, hne⟩ := hat.recv_pos ho
      rw [h.up, hunsent, List.append_nil] at hne
      have hlen := List.length_pos_iff.mpr hne
      exact .inr (.inr (.inr ⟨_, _, by simp [SessionEvent.Smooth],
        SessionStep.serverRecv 1 ho (by decide) (by omega) (by omega)⟩))
    · exact .inr (.inr (.inr
        ⟨.server o .done, _, by simp [SessionEvent.Smooth], .server hstep hw⟩))
  · rcases hafter.enabled s.up s.down with hpc | ⟨o, fs', t', out', hstep, hw⟩
    · -- a server that is done has sent its reply
      have hreply := hafter.reply_of_done hpc
      exact .inl ⟨hwait.resolve_right fun hne => hne hreply, hpc⟩
    · exact .inr (.inr (.inr
        ⟨.server o .done, _, by simp [SessionEvent.Smooth], .server hstep hw⟩))

end CarFi.Uploader
