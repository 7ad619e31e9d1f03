import CarFi.Uploader.Exchange

/-!
# The messages of an upload, as the client sees them

`ClientAt` gives the states that an upload goes through when nothing fails, with the bytes that
it has still to send, and `Awaits` the bytes that it has still to receive. A call takes the upload
to the next of these states, or to its `finally` block with the tarball in place.
-/
namespace CarFi.Uploader

open Library Server

variable {x : Transfer}

/-- The state of an upload that has the tarball open. -/
def openUpload (pc : Client.Pc) (localMd5 : Bytes) : Client.Upload where
  pc := pc
  tarFile := true
  localMd5 := localMd5

/-- The states of the client up to the removal and without exceptions, with the position in the
tarball and the bytes that it has not sent. -/
inductive ClientAt (x : Transfer) : Nat → Client.Upload → Bytes → Prop where
  | connecting {pos} : ClientAt x pos {} x.wire
  | sendNameLen {pos} (hname : isUtf8 x.name = true) :
      ClientAt x pos { pc := .sendNameLen (be32 x.name.length) } x.wire
  | sendName {pos} (hname : isUtf8 x.name = true) : ClientAt x pos { pc := .sendName } x.nameOn
  | stat {pos} (hname : isUtf8 x.name = true) : ClientAt x pos { pc := .stat } x.sizeOn
  | opening {pos} (hname : isUtf8 x.name = true) :
      ClientAt x pos { pc := .opening x.content.length } x.sizeOn
  | sendSize (hname : isUtf8 x.name = true) (hsize : x.content.length < 2 ^ 31) :
      ClientAt x 0 (openUpload (.sendSize x.content.length (be32 x.content.length)) []) x.sizeOn
  | reading {md5 rest} (hname : isUtf8 x.name = true) (hsize : x.content.length < 2 ^ 31)
      (hsplit : md5 ++ rest = x.content) (hne : rest ≠ []) :
      ClientAt x md5.length (openUpload (.reading rest.length) md5) (rest ++ x.digestMsg)
  | sending {md5 chunk rest} (hname : isUtf8 x.name = true) (hsize : x.content.length < 2 ^ 31)
      (hsplit : md5 ++ (chunk ++ rest) = x.content) (hne : chunk ≠ []) :
      ClientAt x (md5 ++ chunk).length (openUpload (.sending (chunk ++ rest).length chunk) md5)
        (chunk ++ (rest ++ x.digestMsg))
  | sendDigestLen {pos} (hname : isUtf8 x.name = true) (hsize : x.content.length < 2 ^ 31)
      (hdigest : x.digest.length < 2 ^ 31) :
      ClientAt x pos (openUpload (.sendDigestLen (be32 x.digest.length)) x.content) x.digestMsg
  | sendDigest {pos} (hname : isUtf8 x.name = true) (hsize : x.content.length < 2 ^ 31)
      (hdigest : x.digest.length < 2 ^ 31) :
      ClientAt x pos (openUpload .sendDigest x.content) x.digest
  | recvLen {pos r} (hname : isUtf8 x.name = true) (hsize : x.content.length < 2 ^ 31)
      (hdigest : x.digest.length < 2 ^ 31) :
      ClientAt x pos (openUpload (.recvLen r) x.content) []
  | recvDigest {pos r} (hname : isUtf8 x.name = true) (hsize : x.content.length < 2 ^ 31)
      (hdigest : x.digest.length < 2 ^ 31) :
      ClientAt x pos (openUpload (.recvDigest r) x.content) []
  | removing {pos} (hx : x.Sendable) : ClientAt x pos (openUpload .removing x.content) []

/-- The client has come to its `finally` block. -/
def Client.Upload.Quit (u : Client.Upload) : Prop :=
  u.pc = .closing ∨ u.pc = .closingSocket ∨ u.pc = .done

/-- The client has sent everything and has run `rm` on the tarball. -/
structure ClientAfter (x : Transfer) (tb : Option Bytes) (u : Client.Upload) : Prop where
  sendable : x.Sendable
  rm : x.client.system x.rmCommand (some x.content) tb
  quit : u.Quit

/-- The bytes that the client has still to receive. -/
def Awaits (x : Transfer) (u : Client.Upload) (awaited : Bytes) : Prop :=
  match u.pc with
  | .recvLen r =>
    ∃ rest, r.Within (be32 x.digest.length) rest ∧ rest ≠ [] ∧ awaited = rest ++ x.digest
  | .recvDigest r => r.Within x.digest awaited ∧ awaited ≠ []
  | .removing | .closing | .closingSocket | .done => awaited = []
  | _ => awaited = x.digestMsg

theorem Client.Upload.finish_quit (u : Client.Upload) : u.finish.Quit := by
  unfold Client.Upload.finish Client.Upload.Quit
  cases u.tarFile <;> simp

theorem Client.Upload.packed_eq (u : Client.Upload) {n : Nat} (h : n < 2 ^ 31)
    (pc : Bytes → Client.Pc) : u.packed n pc = { u with pc := pc (be32 n) } := by
  simp only [Client.Upload.packed, packInt_of_lt h]

theorem Client.Upload.packed_quit (u : Client.Upload) {n : Nat} (h : ¬ n < 2 ^ 31)
    (pc : Bytes → Client.Pc) : u.packed n pc = u.finish := by
  simp only [Client.Upload.packed, packInt_eq_none.mpr (Nat.not_lt.mp h)]

/-- After a call the client is one message further, or it has quit with the tarball in place, or it
has removed the tarball. -/
def ClientGoes (x : Transfer) (u : Client.Upload) (unsent : Bytes) (o : Op) (res : Res)
    (tb : Option Bytes) (pos : Nat) (u' : Client.Upload) : Prop :=
  (∃ unsent', unsent = sent o res ++ unsent' ∧ res ≠ .raised ∧ tb = some x.content ∧
      ClientAt x pos u' unsent' ∧ ∀ awaited, Awaits x u awaited → Awaits x u' awaited) ∨
    (u'.Quit ∧ tb = some x.content ∧ (res = .raised ∨ ¬ x.Sendable)) ∨
    (u.pc = .removing ∧ unsent = sent o res ∧ ClientAfter x tb u')

/-- The head of the loop over the content, with `rest` still to be sent. -/
theorem nextChunk_clientAt {md5 rest : Bytes} (pc : Client.Pc) (hname : isUtf8 x.name = true)
    (hsize : x.content.length < 2 ^ 31) (hsplit : md5 ++ rest = x.content) :
    (ClientAt x md5.length
        ((openUpload pc md5).nextChunk x.site.hexdigest rest.length) (rest ++ x.digestMsg) ∧
      Awaits x ((openUpload pc md5).nextChunk x.site.hexdigest rest.length) x.digestMsg) ∨
    ((openUpload pc md5).nextChunk x.site.hexdigest rest.length).Quit ∧ ¬ x.Sendable := by
  unfold Client.Upload.nextChunk
  split
  · rename_i hpos
    refine .inl ⟨.reading hname hsize hsplit ?_, rfl⟩
    rintro rfl
    simp at hpos
  · rename_i hpos
    have hnil : rest = [] := List.length_eq_zero_iff.mp (by omega)
    subst hnil
    obtain rfl : md5 = x.content := by simpa using hsplit
    by_cases hd : x.digest.length < 2 ^ 31
    · have hpacked := (openUpload pc x.content).packed_eq hd .sendDigestLen
      refine .inl ?_
      change ClientAt x _ ((openUpload pc x.content).packed x.digest.length .sendDigestLen) _ ∧
        Awaits x ((openUpload pc x.content).packed x.digest.length .sendDigestLen) _
      rw [hpacked]
      exact ⟨.sendDigestLen hname hsize hd, rfl⟩
    · have hpacked := (openUpload pc x.content).packed_quit hd .sendDigestLen
      refine .inr ⟨?_, fun hx => hd hx.digestLen⟩
      change ((openUpload pc x.content).packed x.digest.length .sendDigestLen).Quit
      rw [hpacked]
      exact Client.Upload.finish_quit _

/-- A call that raises. -/
theorem ClientAt.raised {pos : Nat} {u : Client.Upload} {unsent : Bytes}
    (h : ClientAt x pos u unsent) :
    (u.resume x.client.tarName x.site.hexdigest .raised).Quit := by
  cases h <;> exact Client.Upload.finish_quit _

/-- A `send`, the `connect` or the close of the socket. -/
theorem ClientAt.socket {pos : Nat} {u : Client.Upload} {unsent : Bytes} {o : Op}
    (h : ClientAt x pos u unsent)
    (ho : u.op x.client.tarDir x.client.tarName x.site.hexdigest = some o)
    (hs : isSocketOp o = true) (hnr : ∀ n, o ≠ .recv n) :
    ClientGoes x u unsent o .done (some x.content) pos
      (u.resume x.client.tarName x.site.hexdigest .done) := by
  cases h with
  | connecting =>
    obtain rfl := Option.some.inj ho
    by_cases hname : isUtf8 x.name = true
    · have hconn : ({} : Client.Upload).connected x.client.tarName =
          { pc := .sendNameLen (be32 x.name.length) } :=
        (if_pos hname).trans (Client.Upload.packed_eq _ (name_length_lt x) _)
      refine .inl ⟨_, rfl, (by simp), rfl, ?_⟩
      simp only [Client.Upload.resume, hconn]
      exact ⟨.sendNameLen hname, fun _ ha => ha⟩
    · have hconn : ({} : Client.Upload).connected x.client.tarName = ({} : Client.Upload).finish :=
        if_neg hname
      refine .inr (.inl ⟨?_, rfl, .inr fun hx => hname hx.name⟩)
      simp only [Client.Upload.resume, hconn]
      exact Client.Upload.finish_quit _
  | sendNameLen hname =>
    obtain rfl := Option.some.inj ho
    exact .inl ⟨_, rfl, (by simp), rfl, .sendName hname, fun _ ha => ha⟩
  | sendName hname =>
    obtain rfl := Option.some.inj ho
    exact .inl ⟨_, rfl, (by simp), rfl, .stat hname, fun _ ha => ha⟩
  | sendSize hname hsize =>
    obtain rfl := Option.some.inj ho
    rcases nextChunk_clientAt (.sendSize x.content.length (be32 x.content.length)) hname hsize
      (List.nil_append x.content) with ⟨hat, ha⟩ | ⟨hquit, hx⟩
    · refine .inl ⟨_, rfl, (by simp), rfl, hat, ?_⟩
      rintro _ rfl
      exact ha
    · exact .inr (.inl ⟨hquit, rfl, .inr hx⟩)
  | @sending md5 chunk rest hname hsize hsplit hne =>
    obtain rfl := Option.some.inj ho
    have hresume : (openUpload (.sending (chunk ++ rest).length chunk) md5).resume x.client.tarName
        x.site.hexdigest .done = (openUpload (.sending (chunk ++ rest).length chunk)
          (md5 ++ chunk)).nextChunk x.site.hexdigest rest.length := by
      have hleft : ((chunk ++ rest).length : Int) - chunk.length = rest.length := by
        simp only [List.length_append]
        omega
      simp only [Client.Upload.resume, openUpload, hleft]
    rw [← List.append_assoc] at hsplit
    rw [hresume]
    rcases nextChunk_clientAt (.sending (chunk ++ rest).length chunk) hname hsize hsplit with
      ⟨hat, ha⟩ | ⟨hquit, hx⟩
    · refine .inl ⟨_, rfl, (by simp), rfl, hat, ?_⟩
      rintro _ rfl
      exact ha
    · exact .inr (.inl ⟨hquit, rfl, .inr hx⟩)
  | sendDigestLen hname hsize hdigest =>
    obtain rfl := Option.some.inj ho
    exact .inl ⟨_, rfl, (by simp), rfl, .sendDigest hname hsize hdigest, fun _ ha => ha⟩
  | sendDigest hname hsize hdigest =>
    obtain rfl := Option.some.inj ho
    refine .inl ⟨_, (List.append_nil _).symm, (by simp), rfl, .recvLen hname hsize hdigest, ?_⟩
    rintro _ rfl
    exact ⟨_, RecvMsg.within_start (be32 x.digest.length), by simp [be32], rfl⟩
  | recvLen => exact absurd (Option.some.inj ho).symm (hnr _)
  | recvDigest => exact absurd (Option.some.inj ho).symm (hnr _)
  | _ =>
    obtain rfl := Option.some.inj ho
    cases hs

/-- The size of the next chunk of a non-empty rest. -/
theorem take_chunkSize (rest : Bytes) :
    rest.take (Client.chunkSize rest.length) = rest.take 4096 := by
  have hsize : Client.chunkSize rest.length = min 4096 rest.length := by
    unfold Client.chunkSize chunkLimit
    split <;> omega
  rw [hsize]
  rcases Nat.le_total 4096 rest.length with h | h
  · rw [Nat.min_eq_left h]
  · rw [Nat.min_eq_right h, List.take_length, List.take_of_length_le h]

/-- A call of the client other than a `recv`. -/
theorem ClientAt.call {tb : Option Bytes} {pos pos' : Nat} {u u' : Client.Upload} {unsent : Bytes}
    {o : Op} {res : Res} {inp inp' out out' : Chan} (h : ClientAt x pos u unsent)
    (hstep : Client.UploadStep x.client x.site.hexdigest (some x.content) pos u o res tb pos' u')
    (hw : Wires inp out o res inp' out') (hnr : ∀ n, o ≠ .recv n) :
    ClientGoes x u unsent o res tb pos' u' := by
  have hraised : ClientGoes x u unsent o .raised (some x.content) pos
      (u.resume x.client.tarName x.site.hexdigest .raised) :=
    .inr (.inl ⟨h.raised, rfl, .inl rfl⟩)
  cases hstep with
  | socket ho hs hres =>
    cases hw with
    | recv => exact absurd rfl (hnr _)
    | recvRaised => exact absurd rfl (hnr _)
    | connect =>
      rcases hres (.inl rfl) with rfl | rfl
      · exact h.socket ho hs hnr
      · exact hraised
    | send => exact h.socket ho hs hnr
    | sendRaised => exact hraised
    | closeSocket =>
      rcases hres (.inr rfl) with rfl | rfl
      · exact h.socket ho hs hnr
      · exact hraised
    | other hs' => exact absurd (hs.symm.trans hs') (by decide)
  | raise ho hs hsys => exact hraised
  | getsize ho =>
    cases h with
    | stat hname => exact .inl ⟨_, rfl, (by simp), rfl, .opening hname, fun _ ha => ha⟩
    | _ => cases ho
  | openRead ho =>
    cases h with
    | opening hname =>
      by_cases hsize : x.content.length < 2 ^ 31
      · have hpacked := Client.Upload.packed_eq
          { tarFile := true, pc := .opening x.content.length } hsize (.sendSize x.content.length)
        refine .inl ⟨_, rfl, (by simp), rfl, ?_⟩
        simp only [Client.Upload.resume, hpacked]
        exact ⟨.sendSize hname hsize, fun _ ha => ha⟩
      · have hpacked := Client.Upload.packed_quit
          { tarFile := true, pc := .opening x.content.length } hsize (.sendSize x.content.length)
        refine .inr (.inl ⟨?_, rfl, .inr fun hx => hsize hx.size⟩)
        simp only [Client.Upload.resume, hpacked]
        exact Client.Upload.finish_quit _
    | _ => cases ho
  | read ho =>
    cases h with
    | @reading md5 rest hname hsize hsplit hne =>
      obtain rfl := Op.read.inj (Option.some.inj ho)
      have hrest : x.content.drop md5.length = rest := by rw [← hsplit, List.drop_left]
      have hread : (x.content.drop md5.length).take (Client.chunkSize rest.length) =
          rest.take 4096 := by rw [hrest, take_chunkSize]
      rw [hread]
      have hsplit' : md5 ++ (rest.take 4096 ++ rest.drop 4096) = x.content := by
        rwa [List.take_append_drop]
      have htake : rest.take 4096 ≠ [] := by simpa using hne
      have hat := ClientAt.sending hname hsize hsplit' htake
      rw [List.length_append, ← List.append_assoc, List.take_append_drop] at hat
      exact .inl ⟨_, rfl, (by simp), rfl, hat, fun _ ha => ha⟩
    | _ => cases ho
  | system ho hrun =>
    cases h with
    | removing hx =>
      obtain rfl := Op.system.inj (Option.some.inj ho)
      exact .inr (.inr ⟨rfl, rfl, hx, hrun, .inl rfl⟩)
    | _ => cases ho
  | closeFile ho => cases h <;> cases ho

theorem gotDigest_clientAt {pos : Nat} (pc : Client.Pc) (hname : isUtf8 x.name = true)
    (hsize : x.content.length < 2 ^ 31) (hdigest : x.digest.length < 2 ^ 31) (peer : Bytes) :
    ClientAt x pos
        ((openUpload pc x.content).gotDigest x.site.hexdigest peer) [] ∨
      ((openUpload pc x.content).gotDigest x.site.hexdigest peer).Quit := by
  unfold Client.Upload.gotDigest
  split
  · rename_i hpeer
    refine .inl (.removing ⟨hname, hsize, hdigest, ?_⟩)
    change isUtf8 (x.site.hexdigest (openUpload pc x.content).localMd5) = true
    rw [hpeer.2]
    exact hpeer.1
  · exact .inr (Client.Upload.finish_quit _)

/-- Whatever the client receives, it goes on or quits. -/
theorem ClientAt.recv {pos : Nat} {u : Client.Upload} {unsent : Bytes}
    {n : Int} (h : ClientAt x pos u unsent)
    (ho : u.op x.client.tarDir x.client.tarName x.site.hexdigest = some (.recv n)) (tmp : Bytes) :
    unsent = [] ∧
      (ClientAt x pos (u.resume x.client.tarName x.site.hexdigest (.bytes tmp)) [] ∨
        (u.resume x.client.tarName x.site.hexdigest (.bytes tmp)).Quit) := by
  cases h with
  | @recvLen pos r hname hsize hdigest =>
    refine ⟨rfl, ?_⟩
    simp only [Client.Upload.resume, openUpload]
    refine RecvMsg.loop_of (fun u => ClientAt x pos u [] ∨ u.Quit) (fun msg => ?_) ?_
    · unfold Client.Upload.gotLen
      refine RecvMsg.loop_of (fun u => ClientAt x pos u [] ∨ u.Quit) ?_ ?_
      · exact gotDigest_clientAt (.recvLen r) hname hsize hdigest
      · exact .inl (.recvDigest hname hsize hdigest)
    · exact .inl (.recvLen hname hsize hdigest)
  | @recvDigest pos r hname hsize hdigest =>
    refine ⟨rfl, ?_⟩
    simp only [Client.Upload.resume, openUpload]
    refine RecvMsg.loop_of (fun u => ClientAt x pos u [] ∨ u.Quit) ?_ ?_
    · exact gotDigest_clientAt (.recvDigest r) hname hsize hdigest
    · exact .inl (.recvDigest hname hsize hdigest)
  | _ => cases ho

theorem gotDigest_removing (hx : x.Sendable) (pc : Client.Pc) :
    (openUpload pc x.content).gotDigest x.site.hexdigest x.digest =
      openUpload .removing x.content :=
  if_pos ⟨hx.digest, rfl⟩

/-- What the server sends takes the client on. -/
theorem ClientAt.recv_reply (hx : x.Sendable) {pos : Nat} {u : Client.Upload}
    {unsent awaited tmp : Bytes} {n : Int} (h : ClientAt x pos u unsent)
    (ho : u.op x.client.tarDir x.client.tarName x.site.hexdigest = some (.recv n))
    (hlen : (tmp.length : Int) ≤ n) (ha : Awaits x u awaited) (hpre : tmp <+: awaited) :
    ∃ awaited', awaited = tmp ++ awaited' ∧
      ClientAt x pos (u.resume x.client.tarName x.site.hexdigest (.bytes tmp)) unsent ∧
      Awaits x (u.resume x.client.tarName x.site.hexdigest (.bytes tmp)) awaited' := by
  cases h with
  | @recvLen pos r hname hsize hdigest =>
    obtain rfl := Op.recv.inj (Option.some.inj ho)
    obtain ⟨rest, hr, hne, rfl⟩ := ha
    simp only [Client.Upload.resume, openUpload, Client.Upload.recvMsg]
    refine hr.recv_loop (fun u awaited => ClientAt x pos u [] ∧ Awaits x u awaited) hpre hlen
      ?_ fun rest' hr' hrest => ?_
    · rw [Client.Upload.gotLen, Client.Upload.recvMsg, RecvMsg.loop_start hdigest]
      split
      · rename_i hnil
        have hgot := gotDigest_removing hx (.recvLen r)
        rw [openUpload] at hgot
        rw [hgot]
        exact ⟨.removing hx, hnil⟩
      · rename_i hnil
        exact ⟨.recvDigest hname hsize hdigest, RecvMsg.within_start _, hnil⟩
    · exact ⟨.recvLen hname hsize hdigest, rest', hr', hrest, rfl⟩
  | @recvDigest pos r hname hsize hdigest =>
    obtain rfl := Op.recv.inj (Option.some.inj ho)
    obtain ⟨hr, hne⟩ := ha
    rw [← List.append_nil awaited] at hpre ⊢
    simp only [Client.Upload.resume, openUpload, Client.Upload.recvMsg]
    refine hr.recv_loop (fun u awaited => ClientAt x pos u [] ∧ Awaits x u awaited) hpre hlen
      ?_ fun rest' hr' hrest => ?_
    · have hgot := gotDigest_removing hx (.recvDigest r)
      rw [openUpload] at hgot
      rw [hgot]
      exact ⟨.removing hx, rfl⟩
    · rw [List.append_nil]
      exact ⟨.recvDigest hname hsize hdigest, hr', hrest⟩
  | _ => cases ho

end CarFi.Uploader
