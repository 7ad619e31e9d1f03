import CarFi.Uploader.ClientStates
import CarFi.Uploader.Shared

/-!
# A tarball is removed only after its delivery

The client removes its tarball when the digest of the server comes back. The server sends it only
after the whole upload has come in and the file has been moved, wherever the connection is cut
and whatever raises on the way.
-/
namespace CarFi.Uploader

open Library Server

variable {x : Transfer}

/-! ## What a call does to the connection -/

theorem Wires.received {inp out inp' out' : Chan} {o : Op} {res : Res}
    (h : Wires inp out o res inp' out') :
    inp.queue = received o res ++ inp'.queue ∧ inp'.ended = inp.ended := by
  cases h with
  | recv h =>
    obtain ⟨hsplit, hended, -⟩ := h.split
    exact ⟨hsplit, hended⟩
  | @other o res h => cases o <;> cases res <;> first | exact ⟨rfl, rfl⟩ | cases h
  | _ => exact ⟨rfl, rfl⟩

/-- A call that sends nothing leaves the other direction, but may end it. -/
theorem Wires.out_eq {inp out inp' out' : Chan} {o : Op} {res : Res}
    (h : Wires inp out o res inp' out') (hns : ∀ msg, o ≠ .send msg) :
    out'.queue = out.queue ∧ (out'.ended = false → out.ended = false) := by
  cases h with
  | send => exact absurd rfl (hns _)
  | sendRaised => exact absurd rfl (hns _)
  | closeSocket => exact ⟨rfl, fun h => by cases h⟩
  | _ => exact ⟨rfl, id⟩

/-- A call that does not raise sends all of its message. -/
theorem Wires.sent_eq {inp out inp' out' : Chan} {o : Op} {res : Res}
    (h : Wires inp out o res inp' out') (hres : res ≠ .raised) (hended : out.ended = false) :
    out.queue ++ sent o res = out'.queue := by
  cases h with
  | send => simp [Chan.push, hended, sent]
  | sendRaised => exact absurd rfl hres
  | @other o res h => cases o <;> cases res <;> first | exact List.append_nil _ | cases h
  | recv => exact List.append_nil _
  | recvRaised => exact List.append_nil _
  | connect => cases res <;> exact List.append_nil _
  | closeSocket => cases res <;> exact List.append_nil _

/-! ## The client alone -/

/-- The client has its tarball and is on its way or has quit, or it has removed the tarball. -/
def ClientOk (x : Transfer) (s : Session) : Prop :=
  s.tarball = some x.content ∧
    ((∃ unsent, ClientAt x s.pos s.upload unsent) ∨ s.upload.Quit) ∨
    ClientAfter x s.tarball s.upload

/-- In the `finally` block the client only closes its file and its socket. -/
theorem Client.Upload.Quit.step {tb tb' : Option Bytes} {pos pos' : Nat} {u u' : Client.Upload}
    {o : Op} {res : Res} (hq : u.Quit)
    (h : Client.UploadStep x.client x.site.hexdigest tb pos u o res tb' pos' u') :
    u'.Quit ∧ tb' = tb ∧ (o = .closeFile ∨ o = .closeSocket) := by
  have hop : ∀ o, u.op x.client.tarDir x.client.tarName x.site.hexdigest = some o →
      o = .closeFile ∨ o = .closeSocket := by
    intro o ho
    rcases hq with hpc | hpc | hpc <;> simp only [Client.Upload.op, hpc] at ho
    · exact .inl (Option.some.inj ho).symm
    · exact .inr (Option.some.inj ho).symm
    · cases ho
  have hresume : ∀ res, res = .done ∨ res = .raised →
      (u.resume x.client.tarName x.site.hexdigest res).Quit := by
    rintro res (rfl | rfl) <;> rcases hq with hpc | hpc | hpc <;>
      simp [Client.Upload.Quit, Client.Upload.resume, hpc]
  cases h with
  | socket ho hs hres =>
    obtain rfl : o = .closeSocket := (hop o ho).resolve_left fun h => by rw [h] at hs; cases hs
    exact ⟨hresume _ (hres (.inr rfl)), rfl, .inr rfl⟩
  | closeFile ho => exact ⟨hresume _ (.inl rfl), rfl, .inl rfl⟩
  | raise ho hs hsys => exact ⟨hresume _ (.inr rfl), rfl, hop o ho⟩
  | getsize ho => rcases hop _ ho with h | h <;> cases h
  | openRead ho => rcases hop _ ho with h | h <;> cases h
  | read ho => rcases hop _ ho with h | h <;> cases h
  | system ho => rcases hop _ ho with h | h <;> cases h

theorem UploadStep.op_eq {tb tb' : Option Bytes} {pos pos' : Nat} {u u' : Client.Upload} {o : Op}
    {res : Res} (h : Client.UploadStep x.client x.site.hexdigest tb pos u o res tb' pos' u') :
    u.op x.client.tarDir x.client.tarName x.site.hexdigest = some o := by
  cases h <;> assumption

/-- A `recv` of the client. -/
theorem UploadStep.recv {tb tb' : Option Bytes} {pos pos' : Nat} {u u' : Client.Upload} {n : Int}
    {res : Res} {inp inp' out out' : Chan}
    (h : Client.UploadStep x.client x.site.hexdigest tb pos u (.recv n) res tb' pos' u')
    (hw : Wires inp out (.recv n) res inp' out') :
    tb' = tb ∧ pos' = pos ∧ out' = out ∧
      u' = u.resume x.client.tarName x.site.hexdigest res ∧
      (res = .raised ∧ inp' = inp ∨ ∃ tmp, res = .bytes tmp ∧ inp.Recv n tmp inp') := by
  cases h with
  | socket ho hs hres =>
    cases hw with
    | recv hrecv => exact ⟨rfl, rfl, rfl, rfl, .inr ⟨_, rfl, hrecv⟩⟩
    | recvRaised => exact ⟨rfl, rfl, rfl, rfl, .inl ⟨rfl, rfl⟩⟩
    | other hs' => cases hs'
  | raise ho hs hsys => cases hs

/-- A step of a client that has its tarball and has not quit. -/
theorem ClientAt.step {tb : Option Bytes} {pos pos' : Nat} {u u' : Client.Upload} {unsent : Bytes}
    {o : Op} {res : Res} {inp inp' out out' : Chan} (h : ClientAt x pos u unsent)
    (hstep : Client.UploadStep x.client x.site.hexdigest (some x.content) pos u o res tb pos' u')
    (hw : Wires inp out o res inp' out') :
    tb = some x.content ∧ ((∃ unsent', ClientAt x pos' u' unsent') ∨ u'.Quit) ∨
      ClientAfter x tb u' := by
  by_cases hr : ∃ n, o = .recv n
  · obtain ⟨n, rfl⟩ := hr
    have ho := UploadStep.op_eq hstep
    obtain ⟨rfl, rfl, -, rfl, ⟨rfl, -⟩ | ⟨tmp, rfl, -⟩⟩ := UploadStep.recv hstep hw
    · exact .inl ⟨rfl, .inr h.raised⟩
    · obtain ⟨-, hat | hq⟩ := h.recv ho tmp
      · exact .inl ⟨rfl, .inl ⟨[], hat⟩⟩
      · exact .inl ⟨rfl, .inr hq⟩
  · rcases h.call hstep hw fun n hn => hr ⟨n, hn⟩ with
      ⟨unsent', -, -, htb, hat, -⟩ | ⟨hq, htb, -⟩ | ⟨-, -, hafter⟩
    · exact .inl ⟨htb, .inl ⟨unsent', hat⟩⟩
    · exact .inl ⟨htb, .inr hq⟩
    · exact .inr hafter

theorem ClientOk.step {s s' : Session} {e : SessionEvent} (h : ClientOk x s)
    (hstep : SessionStep x s e s') : ClientOk x s' := by
  cases hstep with
  | cutUp k => exact h
  | cutDown k => exact h
  | server hstep hw => exact h
  | client hstep hw =>
    rcases h with ⟨htb, ⟨unsent, hat⟩ | hq⟩ | hafter
    · rw [htb] at hstep
      exact hat.step hstep hw
    · obtain ⟨hq', rfl, -⟩ := hq.step hstep
      exact .inl ⟨htb, .inr hq'⟩
    · obtain ⟨hq', rfl, -⟩ := hafter.quit.step hstep
      exact .inr ⟨hafter.sendable, hafter.rm, hq'⟩

/-! ## Before and after the move -/

/-- The server has run `mv` on the whole content and writes no more. -/
structure Moved (x : Transfer) (fs₀ : Fs) (s : Session) : Prop where
  mv : x.site.system x.mvCommand (x.filled fs₀ x.content) s.fs
  late : s.thread.handler.stage = .late
  buf : ∀ w, s.thread.writer = some w → w.buf = []

def Server.Thread.Quit (t : Thread) : Prop :=
  t.handler.pc = .closing ∨ t.handler.pc = .closingSocket ∨ t.handler.pc = .done

/-- The bytes on the way up and those that the client has not sent are what the server has still
to receive. -/
def UpOk (x : Transfer) (s : Session) (pending : Bytes) : Prop :=
  s.up.queue <+: pending ∧ (s.up.ended = false → ∃ unsent, pending = s.up.queue ++ unsent ∧
    (ClientAt x s.pos s.upload unsent ∨ s.upload.Quit))

/-- The server has not moved the file: nothing has been sent back, and the client has received
nothing. -/
structure Before (x : Transfer) (fs₀ : Fs) (s : Session) : Prop where
  tarball : s.tarball = some x.content
  server : (∃ pending, ServerAt x fs₀ s.fs s.thread pending ∧ UpOk x s pending) ∨
    s.thread.Quit
  down : s.down.queue = []
  client : (∃ unsent, ClientAt x s.pos s.upload unsent) ∧
      Awaits x s.upload x.digestMsg ∨ s.upload.Quit

/-- A thread that is done with its file leaves the file system as it is. -/
theorem Moved.server {fs₀ : Fs} {s : Session} (h : Moved x fs₀ s) {o : Op} {res : Res} {fs : Fs}
    {t : Thread} (hstep : ThreadStep x.site s.fs s.thread o res fs t) :
    fs = s.fs ∧ t.handler.stage = .late ∧ ∀ w, t.writer = some w → w.buf = [] := by
  have hlate : ∀ g : Handler, s.thread.handler.Goes g → g.stage = .late := fun g hg =>
    hg.stage.elim (fun hs => hs.trans h.late) id
  have hstage : ∀ pc, s.thread.handler.pc = pc → pc.stage = .late := by
    rintro _ rfl
    exact h.late
  cases hstep with
  | recv ho hpos hlen => exact ⟨rfl, hlate _ (Handler.resume_bytes _ _), h.buf⟩
  | send ho => exact ⟨rfl, hlate _ (Handler.resume_send ho), h.buf⟩
  | closeSocket ho => exact ⟨rfl, hlate _ (Handler.resume_closeSocket ho), h.buf⟩
  | raise ho hbs hsys => exact ⟨rfl, (Handler.resume_raised _ _).1, h.buf⟩
  | openWrite ho hloc => cases hstage _ (Handler.op_openWrite ho).1
  | system ho hrun => cases hstage _ (Handler.op_system ho).1
  | file ho hbs hw k hres hall =>
    rename_i bs w
    cases o with
    | write chunk =>
      obtain ⟨msgLen, hpc⟩ := Handler.op_write ho
      cases hstage _ hpc
    | flush => cases hstage _ (Handler.op_flush ho)
    | closeFile =>
      obtain rfl := Option.some.inj hbs
      have hput : (w.put []).buf = [] := by simp [Writer.put, h.buf w hw]
      refine ⟨Writer.emitted_of_buf_eq_nil hput k s.fs, ?_, fun w hw => by cases hw⟩
      have hpc := Handler.op_closeFile ho
      rcases hres with rfl | rfl <;>
        simp [Thread.resume, Handler.resume, hpc, Handler.stage, Pc.stage]
    | _ => cases hbs

/-- In the `finally` block the server only closes its file and its socket. -/
theorem Server.Thread.Quit.step {fs fs' : Fs} {t t' : Thread} {o : Op} {res : Res} (hq : t.Quit)
    (h : ThreadStep x.site fs t o res fs' t') :
    t'.Quit ∧ (o = .closeFile ∨ o = .closeSocket) := by
  have hop : ∀ o, t.op x.site = some o → o = .closeFile ∨ o = .closeSocket := by
    intro o ho
    rcases hq with hpc | hpc | hpc <;> simp only [Thread.op, Handler.op, hpc] at ho
    · exact .inl (Option.some.inj ho).symm
    · exact .inr (Option.some.inj ho).symm
    · cases ho
  have hresume : ∀ res, res = .done ∨ res = .raised → (t.resume x.site res).Quit := by
    rintro res (rfl | rfl) <;> rcases hq with hpc | hpc | hpc <;>
      simp [Thread.Quit, Thread.resume, Handler.resume, hpc]
  cases h with
  | closeSocket ho => exact ⟨hresume _ (.inl rfl), .inr rfl⟩
  | raise ho hbs hsys => exact ⟨hresume _ (.inr rfl), hop _ ho⟩
  | file ho hbs hw k hres hall => exact ⟨hresume _ hres, hop _ ho⟩
  | recv ho => rcases hop _ ho with h | h <;> cases h
  | openWrite ho => rcases hop _ ho with h | h <;> cases h
  | system ho => rcases hop _ ho with h | h <;> cases h
  | send ho => rcases hop _ ho with h | h <;> cases h

theorem Server.Thread.Quit.silent {t : Thread} (hq : t.Quit) (msg : Bytes) :
    t.op x.site ≠ some (.send msg) := by
  intro ho
  rcases hq with hpc | hpc | hpc <;> simp [Thread.op, Handler.op, hpc] at ho

/-- A call of the server that raises leads to the `finally` block. -/
theorem ThreadStep.raised_quit {fs fs' : Fs} {t t' : Thread} {o : Op}
    (h : ThreadStep x.site fs t o .raised fs' t') : t'.Quit := by
  have hresume : (t.resume x.site .raised).Quit := by
    cases hpc : t.handler.pc <;> cases htar : t.handler.tarFile <;>
      simp [Thread.Quit, Thread.resume, Handler.resume, Handler.finish, hpc, htar]
  cases h with
  | raise ho hbs hsys => exact hresume
  | file ho hbs hw k hres hall => exact hresume

theorem ThreadStep.op_eq {fs fs' : Fs} {t t' : Thread} {o : Op} {res : Res}
    (h : ThreadStep x.site fs t o res fs' t') : t.op x.site = some o := by
  cases h <;> assumption

/-- Until the move there is nothing to send. -/
theorem ServerAt.silent {fs₀ fs : Fs} {t : Thread} {pending : Bytes}
    (h : ServerAt x fs₀ fs t pending) (msg : Bytes) : t.op x.site ≠ some (.send msg) := by
  intro ho
  cases h <;> cases ho

theorem ServerAfter.late {t : Thread} {reply : Bytes} (h : ServerAfter x t reply) :
    t.handler.stage = .late ∧ ∀ w, t.writer = some w → w.buf = [] := by
  cases h with
  | sendLen hbuf => exact ⟨rfl, fun w hw => Option.some.inj hw ▸ hbuf⟩
  | sendDigest hbuf => exact ⟨rfl, fun w hw => Option.some.inj hw ▸ hbuf⟩
  | closing hbuf => exact ⟨rfl, fun w hw => Option.some.inj hw ▸ hbuf⟩
  | closingSocket => exact ⟨rfl, fun w hw => by cases hw⟩
  | done => exact ⟨rfl, fun w hw => by cases hw⟩

theorem digestMsg_ne_nil (x : Transfer) : x.digestMsg ≠ [] := by
  simp [Transfer.digestMsg, be32]

/-- What the client has sent and has not sent stays the same, also when a call raises. -/
theorem client_up (hx : x.Sendable) {tb : Option Bytes} {pos pos' : Nat} {u u' : Client.Upload}
    {unsent : Bytes} {o : Op} {res : Res} {inp inp' out out' : Chan}
    (hc : ClientAt x pos u unsent ∨ u.Quit)
    (hstep : Client.UploadStep x.client x.site.hexdigest (some x.content) pos u o res tb pos' u')
    (hw : Wires inp out o res inp' out') (hended : out.ended = false) :
    ∃ unsent', out.queue ++ unsent = out'.queue ++ unsent' ∧
      (ClientAt x pos' u' unsent' ∨ u'.Quit) := by
  have ho := UploadStep.op_eq hstep
  rcases hc with hat | hq
  · by_cases hr : ∃ n, o = .recv n
    · obtain ⟨n, rfl⟩ := hr
      obtain ⟨rfl, rfl, rfl, rfl, ⟨rfl, -⟩ | ⟨tmp, rfl, -⟩⟩ := UploadStep.recv hstep hw
      · exact ⟨unsent, rfl, .inr hat.raised⟩
      · obtain ⟨rfl, hat' | hq⟩ := hat.recv ho tmp
        · exact ⟨[], rfl, .inl hat'⟩
        · exact ⟨[], rfl, .inr hq⟩
    · have hnr : ∀ n, o ≠ .recv n := fun n hn => hr ⟨n, hn⟩
      rcases hat.call hstep hw hnr with
        ⟨unsent', hsplit, hres, -, hat', -⟩ | ⟨hq, -, hwhy⟩ | ⟨hpc, hsplit, hafter⟩
      · exact ⟨unsent', by
          rw [hsplit, ← List.append_assoc, hw.sent_eq hres hended], .inl hat'⟩
      · obtain rfl : res = .raised := hwhy.resolve_right fun hn => hn hx
        cases hw with
        | sendRaised k =>
          rename_i msg
          -- the part that was not sent stays unsent
          rcases hat.socket ho rfl hnr with
            ⟨unsent', hsplit, -⟩ | ⟨-, -, hn⟩ | ⟨-, hsplit, -⟩
          · refine ⟨msg.drop k ++ unsent', ?_, .inr hq⟩
            have hmsg : msg ++ unsent' = msg.take k ++ (msg.drop k ++ unsent') := by
              rw [← List.append_assoc, List.take_append_drop]
            simpa [Chan.push, hended, hsplit, sent] using hmsg
          · exact absurd hx (hn.resolve_left fun h => by cases h)
          · refine ⟨msg.drop k, ?_, .inr hq⟩
            simp [Chan.push, hended, hsplit, sent]
        | recvRaised => exact absurd rfl (hnr _)
        | _ => exact ⟨unsent, rfl, .inr hq⟩
      · have hns : ∀ msg, o ≠ .send msg := by
          rintro msg rfl
          simp [Client.Upload.op, hpc] at ho
        exact ⟨unsent, by rw [(hw.out_eq hns).1], .inr hafter.quit⟩
  · obtain ⟨hq', -, hclose⟩ := hq.step hstep
    have hns : ∀ msg, o ≠ .send msg := by
      rintro msg rfl
      rcases hclose with h | h <;> cases h
    exact ⟨unsent, by rw [(hw.out_eq hns).1], .inr hq'⟩

/-- An ended direction takes no more bytes. -/
theorem Wires.queue_of_ended {inp out inp' out' : Chan} {o : Op} {res : Res}
    (h : Wires inp out o res inp' out') (hended : out.ended = true) :
    out'.queue = out.queue ∧ out'.ended = true := by
  cases h <;> simp [Chan.push, Chan.close, hended]

/-- While nothing comes back, the client waits and keeps its tarball. -/
theorem client_down (hx : x.Sendable) {tb : Option Bytes} {pos pos' : Nat}
    {u u' : Client.Upload} {unsent : Bytes} {o : Op} {res : Res} {inp inp' out out' : Chan}
    (hat : ClientAt x pos u unsent) (ha : Awaits x u x.digestMsg) (hq : inp.queue = [])
    (hstep : Client.UploadStep x.client x.site.hexdigest (some x.content) pos u o res tb pos' u')
    (hw : Wires inp out o res inp' out') :
    tb = some x.content ∧
      ((∃ unsent', ClientAt x pos' u' unsent') ∧ Awaits x u' x.digestMsg ∨ u'.Quit) := by
  have ho := UploadStep.op_eq hstep
  by_cases hr : ∃ n, o = .recv n
  · obtain ⟨n, rfl⟩ := hr
    obtain ⟨rfl, rfl, rfl, rfl, ⟨rfl, -⟩ | ⟨tmp, rfl, hrecv⟩⟩ :=
      UploadStep.recv hstep hw
    · exact ⟨rfl, .inr hat.raised⟩
    · obtain ⟨hsplit, -, hlen⟩ := hrecv.split
      obtain rfl : tmp = [] := by
        rw [hq] at hsplit
        exact (List.append_eq_nil_iff.mp hsplit.symm).1
      obtain ⟨awaited', hsplit', hat', ha'⟩ := hat.recv_reply hx ho hlen ha (List.nil_prefix)
      rw [List.nil_append] at hsplit'
      exact ⟨rfl, .inl ⟨⟨unsent, hat'⟩, hsplit' ▸ ha'⟩⟩
  · rcases hat.call hstep hw fun n hn => hr ⟨n, hn⟩ with
      ⟨unsent', -, -, htb, hat', htrans⟩ | ⟨hq, htb, -⟩ | ⟨hpc, -⟩
    · exact ⟨htb, .inl ⟨⟨unsent', hat'⟩, htrans _ ha⟩⟩
    · exact ⟨htb, .inr hq⟩
    · -- in `removing` nothing is awaited
      simp only [Awaits, hpc] at ha
      exact absurd ha (digestMsg_ne_nil x)

/-! ## Runs -/

theorem Before.clientStep (hx : x.Sendable) {fs₀ : Fs} {s : Session}
    (h : Before x fs₀ s) {o : Op} {res : Res} {tb : Option Bytes} {pos : Nat} {u : Client.Upload}
    {up down : Chan} (hstep : Client.UploadStep x.client x.site.hexdigest s.tarball s.pos s.upload
      o res tb pos u)
    (hw : Wires s.down s.up o res down up) :
    Before x fs₀ { s with tarball := tb, pos := pos, upload := u, up := up, down := down } := by
  rw [h.tarball] at hstep
  have hdown : down.queue = [] := by
    have hsplit := hw.received.1
    rw [h.down] at hsplit
    exact (List.append_eq_nil_iff.mp hsplit.symm).2
  have hclient : tb = some x.content ∧
      ((∃ unsent', ClientAt x pos u unsent') ∧ Awaits x u x.digestMsg ∨ u.Quit) := by
    rcases h.client with ⟨⟨unsent, hat⟩, ha⟩ | hq
    · exact client_down hx hat ha h.down hstep hw
    · obtain ⟨hq', htb, -⟩ := hq.step hstep
      exact ⟨htb, .inr hq'⟩
  refine ⟨hclient.1, ?_, hdown, hclient.2⟩
  rcases h.server with ⟨pending, hat, hpre, hup⟩ | hq
  · refine .inl ⟨pending, hat, ?_⟩
    cases hended : s.up.ended with
    | true =>
      obtain ⟨hqueue, hended'⟩ := hw.queue_of_ended hended
      refine ⟨?_, fun hn => ?_⟩
      · simpa only [hqueue] using hpre
      · cases hended'.symm.trans hn
    | false =>
      obtain ⟨unsent, hsplit, hc⟩ := hup hended
      obtain ⟨unsent', hsplit', hc'⟩ := client_up hx hc hstep hw hended
      rw [hsplit'] at hsplit
      exact ⟨⟨unsent', hsplit.symm⟩, fun _ => ⟨unsent', hsplit, hc'⟩⟩
  · exact .inr hq

theorem Before.serverStep (hx : x.Sendable) {fs₀ : Fs} {s : Session}
    (h : Before x fs₀ s) {o : Op} {res : Res} {fs : Fs} {t : Thread} {up down : Chan}
    (hstep : ThreadStep x.site s.fs s.thread o res fs t) (hw : Wires s.up s.down o res up down) :
    Moved x fs₀ { s with fs := fs, thread := t, up := up, down := down } ∨
      Before x fs₀ { s with fs := fs, thread := t, up := up, down := down } := by
  have hns : ∀ msg, o ≠ .send msg := by
    rintro msg rfl
    rcases h.server with ⟨pending, hat, -⟩ | hq
    · exact hat.silent msg (ThreadStep.op_eq hstep)
    · exact hq.silent msg (ThreadStep.op_eq hstep)
  have hdown : down.queue = [] := (hw.out_eq hns).1.trans h.down
  rcases h.server with ⟨pending, hat, hpre, hup⟩ | hq
  · by_cases hres : res = .raised
    · subst hres
      exact .inr ⟨h.tarball, .inr (ThreadStep.raised_quit hstep), hdown, h.client⟩
    · obtain ⟨hsplit, hended⟩ := hw.received
      have hrecv : received o res <+: pending := by
        rw [hsplit] at hpre
        exact (List.prefix_append _ _).trans hpre
      rcases hat.call hx hstep hres hrecv with
        ⟨pending', hpend, hat'⟩ | ⟨-, hfs, hmv, hafter⟩
      · refine .inr ⟨h.tarball, .inl ⟨pending', hat', ?_, fun hn => ?_⟩, hdown, h.client⟩
        · rw [hsplit, hpend] at hpre
          exact (List.prefix_append_right_inj _).mp hpre
        · obtain ⟨unsent, hunsent, hc⟩ := hup (hended ▸ hn)
          refine ⟨unsent, ?_, hc⟩
          rw [hsplit, hpend, List.append_assoc] at hunsent
          exact List.append_cancel_left hunsent
      · rw [hfs] at hmv
        exact .inl ⟨hmv, hafter.late.1, hafter.late.2⟩
  · exact .inr ⟨h.tarball, .inr (hq.step hstep).1, hdown, h.client⟩

theorem Before.cut {fs₀ : Fs} {s : Session} (h : Before x fs₀ s) (k : Nat) :
    Before x fs₀ { s with up := s.up.cut k } ∧
      Before x fs₀ { s with down := s.down.cut k } := by
  refine ⟨⟨h.tarball, ?_, h.down, h.client⟩,
    ⟨h.tarball, h.server, by simp [Chan.cut, h.down], h.client⟩⟩
  rcases h.server with ⟨pending, hat, hpre, -⟩ | hq
  · exact .inl ⟨pending, hat, (List.take_prefix _ _).trans hpre, fun hn => by cases hn⟩
  · exact .inr hq

/-- After the move the files stay. -/
theorem Moved.step {fs₀ : Fs} {s s' : Session} {e : SessionEvent} (h : Moved x fs₀ s)
    (hstep : SessionStep x s e s') : Moved x fs₀ s' ∧ s'.fs = s.fs := by
  cases hstep with
  | server hstep hw =>
    obtain ⟨rfl, hlate, hbuf⟩ := h.server hstep
    exact ⟨⟨h.mv, hlate, hbuf⟩, rfl⟩
  | _ => exact ⟨⟨h.mv, h.late, h.buf⟩, rfl⟩

theorem moved_or_before_step (hx : x.Sendable) {fs₀ : Fs} {s s' : Session} {e : SessionEvent}
    (h : Moved x fs₀ s ∨ Before x fs₀ s) (hstep : SessionStep x s e s') :
    Moved x fs₀ s' ∨ Before x fs₀ s' := by
  rcases h with hm | hb
  · exact .inl (hm.step hstep).1
  · cases hstep with
    | client hstep hw => exact .inr (hb.clientStep hx hstep hw)
    | server hstep hw => exact hb.serverStep hx hstep hw
    | cutUp k => exact .inr (hb.cut k).1
    | cutDown k => exact .inr (hb.cut k).2

theorem serverAt_start (fs₀ : Fs) : ServerAt x fs₀ fs₀ {} x.wire :=
  .nameLen (RecvMsg.within_start (be32 x.name.length)) (by simp [be32])

theorem before_start (fs₀ : Fs) : Before x fs₀ (x.start fs₀) where
  tarball := rfl
  server :=
    .inl ⟨_, serverAt_start fs₀, List.nil_prefix, fun _ => ⟨_, rfl, .inl .connecting⟩⟩
  down := rfl
  client := .inl ⟨⟨_, .connecting⟩, rfl⟩

/-- A client that has removed its tarball has sent everything. -/
theorem sendable_of_removed {fs₀ : Fs} {es : List SessionEvent} {s : Session}
    (hrun : Run (SessionStep x) (x.start fs₀) es s) (hremoved : s.tarball = none) :
    x.Sendable := by
  have hok : ClientOk x s :=
    hrun.invariant (fun _ _ _ h hs => h.step hs) (.inl ⟨rfl, .inl ⟨_, .connecting⟩⟩)
  rcases hok with ⟨htb, -⟩ | hafter
  · cases hremoved.symm.trans htb
  · exact hafter.sendable

/-- The shell runs the `mv` of the server on the file that was received. -/
def Transfer.MvWorks (x : Transfer) : Prop :=
  ∀ fs fs', fs.read x.recvLoc = some x.content → x.site.system x.mvCommand fs fs' →
    fs'.read x.tarLoc = some x.content

theorem Transfer.filled_read (fs : Fs) (data : Bytes) :
    (x.filled fs data).read x.recvLoc = some data := by
  simp [Transfer.filled, Fs.read, Fs.openTrunc_entry]

/-- Wherever the connection is cut and whatever raises, the client removes its tarball only when
the server has moved a file of that name and content to `tar_dir`. -/
theorem removed_only_if_moved (hmv : x.MvWorks) {fs₀ : Fs} {es : List SessionEvent} {s : Session}
    (hrun : Run (SessionStep x) (x.start fs₀) es s) (hremoved : s.tarball = none) :
    s.fs.read x.tarLoc = some x.content := by
  have hx := sendable_of_removed hrun hremoved
  have hcase : Moved x fs₀ s ∨ Before x fs₀ s :=
    hrun.invariant (fun _ _ _ h hs => moved_or_before_step hx h hs) (.inr (before_start fs₀))
  rcases hcase with hm | hb
  · exact hmv _ _ (x.filled_read fs₀ x.content) hm.mv
  · cases hremoved.symm.trans hb.tarball

/-- The upload of the file `a` under the name `x`, between machines on which `mv` and `rm` work. -/
def uploadX : Transfer where
  client :=
    { tarDir := ascii "c"
      tarName := [120]
      system := fun command _ tb => command = Client.rmCommand (ascii "c") [120] → tb = none }
  site :=
    { demoSite with
      system := fun command fs fs' => ∀ name, Plain name →
        command = mvCommand (ascii "t") (join (ascii "r") name) →
        fs.rename ⟨0, name⟩ ⟨1, name⟩ = some fs' }
  content := [97]
  fileName := plain_x.toIsFileName

theorem uploadX_mv {fs fs' : Fs} :
    uploadX.site.system uploadX.mvCommand fs fs' ↔
      fs.rename ⟨0, [120]⟩ ⟨1, [120]⟩ = some fs' := by
  refine ⟨fun h => h [120] plain_x rfl, fun h name hname hcommand => ?_⟩
  obtain rfl := mvCommand_x_inj hname hcommand
  exact h

theorem uploadX_mvWorks : uploadX.MvWorks := by
  intro fs fs' hread hrun
  exact (Fs.read_rename (uploadX_mv.mp hrun)).trans hread

/-- One run of it: the client sends, the server receives and replies, the client removes. -/
theorem uploadX_run :
    Reaches (SessionStep uploadX) (uploadX.start emptyFs) fun s => s.tarball = none := by
  obtain ⟨fs', hren⟩ : ∃ fs', demoFs.rename ⟨0, [120]⟩ ⟨1, [120]⟩ = some fs' :=
    ⟨_, rfl⟩
  -- the client sends the name, the size, the content and the digest
  refine .head (.client (.socket rfl rfl fun _ => .inl rfl) .connect) ?_
  refine .head (.client (.socket rfl rfl (by simp)) .send) ?_
  refine .head (.client (.socket rfl rfl (by simp)) .send) ?_
  refine .head (.client (.getsize rfl) (.other rfl)) ?_
  refine .head (.client (.openRead rfl) (.other rfl)) ?_
  refine .head (.client (.socket rfl rfl (by simp)) .send) ?_
  refine .head (.client (.read rfl) (.other rfl)) ?_
  refine .head (.client (.socket rfl rfl (by simp)) .send) ?_
  refine .head (.client (.socket rfl rfl (by simp)) .send) ?_
  refine .head (.client (.socket rfl rfl (by simp)) .send) ?_
  change Reaches _ { (uploadX.start emptyFs) with
    pos := 1, upload := openUpload (.recvLen { left := 4 }) [97], up :=
      { queue := uploadX.wire } } _
  -- the server receives them, moves the file and replies
  refine .head (SessionStep.serverRecv 4 rfl (by decide) (by decide) (by decide)) ?_
  refine .head (SessionStep.serverRecv 1 rfl (by decide) (by decide) (by decide)) ?_
  have hwalk : uploadX.site.walk [114, 47, 120] = some ⟨0, [120]⟩ := rfl
  refine .head (.server (.openWrite rfl hwalk) (.other rfl)) ?_
  refine .head (SessionStep.serverRecv 4 rfl (by decide) (by decide) (by decide)) ?_
  refine .head (SessionStep.serverRecv 1 rfl (by decide) (by decide) (by decide)) ?_
  refine .head (.server (.file rfl rfl rfl 0 (.inl rfl) (by simp)) (.other rfl)) ?_
  refine .head (.server (.file rfl rfl rfl 1 (.inl rfl) fun _ _ => ?_) (.other rfl)) ?_
  · exact Nat.le_refl 1
  refine .head (SessionStep.serverRecv 4 rfl (by decide) (by decide) (by decide)) ?_
  refine .head (SessionStep.serverRecv 32 rfl (by decide) (by decide) (by decide)) ?_
  refine .head (.server (.system rfl (uploadX_mv.mpr hren)) (.other rfl)) ?_
  refine .head (.server (.send rfl) .send) ?_
  refine .head (.server (.send rfl) .send) ?_
  change Reaches _ { (uploadX.start fs') with
    pos := 1, upload := openUpload (.recvLen { left := 4 }) [97]
    down := { queue := uploadX.digestMsg }
    thread := fullThread uploadX .closing (some { file := 0, pos := 1 }) } _
  -- the client receives the reply and removes its tarball
  have hfour : 4 ≤ uploadX.digestMsg.length := by decide
  refine .head (SessionStep.clientRecv 4 rfl (by decide) (by decide) hfour) ?_
  change Reaches _ { (uploadX.start fs') with
    pos := 1, upload := openUpload (.recvDigest { left := 32 }) [97]
    down := { queue := uploadX.digest }
    thread := fullThread uploadX .closing (some { file := 0, pos := 1 }) } _
  have hrest : 32 ≤ uploadX.digest.length := by decide
  refine .head (SessionStep.clientRecv 32 rfl (by decide) (by decide) hrest) ?_
  exact .head (.client (.system rfl fun _ => rfl) (.other rfl)) ⟨[], _, .nil _, rfl⟩

theorem removed_only_if_moved_demo : uploadX.MvWorks ∧
    Reaches (SessionStep uploadX) (uploadX.start emptyFs) fun s =>
      s.tarball = none ∧ s.fs.read ⟨1, [120]⟩ = some [97] := by
  obtain ⟨es, s, hrun, hremoved⟩ := uploadX_run
  exact ⟨uploadX_mvWorks, es, s, hrun, hremoved,
    removed_only_if_moved uploadX_mvWorks hrun hremoved⟩

end CarFi.Uploader
