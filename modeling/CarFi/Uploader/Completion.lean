import CarFi.Uploader.Progress

/-!
# An upload without failures completes

Every run without failures is bounded, and it ends with the file in place if the messages can be
sent and the shell does its part. Each of these conditions is needed.
-/
namespace CarFi.Uploader

open Library Server

variable {x : Transfer}

/-- Both ends are done, and the server has what the client sent. -/
structure Transfer.Success (x : Transfer) (s : Session) : Prop where
  client : s.upload.pc = .done
  server : s.thread.handler.pc = .done
  fileName : s.thread.handler.fileName = x.name
  content : s.thread.handler.localMd5 = x.content
  digest : s.thread.handler.peerDigest = x.digest
  placed : s.fs.read x.tarLoc = some x.content
  removed : s.tarball = none

/-- Every run without failures ends, and ends with success. -/
def Transfer.Completes (x : Transfer) : Prop :=
  ∀ fs₀, (∃ n, ∀ es s, Run (SmoothStep x) (x.start fs₀) es s → es.length ≤ n) ∧
    ∀ es s, Run (SmoothStep x) (x.start fs₀) es s → Stuck (SmoothStep x) s → x.Success s

/-! ## The two commands -/

/-- The `mv` of the server ends, and the file that was received is in `tar_dir` then. -/
def Transfer.MvPlaces (x : Transfer) : Prop :=
  ∀ fs, fs.read x.recvLoc = some x.content → (∃ fs', x.site.system x.mvCommand fs fs') ∧
    ∀ fs', x.site.system x.mvCommand fs fs' → fs'.read x.tarLoc = some x.content

/-- The `rm` of the client ends, and the tarball is gone then. -/
def Transfer.RmRemoves (x : Transfer) : Prop :=
  (∃ tb, x.client.system x.rmCommand (some x.content) tb) ∧
    ∀ tb, x.client.system x.rmCommand (some x.content) tb → tb = none

/-- At `moving` the server runs its command on the complete file. -/
theorem ServerAt.move {fs₀ fs : Fs} {t : Thread} {pending : Bytes}
    (h : ServerAt x fs₀ fs t pending) (hpc : t.handler.pc = .moving) :
    fs = x.filled fs₀ x.content ∧ t.op x.site = some (.system x.mvCommand) ∧
      ∀ w, t.writer = some w → w.buf = [] := by
  cases h with
  | moving hbuf => exact ⟨rfl, rfl, fun w hw => Option.some.inj hw ▸ hbuf⟩
  | _ => cases hpc

theorem ClientAt.remove {pos : Nat} {u : Client.Upload} {unsent : Bytes}
    (h : ClientAt x pos u unsent) (hpc : u.pc = .removing) :
    u.op x.client.tarDir x.client.tarName x.site.hexdigest = some (.system x.rmCommand) := by
  cases h with
  | removing => rfl
  | _ => cases hpc

theorem ServerAfter.fullThread_of_done {t : Thread} {reply : Bytes} (h : ServerAfter x t reply)
    (hpc : t.handler.pc = .done) : t = fullThread x .done none := by
  cases h with
  | done => rfl
  | _ => cases hpc

section Moment

variable {fs₀ : Fs} {s : Session} {pending reply unsent awaited : Bytes}

/-- At `moving`, any outcome of the command is a step. -/
theorem Stands.move (h : Stands x fs₀ s pending reply unsent awaited)
    (hpc : s.thread.handler.pc = .moving) :
    s.fs = x.filled fs₀ x.content ∧ ∀ fs', x.site.system x.mvCommand s.fs fs' →
      SmoothStep x s (.server (.system x.mvCommand) .done)
        { s with fs := fs', thread := s.thread.resume x.site .done } ∧
      Moved x fs₀ { s with fs := fs', thread := s.thread.resume x.site .done } := by
  rcases h.server with ⟨hat, -⟩ | ⟨-, -, hmoved⟩
  · obtain ⟨hfs, ho, hbuf⟩ := hat.move hpc
    refine ⟨hfs, fun fs' hrun => ⟨⟨by simp [SessionEvent.Smooth], ?_⟩, ?_, ?_, hbuf⟩⟩
    · exact .server (.system ho hrun) (.other rfl)
    · exact hfs ▸ hrun
    · exact (Handler.resume_system ho).2.1
  · have hlate := hmoved.late
    simp [Handler.stage, hpc, Pc.stage] at hlate

/-- At `removing`, any outcome of the command is a step. -/
theorem Stands.remove (h : Stands x fs₀ s pending reply unsent awaited)
    (hpc : s.upload.pc = .removing) :
    ∀ tb, x.client.system x.rmCommand (some x.content) tb →
      SmoothStep x s (.client (.system x.rmCommand) .done)
        { s with
          tarball := tb
          upload := s.upload.resume x.client.tarName x.site.hexdigest .done } := by
  intro tb hrun
  rcases h.client with ⟨htb, hat, -⟩ | ⟨-, -, hafter⟩
  · rw [← htb] at hrun
    exact ⟨by simp [SessionEvent.Smooth], .client (.system (hat.remove hpc) hrun) (.other rfl)⟩
  · rcases hafter.quit with hq | hq | hq <;> cases hpc.symm.trans hq

/-- At the end of both programs the server has everything. -/
theorem Stands.success (h : Stands x fs₀ s pending reply unsent awaited) (hmv : x.MvPlaces)
    (hrm : x.RmRemoves) (hclient : s.upload.pc = .done) (hserver : s.thread.handler.pc = .done) :
    x.Success s := by
  obtain ⟨hafter, hmoved⟩ : ServerAfter x s.thread reply ∧ Moved x fs₀ s := by
    rcases h.server with ⟨hat, -⟩ | ⟨-, hafter⟩
    · exact absurd (by simp [Handler.stage, hserver, Pc.stage]) hat.not_late
    · exact hafter
  have hthread := hafter.fullThread_of_done hserver
  refine ⟨hclient, hserver, ?_, ?_, ?_, ?_, ?_⟩
  · rw [hthread, fullThread]
  · rw [hthread, fullThread]
  · rw [hthread, fullThread]
  · exact (hmv _ (x.filled_read fs₀ x.content)).2 _ hmoved.mv
  · rcases h.client with ⟨-, hat, -⟩ | ⟨-, -, hafter⟩
    · exact absurd (.inr (.inr hclient)) hat.not_quit
    · exact hrm.2 _ hafter.rm

end Moment

theorem StandsAt.run (hx : x.Sendable) {fs₀ : Fs} {es : List SessionEvent} {s : Session}
    (hrun : Run (SmoothStep x) (x.start fs₀) es s) : ∃ n, StandsAt x fs₀ n s := by
  apply hrun.invariant
  · rintro s e t ⟨n, hn⟩ hstep
    obtain ⟨m, -, hm⟩ := hn.step hx hstep
    exact ⟨m, hm⟩
  · exact ⟨_, _, _, _, _, stands_start fs₀, rfl⟩

theorem completes_of_sendable (hx : x.Sendable) (hmv : x.MvPlaces) (hrm : x.RmRemoves) :
    x.Completes := by
  intro fs₀
  constructor
  · have hstart : StandsAt x fs₀ _ (x.start fs₀) := ⟨_, _, _, _, stands_start fs₀, rfl⟩
    exact ⟨_, fun es s hrun => hrun.length_le (fun n s e t h hs => h.step hx hs) hstart⟩
  · intro es s hrun hstuck
    obtain ⟨-, pending, reply, unsent, awaited, h, -⟩ := StandsAt.run hx hrun
    rcases h.progress with ⟨hclient, hserver⟩ | hpc | hpc | ⟨e, s', hstep⟩
    · exact h.success hmv hrm hclient hserver
    · obtain ⟨tb, hrun⟩ := hrm.1
      exact absurd (h.remove hpc tb hrun) (hstuck _ _)
    · obtain ⟨hfs, hmove⟩ := h.move hpc
      obtain ⟨fs', hrun⟩ := (hmv s.fs (hfs ▸ x.filled_read fs₀ x.content)).1
      exact absurd (hmove fs' hrun).1 (hstuck _ _)
    · exact absurd hstep (hstuck e s')

/-! ## What completion needs -/

/-- Every run without failures goes on to success. -/
theorem Transfer.Completes.extend (h : x.Completes) {fs₀ : Fs}
    {es : List SessionEvent} {s : Session} (hrun : Run (SmoothStep x) (x.start fs₀) es s) :
    ∃ es' t, Run (SmoothStep x) s es' t ∧ x.Success t := by
  obtain ⟨⟨n, hn⟩, hsuccess⟩ := h fs₀
  have hbound : ∀ es' t, Run (SmoothStep x) s es' t → es'.length ≤ n := by
    intro es' t hrun'
    have hlen := hn _ _ (hrun.trans hrun')
    rw [List.length_append] at hlen
    omega
  obtain ⟨es', t, hrun', hstuck⟩ := Run.exists_stuck hbound
  exact ⟨es', t, hrun', hsuccess _ _ (hrun.trans hrun') hstuck⟩

theorem Transfer.Completes.sendable (h : x.Completes) : x.Sendable := by
  obtain ⟨es, s, hrun, hsuccess⟩ :=
    h.extend (.nil (x.start ⟨fun _ => none, fun _ => [], 0⟩))
  exact sendable_of_removed (hrun.mono fun _ _ _ hs => hs.2) hsuccess.removed

section Outcome

variable {fs₀ : Fs} {s : Session} {pending reply unsent awaited : Bytes}

/-- The server comes past the move by running it. -/
theorem Stands.moving_of_late (hx : x.Sendable) (h : Stands x fs₀ s pending reply unsent awaited)
    {e : SessionEvent} {s' : Session} (hstep : SmoothStep x s e s')
    (hbefore : s.thread.handler.stage ≠ .late) (hafter : s'.thread.handler.stage = .late) :
    s.thread.handler.pc = .moving ∧ ∃ fs', x.site.system x.mvCommand s.fs fs' := by
  obtain ⟨hsmooth, hstep⟩ := hstep
  cases hstep with
  | server hcall hw =>
    rcases h.server with ⟨hat, -⟩ | ⟨-, -, hmoved⟩
    · have hpre := hw.received.1
      rcases hat.call hx hcall hsmooth
        (by rw [h.up, hpre, List.append_assoc]; exact List.prefix_append _ _) with
          ⟨pending', -, hat'⟩ | ⟨hpc, -, hmv, -⟩
      · exact absurd hafter hat'.not_late
      · exact ⟨hpc, _, hmv⟩
    · exact absurd hmoved.late hbefore
  | _ => exact absurd hafter hbefore

theorem UploadStep.system_run {tb tb' : Option Bytes} {pos pos' : Nat} {u u' : Client.Upload}
    {command : Bytes} {res : Res}
    (h : Client.UploadStep x.client x.site.hexdigest tb pos u (.system command) res tb' pos' u') :
    x.client.system command tb tb' := by
  cases h with
  | system ho hrun => exact hrun
  | socket ho hs => cases hs
  | raise ho hs hsys => exact absurd rfl (hsys _)

/-- The client comes to its `finally` block by running the removal. -/
theorem Stands.removing_of_quit (hx : x.Sendable)
    (h : Stands x fs₀ s pending reply unsent awaited) {e : SessionEvent} {s' : Session}
    (hstep : SmoothStep x s e s') (hbefore : ¬ s.upload.Quit) (hafter : s'.upload.Quit) :
    s.upload.pc = .removing ∧ ∃ tb, x.client.system x.rmCommand (some x.content) tb := by
  obtain ⟨hsmooth, hstep⟩ := hstep
  cases hstep with
  | @client o res tb pos u up down hcall hw =>
    rcases h.client with ⟨htb, hat, ha⟩ | ⟨-, -, hq⟩
    · rw [htb] at hcall
      by_cases hr : ∃ n, o = .recv n
      · obtain ⟨n, rfl⟩ := hr
        have ho := UploadStep.op_eq hcall
        obtain ⟨-, -, -, rfl, ⟨rfl, -⟩ | ⟨tmp, rfl, hrecv⟩⟩ := UploadStep.recv hcall hw
        · exact absurd rfl hsmooth
        · have hpre : tmp <+: awaited := by
            rw [h.down, hrecv.split.1, List.append_assoc]
            exact List.prefix_append _ _
          obtain ⟨-, -, hat', -⟩ := hat.recv_reply hx ho hrecv.split.2.2 ha hpre
          exact absurd hafter hat'.not_quit
      · rcases hat.call hcall hw fun n hn => hr ⟨n, hn⟩ with
          ⟨unsent', -, -, -, hat', -⟩ | ⟨-, -, hwhy⟩ | ⟨hpc, -, -⟩
        · exact absurd hafter hat'.not_quit
        · exact (hwhy.elim hsmooth fun hn => hn hx).elim
        · obtain rfl := Option.some.inj ((UploadStep.op_eq hcall).symm.trans (hat.remove hpc))
          exact ⟨hpc, tb, UploadStep.system_run hcall⟩
    · exact absurd hq.quit hbefore
  | _ => exact absurd hafter hbefore

/-- After the move the files stay. -/
theorem Moved.run (h : Moved x fs₀ s) {es : List SessionEvent} {t : Session}
    (hrun : Run (SmoothStep x) s es t) : t.fs = s.fs := by
  have hinv : Moved x fs₀ t ∧ t.fs = s.fs := by
    apply hrun.invariant (I := fun t => Moved x fs₀ t ∧ t.fs = s.fs) _ ⟨h, rfl⟩
    rintro u e v ⟨hu, hfs⟩ ⟨-, hstep⟩
    obtain ⟨hv, hstay⟩ := hu.step hstep
    exact ⟨hv, hstay.trans hfs⟩
  exact hinv.2

/-- In the `finally` block the tarball stays. -/
theorem Client.Upload.Quit.run (h : s.upload.Quit) {es : List SessionEvent} {t : Session}
    (hrun : Run (SmoothStep x) s es t) : t.tarball = s.tarball := by
  have hinv : t.upload.Quit ∧ t.tarball = s.tarball := by
    apply hrun.invariant (I := fun t => t.upload.Quit ∧ t.tarball = s.tarball) _ ⟨h, rfl⟩
    rintro u e v ⟨hu, htb⟩ ⟨-, hstep⟩
    cases hstep with
    | client hcall hw =>
      obtain ⟨hq, rfl, -⟩ := hu.step hcall
      exact ⟨hq, htb⟩
    | _ => exact ⟨hu, htb⟩
  exact hinv.2

end Outcome

/-- A file that is there with the content is as after receiving it. -/
theorem Transfer.filled_of_read {fs : Fs} (h : fs.read x.recvLoc = some x.content) :
    x.filled fs x.content = fs := by
  obtain ⟨i, hi, hdata⟩ := Option.map_eq_some_iff.mp h
  simp only [Transfer.filled, Fs.openTrunc, hi]
  rw [Fs.setData_setData]
  exact Fs.setData_of_data_eq hdata

theorem Transfer.Completes.mvPlaces (h : x.Completes) : x.MvPlaces := by
  intro fs hread
  have hx := h.sendable
  obtain ⟨es, t, hrun, hsuccess⟩ := h.extend (.nil (x.start fs))
  have hlate : ¬ t.thread.handler.stage ≠ .late := by
    simp [Handler.stage, hsuccess.server, Pc.stage]
  obtain ⟨es', u, e, v, hrun', hu, hstep, hv⟩ := hrun.exists_leaving
    (P := fun s => s.thread.handler.stage ≠ .late) (fun hs => by cases hs) hlate
  obtain ⟨-, pending, reply, unsent, awaited, hstands, -⟩ := StandsAt.run hx hrun'
  obtain ⟨hpc, hmv⟩ := hstands.moving_of_late hx hstep hu (not_not.mp hv)
  obtain ⟨hfs, hmove⟩ := hstands.move hpc
  have hfs' : u.fs = fs := hfs.trans (Transfer.filled_of_read hread)
  rw [hfs'] at hmv hmove
  refine ⟨hmv, fun fs' hsystem => ?_⟩
  -- the run goes on from this outcome to success
  obtain ⟨hnext, hmoved⟩ := hmove fs' hsystem
  obtain ⟨es₂, w, hrun₂, hsuccess'⟩ := h.extend (hrun'.trans (.single hnext))
  have hplaced := hsuccess'.placed
  rwa [hmoved.run hrun₂] at hplaced

theorem Transfer.Completes.rmRemoves (h : x.Completes) : x.RmRemoves := by
  have hx := h.sendable
  obtain ⟨es, t, hrun, hsuccess⟩ :=
    h.extend (.nil (x.start ⟨fun _ => none, fun _ => [], 0⟩))
  have hstart : ¬ (x.start ⟨fun _ => none, fun _ => [], 0⟩).upload.Quit := by
    rintro (hpc | hpc | hpc) <;> cases hpc
  have hquit : ¬ ¬ t.upload.Quit := not_not.mpr (.inr (.inr hsuccess.client))
  obtain ⟨es', u, e, v, hrun', hu, hstep, hv⟩ :=
    hrun.exists_leaving (P := fun s => ¬ s.upload.Quit) hstart hquit
  obtain ⟨-, pending, reply, unsent, awaited, hstands, -⟩ := StandsAt.run hx hrun'
  obtain ⟨hpc, hrm⟩ := hstands.removing_of_quit hx hstep hu (not_not.mp hv)
  refine ⟨hrm, fun tb hsystem => ?_⟩
  have hnext := hstands.remove hpc tb hsystem
  obtain ⟨es₂, w, hrun₂, hsuccess'⟩ := h.extend (hrun'.trans (.single hnext))
  have hq : (u.upload.resume x.client.tarName x.site.hexdigest .done).Quit := by
    simp only [Client.Upload.resume, hpc]
    exact Client.Upload.finish_quit _
  have hkept : w.tarball = tb := by
    refine Client.Upload.Quit.run ?_ hrun₂
    exact hq
  exact hkept.symm.trans hsuccess'.removed

/-- An upload completes exactly when the size of the tarball fits the header, its name can be
encoded, and the shell does what the two commands are meant to do. -/
theorem completes_iff (hlen : x.digest.length = 32) (hascii : ∀ b ∈ x.digest, b < 0x80) :
    x.Completes ↔
      x.content.length < 2 ^ 31 ∧ isUtf8 x.name = true ∧ x.MvPlaces ∧ x.RmRemoves := by
  constructor
  · intro h
    exact ⟨h.sendable.size, h.sendable.name, h.mvPlaces, h.rmRemoves⟩
  · rintro ⟨hsize, hname, hmv, hrm⟩
    have hx : x.Sendable := ⟨hname, hsize, by rw [hlen]; decide, isUtf8_of_ascii hascii⟩
    exact completes_of_sendable hx hmv hrm

theorem uploadX_mvPlaces : uploadX.MvPlaces := by
  intro fs hread
  obtain ⟨i, hi, -⟩ := Option.map_eq_some_iff.mp hread
  obtain ⟨fs', hren⟩ : ∃ fs', fs.rename ⟨0, [120]⟩ ⟨1, [120]⟩ = some fs' :=
    ⟨_, Option.map_eq_some_iff.mpr ⟨i, hi, rfl⟩⟩
  exact ⟨⟨fs', uploadX_mv.mpr hren⟩, fun fs' hrun => uploadX_mvWorks fs fs' hread hrun⟩

theorem uploadX_rmRemoves : uploadX.RmRemoves := ⟨⟨none, fun _ => rfl⟩, fun _ h => h rfl⟩

theorem completes_iff_demo : uploadX.digest.length = 32 ∧ (∀ b ∈ uploadX.digest, b < 0x80) ∧
    uploadX.Completes := by
  have hlen : uploadX.digest.length = 32 := by decide
  have hascii : ∀ b ∈ uploadX.digest, b < 0x80 := by
    simpa only [List.all_eq_true, decide_eq_true_eq] using
      (by decide : uploadX.digest.all fun b => decide (b < 0x80))
  exact ⟨hlen, hascii, (completes_iff hlen hascii).mpr
    ⟨by decide, by decide, uploadX_mvPlaces, uploadX_rmRemoves⟩⟩

/-- A tarball of 2 GiB, between the same machines. -/
def uploadLarge : Transfer where
  client := uploadX.client
  site := uploadX.site
  content := List.replicate (2 ^ 31) 97
  fileName := uploadX.fileName

theorem uploadLarge_not_completes : ¬ uploadLarge.Completes := by
  intro h
  have hsize := h.sendable.size
  rw [uploadLarge, List.length_replicate] at hsize
  exact absurd hsize (Nat.lt_irrefl _)

end CarFi.Uploader
