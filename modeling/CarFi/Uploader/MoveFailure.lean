import CarFi.Uploader.Completion

/-!
# A move that fails

The thread of the server does not look at the exit status of its `mv`. Its reply says that the
content arrived, and the client removes its tarball on this reply, also when the file never came
to `tar_dir`. `survives_iff` says that nothing but a removal that does not work keeps the tarball.
-/
namespace CarFi.Uploader

open Library Server

/-- The names that a scan uploads: `for tarball in os.listdir(...)`,
`if tarball.endswith("tar.gz")`. -/
def Client.scan (listdir : List Bytes) : List Bytes :=
  listdir.filter fun tarball => decide (ascii "tar.gz" <:+ tarball)

/-- What `os.listdir` gives of the tarball. -/
def Session.listdir (x : Transfer) (s : Session) : List Bytes :=
  if s.tarball.isSome then [x.name] else []

variable {x : Transfer}

/-- The tarball is still there, and the next scan uploads it again. -/
structure Transfer.Keeps (x : Transfer) (s : Session) : Prop where
  tarball : s.tarball = some x.content
  scanned : ascii "tar.gz" <:+ x.name → x.name ∈ Client.scan (s.listdir x)

theorem Transfer.keeps_of_tarball {s : Session} (h : s.tarball = some x.content) : x.Keeps s where
  tarball := h
  scanned hname := by simpa [Client.scan, Session.listdir, h] using hname

/-- In every run in which the `mv` of the server fails, the client keeps its tarball from then
on. `Fails` are the outcomes with an exit status that is not zero. -/
def Transfer.SurvivesFailure (x : Transfer) (Fails : Fs → Fs → Prop) : Prop :=
  ∀ fs₀ es u v es' t, Run (SessionStep x) (x.start fs₀) es u →
    SessionStep x u (.server (.system x.mvCommand) .done) v → Fails u.fs v.fs →
    Run (SessionStep x) v es' t → x.Keeps t

/-! ## What keeps the tarball -/

/-- The server runs its `mv` on the complete file. -/
theorem SessionStep.move {fs₀ : Fs} {u v : Session}
    (h : Moved x fs₀ u ∨ Before x fs₀ u)
    (hstep : SessionStep x u (.server (.system x.mvCommand) .done) v) :
    u.fs.read x.recvLoc = some x.content ∧ x.site.system x.mvCommand u.fs v.fs := by
  cases hstep with
  | server hcall hw =>
    rename_i fs t up down
    have hpc : u.thread.handler.pc = .moving := (Handler.op_system (ThreadStep.op_eq hcall)).1
    have hmv : x.site.system x.mvCommand u.fs fs := by
      cases hcall with
      | system ho hrun => exact hrun
      | file ho hbs => cases hbs
    refine ⟨?_, hmv⟩
    rcases h with hm | hb
    · have hlate := hm.late
      simp [Handler.stage, hpc, Pc.stage] at hlate
    · rcases hb.server with ⟨pending, hat, -⟩ | hq
      · rw [(hat.move hpc).1]
        exact x.filled_read fs₀ x.content
      · rcases hq with hq | hq | hq <;> cases hpc.symm.trans hq

theorem survives_of_cond {Fails : Fs → Fs → Prop}
    (h : ¬x.Sendable ∨
      (∀ fs fs', fs.read x.recvLoc = some x.content → x.site.system x.mvCommand fs fs' →
        ¬Fails fs fs') ∨
      ∀ tb, x.client.system x.rmCommand (some x.content) tb → tb = some x.content) :
    x.SurvivesFailure Fails := by
  intro fs₀ es u v es' t hrun hmove hfails hrun'
  have hall := hrun.trans (.cons hmove hrun')
  have hok : ClientOk x t :=
    hall.invariant (fun _ _ _ h hs => h.step hs) (.inl ⟨rfl, .inl ⟨_, .connecting⟩⟩)
  rcases hok with ⟨htb, -⟩ | hafter
  · exact Transfer.keeps_of_tarball htb
  · have hx := hafter.sendable
    have hcase : Moved x fs₀ u ∨ Before x fs₀ u :=
      hrun.invariant (fun _ _ _ h hs => moved_or_before_step hx h hs) (.inr (before_start fs₀))
    obtain ⟨hread, hmv⟩ := hmove.move hcase
    rcases h with hnot | hmvs | hrm
    · exact absurd hx hnot
    · exact absurd hfails (hmvs _ _ hread hmv)
    · exact Transfer.keeps_of_tarball (hrm _ hafter.rm)

/-! ## A run in which it is lost -/

/-- Until the server has moved the file the client waits for its reply. -/
theorem Stands.waits {fs₀ : Fs} {s : Session} {pending reply unsent awaited : Bytes}
    (h : Stands x fs₀ s pending reply unsent awaited) (hlate : s.thread.handler.stage ≠ .late) :
    ¬s.upload.Quit ∧ s.upload.pc ≠ .removing := by
  have hne : awaited ≠ [] := by
    rcases h.server with ⟨-, rfl⟩ | ⟨-, -, hmoved⟩
    · rw [h.down]
      exact List.append_ne_nil_of_right_ne_nil _ (digestMsg_ne_nil x)
    · exact absurd hmoved.late hlate
  rcases h.client with ⟨-, hat, ha⟩ | ⟨-, hnil, -⟩
  · refine ⟨hat.not_quit, fun hpc => hne ?_⟩
    simpa only [Awaits, hpc] using ha
  · exact absurd hnil hne

/-- Without failures the server comes to its `mv`. -/
theorem exists_moving (hx : x.Sendable) (fs₀ : Fs) :
    ∃ es u, Run (SmoothStep x) (x.start fs₀) es u ∧ u.thread.handler.pc = .moving := by
  refine Run.exists_of_rank
    (I := fun n s => StandsAt x fs₀ n s ∧ s.thread.handler.stage ≠ .late)
      (fun n s hI hpc => ?_)
    ⟨⟨_, _, _, _, stands_start fs₀, rfl⟩,
      by simp [Transfer.start, Handler.stage, Pc.stage]⟩
  obtain ⟨⟨pending, reply, unsent, awaited, h, hn⟩, hlate⟩ := hI
  rcases h.progress with ⟨-, hdone⟩ | hrem | hmov | ⟨e, t, hstep⟩
  · simp [Handler.stage, hdone, Pc.stage] at hlate
  · exact absurd hrem (h.waits hlate).2
  · exact absurd hmov hpc
  · obtain ⟨m, hm, hstands⟩ :=
      StandsAt.step hx ⟨pending, reply, unsent, awaited, h, hn⟩ hstep
    refine ⟨m, e, t, hm, hstep, hstands, fun hafter => ?_⟩
    exact hpc (h.moving_of_late hx hstep hlate hafter).1

/-- After the `mv` the client comes to its removal. -/
theorem exists_removing (hx : x.Sendable) {fs₀ : Fs} {v : Session} {n : Nat}
    (hv : StandsAt x fs₀ n v) (hmoved : Moved x fs₀ v) (hquit : ¬v.upload.Quit) :
    ∃ es w, Run (SmoothStep x) v es w ∧ w.upload.pc = .removing := by
  refine Run.exists_of_rank
    (I := fun n s => StandsAt x fs₀ n s ∧ Moved x fs₀ s ∧ ¬s.upload.Quit)
    (fun n s hI hpc => ?_) ⟨hv, hmoved, hquit⟩
  obtain ⟨⟨pending, reply, unsent, awaited, h, hn⟩, hmoved, hquit⟩ := hI
  rcases h.progress with ⟨hdone, -⟩ | hrem | hmov | ⟨e, t, hstep⟩
  · exact absurd (.inr (.inr hdone)) hquit
  · exact absurd hrem hpc
  · have hlate := hmoved.late
    simp [Handler.stage, hmov, Pc.stage] at hlate
  · obtain ⟨m, hm, hstands⟩ :=
      StandsAt.step hx ⟨pending, reply, unsent, awaited, h, hn⟩ hstep
    refine ⟨m, e, t, hm, hstep, hstands, (hmoved.step hstep.2).1, fun hafter => ?_⟩
    exact hpc (h.removing_of_quit hx hstep hquit hafter).1

/-- Whatever the `mv` of the server did, some run goes on to any outcome of the removal. -/
theorem exists_removed (hx : x.Sendable) {fs fs' : Fs} (hread : fs.read x.recvLoc = some x.content)
    (hmv : x.site.system x.mvCommand fs fs') {tb : Option Bytes}
    (hrm : x.client.system x.rmCommand (some x.content) tb) :
    ∃ es u v es' t, Run (SessionStep x) (x.start fs) es u ∧
      SessionStep x u (.server (.system x.mvCommand) .done) v ∧ u.fs = fs ∧ v.fs = fs' ∧
      Run (SessionStep x) v es' t ∧ t.tarball = tb ∧ t.fs = fs' := by
  obtain ⟨es, u, hrun, hpc⟩ := exists_moving hx fs
  obtain ⟨n, hstandsAt⟩ := StandsAt.run hx hrun
  obtain ⟨pending, reply, unsent, awaited, h, -⟩ := hstandsAt
  obtain ⟨hfs, hmove⟩ := h.move hpc
  rw [Transfer.filled_of_read hread] at hfs
  obtain ⟨hstep, hmoved⟩ := hmove fs' (hfs ▸ hmv)
  obtain ⟨m, -, hstands'⟩ :=
    StandsAt.step hx ⟨pending, reply, unsent, awaited, h, rfl⟩ hstep
  have hquit : ¬u.upload.Quit := (h.waits (by simp [Handler.stage, hpc, Pc.stage])).1
  obtain ⟨es', w, hrun', hrem⟩ := exists_removing hx hstands' hmoved hquit
  obtain ⟨-, _, _, _, _, hw, -⟩ := StandsAt.run hx (hrun.trans (.cons hstep hrun'))
  have hlast := hw.remove hrem tb hrm
  have hfiles : w.fs = fs' := hmoved.run hrun'
  exact ⟨es, u, _, _, _, hrun.mono fun _ _ _ hs => hs.2, hstep.2, hfs, rfl,
    (hrun'.trans (.single hlast)).mono fun _ _ _ hs => hs.2, rfl, hfiles⟩

/-- The client keeps its tarball after every failure of the `mv` only if the upload does not get
that far, if there is no failure, or if the removal does not remove the tarball. -/
theorem survives_iff (x : Transfer) (Fails : Fs → Fs → Prop) :
    x.SurvivesFailure Fails ↔
      ¬x.Sendable ∨
      (∀ fs fs', fs.read x.recvLoc = some x.content → x.site.system x.mvCommand fs fs' →
        ¬Fails fs fs') ∨
      ∀ tb, x.client.system x.rmCommand (some x.content) tb → tb = some x.content := by
  refine ⟨fun h => ?_, survives_of_cond⟩
  by_contra hnot
  simp only [not_or, not_not, not_forall] at hnot
  obtain ⟨hx, ⟨fs, fs', hread, hmv, hfails⟩, tb, hrm, hlost⟩ := hnot
  obtain ⟨es, u, v, es', t, hrun, hstep, hu, hv, hrun', htb, -⟩ :=
    exists_removed hx hread hmv hrm
  have hfails' : Fails u.fs v.fs := by rwa [hu, hv]
  exact hlost (htb.symm.trans (h fs es u v es' t hrun hstep hfails' hrun').tarball)

/-- The upload of the file `a` under the name `x.tar.gz` to a server whose `mv` fails and leaves
all files as they are. -/
def uploadLost : Transfer where
  client :=
    { tarDir := ascii "c"
      tarName := ascii "x.tar.gz"
      system := fun _ _ tb => tb = none }
  site := { demoSite with system := fun _ fs fs' => fs' = fs }
  content := [97]
  fileName := by constructor <;> decide

/-- The client removes its tarball, and the next scan finds nothing, though no file came to
`tar_dir`. -/
theorem failed_move_loses_tarball :
    ∃ fs es u v es' t, Run (SessionStep uploadLost) (uploadLost.start fs) es u ∧
      SessionStep uploadLost u (.server (.system uploadLost.mvCommand) .done) v ∧ v.fs = u.fs ∧
      Run (SessionStep uploadLost) v es' t ∧ t.tarball = none ∧
      Client.scan (t.listdir uploadLost) = [] ∧ t.fs.read uploadLost.tarLoc = none := by
  let fs : Fs :=
    { entry := fun loc => if loc = uploadLost.recvLoc then some 0 else none
      data := fun _ => [97]
      next := 1 }
  have hx : uploadLost.Sendable := ⟨by decide, by decide, by decide, by decide⟩
  have hread : fs.read uploadLost.recvLoc = some uploadLost.content := by
    simp [fs, Fs.read, uploadLost]
  obtain ⟨es, u, v, es', t, hrun, hstep, hu, hv, hrun', htb, hfs⟩ :=
    exists_removed hx hread (show uploadLost.site.system uploadLost.mvCommand fs fs from rfl)
      (show uploadLost.client.system uploadLost.rmCommand (some uploadLost.content) none from rfl)
  refine ⟨fs, es, u, v, es', t, hrun, hstep, hv.trans hu.symm, hrun', htb, ?_, ?_⟩
  · simp [Session.listdir, htb, Client.scan]
  · rw [hfs]
    rfl

end CarFi.Uploader
