import CarFi.Analyzer.ExperimentName
import CarFi.Library.Transition
import Mathlib.Logic.Function.Basic

/-!
# Runs of the analyzer

`Parser.parse` lists the tarballs of `tar_dir`, unpacks each into a work directory and takes them
one by one: what the database of the location does not have yet is parsed and committed, and the
tarball is moved to the archive. The state is what outlives a process, the directories and the
databases, together with the place the running process has reached. A process can stop at every
place, because of an exception or because it is killed, and tarballs can arrive at any time.

`import_exactly_once` holds for every sequence of such runs.
-/
namespace CarFi.Analyzer

open Library

abbrev Name := List Char

/-- An entry of `tar_dir`: a tarball, or a work directory, which is empty until it is filled. -/
inductive Entry (δ : Type*) where
  | tarball (logs : δ)
  | dir (logs : Option δ)

/-- One commit of `DBOperator.save`: the `Experiment` row and all other rows of the tarball. -/
structure Commit (ρ : Type*) where
  exp : Name
  startTime : ℚ
  endTime : ℚ
  rows : ρ

def Commit.times {ρ : Type*} (c : Commit ρ) : ℚ × ℚ := (c.startTime, c.endTime)

/-- The places between two effects of `Parser.parse`. -/
inductive Place (ρ : Type*) where
  | idle
  | listing (todo exps : List Name)
  | uncompress (fresh made exps : List Name)
  | parseAll (todo : List Name)
  | duplicated (exp loc : Name) (todo : List Name)
  | parsing (exp loc : Name) (startTime endTime : ℚ) (todo : List Name)
  | parsed (c : Commit ρ) (loc : Name) (todo : List Name)
  | cleaned (c : Commit ρ) (loc : Name) (todo : List Name)
  | archiving (exp loc : Name) (todo : List Name)

structure World (δ ρ : Type*) where
  tarDir : Name → Option (Entry δ)
  archive : Name → Name → Option (Entry δ)
  db : Name → List (Commit ρ)
  place : Place ρ

/-- Nothing has been imported yet. -/
structure World.Initial {δ ρ : Type*} (w : World δ ρ) : Prop where
  db : ∀ loc, w.db loc = []
  place : w.place = .idle

/-- `os.system("rm -rf ...")`; its exit status is ignored. -/
def rmRf {δ : Type*} (removed : Bool) (path : Name) (dir : Name → Option (Entry δ)) :
    Name → Option (Entry δ) :=
  if removed then Function.update dir path none else dir

/-- What happens: an effect of the process, its end, or the arrival of a tarball. -/
inductive ImportEvent (δ : Type*) where
  | start (names : List Name)
  | list (removed : Bool)
  | mkdir (exp : Name)
  | untar (exp : Name)
  | check
  | parse
  | rm (removed : Bool)
  | commit
  | mv (moved : Bool)
  | next
  | stop
  | upload (name : Name) (logs : δ)

section Step

variable {δ ρ : Type*} (config : List Name) (analyse : Name → δ → Option ρ)

/-- The steps of a run. An exception is a `stop`, which is possible at every place. -/
inductive ImportStep : World δ ρ → ImportEvent δ → World δ ρ → Prop where
  -- `_update_exp_list`
  | start {w} (names : List Name) (hidle : w.place = .idle) (hnodup : names.Nodup)
      (hnames : ∀ d, d ∈ names ↔ w.tarDir d ≠ none) :
      ImportStep w (.start names) { w with place := .listing names [] }
  | keep {w d todo exps} (removed : Bool) (hplace : w.place = .listing (d :: todo) exps)
      (htar : tarSuffix <:+ d) :
      ImportStep w (.list removed) { w with place := .listing todo (exps ++ [stem d]) }
  | drop {w d todo exps} (removed : Bool) (hplace : w.place = .listing (d :: todo) exps)
      (htar : ¬ tarSuffix <:+ d) :
      ImportStep w (.list removed)
        { w with tarDir := rmRf removed d w.tarDir, place := .listing todo exps }
  | listed {w exps} (hplace : w.place = .listing [] exps) :
      ImportStep w .next { w with place := .uncompress exps [] exps }
  -- `_uncompress`: the workers of the pool take the tarballs in any order
  | mkdir {w fresh made exps exp} (hplace : w.place = .uncompress fresh made exps)
      (hfresh : exp ∈ fresh) (hnone : w.tarDir exp = none) :
      ImportStep w (.mkdir exp)
        { w with
          tarDir := Function.update w.tarDir exp (some (.dir none))
          place := .uncompress (fresh.erase exp) (exp :: made) exps }
  | untar {w fresh made exps exp logs} (hplace : w.place = .uncompress fresh made exps)
      (hmade : exp ∈ made) (htar : w.tarDir (exp ++ tarSuffix) = some (.tarball logs)) :
      ImportStep w (.untar exp)
        { w with
          tarDir := Function.update w.tarDir exp (some (.dir (some logs)))
          place := .uncompress fresh (made.erase exp) exps }
  | uncompressed {w exps} (hplace : w.place = .uncompress [] [] exps) :
      ImportStep w .next { w with place := .parseAll exps }
  -- `_parse_exp`
  | duplicate {w exp todo loc startTime endTime} (hplace : w.place = .parseAll (exp :: todo))
      (hinfo : expInfo config exp = .ok (loc, startTime, endTime))
      (hcount : (startTime, endTime) ∈ (w.db loc).map Commit.times) :
      ImportStep w .check { w with place := .duplicated exp loc todo }
  | unknown {w exp todo loc startTime endTime} (hplace : w.place = .parseAll (exp :: todo))
      (hinfo : expInfo config exp = .ok (loc, startTime, endTime))
      (hcount : (startTime, endTime) ∉ (w.db loc).map Commit.times) :
      ImportStep w .check { w with place := .parsing exp loc startTime endTime todo }
  | rmDuplicate {w exp loc todo} (removed : Bool) (hplace : w.place = .duplicated exp loc todo) :
      ImportStep w (.rm removed)
        { w with tarDir := rmRf removed exp w.tarDir, place := .archiving exp loc todo }
  | parse {w exp loc startTime endTime todo logs rows}
      (hplace : w.place = .parsing exp loc startTime endTime todo)
      (hdir : w.tarDir exp = some (.dir (some logs))) (hrows : analyse loc logs = some rows) :
      ImportStep w .parse { w with place := .parsed ⟨exp, startTime, endTime, rows⟩ loc todo }
  | rmParsed {w c loc todo} (removed : Bool) (hplace : w.place = .parsed c loc todo) :
      ImportStep w (.rm removed)
        { w with tarDir := rmRf removed c.exp w.tarDir, place := .cleaned c loc todo }
  | commit {w c loc todo} (hplace : w.place = .cleaned c loc todo) :
      ImportStep w .commit
        { w with
          db := Function.update w.db loc (w.db loc ++ [c])
          place := .archiving c.exp loc todo }
  | mv {w exp loc todo entry} (hplace : w.place = .archiving exp loc todo)
      (htar : w.tarDir (exp ++ tarSuffix) = some entry) :
      ImportStep w (.mv true)
        { w with
          tarDir := Function.update w.tarDir (exp ++ tarSuffix) none
          archive := Function.update w.archive loc
            (Function.update (w.archive loc) (exp ++ tarSuffix) (some entry))
          place := .parseAll todo }
  | mvFailed {w exp loc todo} (hplace : w.place = .archiving exp loc todo) :
      ImportStep w (.mv false) { w with place := .parseAll todo }
  | finished {w} (hplace : w.place = .parseAll []) :
      ImportStep w .next { w with place := .idle }
  -- outside of the program
  | stop (w) : ImportStep w .stop { w with place := .idle }
  | upload (w) (name : Name) (logs : δ) :
      ImportStep w (.upload name logs)
        { w with tarDir := Function.update w.tarDir name (some (.tarball logs)) }

end Step

/-! ## Every run -/

section Invariant

variable {δ ρ : Type*} {config : List Name} {analyse : Name → δ → Option ρ}
  {w w' : World δ ρ}

/-- The database of the location has the `Experiment` row of the tarball. -/
def Committed (config : List Name) (db : Name → List (Commit ρ)) (exp loc : Name) : Prop :=
  ∃ c ∈ db loc, expInfo config exp = .ok (loc, c.startTime, c.endTime)

/-- The experiment is one of the location, which does not have its times. -/
def Missing (config : List Name) (db : Name → List (Commit ρ)) (exp loc : Name)
    (times : ℚ × ℚ) : Prop :=
  expInfo config exp = .ok (loc, times) ∧ times ∉ (db loc).map Commit.times

/-- What the process knows of the databases at its place. -/
def World.Knows (config : List Name) (w : World δ ρ) : Prop :=
  match w.place with
  | .parsing exp loc startTime endTime _ => Missing config w.db exp loc (startTime, endTime)
  | .parsed c loc _ | .cleaned c loc _ => Missing config w.db c.exp loc c.times
  | .duplicated exp loc _ | .archiving exp loc _ => Committed config w.db exp loc
  | _ => True

structure World.Sound (config : List Name) (w : World δ ρ) : Prop where
  times : ∀ loc, ((w.db loc).map Commit.times).Nodup
  named : ∀ loc, ∀ c ∈ w.db loc, expInfo config c.exp = .ok (loc, c.times)
  knows : w.Knows config

theorem World.Initial.sound (h : w.Initial) : w.Sound config where
  times loc := by simp [h.db loc]
  named loc := by simp [h.db loc]
  knows := by simp [World.Knows, h.place]

/-- Another location's database is not written to. -/
theorem commit_sound {c : Commit ρ} {loc : Name} {todo : List Name} (h : w.Sound config)
    (hplace : w.place = .cleaned c loc todo) :
    World.Sound config { w with
      db := Function.update w.db loc (w.db loc ++ [c])
      place := .archiving c.exp loc todo } := by
  have hknows := h.knows
  simp only [World.Knows, hplace] at hknows
  obtain ⟨hinfo, hmissing⟩ := hknows
  refine ⟨fun loc' => ?_, fun loc' c' hc' => ?_, c, by simp, hinfo⟩
  · by_cases hloc : loc' = loc
    · subst hloc
      have htimes := h.times loc'
      simpa [List.nodup_append, htimes] using hmissing
    · simpa [Function.update_of_ne hloc] using h.times loc'
  · by_cases hloc : loc' = loc
    · subst hloc
      have hmem : c' ∈ w.db loc' ∨ c' = c := by simpa using hc'
      rcases hmem with hold | rfl
      · exact h.named loc' c' hold
      · exact hinfo
    · have hold : c' ∈ w.db loc' := by simpa [Function.update_of_ne hloc] using hc'
      exact h.named loc' c' hold

theorem ImportStep.sound {e : ImportEvent δ} (h : w.Sound config)
    (hs : ImportStep config analyse w e w') : w'.Sound config := by
  have hknows := h.knows
  cases hs with
  | commit hplace => exact commit_sound h hplace
  | duplicate hplace hinfo hcount =>
    obtain ⟨c, hc, htimes⟩ := List.mem_map.mp hcount
    obtain ⟨rfl, rfl⟩ := Prod.mk.inj htimes
    exact ⟨h.times, h.named, c, hc, hinfo⟩
  | unknown hplace hinfo hcount => exact ⟨h.times, h.named, hinfo, hcount⟩
  | rmDuplicate _ hplace | parse hplace | rmParsed _ hplace =>
    simp only [World.Knows, hplace] at hknows
    exact ⟨h.times, h.named, hknows⟩
  | upload name logs => exact ⟨h.times, h.named, hknows⟩
  | start | keep | drop | listed | mkdir | untar | uncompressed | mv | mvFailed | finished | stop =>
    exact ⟨h.times, h.named, trivial⟩

/-- No tarball was committed twice, since its name determines its times. -/
theorem World.Sound.exps_nodup (h : w.Sound config) (loc : Name) :
    ((w.db loc).map Commit.exp).Nodup := by
  have htimes : (w.db loc).Pairwise fun c d => c.times ≠ d.times := by
    simpa [List.Nodup, List.pairwise_map] using h.times loc
  rw [List.Nodup, List.pairwise_map]
  refine htimes.imp_of_mem fun {c d} hc hd hne hexp => hne ?_
  have hinfo := h.named loc c hc
  rw [hexp, h.named loc d hd] at hinfo
  exact (Prod.mk.inj (Except.ok.inj hinfo)).2.symm

theorem ImportStep.archived {e : ImportEvent δ} (h : w.Sound config)
    (hs : ImportStep config analyse w e w') {loc name : Name}
    (hmoved : w'.archive loc name ≠ w.archive loc name) :
    Committed config w.db (stem name) loc := by
  have hknows := h.knows
  cases hs with
  | @mv exp loc' todo entry hplace htar =>
    simp only [World.Knows, hplace] at hknows
    -- only this name of this location changes
    by_cases hloc : loc = loc'
    · subst hloc
      by_cases hname : name = exp ++ tarSuffix
      · rw [hname, stem_append]
        exact hknows
      · simp [Function.update_of_ne hname] at hmoved
    · simp [Function.update_of_ne hloc] at hmoved
  | _ => exact absurd rfl hmoved

/-- In every sequence of runs, stopped anywhere and with tarballs arriving at any time, no
database has two experiments with the same times or the rows of a tarball twice, and a tarball is
moved to the archive only when the database has its experiment. -/
theorem import_exactly_once {w₀ : World δ ρ} (hinit : w₀.Initial) {es : List (ImportEvent δ)}
    (hrun : Run (ImportStep config analyse) w₀ es w) :
    (∀ loc, ((w.db loc).map Commit.times).Nodup) ∧
      (∀ loc, ((w.db loc).map Commit.exp).Nodup) ∧
      ∀ e w', ImportStep config analyse w e w' → ∀ loc name,
        w'.archive loc name ≠ w.archive loc name → Committed config w.db (stem name) loc := by
  have hsound : w.Sound config :=
    hrun.invariant (I := World.Sound config) (fun _ _ _ h hs => hs.sound h) hinit.sound
  exact ⟨hsound.times, hsound.exps_nodup, fun e w' hs loc name => hs.archived hsound⟩

end Invariant

/-! ## A process that stops after the commit -/

section Stopped

variable {δ ρ : Type*} {config : List Name} {analyse : Name → δ → Option ρ}
  {w : World δ ρ} {exp loc : Name} {logs : δ} {rows : ρ} {startTime endTime : ℚ}

/-- The events of a process up to its first tarball. -/
def unpackEvents (exp : Name) : List (ImportEvent δ) :=
  [.start [exp ++ tarSuffix], .list true, .next, .mkdir exp, .untar exp, .next]

/-- An idle world whose `tar_dir` has one tarball and nothing else. -/
structure World.Single (w : World δ ρ) (exp : Name) (logs : δ) : Prop where
  idle : w.place = .idle
  tarDir : w.tarDir = Function.update (fun _ => none) (exp ++ tarSuffix) (some (.tarball logs))

theorem ne_append_tarSuffix (exp : Name) : exp ≠ exp ++ tarSuffix := by
  intro h
  have hlen := congrArg List.length h
  have hseven : tarSuffix.length = 7 := by decide
  simp [hseven] at hlen

theorem unpack_run (h : w.Single exp logs) :
    Run (ImportStep config analyse) w (unpackEvents exp)
      { w with
        tarDir := Function.update w.tarDir exp (some (.dir (some logs)))
        place := .parseAll [exp] } := by
  have hne := ne_append_tarSuffix exp
  have hnone : w.tarDir exp = none := by simp [h.tarDir, hne]
  have htar : Function.update w.tarDir exp (some (.dir none)) (exp ++ tarSuffix) =
      some (.tarball logs) := by
    simp [h.tarDir, Function.update_of_ne hne.symm]
  have hnames : ∀ d, d ∈ [exp ++ tarSuffix] ↔ w.tarDir d ≠ none := by
    intro d
    by_cases hd : d = exp ++ tarSuffix <;> simp [h.tarDir, hd]
  refine .cons (.start _ h.idle (by simp) hnames) ?_
  refine .cons (.keep true rfl (List.suffix_append _ _)) ?_
  rw [stem_append]
  refine .cons (.listed rfl) (.cons (.mkdir rfl (List.mem_singleton_self exp) hnone) ?_)
  refine .cons (.untar rfl (by simp) htar) ?_
  simp only [Function.update_idem, List.erase_cons_head, List.nil_append]
  exact .single (.uncompressed rfl)

/-- The process commits the tarball and stops before the move. -/
theorem commit_stop_run (h : w.Single exp logs)
    (hinfo : expInfo config exp = .ok (loc, startTime, endTime))
    (hnew : (startTime, endTime) ∉ (w.db loc).map Commit.times)
    (hrows : analyse loc logs = some rows) :
    Run (ImportStep config analyse) w
      (unpackEvents exp ++ [ImportEvent.check, .parse, .rm true, .commit, .stop])
      { w with
        db := Function.update w.db loc (w.db loc ++ [⟨exp, startTime, endTime, rows⟩]) } := by
  have hnone : w.tarDir exp = none := by simp [h.tarDir, ne_append_tarSuffix exp]
  refine (unpack_run h).trans (.cons (.unknown rfl hinfo hnew) ?_)
  refine .cons (.parse rfl (Function.update_self ..) hrows) (.cons (.rmParsed true rfl) ?_)
  refine .cons (.commit rfl) ?_
  have hdir : rmRf true exp (Function.update w.tarDir exp (some (.dir (some logs)))) =
      w.tarDir := by
    simp [rmRf, ← hnone]
  simp only [hdir]
  have hplace := h.idle
  obtain ⟨tarDir, archive, db, place⟩ := w
  obtain rfl : place = .idle := hplace
  exact .single (.stop _)

/-- The next process finds the experiment in the database and moves the tarball. -/
theorem duplicate_run (h : w.Single exp logs)
    (hinfo : expInfo config exp = .ok (loc, startTime, endTime))
    (hold : (startTime, endTime) ∈ (w.db loc).map Commit.times) :
    ∃ w', Run (ImportStep config analyse) w
        (unpackEvents exp ++ [ImportEvent.check, .rm false, .mv true]) w' ∧ w'.db = w.db ∧
      w'.archive loc (exp ++ tarSuffix) = some (.tarball logs) := by
  have htar : rmRf false exp (Function.update w.tarDir exp (some (.dir (some logs))))
      (exp ++ tarSuffix) = some (.tarball logs) := by
    simp [rmRf, Function.update_of_ne (ne_append_tarSuffix exp).symm, h.tarDir]
  refine ⟨_, (unpack_run h).trans
    (.cons (.duplicate rfl hinfo hold) (.cons (.rmDuplicate false rfl) (.single (.mv rfl htar)))),
      rfl, ?_⟩
  simp

end Stopped

/-- A world with the tarball of the collector's example. -/
def parisWorld : World Unit Unit where
  tarDir := Function.update (fun _ => none) (paris "Paris").name (some (.tarball ()))
  archive _ _ := none
  db _ := []
  place := .idle

/-- The second process finds what the first one committed: the database has it once. -/
theorem import_once_paris :
    ∃ es w, Run (ImportStep ["Paris".toList] fun _ _ => some ()) parisWorld es w ∧
      (w.db "Paris".toList).length = 1 ∧
      w.archive "Paris".toList (paris "Paris").name = some (.tarball ()) ∧
      ((w.db "Paris".toList).map Commit.exp).Nodup := by
  have hsingle : parisWorld.Single (paris "Paris").exp () := ⟨rfl, rfl⟩
  have hinfo := @expInfo_exp (paris "Paris") ["Paris".toList] (by decide) (by decide)
  let commit : Commit Unit := ⟨(paris "Paris").exp, (paris "Paris").startTime.truncated.timestamp,
    (paris "Paris").endTime.truncated.timestamp, ()⟩
  let first : World Unit Unit := { parisWorld with
    db := Function.update parisWorld.db "Paris".toList [commit] }
  have hcommit : first.db "Paris".toList = [commit] :=
    Function.update_self "Paris".toList [commit] parisWorld.db
  have hfirst : Run (ImportStep ["Paris".toList] fun _ _ => some ()) parisWorld _ first :=
    commit_stop_run hsingle hinfo List.not_mem_nil rfl
  have hold : commit.times ∈ (first.db "Paris".toList).map Commit.times := by
    rw [hcommit]
    exact List.mem_map_of_mem (List.mem_singleton_self commit)
  obtain ⟨w, hsecond, hdb, harchive⟩ :=
    @duplicate_run _ _ ["Paris".toList] (fun _ _ => some ()) first _ _ ()
      _ _ ⟨rfl, rfl⟩ hinfo hold
  have hrun := hfirst.trans hsecond
  refine ⟨_, w, hrun, ?_, harchive, ?_⟩
  · rw [hdb, hcommit]
    rfl
  · exact (import_exactly_once ⟨fun _ => rfl, rfl⟩ hrun).2.1 _

end CarFi.Analyzer
