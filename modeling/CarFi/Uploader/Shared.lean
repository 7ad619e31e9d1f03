import CarFi.Uploader.Stages
import CarFi.Uploader.Threads
import Mathlib.Logic.Equiv.Basic

/-!
# Connections that share a directory

All threads open their files by name in `recv_dir`, and nothing keeps two of them from the same
name: the second open truncates the file that the first thread has received and is about to
move. Where every open is of a name that no other thread has in use, each move places what its
own thread received.
-/
namespace CarFi.Uploader

open Library

namespace Server

/-! ## Plain names -/

/-- A byte that has no meaning of its own to the shell: a letter, a digit or one of
`% + , - . : = @ _`. -/
def ordinary (b : UInt8) : Bool :=
  (97 ≤ b ∧ b ≤ 122) ∨ (65 ≤ b ∧ b ≤ 90) ∨ (48 ≤ b ∧ b ≤ 57) ∨
    b ∈ ascii "%+,-.:=@_"

/-- A name that names one file and that the shell takes as it is. -/
structure Plain (name : Bytes) : Prop extends IsFileName name where
  shell : ∀ b ∈ name, ordinary b

/-- On plain names `mv` does what its manual says: it renames the file, or it fails and leaves
everything as it was. -/
def Site.MovesPlain (site : Site) : Prop :=
  ∀ name fs fs', Plain name →
    site.system (mvCommand site.tarDir (join site.recvDir name)) fs fs' →
    fs' = fs ∨ fs.rename ⟨site.recv, name⟩ ⟨site.tar, name⟩ = some fs'

/-! ## The invariant -/

variable {site : Site}

def Thread.name (t : Thread) : Bytes := t.handler.fileName

def Thread.stage (t : Thread) : Stage := t.handler.stage

/-- The thread may still write to its file or move it. -/
def Thread.Uses (t : Thread) : Prop :=
  t.stage = .filling ∨ t.stage = .flushed ∨ ∃ w, t.writer = some w ∧ w.buf ≠ []

/-- The file that a thread has open is the one of its name. -/
structure Owns (site : Site) (fs : Fs) (t : Thread) (w : Writer) : Prop where
  plain : Plain t.name
  entry : fs.entry ⟨site.recv, t.name⟩ = some w.file

/-- What holds of a thread in each stage. -/
structure ThreadOk (site : Site) (fs : Fs) (t : Thread) : Prop where
  early : t.stage = .early → t.writer = none ∧ t.handler.localMd5 = []
  filled : t.stage = .filling ∨ t.stage = .flushed →
    ∃ w, t.writer = some w ∧ w.Holds fs t.handler.localMd5 ∧
      (t.stage = .flushed → w.buf = [])
  owns : ∀ w, t.writer = some w → t.Uses → Owns site fs t w

/-- Files are not linked twice, every thread is as its stage says, and no two threads use the
same name. -/
structure Consistent (site : Site) (s : State) : Prop where
  linked : s.fs.Linked
  ok : ∀ (i : Nat) t, s.threads[i]? = some t → ThreadOk site s.fs t
  apart : ∀ (i j : Nat) t u, s.threads[i]? = some t → s.threads[j]? = some u → i ≠ j →
    t.Uses → u.Uses → t.name ≠ u.name

theorem consistent_init {fs : Fs} (h : fs.Linked) : Consistent site { fs := fs } :=
  ⟨h, by simp, by simp⟩

/-- A thread is untouched by a change of the file system that leaves the file it uses. -/
theorem ThreadOk.frame {fs fs' : Fs} {t : Thread} (h : ThreadOk site fs t)
    (hframe : ∀ w, t.writer = some w → t.Uses → Owns site fs t w →
      fs'.entry ⟨site.recv, t.name⟩ = fs.entry ⟨site.recv, t.name⟩ ∧
        fs'.data w.file = fs.data w.file) :
    ThreadOk site fs' t := by
  refine ⟨h.early, fun hs => ?_, fun w hw huses => ?_⟩
  · obtain ⟨w, hw, hholds, hbuf⟩ := h.filled hs
    have huses : t.Uses := hs.elim .inl fun hs => .inr (.inl hs)
    obtain ⟨-, hdata⟩ := hframe w hw huses (h.owns w hw huses)
    exact ⟨w, hw, ⟨by rw [hdata, hholds.content], by rw [hdata, hholds.pos]⟩, hbuf⟩
  · have howns := h.owns w hw huses
    exact ⟨howns.plain, (hframe w hw huses howns).1.trans howns.entry⟩

theorem threadOk_of_late {fs : Fs} {t : Thread} (hlate : t.stage = .late)
    (howns : ∀ w, t.writer = some w → w.buf ≠ [] → Owns site fs t w) :
    ThreadOk site fs t := by
  refine ⟨fun hs => ?_, fun hs => ?_, fun w hw huses => ?_⟩
  · rw [hlate] at hs
    cases hs
  · rw [hlate] at hs
    rcases hs with hs | hs <;> cases hs
  · rcases huses with hs | hs | ⟨w', hw', hbuf⟩
    · rw [hlate] at hs
      cases hs
    · rw [hlate] at hs
      cases hs
    · exact howns w hw (Option.some.inj (hw.symm.trans hw') ▸ hbuf)

/-- A thread that has a file is past the early stage. -/
theorem ThreadOk.not_early {fs : Fs} {t : Thread} (h : ThreadOk site fs t) {w : Writer}
    (hw : t.writer = some w) : t.stage ≠ .early := by
  intro hs
  rw [(h.early hs).1] at hw
  cases hw

theorem uses_of_goes {fs : Fs} {t : Thread} {g : Handler} (h : ThreadOk site fs t)
    (hgoes : t.handler.Goes g) (huses : Thread.Uses { t with handler := g }) :
    t.Uses ∧ g.fileName = t.name := by
  have hstage : g.stage ≠ .late → g.stage ≠ .early → t.stage = g.stage ∧
      g.fileName = t.name := by
    intro hlate hearly
    have heq := hgoes.stage.resolve_right hlate
    exact ⟨heq.symm, hgoes.fileName (heq ▸ hearly)⟩
  rcases huses with hs | hs | ⟨w, hw, hbuf⟩
  · have hs : g.stage = .filling := hs
    obtain ⟨heq, hname⟩ := hstage (by simp [hs]) (by simp [hs])
    exact ⟨.inl (heq.trans hs), hname⟩
  · have hs : g.stage = .flushed := hs
    obtain ⟨heq, hname⟩ := hstage (by simp [hs]) (by simp [hs])
    exact ⟨.inr (.inl (heq.trans hs)), hname⟩
  · exact ⟨.inr (.inr ⟨w, hw, hbuf⟩), hgoes.fileName (h.not_early hw)⟩

/-- A call that leaves the file system and the open file as they are. -/
theorem ThreadOk.goes {fs : Fs} {t : Thread} {g : Handler} (h : ThreadOk site fs t)
    (hgoes : t.handler.Goes g) : ThreadOk site fs { t with handler := g } := by
  have hstage : g.stage ≠ .late → t.stage = g.stage := fun hlate =>
    (hgoes.stage.resolve_right hlate).symm
  refine ⟨fun hs => ?_, fun hs => ?_, fun w hw huses => ?_⟩
  · have hs : g.stage = .early := hs
    obtain ⟨hw, hmd5⟩ := h.early ((hstage (by simp [hs])).trans hs)
    exact ⟨hw, hgoes.localMd5.trans hmd5⟩
  · have hs : g.stage = .filling ∨ g.stage = .flushed := hs
    have heq := hstage (by rcases hs with hs | hs <;> simp [hs])
    obtain ⟨w, hw, hholds, hbuf⟩ := h.filled (heq ▸ hs)
    refine ⟨w, hw, ?_, fun hs => hbuf (heq.trans hs)⟩
    change w.Holds fs g.localMd5
    rwa [hgoes.localMd5]
  · obtain ⟨huses', hname⟩ := uses_of_goes h hgoes huses
    obtain ⟨hplain, hentry⟩ := h.owns w hw huses'
    refine ⟨?_, ?_⟩
    · change Plain g.fileName
      rwa [hname]
    · change fs.entry ⟨site.recv, g.fileName⟩ = some w.file
      rwa [hname]

/-! ## One call -/

section Call

variable {fs fs' : Fs} {t t' : Thread} {o : Op} {res : Res}

theorem fileData_eq_some {bs : Bytes} (h : fileData o = some bs) :
    o = .write bs ∨ bs = [] ∧ (o = .flush ∨ o = .closeFile) := by
  cases o <;> simp_all [fileData]

/-- An open in a plain name finds its entry. -/
theorem walk_plain {path : Bytes} {loc : Loc} (ho : t.op site = some (.openWrite path))
    (hloc : site.walk path = some loc) (hplain : Plain t.name) : loc = ⟨site.recv, t.name⟩ := by
  obtain ⟨-, rfl⟩ := Handler.op_openWrite ho
  exact Option.some.inj (hloc.symm.trans (site.walk_name _ hplain.toIsFileName))

theorem Owns.of_name {w w' : Writer} (h : Owns site fs t w) (hname : t'.name = t.name)
    (hfile : w'.file = w.file) (hentry : fs'.entry = fs.entry) : Owns site fs' t' w' :=
  ⟨hname ▸ h.plain, by rw [hentry, hname, hfile, h.entry]⟩

/-- A thread fills its file, or flushes it, or is cut short. -/
theorem ThreadOk.file {bs : Bytes} {w : Writer} (h : ThreadOk site fs t)
    (ho : t.op site = some o) (hbs : fileData o = some bs) (hw : t.writer = some w) (k : Nat)
    (hres : res = .done ∨ res = .raised)
    (hall : res = .done → o = .flush ∨ o = .closeFile → w.buf.length ≤ k) :
    ThreadOk site ((w.put bs).emitted k fs)
      { t.resume site res with
        writer := if o = .closeFile then none else some ((w.put bs).emit k) } := by
  rcases fileData_eq_some hbs with rfl | ⟨rfl, rfl | rfl⟩
  · obtain ⟨msgLen, hpc⟩ := Handler.op_write ho
    have hfilling : t.stage = .filling := by simp [Thread.stage, Handler.stage, hpc, Pc.stage]
    have howns := h.owns w hw (.inl hfilling)
    rcases hres with rfl | rfl
    · obtain ⟨w', hw', hholds, -⟩ := h.filled (.inl hfilling)
      obtain rfl := Option.some.inj (hw.symm.trans hw')
      obtain ⟨hstage, hmd5, hname⟩ := Handler.resume_write site.hexdigest hpc
      refine ⟨fun hs => ?_, fun _ => ⟨_, rfl, ?_, fun hs => ?_⟩, fun w' hw' _ => ?_⟩
      · cases hstage.symm.trans hs
      · simp only [Thread.resume, hmd5]
        exact (hholds.put bs).emit k
      · cases hstage.symm.trans hs
      · obtain rfl := Option.some.inj hw'
        exact howns.of_name hname rfl rfl
    · obtain ⟨hlate, hsame⟩ := t.handler.resume_raised site.hexdigest
      refine threadOk_of_late hlate fun w' hw' _ => ?_
      obtain rfl := Option.some.inj hw'
      exact howns.of_name hsame.fileName rfl rfl
  · have hpc := Handler.op_flush ho
    have hfilling : t.stage = .filling := by simp [Thread.stage, Handler.stage, hpc, Pc.stage]
    have howns := h.owns w hw (.inl hfilling)
    rcases hres with rfl | rfl
    · obtain ⟨w', hw', hholds, -⟩ := h.filled (.inl hfilling)
      obtain rfl := Option.some.inj (hw.symm.trans hw')
      simp only [Thread.resume, Handler.resume, hpc]
      refine ⟨fun hs => (by cases hs), fun _ =>
        ⟨_, rfl, ?_, fun _ => ?_⟩, fun w' hw' _ => ?_⟩
      · simpa using (hholds.put []).emit k
      · simpa [Writer.emit, Writer.put] using hall rfl (.inl rfl)
      · obtain rfl := Option.some.inj hw'
        exact howns.of_name rfl rfl rfl
    · obtain ⟨hlate, hsame⟩ := t.handler.resume_raised site.hexdigest
      refine threadOk_of_late hlate fun w' hw' _ => ?_
      obtain rfl := Option.some.inj hw'
      exact howns.of_name hsame.fileName rfl rfl
  · have hpc := Handler.op_closeFile ho
    refine threadOk_of_late ?_ fun w' hw' _ => by cases hw'
    rcases hres with rfl | rfl <;>
      simp [Thread.stage, Thread.resume, Handler.resume, hpc, Handler.stage, Pc.stage]

theorem ThreadStep.ok (hstep : ThreadStep site fs t o res fs' t') (h : ThreadOk site fs t)
    (hplain : (∃ path, o = .openWrite path) → Plain t.name) : ThreadOk site fs' t' := by
  cases hstep with
  | recv ho hpos hlen => exact h.goes (t.handler.resume_bytes _)
  | send ho => exact h.goes (Handler.resume_send ho)
  | closeSocket ho => exact h.goes (Handler.resume_closeSocket ho)
  | raise ho hbs hsys =>
    obtain ⟨hlate, hsame⟩ := t.handler.resume_raised site.hexdigest
    exact h.goes (Handler.goes_of_late hlate hsame)
  | system ho hrun =>
    obtain ⟨hflushed, hlate, hsame⟩ := Handler.resume_system ho
    obtain ⟨w, hw, -, hbuf⟩ := h.filled (.inr hflushed)
    refine threadOk_of_late hlate fun w' hw' hne => ?_
    obtain rfl : w = w' := Option.some.inj (hw.symm.trans hw')
    exact absurd (hbuf hflushed) hne
  | openWrite ho hloc =>
    have hp := hplain ⟨_, rfl⟩
    obtain rfl := walk_plain ho hloc hp
    have hpc := (Handler.op_openWrite ho).1
    have hmd5 := (h.early (by simp [Thread.stage, Handler.stage, hpc, Pc.stage])).2
    have hresume : t.handler.resume site.hexdigest .done =
        { t.handler with pc := .sizeLen { left := msgHdrLen }, tarFile := true } := by
      simp only [Handler.resume, hpc]
    simp only [Thread.resume, hresume]
    refine ⟨fun hs => (by cases hs), fun _ => ⟨_, rfl, ?_, fun _ => rfl⟩, fun w hw _ => ?_⟩
    · refine ⟨?_, ?_⟩ <;> simp [Fs.openTrunc_data, hmd5]
    · obtain rfl := Option.some.inj hw
      refine ⟨hp, ?_⟩
      rw [Fs.openTrunc_entry]
      exact Function.update_self ..
  | file ho hbs hw k hres hall => exact h.file ho hbs hw k hres hall

/-- A thread that uses its file used it before, or has just opened it. -/
theorem ThreadStep.uses (hstep : ThreadStep site fs t o res fs' t') (h : ThreadOk site fs t)
    (huses : t'.Uses) : t'.name = t.name ∧ (t.Uses ∨ ∃ path, o = .openWrite path) := by
  cases hstep with
  | recv ho hpos hlen =>
    obtain ⟨huses, hname⟩ := uses_of_goes h (t.handler.resume_bytes _) huses
    exact ⟨hname, .inl huses⟩
  | send ho =>
    obtain ⟨huses, hname⟩ := uses_of_goes h (Handler.resume_send ho) huses
    exact ⟨hname, .inl huses⟩
  | closeSocket ho =>
    obtain ⟨huses, hname⟩ := uses_of_goes h (Handler.resume_closeSocket ho) huses
    exact ⟨hname, .inl huses⟩
  | raise ho hbs hsys =>
    obtain ⟨hlate, hsame⟩ := t.handler.resume_raised site.hexdigest
    obtain ⟨huses, hname⟩ := uses_of_goes h (Handler.goes_of_late hlate hsame) huses
    exact ⟨hname, .inl huses⟩
  | system ho hrun =>
    obtain ⟨hflushed, hlate, hsame⟩ := Handler.resume_system ho
    exact ⟨hsame.fileName, .inl (.inr (.inl hflushed))⟩
  | openWrite ho hloc =>
    refine ⟨?_, .inr ⟨_, rfl⟩⟩
    simp [Thread.name, Thread.resume, Handler.resume, (Handler.op_openWrite ho).1]
  | file ho hbs hw k hres hall =>
    rcases fileData_eq_some hbs with rfl | ⟨rfl, rfl | rfl⟩
    · obtain ⟨msgLen, hpc⟩ := Handler.op_write ho
      refine ⟨?_, .inl (.inl (by simp [Thread.stage, Handler.stage, hpc, Pc.stage]))⟩
      rcases hres with rfl | rfl
      · exact (Handler.resume_write site.hexdigest hpc).2.2
      · exact (t.handler.resume_raised site.hexdigest).2.fileName
    · have hpc := Handler.op_flush ho
      refine ⟨?_, .inl (.inl (by simp [Thread.stage, Handler.stage, hpc, Pc.stage]))⟩
      rcases hres with rfl | rfl
      · simp [Thread.name, Thread.resume, Handler.resume, hpc]
      · exact (t.handler.resume_raised site.hexdigest).2.fileName
    · -- a closed file is not in use
      have hpc := Handler.op_closeFile ho
      exfalso
      rcases hres with rfl | rfl <;>
        simp [Thread.Uses, Thread.stage, Thread.resume, Handler.resume, hpc, Handler.stage,
          Pc.stage] at huses

/-- A thread that has something to write uses its file. -/
theorem uses_of_put {bs : Bytes} {w : Writer} (ho : t.op site = some o) (hbs : fileData o = some bs)
    (hw : t.writer = some w) (hne : (w.put bs).buf ≠ []) : t.Uses := by
  rcases fileData_eq_some hbs with rfl | ⟨rfl, -⟩
  · obtain ⟨msgLen, hpc⟩ := Handler.op_write ho
    exact .inl (by simp [Thread.stage, Handler.stage, hpc, Pc.stage])
  · exact .inr (.inr ⟨w, hw, by simpa [Writer.put] using hne⟩)

theorem ThreadStep.linked (hmv : site.MovesPlain) (hstep : ThreadStep site fs t o res fs' t')
    (h : ThreadOk site fs t) (hl : fs.Linked) : fs'.Linked := by
  cases hstep with
  | openWrite ho hloc => exact hl.openTrunc _
  | file ho hbs hw k hres hall => exact hl.setData _ _
  | system ho hrun =>
    obtain ⟨hflushed, -, -⟩ := Handler.resume_system ho
    obtain ⟨w, hw, -, -⟩ := h.filled (.inr hflushed)
    obtain ⟨-, rfl⟩ := Handler.op_system ho
    rcases hmv _ _ _ (h.owns w hw (.inr (.inl hflushed))).plain hrun with rfl | hren
    · exact hl
    · exact hl.rename hren
  | _ => exact hl

/-- A call leaves the files of the other names. -/
theorem ThreadStep.frame (hmv : site.MovesPlain) (hstep : ThreadStep site fs t o res fs' t')
    (h : ThreadOk site fs t) (hl : fs.Linked)
    (hplain : (∃ path, o = .openWrite path) → Plain t.name) {name : Bytes} {file : Nat}
    (hentry : fs.entry ⟨site.recv, name⟩ = some file)
    (hne : t.Uses ∨ (∃ path, o = .openWrite path) → name ≠ t.name) :
    fs'.entry ⟨site.recv, name⟩ = fs.entry ⟨site.recv, name⟩ ∧
      fs'.data file = fs.data file := by
  cases hstep with
  | openWrite ho hloc =>
    obtain rfl := walk_plain ho hloc (hplain ⟨_, rfl⟩)
    have hname := hne (.inr ⟨_, rfl⟩)
    have hentry' := Fs.openTrunc_entry fs ⟨site.recv, t.name⟩
    refine ⟨?_, ?_⟩
    · rw [hentry', Function.update_of_ne (by simpa using hname)]
    · rw [Fs.openTrunc_data, Function.update_of_ne]
      exact hl.ne_openTrunc hentry (by simpa using hname)
  | file ho hbs hw k hres hall =>
    rename_i bs w
    by_cases hbuf : (w.put bs).buf = []
    · rw [Writer.emitted_of_buf_eq_nil hbuf]
      exact ⟨rfl, rfl⟩
    · have huses := uses_of_put ho hbs hw hbuf
      have howns := h.owns w hw huses
      refine ⟨rfl, Writer.emitted_data_of_ne _ _ _ fun heq => ?_⟩
      have hloc := hl.inj _ _ _ hentry (heq ▸ howns.entry)
      exact hne (.inl huses) (congrArg Loc.name hloc)
  | system ho hrun =>
    obtain ⟨hflushed, -, -⟩ := Handler.resume_system ho
    obtain ⟨w, hw, -, -⟩ := h.filled (.inr hflushed)
    obtain ⟨-, rfl⟩ := Handler.op_system ho
    have huses : t.Uses := .inr (.inl hflushed)
    rcases hmv _ _ _ (h.owns w hw huses).plain hrun with rfl | hren
    · exact ⟨rfl, rfl⟩
    · obtain ⟨i, hi, rfl⟩ := Option.map_eq_some_iff.mp hren
      have hname := hne (.inl huses)
      refine ⟨?_, rfl⟩
      simp only
      rw [Function.update_of_ne, Function.update_of_ne]
      · simpa using hname
      · simp only [ne_eq, Loc.mk.injEq, not_and]
        exact fun _ => hname
  | _ => exact ⟨rfl, rfl⟩

end Call

/-! ## Runs -/

/-- The condition on opens: the name is plain and no other thread uses it. -/
def OpensAlone (s : State) : Event → Prop
  | .call i (.openWrite _) _ => ∀ t, s.threads[i]? = some t →
      Plain t.name ∧ ∀ (j : Nat) u, s.threads[j]? = some u → j ≠ i → u.Uses →
      u.name ≠ t.name
  | _ => True

theorem not_uses_new : ¬ Thread.Uses {} := by
  rintro (hs | hs | ⟨w, hw, -⟩)
  · cases hs
  · cases hs
  · cases hw

theorem threadOk_new (fs : Fs) : ThreadOk site fs {} := by
  refine ⟨fun _ => ⟨rfl, rfl⟩, fun hs => ?_, fun w hw => ?_⟩
  · rcases hs with hs | hs <;> cases hs
  · cases hw

theorem Consistent.step (hmv : site.MovesPlain) {s s' : State} {e : Event} (h : Consistent site s)
    (hstep : Guarded OpensAlone (Step site) s e s') : Consistent site s' := by
  obtain ⟨hopen, hstep⟩ := hstep
  cases hstep with
  | accept =>
    have hcases : ∀ (i : Nat) t, (s.threads ++ [({} : Thread)])[i]? = some t →
        s.threads[i]? = some t ∨ t = ({} : Thread) := by
      intro i t ht
      rw [List.getElem?_append] at ht
      split at ht
      · exact .inl ht
      · exact .inr (by simpa using List.mem_of_getElem? ht)
    refine ⟨h.linked, fun i t ht => ?_, fun i j t u ht hu hij htu huu => ?_⟩
    · rcases hcases i t ht with ht | rfl
      · exact h.ok i t ht
      · exact threadOk_new s.fs
    · rcases hcases i t ht with ht | rfl
      · rcases hcases j u hu with hu | rfl
        · exact h.apart i j t u ht hu hij htu huu
        · exact absurd huu not_uses_new
      · exact absurd htu not_uses_new
  | call ht hcall =>
    rename_i i t o res fs' t'
    have hok := h.ok i t ht
    have hplain : (∃ path, o = .openWrite path) → Plain t.name := by
      rintro ⟨path, rfl⟩
      exact (hopen t ht).1
    -- the names of the other threads that use a file are not the name of this one
    have hother : ∀ (j : Nat) u, s.threads[j]? = some u → j ≠ i → u.Uses →
        t.Uses ∨ (∃ path, o = .openWrite path) → u.name ≠ t.name := by
      rintro j u hu hji huses (htu | ⟨path, rfl⟩)
      · exact h.apart j i u t hu ht hji huses htu
      · exact (hopen t ht).2 j u hu hji huses
    have hcases : ∀ (j : Nat) u, (s.threads.set i t')[j]? = some u →
        j = i ∧ u = t' ∨ j ≠ i ∧ s.threads[j]? = some u := by
      intro j u hu
      rw [List.getElem?_set] at hu
      grind
    refine ⟨hcall.linked hmv hok h.linked, fun j u hu =>
      ?_, fun j k u v hu hv hjk huu hvu => ?_⟩
    · rcases hcases j u hu with ⟨-, rfl⟩ | ⟨hji, hu⟩
      · exact hcall.ok hok hplain
      · apply (h.ok j u hu).frame
        intro w hw huses howns
        exact hcall.frame hmv hok h.linked hplain howns.entry (hother j u hu hji huses)
    · rcases hcases j u hu with ⟨hji, rfl⟩ | ⟨hji, hu'⟩ <;>
        rcases hcases k v hv with ⟨hki, rfl⟩ | ⟨hki, hv'⟩
      · exact absurd (hji.trans hki.symm) hjk
      · obtain ⟨hname, huses⟩ := hcall.uses hok huu
        rw [hname]
        exact (hother k v hv' hki hvu huses).symm
      · obtain ⟨hname, huses⟩ := hcall.uses hok hvu
        rw [hname]
        exact hother j u hu' hji huu huses
      · exact h.apart j k u v hu' hv' hjk huu hvu

/-- What a move places in `tar_dir` is what its thread received and digested. -/
def PlacesOwn (site : Site) (s : State) (e : Event) (s' : State) : Prop :=
  ∀ i command, e = .call i (.system command) .done → ∀ t, s.threads[i]? = some t →
    ∀ name file, s'.fs.entry ⟨site.tar, name⟩ = some file →
      s.fs.entry ⟨site.tar, name⟩ ≠ some file → s'.fs.data file = t.handler.localMd5

theorem Consistent.placesOwn (hmv : site.MovesPlain) {s s' : State} {e : Event}
    (h : Consistent site s) (hstep : Step site s e s') : PlacesOwn site s e s' := by
  rintro i command rfl t ht name file hnew hold
  cases hstep with
  | call ht' hcall =>
    obtain rfl := Option.some.inj (ht.symm.trans ht')
    cases hcall with
    | file ho hbs _ _ _ _ => cases hbs
    | system ho hrun =>
      obtain ⟨hflushed, -, -⟩ := Handler.resume_system ho
      obtain ⟨w, hw, hholds, hbuf⟩ := (h.ok i t ht).filled (.inr hflushed)
      have howns := (h.ok i t ht).owns w hw (.inr (.inl hflushed))
      obtain ⟨-, rfl⟩ := Handler.op_system ho
      rcases hmv _ _ _ howns.plain hrun with rfl | hren
      · exact absurd hnew hold
      · obtain ⟨k, hk, rfl⟩ := Option.map_eq_some_iff.mp hren
        have hfile : k = w.file := Option.some.inj (hk.symm.trans howns.entry)
        have hdata : s.fs.data w.file = t.handler.localMd5 := by
          simpa [hbuf hflushed] using hholds.content
        simp only [Function.update_apply] at hnew
        split at hnew
        · obtain rfl := Option.some.inj hnew
          rw [hfile]
          exact hdata
        · split at hnew
          · cases hnew
          · exact absurd hnew hold

/-- In every run in which each file is opened under a plain name that no other thread uses, every
move places the bytes that its thread received. -/
theorem move_places_own (hmv : site.MovesPlain) {fs : Fs} (hfs : fs.Linked) {es : List Event}
    {s s' : State} {e : Event} (hrun : Run (Guarded OpensAlone (Step site)) { fs := fs } es s)
    (hstep : Step site s e s') : PlacesOwn site s e s' := by
  have hinv : Consistent site s :=
    hrun.invariant (fun _ _ _ h hs => h.step hmv hs) (consistent_init hfs)
  exact hinv.placesOwn hmv hstep

/-! ## Two connections with the same name -/

/-- The MD5 digest of the one-byte file `a`. -/
def digestOfA : Bytes := ascii "0cc175b9c0f1b6a831c399e269772661"

theorem join_demo {name : Bytes} (hname : IsFileName name) :
    join (ascii "r") name = 114 :: 47 :: name := by
  have hhead : name.head? ≠ some slash := fun h => hname.noSlash (List.mem_of_head? h)
  rw [join, if_neg hhead, if_neg (by decide)]
  rfl

theorem plain_x : Plain [120] where
  nonempty := by decide
  noSlash := by decide
  noNul := by decide
  notDots := by decide
  short := by decide
  shell := List.all_eq_true.mp (by decide)

/-- A server with the directories `r` and `t`, and a digest that is right on the file `a`. -/
def demoSite : Site where
  recvDir := ascii "r"
  tarDir := ascii "t"
  recv := 0
  tar := 1
  hexdigest := Equiv.swap (ascii "a") digestOfA
  walk
    | 114 :: 47 :: name => some ⟨0, name⟩
    | _ => none
  system command fs fs' := ∀ name, Plain name →
    command = mvCommand (ascii "t") (join (ascii "r") name) →
    fs' = fs ∨ fs.rename ⟨0, name⟩ ⟨1, name⟩ = some fs'
  walk_name := by
    intro name hname
    rw [join_demo hname]
    rfl

theorem demoSite_movesPlain : demoSite.MovesPlain :=
  fun name _ _ hname hrun => hrun name hname rfl

/-- The command that moves `x` moves nothing else. -/
theorem mvCommand_x_inj {name : Bytes} (hname : Plain name)
    (h : mvCommand (ascii "t") (join (ascii "r") [120]) =
      mvCommand (ascii "t") (join (ascii "r") name)) : name = [120] := by
  have hjoin := List.append_cancel_left (List.append_cancel_right (List.append_cancel_right h))
  rw [join_demo hname.toIsFileName, join_demo plain_x.toIsFileName] at hjoin
  simpa using hjoin.symm

theorem demoSite_system_x {fs fs' : Fs} (h : fs.rename ⟨0, [120]⟩ ⟨1, [120]⟩ = some fs') :
    demoSite.system (mvCommand (ascii "t") (join (ascii "r") [120])) fs fs' := by
  intro name hname hcommand
  obtain rfl := mvCommand_x_inj hname hcommand
  exact .inr h

def emptyFs : Fs where
  entry _ := none
  data _ := []
  next := 0

theorem emptyFs_linked : emptyFs.Linked := ⟨by simp [emptyFs], by simp [emptyFs]⟩

/-- A thread that has received the file `a` under the name `x` and is about to move it. -/
def movingX : Thread where
  handler := { pc := .moving, fileName := [120], tarFile := true, localMd5 := [97]
               peerDigest := digestOfA }
  writer := some { file := 0, pos := 1 }

/-- The files after the one byte `a` has been written and flushed. -/
def demoFs : Fs :=
  let fs := (emptyFs.openTrunc ⟨0, [120]⟩).2
  let w : Writer := Writer.put { file := 0 } [97]
  ((w.emit 0).put []).emitted 1 (w.emitted 0 fs)

/-- The first connection, up to its move. -/
def demoEvents : List Event :=
  [.accept, .call 0 (.recv 4) (.bytes [0, 0, 0, 1]), .call 0 (.recv 1) (.bytes [120]),
    .call 0 (.openWrite [114, 47, 120]) .done, .call 0 (.recv 4) (.bytes [0, 0, 0, 1]),
    .call 0 (.recv 1) (.bytes [97]), .call 0 (.write [97]) .done, .call 0 .flush .done,
    .call 0 (.recv 4) (.bytes [0, 0, 0, 32]), .call 0 (.recv 32) (.bytes digestOfA)]

theorem demo_run : Run (Guarded OpensAlone (Step demoSite)) { fs := emptyFs } demoEvents
    { fs := demoFs, threads := [movingX] } := by
  refine .cons ⟨trivial, .accept⟩ ?_
  refine .cons ⟨trivial, .call rfl (.recv rfl (by decide) (by decide))⟩ ?_
  refine .cons ⟨trivial, .call rfl (.recv rfl (by decide) (by decide))⟩ ?_
  have hwalk : demoSite.walk [114, 47, 120] = some ⟨0, [120]⟩ := rfl
  refine .cons ⟨?_, .call rfl (.openWrite rfl hwalk)⟩ ?_
  · intro t ht
    obtain rfl := Option.some.inj ht
    refine ⟨plain_x, fun j u hu hj => ?_⟩
    exact absurd hu (by simp [hj])
  refine .cons ⟨trivial, .call rfl (.recv rfl (by decide) (by decide))⟩ ?_
  refine .cons ⟨trivial, .call rfl (.recv rfl (by decide) (by decide))⟩ ?_
  refine .cons ⟨trivial, .call rfl (.file rfl rfl rfl 0 (.inl rfl) fun _ h => ?_)⟩ ?_
  · rcases h with h | h <;> cases h
  refine .cons ⟨trivial, .call rfl (.file rfl rfl rfl 1 (.inl rfl) fun _ _ => ?_)⟩ ?_
  · exact Nat.le_refl 1
  refine .cons ⟨trivial, .call rfl (.recv rfl (by decide) (by decide))⟩ ?_
  refine .cons ⟨trivial, .call rfl (.recv rfl (by decide) (by decide))⟩ ?_
  exact .nil _

/-- Alone, the first connection moves the file it received. -/
theorem move_places_own_demo : ∃ s', Step demoSite { fs := demoFs, threads := [movingX] }
      (.call 0 (.system (mvCommand (ascii "t") (join (ascii "r") [120]))) .done) s' ∧
    s'.fs.read ⟨1, [120]⟩ = some [97] ∧
    PlacesOwn demoSite { fs := demoFs, threads := [movingX] }
      (.call 0 (.system (mvCommand (ascii "t") (join (ascii "r") [120]))) .done) s' := by
  obtain ⟨fs', hren⟩ : ∃ fs', demoFs.rename ⟨0, [120]⟩ ⟨1, [120]⟩ = some fs' :=
    ⟨_, rfl⟩
  have hstep : Step demoSite { fs := demoFs, threads := [movingX] }
      (.call 0 (.system (mvCommand (ascii "t") (join (ascii "r") [120]))) .done)
      { fs := fs', threads := [movingX.resume demoSite .done] } := by
    exact .call rfl (.system rfl (demoSite_system_x hren))
  exact ⟨_, hstep, Fs.read_rename hren,
    move_places_own demoSite_movesPlain emptyFs_linked demo_run hstep⟩

/-- A second connection opens `x` again before the first one moves it. -/
def reopenEvents : List Event :=
  [.accept, .call 1 (.recv 4) (.bytes [0, 0, 0, 1]), .call 1 (.recv 1) (.bytes [120]),
    .call 1 (.openWrite [114, 47, 120]) .done]

def fillingX : Thread where
  handler := { pc := .sizeLen { left := 4 }, fileName := [120], tarFile := true }
  writer := some { file := 0 }

/-- The first connection then moves an empty file. -/
theorem reopened_not_placesOwn : Function.Injective demoSite.hexdigest ∧
    ∃ s e s', Run (Step demoSite) { fs := emptyFs } (demoEvents ++ reopenEvents) s ∧
      Step demoSite s e s' ∧ ¬ PlacesOwn demoSite s e s' := by
  refine ⟨(Equiv.swap _ _).injective, ?_⟩
  have hreopen : Run (Step demoSite) { fs := demoFs, threads := [movingX] } reopenEvents
      { fs := (demoFs.openTrunc ⟨0, [120]⟩).2, threads := [movingX, fillingX] } := by
    refine .cons .accept ?_
    refine .cons (.call rfl (.recv rfl (by decide) (by decide))) ?_
    refine .cons (.call rfl (.recv rfl (by decide) (by decide))) ?_
    have hwalk : demoSite.walk [114, 47, 120] = some ⟨0, [120]⟩ := rfl
    refine .cons (.call rfl (.openWrite rfl hwalk)) ?_
    exact .nil _
  obtain ⟨fs', hren⟩ :
      ∃ fs', (demoFs.openTrunc ⟨0, [120]⟩).2.rename ⟨0, [120]⟩ ⟨1, [120]⟩ =
        some fs' := ⟨_, rfl⟩
  have hstep : Step demoSite
      { fs := (demoFs.openTrunc ⟨0, [120]⟩).2, threads := [movingX, fillingX] }
      (.call 0 (.system (mvCommand (ascii "t") (join (ascii "r") [120]))) .done)
      { fs := fs', threads := [movingX.resume demoSite .done, fillingX] } :=
    .call rfl (.system rfl (demoSite_system_x hren))
  refine ⟨_, _, _, demo_run.of_guarded.trans hreopen, hstep, fun hplaces => ?_⟩
  obtain rfl := Option.some.inj hren
  have hempty := hplaces 0 _ rfl movingX rfl [120] 0 rfl (by decide)
  exact absurd hempty (by decide)

end Server

end CarFi.Uploader
