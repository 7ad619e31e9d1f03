import CarFi.Library.Fields
import CarFi.Uploader.Stages
import CarFi.Uploader.Termination

/-!
# What a file name can make the server do

The name that a peer sends is joined to `recv_dir` and pasted into a command line. A name that is
a path leads out of `recv_dir`, and a name with blanks is more than one word to the shell.
`confined_iff` says which names are kept inside.
-/
namespace CarFi.Uploader

open Library

/-! ## The shell -/

def blank (b : UInt8) : Bool := b = 32 ∨ b = 9

/-- A byte that stands for itself wherever it is in a word: neither a blank nor one of the bytes
that the shell takes for operators, quotes, expansions or patterns. -/
def literal (b : UInt8) : Bool := !blank b && b ∉ 10 :: ascii "|&;<>()$`\\\"'*?["

/-- A word that stands for itself. A number sign at its front is the start of a comment, and a tilde
there stands for a home directory. -/
def plain (word : Bytes) : Bool :=
  word.all literal && word.head? ≠ some 35 && word.head? ≠ some 126

/-- The commands that a shell executes for a text, each as its words. -/
abbrev Shell := Bytes → List (List Bytes)

/-- A text whose words stand for themselves and that begins with `mv` is one command, split into
words at the blanks. -/
def Shell.Splits (sh : Shell) : Prop :=
  ∀ text, (∀ w ∈ fields blank text, plain w = true) →
    (fields blank text).head? = some (ascii "mv") → sh text = [fields blank text]

example : plain (ascii "r/x~y#z]{1,2}=100%") = true ∧ plain [0xc3, 0xa9] = true := by decide

theorem plain_iff {w : Bytes} : plain w = true ↔
    (∀ b ∈ w, literal b = true) ∧ w.head? ≠ some 35 ∧ w.head? ≠ some 126 := by
  simp [plain, and_assoc]

theorem blank_eq_false_of_literal {b : UInt8} (h : literal b = true) : blank b = false := by
  simp only [literal, Bool.and_eq_true, Bool.not_eq_true'] at h
  exact h.1

theorem noblank_of_plain {w : Bytes} (h : plain w = true) : ∀ b ∈ w, blank b = false :=
  fun b hb => blank_eq_false_of_literal ((plain_iff.mp h).1 b hb)

/-! ## Confinement -/

/-- One step of the resolution of a path, without symbolic links. -/
def enter (dir : List Bytes) (c : Bytes) : List Bytes :=
  if c = ascii "." then dir else if c = ascii ".." then dir.dropLast else dir ++ [c]

/-- The names from the root to the file of a path. -/
def resolve (cwd : List Bytes) (path : Bytes) : List Bytes :=
  (fields (· = slash) path).foldl enter (if path.head? = some slash then [] else cwd)

/-- What follows the last slash. -/
def baseName (path : Bytes) : Bytes := (path.reverse.takeWhile (· ≠ slash)).reverse

/-- A path that `open` can create a file for: one without a NUL byte, and not that of a
directory. -/
def Openable (path : Bytes) : Prop := 0 ∉ path ∧ baseName path ∉ [[], ascii ".", ascii ".."]

section Confinement

variable (cwd : List Bytes) (recvDir tarDir : Bytes)

/-- The path is that of a file directly in `recv_dir` or `tar_dir`. -/
structure Inside (path : Bytes) : Prop where
  ne_nil : path ≠ []
  directly : ∃ dir c, (dir = recvDir ∨ dir = tarDir) ∧
    resolve cwd path = resolve cwd dir ++ [c]

/-- The word is no option to the command. -/
def IsOperand (word : Bytes) : Prop := word.head? ≠ some 45

/-- The call creates, truncates and moves nothing but files inside, and executes nothing but their
move to `tar_dir`. -/
def Confines (sh : Shell) : Op → Prop
  | .openWrite path => Inside cwd recvDir tarDir path
  | .system command => ∀ words ∈ sh command, ∃ path, Inside cwd recvDir tarDir path ∧
      IsOperand path ∧ IsOperand tarDir ∧ words = [ascii "mv", path, tarDir]
  | _ => True

/-- Whatever the peer and the system do, every call that the thread makes with this file name is
confined. -/
def ConfinedName (hexdigest : Bytes → Bytes) (name : Bytes) : Prop :=
  ∀ sh : Shell, sh.Splits → ∀ b : Behaviour (Server.machine recvDir tarDir hexdigest),
    (∀ i path, ((Server.machine recvDir tarDir hexdigest).op
      ((Server.machine recvDir tarDir hexdigest).state b.res i) = some (.openWrite path)) →
        b.res i = .done → Openable path) →
    ∀ i o, (Server.machine recvDir tarDir hexdigest).op
        ((Server.machine recvDir tarDir hexdigest).state b.res i) = some o →
      ((Server.machine recvDir tarDir hexdigest).state b.res i).fileName = name →
      b.res i = .done → Confines cwd recvDir tarDir sh o

/-- The path is a word that stands for itself and for a file inside, up to blanks around it, and
`tar_dir` is a word that stands for itself. -/
structure SafePath (path : Bytes) : Prop where
  inside : Inside cwd recvDir tarDir path
  word : ∃ w before after, Inside cwd recvDir tarDir w ∧ IsOperand w ∧ plain w = true ∧
    (∀ b ∈ before, blank b = true) ∧ (∀ b ∈ after, blank b = true) ∧
    path = before ++ (w ++ after)
  tarDir_ne : tarDir ≠ []
  tarDir_plain : plain tarDir = true
  tarDir_operand : IsOperand tarDir

end Confinement

variable {cwd : List Bytes} {recvDir tarDir path : Bytes}

/-! ## The command line -/

theorem fields_mvCommand (tarDir path : Bytes) :
    fields blank (Server.mvCommand tarDir path) =
      ascii "mv" :: (fields blank path ++ fields blank tarDir) := by
  have htext : Server.mvCommand tarDir path = ascii "mv" ++ 32 :: (path ++ 32 :: tarDir) := by
    simp [Server.mvCommand, ascii]
  have hmv : fields blank (ascii "mv") = [ascii "mv"] := by decide
  rw [htext, fields_append (by decide), fields_append (by decide), hmv]
  rfl

theorem fields_of_plain {w : Bytes} (hne : w ≠ []) (h : plain w = true) : fields blank w = [w] :=
  fields_run hne (noblank_of_plain h)

theorem fields_between {before w after : Bytes} (hne : w ≠ []) (h : plain w = true)
    (hbefore : ∀ b ∈ before, blank b = true) (hafter : ∀ b ∈ after, blank b = true) :
    fields blank (before ++ (w ++ after)) = [w] := by
  have hrest : fields blank (w ++ after) = [w] := by
    cases after with
    | nil => simpa using fields_of_plain hne h
    | cons x after =>
      rw [fields_append (hafter x (by simp)), fields_of_plain hne h,
        fields_separators fun b hb => hafter b (by simp [hb])]
      rfl
  induction before with
  | nil => exact hrest
  | cons x before ih =>
    rw [List.cons_append, fields_cons (hbefore x (by simp))]
    exact ih fun b hb => hbefore b (by simp [hb])

/-- The command line of a safe path is the move of one file. -/
theorem SafePath.confines (h : SafePath cwd recvDir tarDir path) {sh : Shell} (hsh : sh.Splits) :
    Confines cwd recvDir tarDir sh (.system (Server.mvCommand tarDir path)) := by
  obtain ⟨w, before, after, hin, hop, hplain, hbefore, hafter, rfl⟩ := h.word
  have htext : fields blank (Server.mvCommand tarDir (before ++ (w ++ after))) =
      [ascii "mv", w, tarDir] := by
    rw [fields_mvCommand, fields_between hin.ne_nil hplain hbefore hafter,
      fields_of_plain h.tarDir_ne h.tarDir_plain]
    rfl
  have hwords : ∀ word ∈ fields blank (Server.mvCommand tarDir (before ++ (w ++ after))),
      plain word = true := by
    simp only [htext, List.forall_mem_cons]
    exact ⟨by decide, hplain, h.tarDir_plain, by simp⟩
  intro words hmem
  rw [hsh _ hwords (by rw [htext]; rfl), htext, List.mem_singleton] at hmem
  exact ⟨w, hin, hop, h.tarDir_operand, hmem⟩

/-- A shell that executes another command for a text with any other word. -/
def wildShell : Shell := fun text =>
  if (fields blank text).all plain then [fields blank text] else [[ascii "rm"]]

theorem wildShell_splits : wildShell.Splits := fun _ hwords _ =>
  if_pos (List.all_eq_true.mpr hwords)

/-- A path with a confined command line is safe. -/
theorem safePath_of_confines (hin : Inside cwd recvDir tarDir path)
    (h : Confines cwd recvDir tarDir wildShell (.system (Server.mvCommand tarDir path))) :
    SafePath cwd recvDir tarDir path := by
  have hall : (fields blank (Server.mvCommand tarDir path)).all plain = true := by
    by_contra hnot
    obtain ⟨w, -, -, -, hwords⟩ := h [ascii "rm"] (by simp [wildShell, hnot])
    simp at hwords
  have hplain : ∀ w ∈ fields blank path ++ fields blank tarDir, plain w = true := by
    intro w hw
    refine List.all_eq_true.mp hall w ?_
    rw [fields_mvCommand]
    exact List.mem_cons_of_mem _ hw
  obtain ⟨w, hw, hop, htar, hwords⟩ := h (fields blank (Server.mvCommand tarDir path)) (by
    simp [wildShell, hall])
  have hfields : fields blank path ++ fields blank tarDir = [w, tarDir] := by
    simpa [fields_mvCommand] using hwords
  rw [hfields] at hplain
  have hplainw : plain w = true := hplain w (by simp)
  have hplaintar : plain tarDir = true := hplain tarDir (by simp)
  -- `tar_dir` is a word, so it is the word of `tar_dir`
  have hne : tarDir ≠ [] := by
    have hmem : tarDir ∈ fields blank path ++ fields blank tarDir := by simp [hfields]
    rcases List.mem_append.mp hmem with hmem | hmem
    · exact (of_mem_fields hmem).1
    · exact (of_mem_fields hmem).1
  have hpath : fields blank path = [w] := by
    rw [fields_of_plain hne hplaintar] at hfields
    exact List.append_cancel_right (hfields : _ = [w] ++ [tarDir])
  obtain ⟨before, after, hsplit, hbefore, hafter, -, -⟩ := fields_eq_singleton hpath
  exact ⟨hin, ⟨w, before, after, hw, hop, hplainw, hbefore, hafter, hsplit⟩, hne,
    hplaintar, htar⟩

/-! ## What a thread does with a name -/

namespace Server

section Program

variable {recvDir tarDir : Bytes} {hexdigest : Bytes → Bytes}

/-- A name that is in use has been decoded, and its path has been opened. -/
structure Handler.Named (recvDir : Bytes) (h : Handler) : Prop where
  opening : h.pc = .opening → isUtf8 h.fileName = true
  opened : h.stage = .filling ∨ h.stage = .flushed →
    isUtf8 h.fileName = true ∧ Openable (join recvDir h.fileName)

theorem Handler.named_of_late {h : Handler} (hlate : h.stage = .late) : h.Named recvDir where
  opening hpc := by simp [Handler.stage, hpc, Pc.stage] at hlate
  opened hstage := by simp [hlate] at hstage

theorem Handler.gotName_utf8 (h : Handler) {msg : Bytes} (hpc : (h.gotName msg).pc = .opening) :
    isUtf8 (h.gotName msg).fileName = true := by
  have hfinish := h.finish_stage
  unfold Handler.gotName at hpc ⊢
  split_ifs at hpc ⊢ with hmsg
  · exact hmsg
  · simp [Handler.stage, hpc, Pc.stage] at hfinish

/-- A thread comes to the open with a name that it has decoded. -/
theorem Handler.resume_bytes_utf8 {h : Handler} {tmp : Bytes}
    (hpc : (h.resume hexdigest (.bytes tmp)).pc = .opening) :
    isUtf8 (h.resume hexdigest (.bytes tmp)).fileName = true := by
  have hloop {pc : RecvMsg → Pc} {k : Bytes → Handler} {r : RecvMsg}
      (hne : ∀ r, pc r ≠ .opening)
        (hk : ∀ msg, (k msg).pc = .opening → isUtf8 (k msg).fileName = true)
      (hpc : (h.recvMsg pc k r).pc = .opening) : isUtf8 (h.recvMsg pc k r).fileName = true := by
    unfold Handler.recvMsg RecvMsg.loop at hpc ⊢
    split_ifs at hpc ⊢
    · exact hk _ hpc
    · exact absurd hpc (hne r)
  have hgoes : h.Goes (h.resume hexdigest (.bytes tmp)) := h.resume_bytes tmp
  have hstage := hgoes.stage
  cases hcur : h.pc with
  | nameLen r =>
    simp only [Handler.resume, hcur] at hpc ⊢
    refine hloop (by simp) (fun msg hmsg => ?_) hpc
    exact hloop (by simp) (fun msg => h.gotName_utf8) hmsg
  | name r =>
    simp only [Handler.resume, hcur] at hpc ⊢
    exact hloop (by simp) (fun msg => h.gotName_utf8) hpc
  | opening =>
    have hfinish := h.finish_stage
    simp only [Handler.resume, hcur] at hpc
    simp [Handler.stage, hpc, Pc.stage] at hfinish
  | _ => simp [Handler.stage, hpc, hcur, Pc.stage] at hstage

theorem Handler.Named.step {h : Handler} {o : Op} {res : Res} (hn : h.Named recvDir)
    (ho : h.op recvDir tarDir hexdigest = some o) (hfit : Fits o res)
    (hopen : ∀ path, o = .openWrite path → res = .done → Openable path) :
    (h.resume hexdigest res).Named recvDir := by
  cases res with
  | raised => exact named_of_late (h.resume_raised hexdigest).1
  | size n =>
    cases o with
    | getsize path => cases hpc : h.pc <;> simp [Handler.op, hpc] at ho
    | _ => exact hfit.elim
  | bytes tmp =>
    have hgoes : h.Goes (h.resume hexdigest (.bytes tmp)) := h.resume_bytes tmp
    refine ⟨resume_bytes_utf8, fun hstage => ?_⟩
    have hsame : (h.resume hexdigest (.bytes tmp)).stage = h.stage := by
      rcases hgoes.stage with hs | hs
      · exact hs
      · simp [hs] at hstage
    have hname := hgoes.fileName (by rintro he; simp [hsame, he] at hstage)
    rw [hname]
    exact hn.opened (hsame ▸ hstage)
  | done =>
    cases hpc : h.pc with
    | opening =>
      obtain rfl : .openWrite (join recvDir h.fileName) = o := by
        simpa [Handler.op, hpc, Handler.filePath] using ho
      simp only [Handler.resume, hpc]
      exact ⟨by simp, fun _ => ⟨hn.opening hpc, hopen _ rfl rfl⟩⟩
    | writing msgLen chunk =>
      obtain ⟨hstage, -, hname⟩ := Handler.resume_write hexdigest hpc
      refine ⟨fun hop => ?_, fun _ => ?_⟩
      · simp [Handler.stage, hop, Pc.stage] at hstage
      · rw [hname]
        exact hn.opened (.inl (by simp [Handler.stage, hpc, Pc.stage]))
    | flushing =>
      simp only [Handler.resume, hpc]
      exact ⟨by simp, fun _ => hn.opened (.inl (by simp [Handler.stage, hpc, Pc.stage]))⟩
    | moving =>
      obtain rfl : .system (mvCommand tarDir (h.filePath recvDir)) = o := by
        simpa [Handler.op, hpc] using ho
      exact named_of_late (Handler.resume_system ho).2.1
    | sendLen | sendDigest | closing | closingSocket =>
      simp only [Handler.resume, hpc]
      exact named_of_late (by first | rfl | exact h.finish_stage)
    | done => simp [Handler.op, hpc] at ho
    | _ =>
      simp only [Handler.op, hpc, Option.some.injEq] at ho
      subst ho
      exact hfit.elim

theorem Handler.named_state {res : ℕ → Res}
    (hfit : ∀ i o, (machine recvDir tarDir hexdigest).op
      ((machine recvDir tarDir hexdigest).state res i) = some o → Fits o (res i))
    (hopen : ∀ i path, (machine recvDir tarDir hexdigest).op
      ((machine recvDir tarDir hexdigest).state res i) = some (.openWrite path) →
        res i = .done → Openable path) (i : ℕ) :
    ((machine recvDir tarDir hexdigest).state res i).Named recvDir := by
  induction i with
  | zero =>
    refine ⟨fun hpc => ?_, fun hstage => ?_⟩
    · cases hpc
    · rcases hstage with hstage | hstage <;> cases hstage
  | succ i ih =>
    cases ho : (machine recvDir tarDir hexdigest).op
        ((machine recvDir tarDir hexdigest).state res i) with
    | some o =>
      refine ih.step ho (hfit i o ho) ?_
      rintro path rfl
      exact hopen i path ho
    | none =>
      have hstays : (machine recvDir tarDir hexdigest).state res (i + 1) =
          (machine recvDir tarDir hexdigest).state res i := Handler.resume_eq_self ho
      rwa [hstays]

/-! ## A name reaches its two calls -/

/-- The peer sends the name. -/
def nameAnswers (name : Bytes) : List Res :=
  .bytes (be32 name.length) :: if name = [] then [] else [.bytes name]

/-- The file is opened, and the peer sends no content and a digest. -/
def moveAnswers (digest : Bytes) : List Res :=
  [.done, .bytes (be32 0), .done, .bytes (be32 digest.length), .bytes digest]

/-- The results that the system can give: they fit, and only a path that can be is opened. -/
def Possible (o : Op) (res : Res) : Prop :=
  Fits o res ∧ ∀ path, o = .openWrite path → res = .done → Openable path

theorem possible_recv {n : Int} {tmp : Bytes} (hpos : 0 < n) (hlen : (tmp.length : Int) ≤ n) :
    Possible (.recv n) (.bytes tmp) :=
  ⟨⟨hpos, hlen⟩, fun _ h => by cases h⟩

theorem Handler.recvMsg_full {h : Handler} {pc : RecvMsg → Pc}
    {k : Bytes → Handler} {msg : Bytes} {n : Int} (hn : n = msg.length) :
    h.recvMsg pc k (RecvMsg.add { left := n } msg) = k msg := by
  simp [Handler.recvMsg, RecvMsg.loop, RecvMsg.add, hn]

theorem be32_fits (n : Nat) : ((be32 n).length : Int) ≤ msgHdrLen := by
  simp [be32, msgHdrLen]

/-- The peer makes the thread come to the open with any name. -/
theorem leads_opening {name : Bytes} (hutf : isUtf8 name = true) (hlen : name.length < 2 ^ 31) :
    (machine recvDir tarDir hexdigest).Leads Possible {} (nameAnswers name)
      { pc := .opening, fileName := name } := by
  have hgot : Handler.gotName {} name = { pc := .opening, fileName := name } := if_pos hutf
  have hhdr : Handler.resume hexdigest {} (.bytes (be32 name.length)) =
      Handler.recvMsg {} .name (Handler.gotName {}) { left := name.length } := by
    change Handler.recvMsg {} .nameLen (Handler.gotNameLen {}) _ = _
    rw [Handler.recvMsg_full (by rfl), Handler.gotNameLen, unpackInt_be32 hlen]
  have hfirst : Possible (.recv msgHdrLen) (.bytes (be32 name.length)) :=
    possible_recv (by decide) (be32_fits _)
  by_cases hname : name = []
  · subst hname
    exact .cons rfl hfirst (hhdr.trans hgot) .nil
  · have hpos : 0 < (name.length : Int) := by simpa [List.length_pos_iff] using hname
    rw [nameAnswers, if_neg hname]
    refine .cons rfl hfirst (t := { pc := .name { left := name.length } }) ?_ ?_
    · exact hhdr.trans (if_neg hpos.ne')
    · exact .cons rfl (possible_recv hpos le_rfl) ((Handler.recvMsg_full rfl).trans hgot) .nil

/-- From there the thread comes to the move, if the path can be opened. -/
theorem leads_moving {name : Bytes} (hopen : Openable (join recvDir name))
    (hlen : (hexdigest []).length = 32) (hascii : ∀ b ∈ hexdigest [], b < 0x80) :
    (machine recvDir tarDir hexdigest).Leads Possible { pc := .opening, fileName := name }
      (moveAnswers (hexdigest []))
      { pc := .moving, fileName := name, tarFile := true, peerDigest := hexdigest [] } := by
  have hpossible : Possible (.openWrite (join recvDir name)) .done :=
    ⟨trivial, fun _ h _ => Op.openWrite.inj h ▸ hopen⟩
  have hhdr (n : Nat) : Possible (.recv msgHdrLen) (.bytes (be32 n)) :=
    possible_recv (by decide) (be32_fits n)
  have hdigest : Possible (.recv (hexdigest []).length) (.bytes (hexdigest [])) :=
    possible_recv (by simp [hlen]) le_rfl
  let opened (pc : Pc) : Handler := { pc := pc, fileName := name, tarFile := true }
  have hsize : (opened (.sizeLen { left := msgHdrLen })).resume hexdigest (.bytes (be32 0)) =
      opened .flushing := by
    simp only [opened, Handler.resume]
    rw [Handler.recvMsg_full (by rfl), unpackInt_be32 (by decide)]
    rfl
  have hlength : (opened (.digestLen { left := msgHdrLen })).resume hexdigest
      (.bytes (be32 (hexdigest []).length)) =
        opened (.digest { left := (hexdigest []).length }) := by
    simp only [opened, Handler.resume]
    rw [Handler.recvMsg_full (by rfl), Handler.gotDigestLen, unpackInt_be32 (by omega)]
    exact if_neg (by simp [hlen])
  have hgot : (opened (.digest { left := (hexdigest []).length })).resume hexdigest
      (.bytes (hexdigest [])) = { opened .moving with peerDigest := hexdigest [] } := by
    simp only [opened, Handler.resume]
    rw [Handler.recvMsg_full rfl, Handler.gotDigest, if_pos (isUtf8_of_ascii hascii)]
    exact if_pos rfl
  refine .cons rfl hpossible (t := opened (.sizeLen { left := msgHdrLen })) rfl ?_
  refine .cons rfl (hhdr 0) hsize ?_
  refine .cons rfl ⟨trivial, fun _ h => by cases h⟩
    (t := opened (.digestLen { left := msgHdrLen })) rfl ?_
  exact .cons rfl (hhdr _) hlength (.cons rfl hdigest hgot .nil)

/-- A call that the thread can be brought to with the name, and that can be done, is confined if
the name is. -/
theorem confines_of_leads {name : Bytes} (hc : ConfinedName cwd recvDir tarDir hexdigest name)
    {sh : Shell} (hsh : sh.Splits) {l : List Res} {h : Handler} {o : Op}
    (hl : (machine recvDir tarDir hexdigest).Leads Possible {} l h) (hne : .bytes [] ∉ l)
    (ho : h.op recvDir tarDir hexdigest = some o) (hname : h.fileName = name)
    (hdone : Possible o .done) : Confines cwd recvDir tarDir sh o := by
  have hlast : (machine recvDir tarDir hexdigest).Leads Possible {} (l ++ [.done]) _ :=
    hl.append (.cons ho hdone rfl .nil)
  have hres (i : ℕ) (o : Op) (ho : (machine recvDir tarDir hexdigest).op
      ((machine recvDir tarDir hexdigest).state (Machine.answers (l ++ [.done]) .raised) i) =
        some o) : Possible o (Machine.answers (l ++ [.done]) .raised i) :=
    hlast.answered.all (fun o => ⟨by cases o <;> trivial, fun _ _ h => by cases h⟩) i o ho
  have hfull (i : ℕ) : Machine.answers (l ++ [Res.done]) .raised i ≠ .bytes [] := by
    intro hnil
    rcases Machine.answers_mem (l ++ [Res.done]) .raised i with hmem | hmem
    · rw [hnil] at hmem
      simp [hne] at hmem
    · cases hnil.symm.trans hmem
  let b : Behaviour (machine recvDir tarDir hexdigest) :=
    { res := Machine.answers (l ++ [.done]) .raised
      fits := fun i o ho => (hres i o ho).1
      eof := fun i _ _ _ _ _ hnil => absurd hnil (hfull i) }
  have hstate : (machine recvDir tarDir hexdigest).state b.res l.length = h :=
    (Machine.state_answers l [.done] .raised).trans hl.reaches
  refine hc sh hsh b (fun i path ho => (hres i _ ho).2 path rfl) l.length o ?_ ?_ ?_
  · rw [hstate]
    exact ho
  · rw [hstate]
    exact hname
  · exact Machine.answers_length l [] .done .raised

theorem bytes_nil_notMem_nameAnswers (name : Bytes) : .bytes [] ∉ nameAnswers name := by
  unfold nameAnswers
  split_ifs with hname
  · simp [be32]
  · simp [be32, Ne.symm hname]

theorem safePath_of_confinedName {name : Bytes}
    (hc : ConfinedName cwd recvDir tarDir hexdigest name) (hname : name.length < 2 ^ 31)
    (hlen : (hexdigest []).length = 32) (hascii : ∀ b ∈ hexdigest [], b < 0x80)
    (hutf : isUtf8 name = true) (hopen : Openable (join recvDir name)) :
    SafePath cwd recvDir tarDir (join recvDir name) := by
  have hopening := @leads_opening recvDir tarDir hexdigest _ hutf hname
  have hinside : Inside cwd recvDir tarDir (join recvDir name) :=
    confines_of_leads (o := .openWrite _) hc wildShell_splits hopening
      (bytes_nil_notMem_nameAnswers name) rfl rfl
      ⟨trivial, fun _ h _ => Op.openWrite.inj h ▸ hopen⟩
  have hne : .bytes [] ∉ nameAnswers name ++ moveAnswers (hexdigest []) := by
    have hdigest : hexdigest [] ≠ [] := fun h => by simp [h] at hlen
    simp [bytes_nil_notMem_nameAnswers, moveAnswers, be32, hdigest.symm]
  refine safePath_of_confines hinside ?_
  exact confines_of_leads (o := .system _) hc wildShell_splits
    (hopening.append (leads_moving hopen hlen hascii))
      hne rfl rfl ⟨trivial, fun _ h => by cases h⟩

/-- A name is confined iff it is no text, or its path cannot be opened, or its path is safe. -/
theorem confined_iff (cwd : List Bytes) (recvDir tarDir : Bytes) (hexdigest : Bytes → Bytes)
    (name : Bytes) (hname : name.length < 2 ^ 31) (hlen : (hexdigest []).length = 32)
    (hascii : ∀ b ∈ hexdigest [], b < 0x80) :
    ConfinedName cwd recvDir tarDir hexdigest name ↔
      isUtf8 name = false ∨ ¬Openable (join recvDir name) ∨
        SafePath cwd recvDir tarDir (join recvDir name) := by
  constructor
  · intro hc
    by_cases hutf : isUtf8 name = true
    · by_cases hopen : Openable (join recvDir name)
      · exact .inr (.inr (safePath_of_confinedName hc hname hlen hascii hutf hopen))
      · exact .inr (.inl hopen)
    · exact .inl (by simpa using hutf)
  · intro hsafe sh hsh b hopen i o ho hfile hdone
    have hnamed := Handler.named_state b.fits hopen i
    have hpath (hutf : isUtf8 name = true) (h : Openable (join recvDir name)) :
        SafePath cwd recvDir tarDir (join recvDir name) := by
      simpa [hutf, h] using hsafe
    cases o with
    | openWrite path =>
      obtain ⟨hpc, rfl⟩ := Handler.op_openWrite ho
      have hutf := hnamed.opening hpc
      rw [hfile] at hutf ho ⊢
      exact (hpath hutf (hopen i _ ho hdone)).inside
    | system command =>
      obtain ⟨hpc, rfl⟩ := Handler.op_system ho
      obtain ⟨hutf, hopened⟩ := hnamed.opened (.inr (by simp [Handler.stage, hpc, Pc.stage]))
      rw [hfile] at hutf hopened ⊢
      exact (hpath hutf hopened).confines hsh
    | _ => trivial

theorem replicate_ascii : ∀ b ∈ List.replicate 32 (97 : UInt8), b < 0x80 := by
  intro b hb
  rw [List.eq_of_mem_replicate hb]
  decide

/-- A name that is a name in a directory, and plain, is confined. -/
theorem confined_plain :
    ConfinedName [ascii "c"] (ascii "r") (ascii "t") (fun _ => List.replicate 32 97)
      (ascii "x") := by
  have hinside : Inside [ascii "c"] (ascii "r") (ascii "t") (join (ascii "r") (ascii "x")) :=
    ⟨by decide, ascii "r", ascii "x", .inl rfl, by decide⟩
  refine (confined_iff [ascii "c"] (ascii "r") (ascii "t")
    (fun _ => List.replicate 32 97) (ascii "x") (by decide) (by decide) replicate_ascii).mpr
      (.inr (.inr ?_))
  refine ⟨hinside, ⟨_, [], [], hinside, ?_, by decide, by simp, by simp, by simp⟩, by decide,
    by decide, ?_⟩
  · unfold IsOperand
    decide
  · unfold IsOperand
    decide

/-- An absolute name leads out of `recv_dir`, and a name with a blank moves two files. -/
theorem absolute_and_blank_escape :
    join (ascii "r") (ascii "/x") = ascii "/x" ∧
      ¬ConfinedName [ascii "c"] (ascii "r") (ascii "t") (fun _ => List.replicate 32 97)
        (ascii "/x") ∧
      fields blank (mvCommand (ascii "t") (join (ascii "r") (ascii "x y"))) =
        [ascii "mv", ascii "r/x", ascii "y", ascii "t"] ∧
      ¬ConfinedName [ascii "c"] (ascii "r") (ascii "t") (fun _ => List.replicate 32 97)
        (ascii "x y") := by
  refine ⟨by decide, fun hc => ?_, by decide, fun hc => ?_⟩
  · have hopen : Openable (join (ascii "r") (ascii "/x")) := ⟨by decide, by decide⟩
    have hsafe :=
      safePath_of_confinedName hc (by decide) (by decide) replicate_ascii (by decide) hopen
    obtain ⟨dir, c, hdir, hresolve⟩ := hsafe.inside.directly
    have hlen := congrArg List.length hresolve
    rcases hdir with rfl | rfl
    · rw [List.length_append, List.length_singleton] at hlen
      exact absurd hlen (by decide)
    · rw [List.length_append, List.length_singleton] at hlen
      exact absurd hlen (by decide)
  · have hopen : Openable (join (ascii "r") (ascii "x y")) := ⟨by decide, by decide⟩
    have hsafe :=
      safePath_of_confinedName hc (by decide) (by decide) replicate_ascii (by decide) hopen
    obtain ⟨w, before, after, hin, -, hplain, hbefore, hafter, hpath⟩ := hsafe.word
    have hone := fields_between hin.ne_nil hplain hbefore hafter
    rw [← hpath] at hone
    have htwo : (fields blank (join (ascii "r") (ascii "x y"))).length = 2 := by decide
    simp [hone] at htwo

end Program

end Server

end CarFi.Uploader
