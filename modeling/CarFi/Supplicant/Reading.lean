import CarFi.Supplicant.Log

/-!
# How the parser reads the printed rows

Each printed row is matched by the patterns of the parser: its interface and its timestamp are
read back, a change of state gives both state names, and the row with the level gives the
level.
-/
namespace CarFi.Supplicant

open Library Library.Regex Library.PyText Library.Printf Analyzer

/-! ## Heads -/

/-- The interface of a printed row is read back. -/
theorem nicOf_line {head : LogHead} {msg : List Char} (hmsg : ∀ c ∈ msg, dot c = true) :
    nicOf (head.line msg) = some head.nic := by
  have hre : nicRe = headRe none (some 1) ++ ⟨none, .many dot⟩ :: eol := rfl
  have hline : head.line msg =
      head.stamp ++ ':' :: ' ' :: head.nic ++ ':' :: ((' ' :: msg) ++ ['\n']) := by
    simp [LogHead.line]
  rw [nicOf, hre, hline, exec_headRe, exec_dot_eol (by simpa using ⟨by decide, hmsg⟩)]
  simp

/-- The timestamp of a printed row is read back as a number. -/
theorem stamp_line (ifname : IfName) (t : OsTime) (msg : List Char) :
    ∃ time, Analyzer.stamp ((msgHead ifname t).line msg) = .ok time := by
  have hcolon : ∀ c ∈ t.text, (c != ':') = true := fun c hc => by
    have hclass := (msgHead ifname t).stamp_class c hc
    rcases eq_or_ne c ':' with rfl | hne
    · exact absurd hclass (by decide)
    · simpa using hne
  have hsplit : splitHead ':' ((msgHead ifname t).line msg) = t.text := by
    simp only [splitHead, LogHead.line, msgHead, List.append_assoc]
    rw [List.takeWhile_append_of_pos hcolon]
    simp
  have hfloat := float_dotted (decText_ne_nil t.sec) (fun c hc => ascii09_of_mem_decText hc)
    (fun c (hc : c ∈ zeroPad 6 (decText t.usec)) => ascii09_of_mem_zeroPad hc)
  simp [Analyzer.stamp, hsplit, OsTime.text, hfloat]

/-! ## Changes of state -/

/-- The part of `stateRe` after the arrow. -/
def newStateBody : Pattern :=
  ⟨none, .many space⟩ :: ⟨some 4, .one nicClass⟩ :: ⟨some 4, .many nicClass⟩ ::
  ⟨none, .many space⟩ :: eol

/-- The part of `stateRe` after the head. -/
def stateBody : Pattern :=
  lit "State:" ++ ⟨none, .many space⟩ :: ⟨some 3, .one nicClass⟩ ::
    ⟨some 3, .many nicClass⟩ ::
  ⟨none, .many space⟩ :: (lit "->" ++ newStateBody)

theorem stateRe_eq : stateRe = headRe (some 1) (some 2) ++ ⟨none, .many space⟩ :: stateBody :=
  rfl

/-- A state as `stateRe` can read it. -/
def IsStateName (name : List Char) : Prop := name ≠ [] ∧ ∀ c ∈ name, nicClass c = true

theorem exec_newStateBody {new : List Char} (hnew : IsStateName new) :
    exec newStateBody (' ' :: (new ++ ['\n'])) =
      some ((none, ' ') :: tag (some 4) new ++ [(none, '\n')]) := by
  have hrej : Rejects (exec (⟨none, .many space⟩ :: eol)) nicClass :=
    rejects_many (fun c hc => space_eq_false_of_nicClass hc) (rejects_eol (by decide))
  have hfinal : exec (⟨none, .many space⟩ :: eol) ['\n'] = some [(none, '\n')] := by decide
  rw [newStateBody, exec_blank_name hrej hnew.1 hnew.2 (by simpa using by decide), hfinal]
  rfl

/-- Both state names of a change are read back. -/
theorem exec_stateRe_state (head : LogHead) {old new : List Char} (hold : IsStateName old)
    (hnew : IsStateName new) :
    ∃ m, exec stateRe (head.line ("State: ".toList ++ old ++ " -> ".toList ++ new)) = some m ∧
      m.group 3 = old ∧ m.group 4 = new := by
  have harrow : Rejects (exec (lit "->" ++ newStateBody)) space := rejects_char (by decide)
  have hrej : Rejects (exec (⟨none, .many space⟩ :: (lit "->" ++ newStateBody))) nicClass :=
    rejects_many (fun c hc => space_eq_false_of_nicClass hc) (rejects_char (by decide))
  have harrowRun := exec_many_append (g := none) harrow (w := [' '])
    (s := "->".toList ++ ' ' :: (new ++ ['\n'])) (List.all_eq_true.mp (by decide))
    (by simpa using by decide)
  have hbody : exec stateBody ("State:".toList ++ ' ' :: (old ++ ' ' :: ("->".toList ++
      ' ' :: (new ++ ['\n'])))) = some (tag none "State: ".toList ++ tag (some 3) old ++
        tag none " -> ".toList ++ tag (some 4) new ++ [(none, '\n')]) := by
    rw [stateBody, exec_lit_append, exec_blank_name hrej hold.1 hold.2 (by simpa using by decide)]
    rw [List.singleton_append] at harrowRun
    rw [harrowRun, exec_lit_append, exec_newStateBody hnew]
    simp
  have htext : "State: ".toList ++ old ++ " -> ".toList ++ new ++ ['\n'] =
      "State:".toList ++ ' ' :: (old ++ ' ' :: ("->".toList ++ ' ' :: (new ++ ['\n']))) := by simp
  have hrejS : Rejects (exec stateBody) space := rejects_char (by decide)
  have hmsg := exec_message (some 1) (some 2) hrejS head []
    ("State: ".toList ++ old ++ " -> ".toList ++ new) (by simp) (by simpa using by decide)
  rw [htext, hbody, List.nil_append, ← stateRe_eq] at hmsg
  exact ⟨_, hmsg, by simp, by simp⟩

/-! ## The other printed rows -/

/-- A message that does not start with the first letter of `State:` is no change of state. -/
theorem exec_stateRe_eq_none {head : LogHead} (blanks : List Char) {text : List Char} {c : Char}
    (hblanks : ∀ d ∈ blanks, space d = true) (hc : space c = false) (hne : c ≠ 'S') :
    exec stateRe (head.line (blanks ++ c :: text)) = none := by
  have hre : stateRe = headRe (some 1) (some 2) ++ ⟨none, .many space⟩ ::
    ⟨none, .one (· == 'S')⟩ :: stateBody.tail := rfl
  rw [hre]
  exact exec_message_eq_none (by decide) hc hne head blanks text hblanks

/-- A message that does not start with the first letter of `selected` is no selection. -/
theorem exec_bssRe_eq_none {head : LogHead} (blanks : List Char) {text : List Char} {c : Char}
    (hblanks : ∀ d ∈ blanks, space d = true) (hc : space c = false) (hne : c ≠ 's') :
    exec bssRe (head.line (blanks ++ c :: text)) = none := by
  have hre : bssRe = headRe (some 1) (some 2) ++ ⟨none, .many space⟩ ::
    ⟨none, .one (· == 's')⟩ :: bssRe.drop 9 := rfl
  rw [hre]
  exact exec_message_eq_none (by decide) hc hne head blanks text hblanks

/-! ## The level -/

/-- The part of `ssRe` after the greedy start. -/
def levelBody : Pattern :=
  lit "level=" ++ ⟨some 1, .one levelClass⟩ :: ⟨some 1, .many levelClass⟩ ::
  ⟨none, .many dot⟩ :: eol

theorem ssRe_eq : ssRe = ⟨none, .many dot⟩ :: levelBody := rfl

/-- Nothing inside the last level matches the level again. -/
theorem exec_levelBody_suffix {rest t : List Char} (hrest : ∀ c ∈ rest, c ≠ 'l')
    (ht : t <:+ "level=".toList ++ rest) (hne : t ≠ "level=".toList ++ rest) :
    exec levelBody t = none := by
  have hhead : ∀ c u, c ≠ 'l' → exec levelBody (c :: u) = none := by
    intro c u hc
    simp [levelBody, lit, hc]
  simp only [String.reduceToList, List.cons_append, List.nil_append, List.suffix_cons_iff] at ht hne
  rcases ht with rfl | rfl | rfl | rfl | rfl | rfl | ht
  · exact absurd rfl hne
  · exact hhead _ _ (by decide)
  · exact hhead _ _ (by decide)
  · exact hhead _ _ (by decide)
  · simp [levelBody, lit]
  · exact hhead _ _ (by decide)
  · cases t with
    | nil => simp [levelBody, lit]
    | cons c u => exact hhead c u (hrest c (ht.subset (by simp)))

/-- The characters that cannot start the level again. -/
def plain : CharClass := fun c => dot c && c != 'l'

theorem dot_of_class {p : CharClass} (h : p '\n' = false) {c : Char} (hc : p c = true) :
    dot c = true := by
  rcases eq_or_ne c '\n' with rfl | hne
  · simp [h] at hc
  · simpa [dot] using hne

/-- The last level of a row is the one that is read. -/
theorem exec_ssRe {pre num post : List Char} (hpre : ∀ c ∈ pre, dot c = true)
    (hnum : num ≠ []) (hnum' : ∀ c ∈ num, levelClass c = true)
    (hpost : ∀ c ∈ post, plain c = true) (hstop : Stops levelClass (post ++ ['\n'])) :
    ∃ m, exec ssRe (pre ++ ("level=".toList ++ (num ++ (post ++ ['\n'])))) = some m ∧
      m.group 1 = num := by
  have hpost' : ∀ c ∈ post, dot c = true := fun c hc => dot_of_class (by decide) (hpost c hc)
  have hbody : exec levelBody ("level=".toList ++ (num ++ (post ++ ['\n']))) =
      some (tag none "level=".toList ++ (tag (some 1) num ++ tag none post)) := by
    rw [levelBody, exec_lit_append,
      exec_plus_longest hnum hnum' hstop (exec_dot_eol hpost')]
    rfl
  have hrest : ∀ c ∈ num ++ (post ++ ['\n']), c ≠ 'l' := by
    intro c hc
    rcases List.mem_append.mp hc with hc | hc
    · rintro rfl
      exact absurd (hnum' _ hc) (by decide)
    · rcases List.mem_append.mp hc with hc | hc
      · rintro rfl
        exact absurd (hpost _ hc) (by decide)
      · simp [List.mem_singleton.mp hc]
  have hgreedy := greedy_eq_of_suffix_none (g := none) (p := dot) (k := exec levelBody)
    fun t ht hne => exec_levelBody_suffix hrest ht hne
  have hall := greedy_append_of_eq_some hpre (hgreedy.trans hbody)
  rw [← exec_many, ← ssRe_eq] at hall
  exact ⟨_, hall, by simp⟩

/-! ## The printed messages -/

theorem dot_of_mem_decText {n : Nat} {c : Char} (h : c ∈ decText n) : dot c = true :=
  dot_of_class (p := ascii09) (by decide) (ascii09_of_mem_decText h)

theorem levelClass_of_mem_intText {z : Int} {c : Char} (h : c ∈ intText z) :
    levelClass c = true := by
  cases z with
  | ofNat n => simp [levelClass, ascii09_of_mem_decText h]
  | negSucc n =>
    rcases List.mem_cons.mp h with rfl | h
    · decide
    · simp [levelClass, ascii09_of_mem_decText h]

theorem intText_ne_nil (z : Int) : intText z ≠ [] := by
  cases z with
  | ofNat n => exact decText_ne_nil n
  | negSucc n => simp [intText]

theorem dot_of_mem_hexText {n : Nat} {c : Char} (h : c ∈ hexText n) : dot c = true :=
  dot_of_class (p := hexDigit) (by decide) (hexDigit_of_mem_hexText h)

theorem dot_of_mem_macText {addr : Fin 6 → Fin 256} {c : Char} (h : c ∈ macText addr) :
    dot c = true := by
  have hbyte : ∀ i, c ∈ zeroPad 2 (hexText (addr i).val) → dot c = true := fun i hi =>
    forall_mem_zeroPad (by decide) (fun _ hc => dot_of_mem_hexText hc) c hi
  simp only [macText, List.mem_append, List.mem_cons] at h
  rcases h with ((((h | rfl | h) | rfl | h) | rfl | h) | rfl | h) | rfl | h
  all_goals first | exact hbyte _ h | decide

theorem dot_of_mem_encodeByte {b : Fin 256} {c : Char} (h : c ∈ encodeByte b) : dot c = true := by
  have hall : ∀ b : Fin 256, (encodeByte b).all dot = true := by decide +kernel
  exact List.all_eq_true.mp (hall b) c h

theorem dot_of_mem_printfEncode {maxlen used : Nat} {data : List (Fin 256)} {c : Char}
    (h : c ∈ printfEncode maxlen used data) : dot c = true := by
  induction data generalizing used with
  | nil => simp [printfEncode] at h
  | cons b data ih =>
    simp only [printfEncode] at h
    split at h
    · cases h
    · rcases List.mem_append.mp h with h | h
      · exact dot_of_mem_encodeByte h
      · exact ih h

theorem dot_of_mem_ssidTxt {ssid : List (Fin 256)} {c : Char} (h : c ∈ ssidTxt ssid) :
    dot c = true := dot_of_mem_printfEncode h

theorem isStateName_stateTxt (state : WpaStates) : IsStateName (stateTxt state) := by
  cases state <;> exact ⟨by decide, List.all_eq_true.mp (by decide)⟩

theorem dot_levelMsgStart (index : Nat) (bss : Bss) :
    ∀ c ∈ levelMsgStart index bss, dot c = true := by
  have hlit : ∀ w : List Char, w.all dot = true → ∀ c ∈ w, dot c = true := fun _ =>
    List.all_eq_true.mp
  simp only [levelMsgStart, List.forall_mem_append]
  exact ⟨⟨⟨⟨⟨⟨⟨⟨⟨⟨⟨fun _ => dot_of_mem_decText, hlit _ rfl⟩, fun _ =>
    dot_of_mem_macText⟩, hlit _ rfl⟩, fun _ => dot_of_mem_ssidTxt⟩, hlit _ rfl⟩, fun _ =>
      dot_of_mem_decText⟩,
    hlit _ rfl⟩, fun _ => dot_of_mem_decText⟩, hlit _ rfl⟩, fun _ => dot_of_mem_hexText⟩,
    hlit _ rfl⟩

theorem plain_levelMsgEnd (bss : Bss) : ∀ c ∈ levelMsgEnd bss, plain c = true := by
  have hfreq : ∀ c ∈ intText bss.freq, plain c = true := fun c hc => by
    have hclass := levelClass_of_mem_intText hc
    have hdot := dot_of_class (p := levelClass) (by decide) hclass
    rcases eq_or_ne c 'l' with rfl | hne
    · exact absurd hclass (by decide)
    · simp [plain, hdot, hne]
  have hlit : ∀ w : List Char, w.all plain = true → ∀ c ∈ w, plain c = true := fun _ =>
    List.all_eq_true.mp
  have hyesNo : ∀ b, ∀ c ∈ yesNo b, plain c = true := fun b => by
    cases b <;> exact hlit _ rfl
  have hflag : ∀ (b : Bool) (w : List Char), (∀ c ∈ w, plain c = true) →
      ∀ c ∈ (if b then w else []), plain c = true := by
    intro b w hw
    cases b
    · simp
    · simpa using hw
  unfold levelMsgEnd
  simp only [List.forall_mem_append]
  exact ⟨⟨⟨⟨⟨⟨⟨⟨⟨⟨⟨hlit _ rfl, hfreq⟩, hlit _ rfl⟩, hyesNo _⟩,
    hlit _ rfl⟩, hyesNo _⟩, hlit _ rfl⟩, hyesNo _⟩, hlit _ rfl⟩,
      hflag _ _ (hlit _ rfl)⟩, hflag _ _ (hlit _ rfl)⟩,
    hflag _ _ (hlit _ rfl)⟩

/-- The level of a BSS is read back from its row. -/
theorem exec_ssRe_levelMsg (head : LogHead) (index : Nat) (bss : Bss) :
    ∃ m, exec ssRe (head.line (levelMsg index bss)) = some m ∧
      m.group 1 = intText bss.level := by
  have hpre : ∀ c ∈ head.stamp ++ ':' :: ' ' :: head.nic ++
      ':' :: ' ' :: levelMsgStart index bss, dot c = true := by
    simp only [List.forall_mem_append, List.forall_mem_cons]
    refine ⟨⟨fun c hc => ?_, by decide, by decide, fun c hc => ?_⟩,
      by decide, by decide, ?_⟩
    · exact dot_of_class (by decide) (head.stamp_class c hc)
    · exact dot_of_class (by decide) (head.nic_class c hc)
    · exact dot_levelMsgStart index bss
  have hstop : Stops levelClass (levelMsgEnd bss ++ ['\n']) := by
    have hblank : levelMsgEnd bss = ' ' :: (levelMsgEnd bss).tail := rfl
    rw [hblank, List.cons_append, stops_cons]
    decide
  have hread := exec_ssRe hpre (intText_ne_nil bss.level)
    (fun c hc => levelClass_of_mem_intText hc) (plain_levelMsgEnd bss) hstop
  have hline : head.line (levelMsg index bss) =
      (head.stamp ++ ':' :: ' ' :: head.nic ++ ':' :: ' ' :: levelMsgStart index bss) ++
        ("level=".toList ++ (intText bss.level ++ (levelMsgEnd bss ++ ['\n']))) := by
    simp only [LogHead.line, levelMsg, List.append_assoc, List.cons_append]
  rwa [hline]

end CarFi.Supplicant
