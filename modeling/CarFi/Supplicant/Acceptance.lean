import CarFi.Supplicant.Reading
import CarFi.Analyzer.WpaTotal

/-!
# Which logs of wpa_supplicant the parser accepts

The parser follows the state of the supplicant row by row, so the old state of every change is
the one it holds. What can fail is the name of the new state: two of the ten states of the
supplicant are unknown to the parser, and every run that enters one of them is rejected.
-/
namespace CarFi.Supplicant

open Library Library.Regex Library.PyText Library.Printf Analyzer

/-- The state of the parser for a state of the supplicant. -/
def parserState : WpaStates → Option WPAState
  | .disconnected => some .disconn
  | .interfaceDisabled => none
  | .inactive => none
  | .scanning => some .scanning
  | .authenticating => some .authing
  | .associating => some .associng
  | .associated => some .assoced
  | .fourWayHandshake => some .fwHs
  | .groupHandshake => some .grpHs
  | .completed => some .completed

theorem ofName_stateTxt (state : WpaStates) :
    WPAState.ofName (stateTxt state) = parserState state := by
  cases state <;> decide

theorem isSome_parserState {state : WpaStates} :
    (parserState state).isSome ↔ state ≠ .inactive ∧ state ≠ .interfaceDisabled := by
  cases state <;> decide

/-! ## Rows -/

section Rows

variable (ifname : IfName) (t : OsTime)

theorem dot_stateMsg (old new : WpaStates) : ∀ c ∈ stateMsg old new, dot c = true := by
  have hname : ∀ state, ∀ c ∈ stateTxt state, dot c = true := fun state c hc =>
    dot_of_class (by decide) ((isStateName_stateTxt state).2 c hc)
  unfold stateMsg
  simp only [List.forall_mem_append]
  exact ⟨⟨⟨List.all_eq_true.mp (by decide), hname old⟩, List.all_eq_true.mp (by decide)⟩,
    hname new⟩

theorem nicOf_stateMsg (old new : WpaStates) :
    nicOf ((msgHead ifname t).line (stateMsg old new)) = some ifname.text :=
  nicOf_line (dot_stateMsg old new)

theorem exec_bssRe_stateMsg (old new : WpaStates) :
    exec bssRe ((msgHead ifname t).line (stateMsg old new)) = none :=
  exec_bssRe_eq_none [] (c := 'S') (by simp) (by decide) (by decide)

theorem nicOf_levelMsg (index : Nat) (bss : Bss) :
    nicOf ((msgHead ifname t).line (levelMsg index bss)) = some ifname.text := by
  refine nicOf_line ?_
  unfold levelMsg
  simp only [List.forall_mem_append]
  refine ⟨⟨⟨dot_levelMsgStart index bss, List.all_eq_true.mp (by decide)⟩,
    fun c hc => ?_⟩, fun c hc => ?_⟩
  · exact dot_of_class (by decide) (levelClass_of_mem_intText hc)
  · exact dot_of_class (by decide) (plain_levelMsgEnd bss c hc)

theorem levelMsg_eq_cons (index : Nat) (bss : Bss) :
    ∃ c text, levelMsg index bss = c :: text ∧ ascii09 c = true := by
  obtain ⟨c, ds, hds⟩ := List.exists_cons_of_ne_nil (decText_ne_nil index)
  have hc : c ∈ decText index := by simp [hds]
  exact ⟨c, _, by simp only [levelMsg, levelMsgStart, hds, List.cons_append]; rfl,
    ascii09_of_mem_decText hc⟩

theorem exec_stateRe_levelMsg (index : Nat) (bss : Bss) :
    exec stateRe ((msgHead ifname t).line (levelMsg index bss)) = none := by
  obtain ⟨c, text, hmsg, hc⟩ := levelMsg_eq_cons index bss
  rw [hmsg]
  exact exec_stateRe_eq_none [] (by simp) (space_eq_false_of_nicClass (by simp [nicClass, hc]))
    (by rintro rfl; exact absurd hc (by decide))

theorem exec_bssRe_levelMsg (index : Nat) (bss : Bss) :
    exec bssRe ((msgHead ifname t).line (levelMsg index bss)) = none := by
  obtain ⟨c, text, hmsg, hc⟩ := levelMsg_eq_cons index bss
  rw [hmsg]
  exact exec_bssRe_eq_none [] (by simp) (space_eq_false_of_nicClass (by simp [nicClass, hc]))
    (by rintro rfl; exact absurd hc (by decide))

theorem nicOf_separatorMsg :
    nicOf ((msgHead ifname t).line separatorMsg) = some ifname.text :=
  nicOf_line (List.all_eq_true.mp (by decide))

theorem exec_stateRe_separatorMsg : exec stateRe ((msgHead ifname t).line separatorMsg) = none :=
  exec_stateRe_eq_none [' ', ' ', ' '] (c := '*') (List.all_eq_true.mp (by decide))
    (by decide) (by decide)

theorem exec_bssRe_separatorMsg : exec bssRe ((msgHead ifname t).line separatorMsg) = none :=
  exec_bssRe_eq_none [' ', ' ', ' '] (c := '*') (List.all_eq_true.mp (by decide))
    (by decide) (by decide)

theorem nicOf_selectedMsg (bss : Bss) :
    nicOf ((msgHead ifname t).line (selectedMsg bss)) = some ifname.text := by
  refine nicOf_line ?_
  unfold selectedMsg
  simp only [List.forall_mem_append]
  exact ⟨⟨⟨⟨List.all_eq_true.mp (by decide), fun _ => dot_of_mem_macText⟩,
    List.all_eq_true.mp (by decide)⟩, fun _ => dot_of_mem_ssidTxt⟩,
      List.all_eq_true.mp (by decide)⟩

theorem exec_stateRe_selectedMsg (bss : Bss) :
    exec stateRe ((msgHead ifname t).line (selectedMsg bss)) = none :=
  exec_stateRe_eq_none [' ', ' ', ' '] (c := 's') (List.all_eq_true.mp (by decide))
    (by decide) (by decide)

theorem hasLevel_levelMsg (index : Nat) (bss : Bss) :
    HasLevel ((msgHead ifname t).line (levelMsg index bss)) := by
  obtain ⟨m, hm, hgroup⟩ := exec_ssRe_levelMsg (msgHead ifname t) index bss
  exact ⟨m, bss.level, hm, by rw [hgroup, int_intText]⟩

end Rows

/-! ## Steps -/

/-- The parser is in step with the supplicant. -/
structure InStep (s : WpaSupplicant) (ps : ParsingState) : Prop where
  sync : parserState s.wpaState = some ps.wpaState
  tracks : ps.Tracks
  readable : Readable ps.infoBlk

/-- A row that is neither a change of state nor a selection is buffered. -/
theorem InStep.other {s : WpaSupplicant} {ps : ParsingState} (h : InStep s ps) {row : Row}
    (hstate : exec stateRe row = none) (hbss : exec bssRe row = none) :
    ∃ ps', ps.row row = .ok ps' ∧ InStep s ps' ∧ ps'.infoBlk = ps.infoBlk ++ [row] := by
  have hread : Readable (ps.infoBlk ++ [row]) :=
    h.readable.concat (by simp [hstate]) (by simp [hbss])
  obtain ⟨ps', hps', ht', hst', hread', hbuf⟩ :=
    ParsingState.row_step h.tracks hread (.inl hstate)
  refine ⟨ps', hps', ⟨?_, ht', hread'⟩, hbuf hstate⟩
  simpa [hst', stateAfter, hstate] using h.sync

/-- A change to a known state keeps the parser in step. -/
theorem InStep.setState {s : WpaSupplicant} {ps : ParsingState} (h : InStep s ps) (t : OsTime)
    {state : WpaStates} (hstate : (parserState state).isSome) :
    ∃ ps', ps.row ((msgHead s.ifname t).line (stateMsg s.wpaState state)) = .ok ps' ∧
      InStep { s with wpaState := state } ps' := by
  obtain ⟨post, hpost⟩ := Option.isSome_iff_exists.mp hstate
  obtain ⟨m, hm, hold, hnew⟩ := exec_stateRe_state (msgHead s.ifname t)
    (isStateName_stateTxt s.wpaState) (isStateName_stateTxt state)
  have hm : exec stateRe ((msgHead s.ifname t).line (stateMsg s.wpaState state)) = some m := hm
  have hread : Readable (ps.infoBlk ++ [(msgHead s.ifname t).line (stateMsg s.wpaState state)]) :=
    h.readable.concat (fun _ => stamp_line s.ifname t _) (by simp [exec_bssRe_stateMsg])
  have hpre : WPAState.ofName (m.group 3) = some ps.wpaState := by
    rw [hold, ofName_stateTxt, h.sync]
  have hpost' : WPAState.ofName (m.group 4) = some post := by rw [hnew, ofName_stateTxt, hpost]
  obtain ⟨ps', hps', ht', hst', hread', -⟩ :=
    ParsingState.row_step h.tracks hread (.inr ⟨m, post, hm, hpre, hpost'⟩)
  refine ⟨ps', hps', ⟨?_, ht', hread'⟩⟩
  simp [hst', stateAfter, hm, hpost', hpost]

/-- A selection stands two rows below the level of the BSS. -/
theorem InStep.selectBss {s : WpaSupplicant} {ps : ParsingState} (h : InStep s ps)
    (t t' t'' : OsTime) (index : Nat) (bss : Bss) :
    ∃ ps', (s.rows (.selectBss t t' t'' index bss)).foldlM ParsingState.row ps = .ok ps' ∧
      InStep s ps' := by
  obtain ⟨ps₁, hps₁, h₁, hbuf₁⟩ := h.other (exec_stateRe_levelMsg s.ifname t index bss)
    (exec_bssRe_levelMsg s.ifname t index bss)
  obtain ⟨ps₂, hps₂, h₂, hbuf₂⟩ := h₁.other (exec_stateRe_separatorMsg s.ifname t')
    (exec_bssRe_separatorMsg s.ifname t')
  have hstate := exec_stateRe_selectedMsg s.ifname t'' bss
  have hread : Readable (ps₂.infoBlk ++ [(msgHead s.ifname t'').line (selectedMsg bss)]) := by
    refine h₂.readable.concat (by simp [hstate]) fun _ => ?_
    refine ⟨ps.infoBlk.length, _,
      by simp [hbuf₂, hbuf₁], ?_, hasLevel_levelMsg s.ifname t index bss⟩
    simp [hbuf₂, hbuf₁]
  obtain ⟨ps₃, hps₃, ht₃, hst₃, hread₃, -⟩ :=
    ParsingState.row_step h₂.tracks hread (.inl hstate)
  refine ⟨ps₃, ?_, ⟨?_, ht₃, hread₃⟩⟩
  · exact foldlM_cons_eq_ok.mpr ⟨ps₁, hps₁, foldlM_cons_eq_ok.mpr ⟨ps₂, hps₂,
      foldlM_cons_eq_ok.mpr ⟨ps₃, hps₃, rfl⟩⟩⟩
  · simpa [hst₃, stateAfter, hstate] using h₂.sync

/-! ## Runs -/

theorem foldlM_append_eq_ok {as bs : List Row} {ps ps' ps'' : ParsingState}
    (has : as.foldlM ParsingState.row ps = .ok ps')
    (hbs : bs.foldlM ParsingState.row ps' = .ok ps'') :
    (as ++ bs).foldlM ParsingState.row ps = .ok ps'' := by
  rw [List.foldlM_append, has]
  exact hbs

/-- The rows of the interface of the supplicant. -/
def ownRows (intf : Intf) (rows : List Row) : List Row :=
  rows.filter fun row => nicOf row = some intf

theorem ownRows_rows (s : WpaSupplicant) {p : Print} (hp : ∀ row hs hb, p ≠ .other row hs hb) :
    ownRows s.ifname.text (s.rows p) = s.rows p := by
  unfold ownRows
  rw [List.filter_eq_self]
  cases p with
  | setState t state => simp [WpaSupplicant.rows, nicOf_stateMsg]
  | selectBss t t' t'' index bss =>
    simp [WpaSupplicant.rows, nicOf_levelMsg, nicOf_separatorMsg, nicOf_selectedMsg]
  | other row hs hb => exact absurd rfl (hp row hs hb)

/-- What one print adds to the log keeps the parser in step. -/
theorem InStep.print {s : WpaSupplicant} {ps : ParsingState} (h : InStep s ps) {p : Print}
    (hp : ∀ t state, p = .setState t state → (parserState state).isSome) :
    ∃ ps', (ownRows s.ifname.text (s.rows p)).foldlM ParsingState.row ps = .ok ps' ∧
      InStep (s.next p) ps' := by
  cases p with
  | setState t state =>
    rw [ownRows_rows s (by simp)]
    obtain ⟨ps', hps', h'⟩ := h.setState t (hp t state rfl)
    exact ⟨ps', foldlM_cons_eq_ok.mpr ⟨ps', hps', rfl⟩, h'⟩
  | selectBss t t' t'' index bss =>
    rw [ownRows_rows s (by simp)]
    exact h.selectBss t t' t'' index bss
  | other row hs hb =>
    by_cases hnic : nicOf row = some s.ifname.text
    · obtain ⟨ps', hps', h', -⟩ := h.other hs hb
      have hown : ownRows s.ifname.text (s.rows (.other row hs hb)) = [row] := by
        simp [ownRows, WpaSupplicant.rows, hnic]
      rw [hown]
      exact ⟨ps', foldlM_cons_eq_ok.mpr ⟨ps', hps', rfl⟩, h'⟩
    · exact ⟨ps, by simp [ownRows, WpaSupplicant.rows, hnic, pure, Except.pure], h⟩

theorem InStep.run {s : WpaSupplicant} {ps : ParsingState} (h : InStep s ps) {prints : List Print}
    (hprints : ∀ t state, .setState t state ∈ prints → (parserState state).isSome) :
    ∃ ps', (ownRows s.ifname.text (s.log prints)).foldlM ParsingState.row ps = .ok ps' := by
  induction prints generalizing s ps with
  | nil => exact ⟨ps, rfl⟩
  | cons p prints ih =>
    obtain ⟨mid, hmid, h'⟩ := h.print (p := p) fun t state hp => hprints t state (by simp [hp])
    have hname : (s.next p).ifname = s.ifname := by cases p <;> rfl
    obtain ⟨ps', hps'⟩ := ih h' fun t state hp => hprints t state (by simp [hp])
    rw [hname] at hps'
    refine ⟨ps', ?_⟩
    simp only [WpaSupplicant.log, ownRows, List.filter_append]
    exact foldlM_append_eq_ok hmid hps'

/-- The rows of other interfaces report no change of state. -/
theorem exec_stateRe_foreign {s : WpaSupplicant} {prints : List Print} {row : Row}
    (hrow : row ∈ s.log prints) (hnic : nicOf row ≠ some s.ifname.text) :
    exec stateRe row = none := by
  induction prints generalizing s with
  | nil => simp [WpaSupplicant.log] at hrow
  | cons p prints ih =>
    have hname : (s.next p).ifname = s.ifname := by cases p <;> rfl
    rcases List.mem_append.mp hrow with hrow | hrow
    · cases p with
      | other r hs hb =>
        obtain rfl : row = r := by simpa [WpaSupplicant.rows] using hrow
        exact hs
      | _ =>
        rw [← ownRows_rows s (by simp)] at hrow
        exact absurd (by simpa using (List.mem_filter.mp hrow).2) hnic
    · exact ih hrow (by rwa [hname])

/-- A change to an unknown state is an error in every state of the parser. -/
theorem row_ne_ok_of_unknown {ifname : IfName} {t : OsTime} {old state : WpaStates}
    (hstate : parserState state = none) (ps ps' : ParsingState) :
    ps.row ((msgHead ifname t).line (stateMsg old state)) ≠ .ok ps' := by
  obtain ⟨m, hm, -, hnew⟩ := exec_stateRe_state (msgHead ifname t)
    (isStateName_stateTxt old) (isStateName_stateTxt state)
  have hm : exec stateRe ((msgHead ifname t).line (stateMsg old state)) = some m := hm
  have hnone : WPAState.ofName (m.group 4) = none := by rw [hnew, ofName_stateTxt, hstate]
  simp [ParsingState.row, hm, hnone]

theorem setState_mem_log {s : WpaSupplicant} {prints : List Print} {t : OsTime}
    {state : WpaStates} (h : .setState t state ∈ prints) :
    ∃ old, (msgHead s.ifname t).line (stateMsg old state) ∈ s.log prints := by
  induction prints generalizing s with
  | nil => simp at h
  | cons p prints ih =>
    have hname : (s.next p).ifname = s.ifname := by cases p <;> rfl
    rcases List.mem_cons.mp h with rfl | h
    · exact ⟨s.wpaState, by simp [WpaSupplicant.log, WpaSupplicant.rows]⟩
    · obtain ⟨old, hold⟩ := ih (s := s.next p) h
      rw [hname] at hold
      exact ⟨old, by simp [WpaSupplicant.log, hold]⟩

/-- The parser accepts the log of a run exactly when the run never enters `INACTIVE` or
`INTERFACE_DISABLED`. -/
theorem parse_accepts_iff {ifname : IfName} {intfList : List Intf}
    (hintf : ifname.text ∈ intfList) (prints : List Print) :
    (∃ out, WPAParser.parse intfList (WpaSupplicant.log { ifname := ifname } prints) =
      .ok out) ↔ ∀ t state, .setState t state ∈ prints →
        state ≠ .inactive ∧ state ≠ .interfaceDisabled := by
  simp only [← isSome_parserState]
  rw [parse_total_iff]
  constructor
  · intro hall t state hmem
    obtain ⟨ps, hps⟩ := hall ifname.text hintf
    obtain ⟨old, hold⟩ := setState_mem_log (s := { ifname := ifname }) hmem
    have hown : (msgHead ifname t).line (stateMsg old state) ∈
        ownRows ifname.text (WpaSupplicant.log { ifname := ifname } prints) :=
      List.mem_filter.mpr ⟨hold, decide_eq_true (nicOf_stateMsg ifname t old state)⟩
    obtain ⟨before, after, hrow⟩ := row_ok_of_mem hps hown
    rw [← Option.ne_none_iff_isSome]
    exact fun hstate => row_ne_ok_of_unknown hstate before after hrow
  · intro hprints intf _
    by_cases hname : intf = ifname.text
    · subst hname
      have hstart : InStep { ifname := ifname } {} :=
        ⟨rfl, ParsingState.tracks_init _ _, readable_nil⟩
      exact hstart.run hprints
    · refine ParsingState.rows_total_of_no_state _ fun row hrow => ?_
      obtain ⟨hmem, hnic⟩ := List.mem_filter.mp hrow
      refine exec_stateRe_foreign hmem fun hown => hname ?_
      simp only [decide_eq_true_eq] at hnic
      exact Option.some.inj (hnic.symm.trans hown)

def wlan0 : IfName := ⟨"wlan0".toList, by decide, List.all_eq_true.mp (by decide)⟩

/-- A scan that finds no enabled network: the supplicant becomes inactive. -/
def inactiveRun : List Print := [.setState ⟨1, 0⟩ .scanning, .setState ⟨2, 0⟩ .inactive]

/-- The parser raises on the log of a supplicant that becomes inactive. -/
theorem inactive_not_accepted :
    ¬ ∃ out, WPAParser.parse ["wlan0".toList]
      (WpaSupplicant.log { ifname := wlan0 } inactiveRun) = .ok out := by
  rw [parse_total_iff]
  intro hall
  obtain ⟨ps, hps⟩ := hall wlan0.text (by simp [wlan0])
  have hown : (msgHead wlan0 ⟨2, 0⟩).line (stateMsg .scanning .inactive) ∈
      ownRows wlan0.text (WpaSupplicant.log { ifname := wlan0 } inactiveRun) :=
    List.mem_filter.mpr ⟨by simp [inactiveRun, WpaSupplicant.log, WpaSupplicant.rows,
      WpaSupplicant.next], decide_eq_true (nicOf_stateMsg wlan0 _ _ _)⟩
  obtain ⟨before, after, hrow⟩ := row_ok_of_mem hps hown
  exact row_ne_ok_of_unknown rfl before after hrow

theorem parse_accepts_scan :
    ∃ out, WPAParser.parse ["wlan0".toList] (WpaSupplicant.log { ifname := wlan0 }
      [.setState ⟨1, 0⟩ .scanning, .setState ⟨2, 0⟩ .disconnected]) = .ok out := by
  refine (parse_accepts_iff (by simp [wlan0] : wlan0.text ∈ _) _).mpr fun t state hmem => ?_
  rcases (by simpa using hmem : _ ∨ _) with ⟨-, rfl⟩ | ⟨-, rfl⟩ <;> decide

end CarFi.Supplicant
