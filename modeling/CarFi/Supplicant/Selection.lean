import Mathlib.Data.List.Basic

/-!
# The choice of a BSS

`wpa_supplicant_select_bss` and `wpa_supplicant_pick_network` of `wpa_supplicant/events.c`. The
selection goes through all scan results, also after a match, and tells the match by an
out-parameter that is shared between the priority groups and with the second try after the
blacklist was cleared.
-/
namespace CarFi.Supplicant

/-- `struct wpa_ssid`: a configured network. -/
structure Network where
  id : Nat
  priority : Int
  memOnlyPsk : Bool := false
  pskSet : Bool := false
  passphrase : Option String := none
  extPsk : Option String := none
  deriving DecidableEq, Repr

/-- `struct wpa_blacklist` -/
structure BlacklistEntry where
  bssid : Nat
  count : Nat
  deriving DecidableEq, Repr

/-- The part of `struct wpa_supplicant` that the choice reads and writes. -/
structure WpaS (β : Type*) where
  /-- `none` if there is no table of scan results. -/
  lastScanRes : Option (List β)
  /-- All networks of the configuration. -/
  ssid : List Network
  /-- The first network of each priority group, by descending priority. -/
  pssid : List Network
  nextSsid : Option Network := none
  blacklist : List BlacklistEntry := []
  countermeasures : Bool := false
  blacklistCleared : Nat := 0
  extraBlacklistCount : Nat := 0
  /-- The requests for a missing key that went to the control interface. -/
  networkRequests : List Network := []
  ctrlRequests : List (Network × String) := []

/-- The dereference of a null pointer. -/
inductive Fault where
  | nullBss
  deriving DecidableEq, Repr

variable {β : Type*}

/-- The network of a group that a BSS matches, given the blacklist, the BSS, the group and whether
only its first network counts: `wpa_scan_res_match`. -/
abbrev ScanResMatch (β : Type*) :=
  List BlacklistEntry → β → Network → Bool → Option Network

/-- The body of the loop over the scan results. -/
def keepFirst (test : β → Option Network) (p : Option β × Option Network) (tmpBss : β) :
    Option β × Option Network :=
  match p.2 with
  | none => (some tmpBss, test tmpBss)
  | some _ => p

/-- `wpa_supplicant_select_bss`. The BSS that it prints and returns is not checked for null. -/
def selectBss (test : β → Option Network) (scan : List β) (selectedSsid : Option Network) :
    Except Fault (Option β × Option Network) :=
  match scan.foldl (keepFirst test) (none, selectedSsid) with
  | (_, none) => .ok (none, none)
  | (none, some _) => .error .nullBss
  | (some bss, some ssid) => .ok (some bss, some ssid)

/-- The selection that returns at the first match. -/
def selectBssEarly (test : β → Option Network) :
    List β → Option Network → Except Fault (Option β × Option Network)
  | [], selectedSsid => .ok (none, selectedSsid)
  | bss :: scan, _ =>
    match test bss with
    | some ssid => .ok (some bss, some ssid)
    | none => selectBssEarly test scan none

/-- A selection, as the two above. -/
abbrev Select (β : Type*) :=
  (β → Option Network) → List β → Option Network →
    Except Fault (Option β × Option Network)

/-- The loop over the priority groups. -/
def pickFromGroups (select : Select β) (test : Network → Bool → β → Option Network)
    (scan : List β) (nextSsid : Option Network) :
    List Network → Option Network → Except Fault (Option β × Option Network)
  | [], selectedSsid => .ok (none, selectedSsid)
  | group :: pssid, selectedSsid => do
    let preselected ←
      match nextSsid with
      | some next =>
        if next.priority = group.priority then select (test next true) scan selectedSsid
        else .ok (none, selectedSsid)
      | none => .ok (none, selectedSsid)
    match preselected with
    | (some bss, selectedSsid) => .ok (some bss, selectedSsid)
    | (none, selectedSsid) =>
      match ← select (test group false) scan selectedSsid with
      | (some bss, selectedSsid) => .ok (some bss, selectedSsid)
      | (none, selectedSsid) => pickFromGroups select test scan nextSsid pssid selectedSsid

/-- `wpa_blacklist_clear` and the count of it. -/
def WpaS.clearBlacklist (s : WpaS β) : WpaS β where
  __ := s
  blacklist := []
  blacklistCleared := s.blacklistCleared + 1
  extraBlacklistCount :=
    s.extraBlacklistCount + s.blacklist.foldl (fun count e => max e.count count) 0

/-- The loop `while (selected == NULL)`, for at most `fuel` rounds. -/
def pickLoop (select : Select β) (m : ScanResMatch β) (scan : List β)
    (nextSsid : Option Network) : Nat → WpaS β → Option Network →
      Option (Except Fault (Option β × Option Network × WpaS β))
  | 0, _, _ => none
  | fuel + 1, s, selectedSsid =>
    match pickFromGroups select (fun group first bss => m s.blacklist bss group first) scan nextSsid
        s.pssid selectedSsid with
    | .error f => some (.error f)
    | .ok (some bss, selectedSsid) => some (.ok (some bss, selectedSsid, s))
    | .ok (none, selectedSsid) =>
      if s.blacklist ≠ [] ∧ ¬s.countermeasures then
        pickLoop select m scan nextSsid fuel s.clearBlacklist selectedSsid
      else some (.ok (none, selectedSsid, s))

/-- The key of the network is neither configured nor known yet. -/
def Network.lacksPsk (ssid : Network) : Bool :=
  ssid.memOnlyPsk && !ssid.pskSet && ssid.passphrase.isNone && ssid.extPsk.isNone

/-- The end of `wpa_supplicant_pick_network`: a network without its key is not chosen, and the key
is asked for. `fieldName` is what `wpa_supplicant_ctrl_req_to_string` calls the key. -/
def checkPsk (fieldName : Option String) :
    Option β × Option Network × WpaS β → Option β × Option Network × WpaS β
  | (some bss, some ssid, s) =>
    if ssid.lacksPsk then
      let s := { s with networkRequests := s.networkRequests ++ [ssid] }
      match fieldName with
      | none => (none, some ssid, s)
      | some name => (none, some ssid, { s with ctrlRequests := s.ctrlRequests ++ [(ssid, name)] })
    else (some bss, some ssid, s)
  | r => r

/-- `wpa_supplicant_pick_network`, with the selection as a parameter. -/
def pickNetwork (select : Select β) (m : ScanResMatch β) (fieldName : Option String) (fuel : Nat)
    (s : WpaS β) (selectedSsid : Option Network) :
    Option (Except Fault (Option β × Option Network × WpaS β)) :=
  match s.lastScanRes with
  | none | some [] => some (.ok (none, selectedSsid, s))
  | some scan =>
    -- a network that is no longer configured is not preferred
    let nextSsid := s.nextSsid.filter (· ∈ s.ssid)
    (pickLoop select m scan nextSsid fuel { s with nextSsid := none } selectedSsid).map
      fun r => r.map (checkPsk fieldName)

/-! ## The first match -/

/-- A BSS and a network as the code holds them, in two pointers. -/
def pointers (r : Option (β × Network)) : Option β × Option Network :=
  (r.map Prod.fst, r.map Prod.snd)

/-- The first BSS that matches, with its network. -/
def firstMatch (test : β → Option Network) (scan : List β) : Option (β × Network) :=
  scan.findSome? fun bss => (test bss).map (bss, ·)

/-- The groups in the order in which they are tried; the preselected network comes right before the
group of its priority. -/
def attempts (nextSsid : Option Network) (pssid : List Network) : List (Network × Bool) :=
  pssid.flatMap fun group =>
    (nextSsid.filter (·.priority = group.priority)).toList.map (·, true) ++ [(group, false)]

/-- The first match within the first group that has one. -/
def firstInGroups (test : Network → Bool → β → Option Network) (scan : List β)
    (groups : List (Network × Bool)) : Option (β × Network) :=
  groups.findSome? fun (group, first) => firstMatch (test group first) scan

/-- A selection finds the first match, if the out-parameter is null before. -/
def FindsFirst (select : Select β) : Prop :=
  ∀ test scan, select test scan none = .ok (pointers (firstMatch test scan))

/-- Once there is a match, the loop leaves it alone. -/
theorem foldl_keepFirst_some (test : β → Option Network) (scan : List β) (bss : Option β)
    (ssid : Network) : scan.foldl (keepFirst test) (bss, some ssid) = (bss, some ssid) := by
  induction scan with
  | nil => rfl
  | cons _ _ ih => exact ih

/-- The BSS that the loop holds without a match is the last one, whatever it was before. -/
theorem foldl_keepFirst_none (test : β → Option Network) (scan : List β) (bss : Option β) :
    (firstMatch test scan = none ∧ (scan.foldl (keepFirst test) (bss, none)).2 = none) ∨
      ∃ p, firstMatch test scan = some p ∧
        scan.foldl (keepFirst test) (bss, none) = (some p.1, some p.2) := by
  induction scan generalizing bss with
  | nil => exact .inl ⟨rfl, rfl⟩
  | cons tmp scan ih =>
    rw [List.foldl_cons, keepFirst]
    cases h : test tmp with
    | none =>
      have hfirst : firstMatch test (tmp :: scan) = firstMatch test scan := by simp [firstMatch, h]
      rw [hfirst]
      exact ih (some tmp)
    | some ssid =>
      refine .inr ⟨(tmp, ssid), ?_, foldl_keepFirst_some ..⟩
      simp [firstMatch, h]

theorem selectBss_findsFirst : FindsFirst (@selectBss β) := by
  intro test scan
  unfold selectBss
  obtain ⟨hfirst, hnone⟩ | ⟨p, hfirst, hsome⟩ := foldl_keepFirst_none test scan none
  · rw [hfirst]
    split <;> simp_all [pointers]
  · rw [hfirst, hsome]
    rfl

theorem selectBssEarly_findsFirst : FindsFirst (@selectBssEarly β) := by
  intro test scan
  induction scan with
  | nil => rfl
  | cons bss scan ih =>
    rw [selectBssEarly]
    cases h : test bss with
    | some ssid => simp [firstMatch, h, pointers]
    | none =>
      rw [ih]
      simp [firstMatch, h]

theorem firstInGroups_cons (test : Network → Bool → β → Option Network) (scan : List β)
    (group : Network) (first : Bool) (groups : List (Network × Bool)) :
    firstInGroups test scan ((group, first) :: groups) =
      (firstMatch (test group first) scan).or (firstInGroups test scan groups) := by
  rw [firstInGroups, List.findSome?_cons]
  dsimp only
  cases firstMatch (test group first) scan <;> rfl

theorem pickFromGroups_eq {select : Select β} (hsel : FindsFirst select)
    (test : Network → Bool → β → Option Network) (scan : List β) (nextSsid : Option Network)
    (pssid : List Network) :
    pickFromGroups select test scan nextSsid pssid none =
      .ok (pointers (firstInGroups test scan (attempts nextSsid pssid))) := by
  induction pssid with
  | nil => rfl
  | cons group pssid ih =>
    -- the group itself, once the preselected network has not been found
    have hgroup : (do
        match ← select (test group false) scan none with
        | (some bss, selectedSsid) => .ok (some bss, selectedSsid)
        | (none, selectedSsid) => pickFromGroups select test scan nextSsid pssid selectedSsid) =
        (.ok (pointers (firstInGroups test scan
          ((group, false) :: attempts nextSsid pssid))) : Except Fault _) := by
      rw [hsel, firstInGroups_cons]
      cases firstMatch (test group false) scan with
      | none => exact ih
      | some p => rfl
    have hatt : attempts nextSsid (group :: pssid) =
        (nextSsid.filter (·.priority = group.priority)).toList.map (·, true) ++
          (group, false) :: attempts nextSsid pssid := by
      simp [attempts]
    rw [pickFromGroups.eq_def, hatt]
    dsimp only
    cases nextSsid with
    | none => exact hgroup
    | some next =>
      by_cases hp : next.priority = group.priority
      · rw [Option.filter_some_pos (by simpa using hp)]
        simp only [if_pos hp]
        rw [hsel (test next true), Option.toList_some, List.map_singleton, List.singleton_append,
          firstInGroups_cons]
        cases firstMatch (test next true) scan with
        | none => exact hgroup
        | some p => rfl
      · rw [Option.filter_some_neg (by simpa using hp)]
        simp only [if_neg hp]
        exact hgroup

/-! ## The choice -/

namespace WpaS

def scanRes (s : WpaS β) : List β := s.lastScanRes.getD []

/-- The groups that are tried for a supplicant. -/
def groups (s : WpaS β) : List (Network × Bool) :=
  attempts (s.nextSsid.filter (· ∈ s.ssid)) s.pssid

/-- The blacklist may be cleared for a second try. -/
def Retries (s : WpaS β) : Prop := s.blacklist ≠ [] ∧ ¬s.countermeasures

instance (s : WpaS β) : Decidable s.Retries := inferInstanceAs (Decidable (_ ∧ _))

/-- The first match with a given blacklist. -/
def choose (m : ScanResMatch β) (s : WpaS β) (blacklist : List BlacklistEntry) :
    Option (β × Network) :=
  firstInGroups (fun group first bss => m blacklist bss group first) s.scanRes s.groups

/-- The first match, or else the first one without the blacklist. -/
def chosen (m : ScanResMatch β) (s : WpaS β) : Option (β × Network) :=
  (s.choose m s.blacklist).or (if s.Retries then s.choose m [] else none)

/-- Some BSS matches some group. -/
def Matches (m : ScanResMatch β) (s : WpaS β) (blacklist : List BlacklistEntry) : Prop :=
  ∃ g ∈ s.groups, ∃ bss ∈ s.scanRes, m blacklist bss g.1 g.2 ≠ none

theorem choose_eq_none {m : ScanResMatch β} {s : WpaS β}
    {blacklist : List BlacklistEntry} : s.choose m blacklist = none ↔
      ¬s.Matches m blacklist := by
  simp [choose, firstInGroups, firstMatch, Matches, List.findSome?_eq_none_iff]

theorem chosen_eq_none {m : ScanResMatch β} {s : WpaS β} :
    s.chosen m = none ↔ ¬s.Matches m s.blacklist ∧ (s.Retries → ¬s.Matches m []) := by
  rw [chosen, Option.or_eq_none_iff, choose_eq_none]
  refine and_congr_right fun _ => ?_
  split
  · next h => simp [h, choose_eq_none]
  · next h => simp [h]

end WpaS

/-- The supplicant after the loop: the blacklist is cleared if the first round finds nothing. -/
def WpaS.afterRounds (s : WpaS β) : Option (β × Network) → WpaS β
  | none => if s.Retries then s.clearBlacklist else s
  | some _ => s

/-- One round of the loop. -/
theorem pickLoop_succ {select : Select β} (hsel : FindsFirst select) (m : ScanResMatch β)
    (scan : List β) (nextSsid : Option Network) (fuel : Nat) (s : WpaS β) :
    pickLoop select m scan nextSsid (fuel + 1) s none =
      match firstInGroups (fun group first bss => m s.blacklist bss group first) scan
        (attempts nextSsid s.pssid) with
      | some p => some (.ok (some p.1, some p.2, s))
      | none =>
        if s.Retries then pickLoop select m scan nextSsid fuel s.clearBlacklist none
        else some (.ok (none, none, s)) := by
  rw [pickLoop, pickFromGroups_eq hsel]
  cases firstInGroups _ scan (attempts nextSsid s.pssid) <;> rfl

/-- Two rounds are enough: after the first one there is no blacklist left to clear. -/
theorem pickLoop_eq {select : Select β} (hsel : FindsFirst select) (m : ScanResMatch β)
    (scan : List β) (nextSsid : Option Network) (fuel : Nat) (s : WpaS β) :
    pickLoop select m scan nextSsid (fuel + 2) s none =
      let find blacklist := firstInGroups (fun group first bss => m blacklist bss group first) scan
        (attempts nextSsid s.pssid)
      let found := (find s.blacklist).or (if s.Retries then find [] else none)
      some (.ok (found.map Prod.fst, found.map Prod.snd,
        s.afterRounds (find s.blacklist))) := by
  dsimp only
  rw [pickLoop_succ hsel]
  cases firstInGroups (fun group first bss => m s.blacklist bss group first) scan
      (attempts nextSsid s.pssid) with
  | some p => rfl
  | none =>
    rw [WpaS.afterRounds]
    by_cases hr : s.Retries
    · have hno : ¬s.clearBlacklist.Retries := fun h => h.1 rfl
      simp only [if_pos hr, pickLoop_succ hsel, if_neg hno, Option.none_or]
      change (match firstInGroups (fun group first bss => m [] bss group first) scan
        (attempts nextSsid s.pssid) with | some p => _ | none => _) = _
      cases firstInGroups (fun group first bss => m [] bss group first) scan
        (attempts nextSsid s.pssid) <;> rfl
    · simp [hr]

/-- The BSS and the network of a choice, of which the BSS is withheld without the key. -/
theorem checkPsk_eq (fieldName : Option String) (found : Option (β × Network))
    (s : WpaS β) :
    ∃ s', checkPsk fieldName (found.map Prod.fst, found.map Prod.snd, s) =
      ((found.filter fun p => !p.2.lacksPsk).map Prod.fst, found.map Prod.snd, s') := by
  cases found with
  | none => exact ⟨s, rfl⟩
  | some p =>
    simp only [Option.map_some, checkPsk]
    by_cases hp : p.2.lacksPsk = true
    · rw [Option.filter_some_neg (by simp [hp]), if_pos hp]
      cases fieldName <;> exact ⟨_, rfl⟩
    · rw [Option.filter_some_pos (by simpa using hp), if_neg hp]
      exact ⟨s, rfl⟩

section

variable {select : Select β} {m : ScanResMatch β} {fieldName : Option String} {fuel : Nat}
  {s : WpaS β} {selectedSsid : Option Network}

theorem pickNetwork_of_nil (h : s.scanRes = []) :
    pickNetwork select m fieldName fuel s selectedSsid = some (.ok (none, selectedSsid, s)) := by
  unfold pickNetwork
  split
  · rfl
  · rfl
  · next scan hne hs => exact absurd (by simpa [WpaS.scanRes, hs] using h) hne

theorem pickNetwork_of_ne_nil (h : s.scanRes ≠ []) :
    pickNetwork select m fieldName fuel s selectedSsid =
      (pickLoop select m s.scanRes (s.nextSsid.filter (· ∈ s.ssid)) fuel
        { s with nextSsid := none } selectedSsid).map fun r => r.map (checkPsk fieldName) := by
  unfold pickNetwork
  split
  · next hs => simp [WpaS.scanRes, hs] at h
  · next hs => simp [WpaS.scanRes, hs] at h
  · next scan _ hs =>
    obtain rfl : s.scanRes = scan := by simp [WpaS.scanRes, hs]
    rfl

end

/-- Every selection that finds the first match leads to the same choice. -/
theorem pickNetwork_eq (m : ScanResMatch β) (fieldName : Option String) (s : WpaS β) :
    ∃ s', ∀ select, FindsFirst select → ∀ fuel,
      pickNetwork select m fieldName (fuel + 2) s none =
        some (.ok (((s.chosen m).filter fun p => !p.2.lacksPsk).map Prod.fst,
          (s.chosen m).map Prod.snd, s')) := by
  by_cases hscan : s.scanRes = []
  · refine ⟨s, fun select _ fuel => ?_⟩
    have hnone : s.chosen m = none := by
      simp [WpaS.chosen_eq_none, WpaS.Matches, hscan]
    rw [pickNetwork_of_nil hscan, hnone]
    rfl
  · obtain ⟨s', hs'⟩ := checkPsk_eq fieldName (s.chosen m)
      (({ s with nextSsid := none } : WpaS β).afterRounds (s.choose m s.blacklist))
    refine ⟨s', fun select hsel fuel => ?_⟩
    rw [pickNetwork_of_ne_nil hscan, pickLoop_eq hsel]
    exact congrArg (fun r => some (Except.ok r)) hs'

theorem pickNetwork_first_match (m : ScanResMatch β) (fieldName : Option String)
    (s : WpaS β) :
    ∃ bss ssid s', (∀ fuel,
        pickNetwork selectBss m fieldName (fuel + 2) s none = some (.ok (bss, ssid, s')) ∧
        pickNetwork selectBssEarly m fieldName (fuel + 2) s none = some (.ok (bss, ssid, s'))) ∧
      ssid = (s.chosen m).map Prod.snd ∧
      bss = ((s.chosen m).filter fun p => !p.2.lacksPsk).map Prod.fst ∧
      (s.chosen m = none ↔ ¬s.Matches m s.blacklist ∧ (s.Retries → ¬s.Matches m [])) := by
  obtain ⟨s', hs'⟩ := pickNetwork_eq m fieldName s
  exact ⟨_, _, s', fun fuel =>
    ⟨hs' _ selectBss_findsFirst fuel, hs' _ selectBssEarly_findsFirst fuel⟩, rfl, rfl,
    WpaS.chosen_eq_none⟩

end CarFi.Supplicant
