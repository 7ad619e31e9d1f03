import CarFi.Analyzer.SweepJoin
import Mathlib.Data.Finset.Lattice.Lemmas
import Mathlib.Data.List.Chain
import Mathlib.Tactic.NormNum

/-!
# The sweep against the naive join

Each cursor stays behind the entries that later records may use (`Library.Behind`), so that on
ordered inputs one pass over the lists finds what the naive join finds.
-/
namespace CarFi.Analyzer

open Library

/-! ## The loops of one record -/

theorem skipTo_eq {α : Type*} (time : α → ℚ) (xs : List α) (idx : Nat) (lo : ℚ) :
    skipTo time xs idx lo = skipped time xs idx lo := by
  simp [skipTo, whileFrom_eq, skipped]

section Loops

variable {used : Finset Nat} {idx : Nat} {low lo : ℚ}

theorem foldl_signals (w : List LinkInfo) (k : Nat) (signals : List ℚ) :
    (w.zipIdx k).foldl (fun signals x => signals ++ [x.1.signal]) signals =
      signals ++ w.map LinkInfo.signal := by
  induction w generalizing k signals with
  | nil => simp
  | cons a w ih => simp [List.zipIdx_cons, ih]

theorem sweepLink_eq (links : List LinkInfo) (idx : Nat) (lo hi : ℚ) :
    sweepLink links idx lo hi =
      (skipped LinkInfo.time links idx lo +
        (taken LinkInfo.time links (skipped LinkInfo.time links idx lo) hi).length,
       (taken LinkInfo.time links (skipped LinkInfo.time links idx lo) hi).map
        LinkInfo.signal) := by
  rw [sweepLink, whileFrom_eq, skipTo_eq, foldl_signals]
  rfl

theorem sweepLink_spec {links : List LinkInfo} (h : Behind LinkInfo.time links used idx low)
    (hsorted : TimeSorted LinkInfo.time links) (hlo : low ≤ lo) (hi : ℚ) :
    (sweepLink links idx lo hi).2 =
        (available LinkInfo.time links used lo hi).map (fun x => x.1.signal) ∧
      Behind LinkInfo.time links
        (used ∪ positions (available LinkInfo.time links used lo hi))
        (sweepLink links idx lo hi).1 lo := by
  rw [sweepLink_eq, h.available_skipped hsorted hlo]
  refine ⟨?_, (h.skip hlo).collect hi⟩
  have hfst := List.zipIdx_map_fst (skipped LinkInfo.time links idx lo)
    (taken LinkInfo.time links (skipped LinkInfo.time links idx lo) hi)
  conv_lhs => rw [← hfst]
  rw [List.map_map]
  rfl

theorem cons_prefix_drop {α : Type*} {xs w : List α} {a : α} {k : Nat}
    (h : a :: w <+: xs.drop k) : xs[k]? = some a ∧ w <+: xs.drop (k + 1) := by
  obtain ⟨t, ht⟩ := h
  constructor
  · have hhead := congrArg List.head? ht
    simpa [List.head?_drop] using hhead.symm
  · refine ⟨t, ?_⟩
    rw [← List.drop_drop, ← ht]
    rfl

section Gps

variable (geoDistance : ℚ × ℚ → ℚ × ℚ → ℚ) (gps : List GPSInfo)

theorem gpsBody_first (i : Nat) (a : GPSInfo) :
    gpsBody geoDistance gps (0, none) i a = (1, none) := by
  simp [gpsBody]

theorem gpsBody_second {i : Nat} {a b : GPSInfo} (hb : gps[i]? = some b) :
    gpsBody geoDistance gps (1, none) (i + 1) a = (2, some (geoDistance a.coord b.coord)) := by
  simp [gpsBody, hb]

theorem gpsBody_next {i n : Nat} {d : ℚ} {a b : GPSInfo} (hb : gps[i]? = some b) :
    gpsBody geoDistance gps (n + 2, some d) (i + 1) a =
      (n + 3, some (d + geoDistance a.coord b.coord)) := by
  simp [gpsBody, hb]

/-- From the second point on, each point adds its distance to the one before. -/
theorem foldl_gpsBody (w : List GPSInfo) (p : GPSInfo) (k n : Nat) (d : ℚ)
    (hw : p :: w <+: gps.drop k) :
    (w.zipIdx (k + 1)).foldl (fun s x => gpsBody geoDistance gps s x.2 x.1) (n + 2, some d) =
      (n + 2 + w.length,
       some (d + (List.zipWith (fun a b => geoDistance b.coord a.coord) (p :: w) w).sum)) := by
  induction w generalizing p k n d with
  | nil => simp
  | cons a w ih =>
    obtain ⟨hp, hw'⟩ := cons_prefix_drop hw
    rw [List.zipIdx_cons, List.foldl_cons, gpsBody_next geoDistance gps hp,
      ih a (k + 1) (n + 1) _ hw']
    simp only [List.length_cons, List.zipWith_cons_cons, List.sum_cons, Prod.mk.injEq,
      Option.some.injEq]
    exact ⟨by omega, add_assoc _ _ _⟩

theorem foldl_gpsBody_window (w : List GPSInfo) (k : Nat) (hw : w <+: gps.drop k) :
    (w.zipIdx k).foldl (fun s x => gpsBody geoDistance gps s x.2 x.1) (0, none) =
      (w.length, pathLength geoDistance w) := by
  match w, hw with
  | [], _ => rfl
  | [a], _ => simp [List.zipIdx_cons, gpsBody_first, pathLength]
  | a :: b :: w, hw =>
    obtain ⟨ha, hw'⟩ := cons_prefix_drop hw
    rw [List.zipIdx_cons, List.zipIdx_cons, List.foldl_cons, List.foldl_cons, gpsBody_first,
      gpsBody_second geoDistance gps ha, foldl_gpsBody geoDistance gps w b (k + 1) 0 _ hw']
    simp [pathLength]
    omega

theorem sweepGps_eq (idx : Nat) (lo hi : ℚ) :
    sweepGps geoDistance gps idx lo hi =
      (skipped GPSInfo.time gps idx lo +
        (taken GPSInfo.time gps (skipped GPSInfo.time gps idx lo) hi).length,
       (taken GPSInfo.time gps (skipped GPSInfo.time gps idx lo) hi).length,
       pathLength geoDistance (taken GPSInfo.time gps (skipped GPSInfo.time gps idx lo) hi)) := by
  have hloop := foldl_gpsBody_window geoDistance gps _ _
    (List.takeWhile_prefix (fun a : GPSInfo => decide (a.time ≤ hi))
      (l := gps.drop (skipped GPSInfo.time gps idx lo)))
  rw [sweepGps, whileFrom_eq, skipTo_eq]
  exact Prod.ext rfl hloop

theorem sweepGps_spec {used : Finset Nat} {idx : Nat} {low lo : ℚ}
    (h : Behind GPSInfo.time gps used idx low) (hsorted : TimeSorted GPSInfo.time gps)
    (hlo : low ≤ lo) (hi : ℚ) :
    (sweepGps geoDistance gps idx lo hi).2.2 =
        pathLength geoDistance ((available GPSInfo.time gps used lo hi).map Prod.fst) ∧
      Behind GPSInfo.time gps (used ∪ positions (available GPSInfo.time gps used lo hi))
        (sweepGps geoDistance gps idx lo hi).1 lo := by
  rw [sweepGps_eq, h.available_skipped hsorted hlo, List.zipIdx_map_fst]
  exact ⟨rfl, (h.skip hlo).collect hi⟩

end Gps

/-- The cursor of a paired list takes the first entry that the join offers. -/
theorem sweepPair_spec {α : Type*} {time : α → ℚ} {xs : List α}
    (h : Behind time xs used idx low) (hsorted : TimeSorted time xs) (hlo : low ≤ lo) (hi : ℚ) :
    (sweepPair time xs idx lo hi).2 = (available time xs used lo hi).head?.map Prod.fst ∧
      Behind time xs (used ∪ positions (available time xs used lo hi).head?.toList)
        (sweepPair time xs idx lo hi).1 lo := by
  have hskip := h.skip hlo
  rw [h.available_skipped hsorted hlo, sweepPair, skipTo_eq]
  cases hx : xs[skipped time xs idx lo]? with
  | none =>
    have htaken : taken time xs (skipped time xs idx lo) hi = [] := by
      rw [taken, List.drop_of_length_le (List.getElem?_eq_none_iff.mp hx), List.takeWhile_nil]
    simpa [htaken, positions, Finset.union_empty] using hskip
  | some a =>
    obtain ⟨hlt, rfl⟩ := List.getElem?_eq_some_iff.mp hx
    by_cases hle : time xs[skipped time xs idx lo] ≤ hi
    · rw [taken, List.drop_eq_getElem_cons hlt, List.takeWhile_cons_of_pos (by simpa using hle)]
      have huse := hskip.use hlt
      rw [Finset.insert_eq, Finset.union_comm] at huse
      simpa [List.zipIdx_cons, hle, positions] using huse
    · rw [taken, List.drop_eq_getElem_cons hlt, List.takeWhile_cons_of_neg (by simpa using hle)]
      simpa [hle, positions, Finset.union_empty] using hskip

end Loops

/-! ## One record, then all records -/

section Join

variable {φ ρ : Type*} (geoDistance : ℚ × ℚ → ℚ × ℚ → ℚ)
  (average : List ℚ → ℚ) (std : List ℚ → ρ)
variable {infos : ExpInfos φ} {intf : Intf}

/-- Every cursor is behind the entries that a record from `low` on may use. -/
structure Aligned (infos : ExpInfos φ) (intf : Intf) (used : UsedSets) (c : Cursors) (low : ℚ) :
    Prop where
  link : Behind LinkInfo.time (infos.link intf) used.link c.link low
  gps : Behind GPSInfo.time infos.gps used.gps c.gps low
  l3 : Behind RMInfoBlk.tDhcpS (infos.l3 intf) used.l3 c.l3 low
  tcp : Behind TCPInfo.tSApp (infos.tcp intf) used.tcp c.tcp low

theorem aligned_init (infos : ExpInfos φ) (intf : Intf) (low : ℚ) :
    Aligned infos intf {} {} low :=
  ⟨behind_zero _ _, behind_zero _ _, behind_zero _ _, behind_zero _ _⟩

theorem avgSpeedOf_eq {lo hi : ℚ} (h : lo < hi) (d : ℚ) :
    avgSpeedOf d lo hi = .ok (d / ((hi - lo) / 3600)) := by
  have hne : (hi - lo) / 3600 ≠ 0 := div_ne_zero (sub_ne_zero.mpr h.ne') (by decide)
  rw [avgSpeedOf, if_neg hne]

theorem sweepStep_complete {used : UsedSets} {c : Cursors} {low lo hi : ℚ} {l2 : L2Info}
    (hord : infos.Ordered intf) (h : Aligned infos intf used c low) (hs : l2.tConnS = some lo)
    (he : l2.tConnE = some hi) (hlo : low ≤ lo) (hlt : lo < hi) :
    ∃ c', sweepStep geoDistance average std intf (infos.link intf) infos.gps (infos.l3 intf)
        (infos.tcp intf) c l2 =
          .ok (c', (naiveStep geoDistance average std infos intf used l2).2.row) ∧
      Aligned infos intf (naiveStep geoDistance average std infos intf used l2).1 c' lo := by
  obtain ⟨hsig, hlink⟩ := sweepLink_spec h.link hord.link hlo hi
  obtain ⟨hdist, hgps⟩ := sweepGps_spec geoDistance infos.gps h.gps hord.gps hlo hi
  obtain ⟨hl3, hl3'⟩ := sweepPair_spec h.l3 hord.l3 hlo hi
  obtain ⟨htcp, htcp'⟩ := sweepPair_spec h.tcp hord.tcp hlo hi
  have haligned : Aligned infos intf ⟨_, _, _, _⟩ ⟨_, _, _, _⟩ lo :=
    ⟨hlink, hgps, hl3', htcp'⟩
  refine ⟨_, ?_, by simpa only [naiveStep, hs, he] using haligned⟩
  · unfold sweepStep naiveStep
    simp only [hs, he, hsig, hdist, hl3, htcp, List.length_pos_iff]
    cases pathLength geoDistance
      ((available GPSInfo.time infos.gps used.gps lo hi).map Prod.fst) with
    | none => simp
    | some d => simp [avgSpeedOf_eq hlt]

theorem sweepStep_incomplete (infos : ExpInfos φ) (intf : Intf) (used : UsedSets) (c : Cursors)
    {l2 : L2Info} (he : l2.tConnE = none) :
    sweepStep geoDistance average std intf (infos.link intf) infos.gps (infos.l3 intf)
      (infos.tcp intf) c
        l2 = .ok (c, (naiveStep geoDistance average std infos intf used l2).2.row) ∧
      (naiveStep geoDistance average std infos intf used l2).1 = used := by
  unfold sweepStep naiveStep
  simp [he]

/-- From aligned cursors on, the sweep gives the rows of the naive join. -/
theorem sweepIntf_eq (hord : infos.Ordered intf) (l2s : List L2Info)
    (hproper : ∀ l2 ∈ l2s, ∀ hi ∈ l2.tConnE, ∃ lo ∈ l2.tConnS, lo < hi)
    (hfollow : (l2s.filterMap L2Info.interval).IsChain fun a b => a.2 ≤ b.1)
    {used : UsedSets} {c : Cursors} {low : ℚ} (h : Aligned infos intf used c low)
    (hlow : ∀ x ∈ (l2s.filterMap L2Info.interval).head?, low ≤ x.1) :
    sweepIntf geoDistance average std infos intf c l2s =
      .ok ((naiveIntf geoDistance average std infos intf used l2s).map Linked.row) := by
  induction l2s generalizing used c low with
  | nil => rfl
  | cons l2 l2s ih =>
    have hproper' := fun x hx => hproper x (List.mem_cons_of_mem _ hx)
    rw [sweepIntf, naiveIntf]
    cases he : l2.tConnE with
    | none =>
      have hinterval : l2.interval = none := by simp [L2Info.interval, he]
      rw [List.filterMap_cons_none hinterval] at hfollow hlow
      obtain ⟨hstep, hused⟩ :=
        sweepStep_incomplete geoDistance average std infos intf used c he
      rw [hstep, hused, List.map_cons]
      simp only
      rw [ih hproper' hfollow h hlow]
      rfl
    | some hi =>
      obtain ⟨lo, hs, hlt⟩ := hproper l2 List.mem_cons_self hi he
      have hinterval : l2.interval = some (lo, hi) := by
        simp [L2Info.interval, he, Option.mem_def.mp hs]
      rw [List.filterMap_cons_some hinterval] at hfollow hlow
      obtain ⟨c', hstep, halign⟩ :=
        sweepStep_complete geoDistance average std hord h hs he (hlow _ rfl) hlt
      rw [hstep, List.map_cons]
      simp only
      obtain ⟨hnext, hchain⟩ := List.isChain_cons.mp hfollow
      rw [ih hproper' hchain halign fun x hx => hlt.le.trans (hnext x hx)]
      rfl

/-! ## Each entry is paired once -/

/-- A pairing by positions: no position twice, none of the used ones, and every row holds the
entry of its position. -/
structure PairsOnce {β α : Type*} (idx : β → Option Nat) (entry : β → Option α)
    (xs : List α) (used : Finset Nat) (rows : List β) : Prop where
  nodup : (rows.filterMap idx).Nodup
  fresh : ∀ i ∈ rows.filterMap idx, i ∉ used
  entry : ∀ r ∈ rows, entry r = (idx r).bind (xs[·]?)

theorem pairsOnce_nil {β α : Type*} (idx : β → Option Nat) (entry : β → Option α)
    (xs : List α) (used : Finset Nat) : PairsOnce idx entry xs used [] :=
  ⟨by simp, by simp, by simp⟩

/-- A row takes no entry, or one at a position that was not used. -/
def Takes {α : Type*} (xs : List α) (used used' : Finset Nat) (idx : Option Nat)
    (entry : Option α) : Prop :=
  ∃ first : Option (α × Nat), (∀ x ∈ first, xs[x.2]? = some x.1 ∧ x.2 ∉ used) ∧
    idx = first.map Prod.snd ∧ entry = first.map Prod.fst ∧
    used' = used ∪ positions first.toList

theorem takes_none {α : Type*} (xs : List α) (used : Finset Nat) : Takes xs used used none none :=
  ⟨none, by simp, rfl, rfl, by simp [positions, Finset.union_empty]⟩

theorem takes_head {α : Type*} {time : α → ℚ} (xs : List α) (used : Finset Nat)
    (lo hi : ℚ) : Takes xs used (used ∪ positions (available time xs used lo hi).head?.toList)
      ((available time xs used lo hi).head?.map Prod.snd)
      ((available time xs used lo hi).head?.map Prod.fst) := by
  refine ⟨_, fun x hx => ?_, rfl, rfl, rfl⟩
  have hmem := List.mem_of_head? hx
  rw [available, List.mem_filter] at hmem
  exact ⟨List.mem_zipIdx_iff_getElem?.mp hmem.1, (of_decide_eq_true hmem.2).1⟩

/-- The rows after a row avoid the position it takes. -/
theorem PairsOnce.cons {β α : Type*} {idx : β → Option Nat} {entry : β → Option α}
    {xs : List α} {used used' : Finset Nat} {r : β} {rows : List β}
    (htakes : Takes xs used used' (idx r) (entry r)) (h : PairsOnce idx entry xs used' rows) :
    PairsOnce idx entry xs used (r :: rows) := by
  obtain ⟨first, hfirst, hidx, hentry, rfl⟩ := htakes
  have hrow : entry r = (idx r).bind (xs[·]?) := by
    cases first with
    | none => simp [hidx, hentry]
    | some x => simp [hidx, hentry, (hfirst x rfl).1]
  have hentries : ∀ r' ∈ r :: rows, entry r' = (idx r').bind (xs[·]?) := by
    intro r' hr'
    rcases List.mem_cons.mp hr' with rfl | hr'
    · exact hrow
    · exact h.entry r' hr'
  cases first with
  | none =>
    rw [Option.map_none] at hidx
    refine ⟨?_, ?_, hentries⟩
    · simpa [hidx] using h.nodup
    · simpa [hidx, positions] using h.fresh
  | some x =>
    rw [Option.map_some] at hidx
    have hfresh : ∀ i ∈ rows.filterMap idx, i ≠ x.2 ∧ i ∉ used := by
      intro i hi
      simpa [positions] using h.fresh i hi
    refine ⟨?_, ?_, hentries⟩
    · rw [List.filterMap_cons_some hidx]
      exact List.nodup_cons.mpr ⟨fun hmem => (hfresh _ hmem).1 rfl, h.nodup⟩
    · rw [List.filterMap_cons_some hidx]
      intro i hi
      rcases List.mem_cons.mp hi with rfl | hi
      · exact (hfirst x rfl).2
      · exact (hfresh i hi).2

theorem naiveStep_takes (infos : ExpInfos φ) (intf : Intf) (used : UsedSets) (l2 : L2Info) :
    Takes (infos.l3 intf) used.l3 (naiveStep geoDistance average std infos intf used l2).1.l3
        (naiveStep geoDistance average std infos intf used l2).2.l3Idx
        (naiveStep geoDistance average std infos intf used l2).2.row.l3 ∧
      Takes (infos.tcp intf) used.tcp (naiveStep geoDistance average std infos intf used l2).1.tcp
        (naiveStep geoDistance average std infos intf used l2).2.tcpIdx
        (naiveStep geoDistance average std infos intf used l2).2.row.tcp := by
  unfold naiveStep
  split
  · exact ⟨takes_head _ _ _ _, takes_head _ _ _ _⟩
  · exact ⟨takes_none _ _, takes_none _ _⟩

theorem naiveIntf_pairsOnce (infos : ExpInfos φ) (intf : Intf) (used : UsedSets)
    (l2s : List L2Info) :
    PairsOnce Linked.l3Idx (fun r => r.row.l3) (infos.l3 intf) used.l3
        (naiveIntf geoDistance average std infos intf used l2s) ∧
      PairsOnce Linked.tcpIdx (fun r => r.row.tcp) (infos.tcp intf) used.tcp
        (naiveIntf geoDistance average std infos intf used l2s) := by
  induction l2s generalizing used with
  | nil => exact ⟨pairsOnce_nil _ _ _ _, pairsOnce_nil _ _ _ _⟩
  | cons l2 l2s ih =>
    obtain ⟨hl3, htcp⟩ := ih (naiveStep geoDistance average std infos intf used l2).1
    obtain ⟨hl3', htcp'⟩ := naiveStep_takes geoDistance average std infos intf used l2
    exact ⟨.cons hl3' hl3, .cons htcp' htcp⟩

/-! ## The whole join -/

theorem sweep_eq (infos : ExpInfos φ) (intfs : List Intf)
    (hord : ∀ intf ∈ intfs, infos.Ordered intf) :
    sweep geoDistance average std infos intfs = .ok (intfs.flatMap fun intf =>
      (naiveIntf geoDistance average std infos intf {} (infos.l2 intf)).map Linked.row) := by
  induction intfs with
  | nil => rfl
  | cons intf intfs ih =>
    have hintf := hord intf List.mem_cons_self
    have hlow : ∀ x ∈ ((infos.l2 intf).filterMap L2Info.interval).head?,
        (((infos.l2 intf).filterMap L2Info.interval).head?.map Prod.fst).getD 0 ≤ x.1 := by
      intro x hx
      simp [Option.mem_def.mp hx]
    rw [sweep, sweepIntf_eq geoDistance average std hintf (infos.l2 intf) hintf.proper hintf.follow
      (aligned_init infos intf _) hlow]
    simp only
    rw [ih fun x hx => hord x (List.mem_cons_of_mem _ hx)]
    rfl

/-- On ordered inputs the sweep gives the rows of the naive join, in which no DHCP record and
no TCP test is paired twice. -/
theorem sweep_eq_naive (infos : ExpInfos φ) (intfs : List Intf)
    (hord : ∀ intf ∈ intfs, infos.Ordered intf) :
    sweep geoDistance average std infos intfs = .ok (intfs.flatMap fun intf =>
        (naiveIntf geoDistance average std infos intf {} (infos.l2 intf)).map Linked.row) ∧
      ∀ intf, PairsOnce Linked.l3Idx (fun r => r.row.l3) (infos.l3 intf) ∅
          (naiveIntf geoDistance average std infos intf {} (infos.l2 intf)) ∧
        PairsOnce Linked.tcpIdx (fun r => r.row.tcp) (infos.tcp intf) ∅
          (naiveIntf geoDistance average std infos intf {} (infos.l2 intf)) :=
  ⟨sweep_eq geoDistance average std infos intfs hord,
    fun intf => naiveIntf_pairsOnce geoDistance average std infos intf {} (infos.l2 intf)⟩

/-! A drive past two access points, with entries on the border of their intervals. -/

def driveL2 (s e : Option ℚ) : L2Info :=
  { essid := "ap".toList, bssid := "00:11:22:33:44:55".toList, freq := 2412, level := -60
    type := .new, tAuthS := s, tAuthE := s, tAssocS := s, tAssocE := s, tHsS := s, tHsE := s
    tConnS := s, tConnE := e }

def driveL3 (t : ℚ) : RMInfoBlk :=
  { tDhcpS := t, tDhcpE := none, tIpS := none, tIpE := t + 3, ip := none, ipPrefix := none
    gw := none, intf := "wlan0".toList, dhcpServer := none, dnsServers := none }

def driveInfos : ExpInfos Unit where
  l2 _ := [driveL2 (some 0) (some 10), driveL2 (some 10) none, driveL2 (some 10) (some 20)]
  link _ := [⟨0, -60⟩, ⟨10, -70⟩, ⟨15, -50⟩]
  gps := [⟨46, 6, 1⟩, ⟨46, 7, 10⟩, ⟨46, 8, 10⟩, ⟨46, 9, 12⟩, ⟨46, 10, 14⟩]
  l3 _ := [driveL3 2, driveL3 10, driveL3 11]
  tcp _ := []

theorem driveInfos_ordered (intf : Intf) : driveInfos.Ordered intf where
  link := by norm_num [driveInfos, TimeSorted]
  gps := by norm_num [driveInfos, TimeSorted]
  l3 := by norm_num [driveInfos, TimeSorted, driveL3]
  tcp := by norm_num [driveInfos, TimeSorted]
  proper := by
    intro l2 hl2 hi hhi
    simp only [driveInfos, List.mem_cons, List.not_mem_nil, or_false] at hl2
    rcases hl2 with rfl | rfl | rfl
    · obtain rfl := Option.some.inj hhi
      exact ⟨0, rfl, by norm_num⟩
    · cases hhi
    · obtain rfl := Option.some.inj hhi
      exact ⟨10, rfl, by norm_num⟩
  follow := by
    change List.IsChain (fun a b : ℚ × ℚ => a.2 ≤ b.1) [(0, 10), (10, 20)]
    simp

def mean (xs : List ℚ) : ℚ := xs.sum / xs.length

theorem sweep_eq_naive_drive :
    (∀ intf ∈ ["wlan0".toList], driveInfos.Ordered intf) ∧
      sweep (fun a b => |a.2 - b.2|) mean mean driveInfos ["wlan0".toList] =
        .ok (["wlan0".toList].flatMap fun intf =>
          (naiveIntf (fun a b => |a.2 - b.2|) mean mean driveInfos intf {}
            (driveInfos.l2 intf)).map Linked.row) :=
  ⟨fun intf _ => driveInfos_ordered intf,
    (sweep_eq_naive _ _ _ driveInfos _ fun intf _ => driveInfos_ordered intf).1⟩

end Join

end CarFi.Analyzer
