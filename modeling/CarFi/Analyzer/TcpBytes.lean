import CarFi.Analyzer.TcpParser
import Mathlib.Data.List.TakeWhile

/-!
# The bytes that are counted

The counter of a direction is the distance from some acknowledged position to the largest one. It
should start at the first one. But the first packet of the direction itself sets the counter back,
and so it starts at what had been acknowledged by then.
-/
namespace CarFi.Analyzer

open Library Library.PyText Library.SerialNumber

/-! ## Captures -/

/-- A captured packet with the true position that it acknowledges. -/
structure Traced where
  ts : ℚ
  packet : Packet
  pos : ℤ
  ack_eq : ∀ tcp, packet = .tcp tcp → tcp.ack.toNat = wrap 31 pos

def Traced.row (c : Traced) : ℚ × Packet := (c.ts, c.packet)

section Capture

variable (test : TcpTest) (k : FlowKey) (d : FlowDir)

/-- The packet goes in the direction `d` of the flow `k`. -/
def Traced.Goes (c : Traced) : Prop := test.side c.packet = some (k, d)

instance (c : Traced) : Decidable (c.Goes test k d) := inferInstanceAs (Decidable (_ = _))

/-- The positions in the data of a direction that are acknowledged, by the packets that go the
other way. -/
def acks (log : List Traced) : List ℤ :=
  (log.filter fun c => c.Goes test k d.other).map Traced.pos

/-- Those before the first packet of the direction itself. -/
def acksBefore (log : List Traced) : List ℤ :=
  acks test k d (log.takeWhile fun c => ¬c.Goes test k d)

/-- The largest minus the first position, and 0 without any. -/
def span (ps : List ℤ) : ℤ := ps.max?.getD 0 - ps.head?.getD 0

/-- The first packet of the direction itself does not come after an advance of the
acknowledgements. -/
def InTime (log : List Traced) : Prop :=
  (∃ c ∈ log, c.Goes test k d) → span (acksBefore test k d log) = 0

end Capture

/-! ## The counters -/

theorem FlowDir.other_ne (d : FlowDir) : d.other ≠ d := by cases d <;> simp [other]

@[simp] theorem FlowDir.other_other (d : FlowDir) : d.other.other = d := by cases d <;> rfl

theorem FlowDir.eq_or_eq_other (d d' : FlowDir) : d' = d ∨ d' = d.other := by
  cases d <;> cases d' <;> simp [other]

theorem PcapState.setStat_self (st : PcapState) (k : FlowKey) (d : FlowDir) (s : FlowStat) :
    (st.setStat k d s).stats k d = s := by
  simp [setStat]

theorem PcapState.setStat_of_ne {st : PcapState} {k k' : FlowKey} {d d' : FlowDir} {s : FlowStat}
    (h : (k', d') ≠ (k, d)) : (st.setStat k d s).stats k' d' = st.stats k' d' := by
  by_cases hk : k' = k
  · subst hk
    have hd : d' ≠ d := fun hd => h (by rw [hd])
    simp [setStat, hd]
  · simp [setStat, hk]

/-- What an acknowledgement near the largest one does to the counter. -/
theorem FlowStat.advance_eq {s : FlowStat} {last ack : UInt32} {p m : ℤ}
    (hl : s.lastAck = some last) (hm : last.toNat = wrap 31 m) (hp : ack.toNat = wrap 31 p)
    (hn : |p - m| < 2 ^ 31) :
    ∃ s' last', s.advance ack = .ok s' ∧ s'.firstSeq = s.firstSeq ∧
      s'.lastAck = some last' ∧ last'.toNat = wrap 31 (max m p) ∧
      (s'.ackedBytes : ℤ) = s.ackedBytes + (max m p - m) := by
  rw [abs_lt] at hn
  rw [advance, hl]
  dsimp only
  rw [hp, hm]
  rcases lt_trichotomy p m with hlt | rfl | hlt
  · have hgap := le_gap_wrap_of_lt hlt (w := 31) (by linarith)
    rw [if_neg (by omega)]
    refine ⟨s, last, rfl, rfl, hl, ?_, ?_⟩
    · rw [hm, max_eq_left hlt.le]
    · rw [max_eq_left hlt.le]
      ring
  · have hgap := gap_wrap_of_le (le_refl p) (w := 31) (by simp)
    rw [if_neg (by omega)]
    refine ⟨s, last, rfl, rfl, hl, ?_, ?_⟩
    · rw [hm, max_self]
    · simp
  · have hgap := gap_wrap_of_le hlt.le (w := 31) (by linarith)
    rw [if_pos (by omega)]
    refine ⟨_, ack, rfl, rfl, rfl, ?_, ?_⟩
    · rw [hp, max_eq_right hlt.le]
    · rw [max_eq_right hlt.le, ← hgap]
      push_cast
      rfl

/-! ## What has been captured -/

section Capture

variable {test : TcpTest} {k : FlowKey} {d : FlowDir} {log : List Traced} {c : Traced}

theorem Traced.Goes.not_other (h : c.Goes test k d) : ¬c.Goes test k d.other := by
  intro h'
  have hd : d = d.other := congrArg Prod.snd (Option.some.inj (h.symm.trans h'))
  exact d.other_ne hd.symm

theorem acks_concat (test : TcpTest) (k : FlowKey) (d : FlowDir) (log : List Traced) (c : Traced) :
    acks test k d (log ++ [c]) =
      acks test k d log ++ if c.Goes test k d.other then [c.pos] else [] := by
  by_cases h : c.Goes test k d.other <;> simp [acks, List.filter_append, h]

theorem acks_eq_nil : acks test k d log = [] ↔ ¬∃ c ∈ log, c.Goes test k d.other := by
  simp [acks, List.filter_eq_nil_iff]

theorem acks_isPrefix {log' : List Traced} (h : log' <+: log) :
    acks test k d log' <+: acks test k d log :=
  (h.filter _).map _

theorem acksBefore_isPrefix : acksBefore test k d log <+: acks test k d log :=
  acks_isPrefix (List.takeWhile_prefix _)

theorem acksBefore_concat_of_seen (h : ∃ c ∈ log, c.Goes test k d) :
    acksBefore test k d (log ++ [c]) = acksBefore test k d log := by
  obtain ⟨c', hmem, hgoes⟩ := h
  rw [acksBefore, List.takeWhile_append, if_neg, acksBefore]
  intro hlen
  have hself := (List.takeWhile_prefix fun c : Traced => decide ¬c.Goes test k d).eq_of_length hlen
  have hc' := List.mem_takeWhile_imp (hself.symm ▸ hmem)
  simp [hgoes] at hc'

theorem acksBefore_concat_first (h : ¬∃ c ∈ log, c.Goes test k d) (hc : c.Goes test k d) :
    acksBefore test k d (log ++ [c]) = acks test k d log := by
  have hall : ∀ c' ∈ log, (decide (¬c'.Goes test k d)) = true := by
    intro c' hmem
    simpa using fun hg => h ⟨c', hmem, hg⟩
  rw [acksBefore, List.takeWhile_append_of_pos hall]
  simp [hc]

end Capture

/-- The position from which the counter of a direction counts. -/
def origin (test : TcpTest) (k : FlowKey) (d : FlowDir) (log : List Traced) : ℤ :=
  let first := (acks test k d log).head?.getD 0
  if ∃ c ∈ log, c.Goes test k d then (acksBefore test k d log).max?.getD first else first

/-- The counter of a direction after the packets `log`. -/
structure Counted (test : TcpTest) (k : FlowKey) (d : FlowDir) (log : List Traced)
    (s : FlowStat) : Prop where
  first : s.firstSeq ≠ none ↔ ∃ c ∈ log, c.Goes test k d
  last : s.lastAck.map UInt32.toNat = (acks test k d log).max?.map (wrap 31)
  acked : (s.ackedBytes : ℤ) = (acks test k d log).max?.getD 0 - origin test k d log

theorem exists_goes_concat {test : TcpTest} {k : FlowKey} {d : FlowDir} {log : List Traced}
    {c : Traced} :
    (∃ c' ∈ log ++ [c], c'.Goes test k d) ↔ (∃ c' ∈ log, c'.Goes test k d) ∨
      c.Goes test k d := by
  simp [or_and_right, exists_or]

section Step

variable {test : TcpTest} {k : FlowKey} {d : FlowDir} {log : List Traced} {c : Traced}
  {s : FlowStat}

/-- The counter counts from where it did. -/
theorem origin_concat (hd : ¬c.Goes test k d)
    (hacks : c.Goes test k d.other → acks test k d log ≠ []) :
    origin test k d (log ++ [c]) = origin test k d log := by
  have hhead : (acks test k d (log ++ [c])).head? = (acks test k d log).head? := by
    rw [acks_concat]
    split
    · next h => exact List.head?_append_of_ne_nil _ (hacks h)
    · rw [List.append_nil]
  unfold origin
  simp only [exists_goes_concat, hd, or_false, hhead]
  split
  · next h => rw [acksBefore_concat_of_seen h]
  · rfl

/-- A packet of another flow. -/
theorem Counted.skip (h : Counted test k d log s) (hd : ¬c.Goes test k d)
    (ho : ¬c.Goes test k d.other) : Counted test k d (log ++ [c]) s := by
  have hacks : acks test k d (log ++ [c]) = acks test k d log := by
    rw [acks_concat, if_neg ho, List.append_nil]
  refine ⟨?_, ?_, ?_⟩
  · rw [h.first, exists_goes_concat, or_iff_left hd]
  · rw [h.last, hacks]
  · rw [h.acked, hacks, origin_concat hd fun hg => absurd hg ho]

/-- The first packet of the direction itself. -/
theorem Counted.start (h : Counted test k d log s) (hd : c.Goes test k d)
    (hs : s.firstSeq = none) (seq : UInt32) :
    Counted test k d (log ++ [c]) { s with firstSeq := some seq, ackedBytes := 0 } := by
  have hnone : ¬∃ c ∈ log, c.Goes test k d := fun hex => h.first.mpr hex hs
  have hacks : acks test k d (log ++ [c]) = acks test k d log := by
    rw [acks_concat, if_neg hd.not_other, List.append_nil]
  refine ⟨?_, ?_, ?_⟩
  · simp [hd]
  · rw [hacks]
    exact h.last
  · have hseen : ∃ c' ∈ log ++ [c], c'.Goes test k d := exists_goes_concat.mpr (.inr hd)
    simp only [origin, if_pos hseen, acksBefore_concat_first hnone hd, hacks]
    cases acks test k d log <;> simp

/-- A later packet of the direction itself. -/
theorem Counted.again (h : Counted test k d log s) (hd : c.Goes test k d)
    (hs : s.firstSeq ≠ none) : Counted test k d (log ++ [c]) s := by
  have hseen := h.first.mp hs
  have hacks : acks test k d (log ++ [c]) = acks test k d log := by
    rw [acks_concat, if_neg hd.not_other, List.append_nil]
  refine ⟨?_, ?_, ?_⟩
  · simp [hd, hs]
  · rw [h.last, hacks]
  · have hseen' : ∃ c' ∈ log ++ [c], c'.Goes test k d := exists_goes_concat.mpr (.inr hd)
    rw [h.acked]
    simp only [origin, if_pos hseen, if_pos hseen', acksBefore_concat_of_seen hseen, hacks]

/-- The first acknowledgement. -/
theorem Counted.firstAck (h : Counted test k d log s) (ho : c.Goes test k d.other)
    (hnil : acks test k d log = []) {ack : UInt32} (hack : ack.toNat = wrap 31 c.pos) :
    Counted test k d (log ++ [c]) { s with lastAck := some ack } := by
  have hd : ¬c.Goes test k d := by simpa using ho.not_other
  have hacks : acks test k d (log ++ [c]) = [c.pos] := by
    rw [acks_concat, if_pos ho, hnil, List.nil_append]
  have hbefore (log' : List Traced) (h : acks test k d log' = []) :
      acksBefore test k d log' = [] := by
    simpa [h] using @acksBefore_isPrefix test k d log'
  refine ⟨?_, ?_, ?_⟩
  · simpa [exists_goes_concat, hd] using h.first
  · simp [hacks, hack]
  · have hzero : (s.ackedBytes : ℤ) = 0 := by
      rw [h.acked, origin]
      simp [hnil, hbefore log hnil]
    have horigin : origin test k d (log ++ [c]) = c.pos := by
      simp only [origin, hacks, exists_goes_concat, hd, or_false]
      split
      · next hseen => simp [acksBefore_concat_of_seen hseen, hbefore log hnil]
      · rfl
    simp [hzero, horigin, hacks]

/-- A later acknowledgement. -/
theorem Counted.nextAck (h : Counted test k d log s) (ho : c.Goes test k d.other)
    (hne : acks test k d log ≠ []) (hnear : Near 31 (acks test k d (log ++ [c]))) {ack : UInt32}
    (hack : ack.toNat = wrap 31 c.pos) :
    ∃ s', s.advance ack = .ok s' ∧ Counted test k d (log ++ [c]) s' := by
  have hd : ¬c.Goes test k d := by simpa using ho.not_other
  have hacks : acks test k d (log ++ [c]) = acks test k d log ++ [c.pos] := by
    rw [acks_concat, if_pos ho]
  obtain ⟨m, hm⟩ := Option.isSome_iff_exists.mp (List.isSome_max?_of_ne_nil hne)
  rw [hacks] at hnear
  have hlast := h.last
  rw [hm, Option.map_some, Option.map_eq_some_iff] at hlast
  obtain ⟨last, hl, hlm⟩ := hlast
  obtain ⟨s', last', hadv, hfirst, hl', hlm', hacked⟩ :=
    FlowStat.advance_eq hl hlm hack (hnear _ _ (List.prefix_refl _) m hm)
  have hmax : (acks test k d (log ++ [c])).max? = some (max m c.pos) := by
    rw [hacks, max?_concat, hm, Option.elim_some]
  refine ⟨s', hadv, ?_, ?_, ?_⟩
  · rw [hfirst, h.first, exists_goes_concat, or_iff_left hd]
  · rw [hl', hmax, Option.map_some, Option.map_some, hlm']
  · rw [hacked, h.acked, hmax, hm, origin_concat hd fun _ => hne, Option.getD_some,
      Option.getD_some]
    ring

end Step

/-! ## Packet by packet -/

/-- The counters after a packet of the flow `k` in the direction `d`. -/
theorem PcapState.count_counted {test : TcpTest} {k : FlowKey} {d : FlowDir} {log : List Traced}
    {c : Traced} {st : PcapState} {tcp : TcpPacket} (hc : c.Goes test k d)
    (hack : tcp.ack.toNat = wrap 31 c.pos)
    (h : ∀ k d, Counted test k d log (st.stats k d))
    (hnear : Near 31 (acks test k d.other (log ++ [c]))) :
    ∃ st', st.count k d tcp = .ok st' ∧
      ∀ k d, Counted test k d (log ++ [c]) (st'.stats k d) := by
  have hc' : c.Goes test k d.other.other := by rwa [FlowDir.other_other]
  -- the other flows do not see the packet
  have hskip (k' : FlowKey) (d' : FlowDir) (hk : k' ≠ k) :
      Counted test k' d' (log ++ [c]) (st.stats k' d') := by
    have hgoes (d' : FlowDir) : ¬c.Goes test k' d' := fun hg =>
      hk (congrArg Prod.fst (Option.some.inj (hg.symm.trans hc)))
    exact (h k' d').skip (hgoes d') (hgoes _)
  have hne : (k, d.other) ≠ (k, d) := fun he => d.other_ne (congrArg Prod.snd he)
  cases hf : (st.stats k d).firstSeq with
  | none =>
    have hnil : acks test k d.other log = [] := by
      rw [acks_eq_nil, FlowDir.other_other, ← (h k d).first, hf]
      simp
    refine ⟨_, by rw [PcapState.count, hf], fun k' d' => ?_⟩
    by_cases hk : k' = k
    · subst hk
      obtain rfl | rfl := d.eq_or_eq_other d'
      · rw [setStat_of_ne (Ne.symm hne), setStat_self]
        exact (h k' d').start hc hf tcp.seq
      · rw [setStat_self, setStat_of_ne hne]
        exact (h k' d.other).firstAck hc' hnil hack
    · have hk' (d'' : FlowDir) : (k', d') ≠ (k, d'') := fun he => hk (congrArg Prod.fst he)
      rw [setStat_of_ne (hk' _), setStat_of_ne (hk' _)]
      exact hskip k' d' hk
  | some seq =>
    have hsome : (st.stats k d).firstSeq ≠ none := by simp [hf]
    have hacks : acks test k d.other log ≠ [] := by
      rw [Ne, acks_eq_nil, FlowDir.other_other, not_not]
      exact (h k d).first.mp hsome
    obtain ⟨s', hadv, hs'⟩ := (h k d.other).nextAck hc' hacks hnear hack
    refine ⟨st.setStat k d.other s', ?_, fun k' d' => ?_⟩
    · simp only [PcapState.count, hf, hadv]
      rfl
    by_cases hk : k' = k
    · subst hk
      obtain rfl | rfl := d.eq_or_eq_other d'
      · rw [setStat_of_ne (Ne.symm hne)]
        exact (h k' d').again hc hsome
      · rwa [setStat_self]
    · rw [setStat_of_ne fun he => hk (congrArg Prod.fst he)]
      exact hskip k' d' hk

theorem TcpTest.parsePacket_counted {test : TcpTest} {log : List Traced} {c : Traced}
    {st : PcapState} (h : ∀ k d, Counted test k d log (st.stats k d))
    (hnear : ∀ k d, Near 31 (acks test k d (log ++ [c]))) :
    ∃ st', test.parsePacket st c.row = .ok st' ∧
      ∀ k d, Counted test k d (log ++ [c]) (st'.stats k d) := by
  obtain ⟨ts, packet, pos, hack⟩ := c
  have hnone (hs : test.side packet = none) (k : FlowKey) (d : FlowDir) :
      Counted test k d (log ++ [⟨ts, packet, pos, hack⟩]) (st.stats k d) :=
    (h k d).skip (by simp [Traced.Goes, hs]) (by simp [Traced.Goes, hs])
  cases packet with
  | other => exact ⟨st, rfl, hnone rfl⟩
  | tcp tcp =>
    simp only [Traced.row, TcpTest.parsePacket]
    split
    · next hs => exact ⟨st, rfl, hnone hs⟩
    · next k d hs => exact PcapState.count_counted hs (hack tcp rfl) h (hnear k d.other)

theorem TcpTest.foldlM_counted {test : TcpTest} {log rest : List Traced} {st : PcapState}
    (h : ∀ k d, Counted test k d log (st.stats k d))
    (hnear : ∀ k d, Near 31 (acks test k d (log ++ rest))) :
    ∃ st', (rest.map Traced.row).foldlM test.parsePacket st = .ok st' ∧
      ∀ k d, Counted test k d (log ++ rest) (st'.stats k d) := by
  induction rest generalizing log st with
  | nil => exact ⟨st, rfl, by simpa using h⟩
  | cons c rest ih =>
    rw [List.append_cons] at hnear
    obtain ⟨st₁, hstep, h₁⟩ := parsePacket_counted h fun k d =>
      (hnear k d).of_isPrefix (acks_isPrefix (List.prefix_append _ _))
    obtain ⟨st₂, hfold, h₂⟩ := ih h₁ hnear
    refine ⟨st₂, foldlM_cons_eq_ok.mpr ⟨st₁, hstep, hfold⟩, fun k d => ?_⟩
    rw [List.append_cons]
    exact h₂ k d

theorem Counted.initial (test : TcpTest) (k : FlowKey) (d : FlowDir) :
    Counted test k d [] {} :=
  ⟨by simp, rfl, by simp [acks, origin]⟩

theorem Traced.Goes.mem_flows {test : TcpTest} {k : FlowKey} {d : FlowDir} {c : Traced}
    (h : c.Goes test k d) : k ∈ test.flows := by
  unfold Traced.Goes TcpTest.side at h
  split at h
  · cases h
  split at h
  swap
  · cases h
  unfold TcpTest.sideOf at h
  split at h
  · next hk =>
    cases h
    exact hk
  · split at h
    · next hk =>
      cases h
      exact hk
    · cases h

/-- The counter is right just if it counts from the first position. -/
theorem origin_eq_iff (test : TcpTest) (k : FlowKey) (d : FlowDir) (log : List Traced) :
    origin test k d log = (acks test k d log).head?.getD 0 ↔ InTime test k d log := by
  by_cases hseen : ∃ c ∈ log, c.Goes test k d
  · obtain ⟨tail, htail⟩ := @acksBefore_isPrefix test k d log
    simp only [origin, InTime, hseen, true_imp_iff, ← htail]
    cases hb : acksBefore test k d log with
    | nil => simp [span]
    | cons p ps => simp [span, sub_eq_zero]
  · simp [origin, InTime, hseen]

/-- The bytes that are counted for a flow and a direction are those that were acknowledged just if
the counting starts in time. The total is that of the data: from the client to the server in an
upload, and back in a download. -/
theorem TcpTest.parsingPcap_acked_iff (test : TcpTest) (log : List Traced)
    (hnear : ∀ k ∈ test.flows, ∀ d, Near 31 (acks test k d log)) :
    ∃ r, test.parsingPcap (log.map Traced.row) = .ok r ∧
      (∀ k ∈ test.flows, ∀ d,
        ((r.stats k d).ackedBytes : ℤ) = span (acks test k d log) ↔ InTime test k d log) ∧
      (test.type = .upload →
        r.totalBytesPcap = (test.flows.map fun k => (r.stats k .c2s).ackedBytes).sum) ∧
      (test.type = .download →
        r.totalBytesPcap = (test.flows.map fun k => (r.stats k .s2c).ackedBytes).sum) := by
  have hnear (k : FlowKey) (d : FlowDir) : Near 31 (acks test k d log) := by
    by_cases hk : k ∈ test.flows
    · exact hnear k hk d
    · have hnil : acks test k d log = [] := acks_eq_nil.mpr fun ⟨_, _, hg⟩ => hk hg.mem_flows
      intro pre p hpre
      simp [hnil] at hpre
  obtain ⟨st, hfold, hst⟩ := @TcpTest.foldlM_counted test [] log {} (Counted.initial test) hnear
  refine ⟨_, by rw [parsingPcap, hfold]; rfl, fun k _ d => ?_, fun h => by rw [h]; rfl,
    fun h => by rw [h]; rfl⟩
  have hacked := (hst k d).acked
  rw [List.nil_append] at hacked
  rw [← origin_eq_iff, hacked, span, sub_right_inj]

/-! ## Two captures -/

/-- A packet of the test at 10.0.0.2 and 10.0.0.1, which acknowledges up to `pos`. -/
def samplePacket (d : FlowDir) (pos : ℤ) (ack : UInt32) (h : ack.toNat = wrap 31 pos) :
    Traced where
  ts := 0
  packet := .tcp (match d with
    | .c2s => ⟨[10, 0, 0, 2], 4000, [10, 0, 0, 1], 80, 0x10, 0, ack⟩
    | .s2c => ⟨[10, 0, 0, 1], 80, [10, 0, 0, 2], 4000, 0x10, 0, ack⟩)
  pos := pos
  ack_eq := by
    intro tcp htcp
    obtain rfl := Packet.tcp.inj htcp
    cases d <;> exact h

def sampleTest : TcpTest where
  flows := [⟨[10, 0, 0, 2], 4000, [10, 0, 0, 1], 80⟩]
  flows_nodup := by simp
  type := .download

/-- The client acknowledges across the wrap, after the first packet of the server. -/
def wrappedCapture : List Traced :=
  [samplePacket .s2c 1 1 (by decide), samplePacket .c2s 4294966796 4294966796 (by decide),
    samplePacket .c2s 4294967796 500 (by decide)]

/-- The capture starts in the middle of the transfer, with two packets of the client. -/
def midFlowCapture : List Traced :=
  [samplePacket .c2s 1000 1000 (by decide), samplePacket .c2s 2000 2000 (by decide),
    samplePacket .s2c 5 5 (by decide)]

theorem near_pair {p q : ℤ} (h : |q - p| < 2 ^ 31) : Near 31 [p, q] :=
  ((near_nil 31).concat (p := p) (by simp)).concat (p := q) (by simpa using h)

theorem TcpTest.parsingPcap_acked_wrapped :
    ∃ r, sampleTest.parsingPcap (wrappedCapture.map Traced.row) = .ok r ∧
      ∀ k ∈ sampleTest.flows, (r.stats k .s2c).ackedBytes = 1000 := by
  have hnear : ∀ k ∈ sampleTest.flows, ∀ d, Near 31 (acks sampleTest k d wrappedCapture) := by
    intro k hk d
    obtain rfl := List.mem_singleton.mp hk
    cases d with
    | c2s => exact (near_nil 31).concat (p := 1) (by simp)
    | s2c => exact near_pair (p := 4294966796) (q := 4294967796) (by decide)
  obtain ⟨r, hr, hacked, -⟩ := sampleTest.parsingPcap_acked_iff wrappedCapture hnear
  refine ⟨r, hr, fun k hk => ?_⟩
  have hspan := (hacked k hk .s2c).mpr (by
    obtain rfl := List.mem_singleton.mp hk
    exact fun _ => by decide)
  obtain rfl := List.mem_singleton.mp hk
  have hval : span (acks sampleTest ⟨[10, 0, 0, 2], 4000, [10, 0, 0, 1], 80⟩
      .s2c wrappedCapture) =
      1000 := by decide
  rw [hval] at hspan
  exact_mod_cast hspan

/-- The first packet of the server discards what the client had acknowledged. -/
theorem midFlow_acked_lost :
    (∀ k ∈ sampleTest.flows, ∀ d, Near 31 (acks sampleTest k d midFlowCapture)) ∧
    ∃ r, sampleTest.parsingPcap (midFlowCapture.map Traced.row) = .ok r ∧
      r.totalBytesPcap = 0 ∧
      ∀ k ∈ sampleTest.flows, (r.stats k .s2c).ackedBytes = 0 ∧
        span (acks sampleTest k .s2c midFlowCapture) = 1000 := by
  refine ⟨fun k hk d => ?_, _, rfl, rfl, fun k hk => ?_⟩
  · obtain rfl := List.mem_singleton.mp hk
    cases d with
    | c2s => exact (near_nil 31).concat (p := 5) (by simp)
    | s2c => exact near_pair (p := 1000) (q := 2000) (by decide)
  · obtain rfl := List.mem_singleton.mp hk
    exact ⟨rfl, by decide⟩

end CarFi.Analyzer
