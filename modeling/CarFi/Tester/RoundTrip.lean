import CarFi.Analyzer.Profile
import CarFi.Tester.Client
import Mathlib.Tactic.Ring
import Mathlib.Tactic.FieldSimp
import Mathlib.Tactic.Linarith

/-!
# A profile is read back

What `client.c` writes when it is stopped is what the analyser reads: the earliest start, the end,
the direction, the congestion control, the sum of the bytes and the flows (`profile_round_trip`).
-/
namespace CarFi.Tester

open Analyzer Library Library.PyText Library.Printf Library.Regex

/-! ## The loop over the connections -/

/-- The time in seconds. -/
def Timeval.value (t : Timeval) : ℚ := t.sec + t.usec / 1000000

theorem Timeval.before_iff (t t' : Timeval) : t.Before t' ↔ t.value < t'.value := by
  have ht := t.usec_lt
  have ht' := t'.usec_lt
  have hvalue (t : Timeval) : t.value = ((t.sec * 1000000 + t.usec : Nat) : ℚ) / 1000000 := by
    unfold Timeval.value
    push_cast
    ring
  rw [hvalue, hvalue, div_lt_div_iff_of_pos_right (by norm_num), Nat.cast_lt, Timeval.Before]
  omega

/-- The sum of the bytes. -/
def totalBytes (infos : List CliThreadInfo) : Nat := (infos.map CliThreadInfo.totalBytes).sum

/-- The time is that of the earliest start. -/
structure Earliest (infos : List CliThreadInfo) (t : Timeval) : Prop where
  mem : ∃ info ∈ infos, info.start = t
  le : ∀ info ∈ infos, t.value ≤ info.start.value

theorem sumUp_some {infos : List CliThreadInfo} (h : ∀ info ∈ infos, info.Established) {s : Nat}
    (hs : s + totalBytes infos < 2 ^ 64) (t₀ : Timeval) :
    ∃ t, sumUp s (some t₀) infos = some (s + totalBytes infos, some t) ∧
      (t = t₀ ∨ ∃ info ∈ infos, info.start = t) ∧ t.value ≤ t₀.value ∧
      ∀ info ∈ infos, t.value ≤ info.start.value := by
  induction infos generalizing s t₀ with
  | nil => exact ⟨t₀, by simp [sumUp, totalBytes], .inl rfl, le_rfl, by simp⟩
  | cons info infos ih =>
    obtain ⟨hinfo, hinfos⟩ := List.forall_mem_cons.mp h
    have htotal : totalBytes (info :: infos) = info.totalBytes + totalBytes infos := by
      simp [totalBytes]
    rw [htotal] at hs ⊢
    have hmod : (s + info.totalBytes) % 2 ^ 64 = s + info.totalBytes := Nat.mod_eq_of_lt (by omega)
    obtain ⟨t, ht, hmem, hle, hall⟩ := ih hinfos (s := s + info.totalBytes) (by omega)
      (if info.start.Before t₀ then info.start else t₀)
    refine ⟨t, ?_, ?_, ?_, ?_⟩
    · rw [sumUp, if_pos hinfo, hmod, ht, Nat.add_assoc]
    · rcases hmem with rfl | ⟨info', hmem, rfl⟩
      · split_ifs
        · exact .inr ⟨info, List.mem_cons_self, rfl⟩
        · exact .inl rfl
      · exact .inr ⟨info', List.mem_cons_of_mem _ hmem, rfl⟩
    · split_ifs at hle with hb
      · exact hle.trans ((Timeval.before_iff _ _).mp hb).le
      · exact hle
    · refine List.forall_mem_cons.mpr ⟨?_, hall⟩
      split_ifs at hle with hb
      · exact hle
      · exact hle.trans (not_lt.mp fun hlt => hb ((Timeval.before_iff _ _).mpr hlt))

/-- With established connections the sum and the earliest start are found. -/
theorem sumUp_eq {infos : List CliThreadInfo} (hne : infos ≠ [])
    (h : ∀ info ∈ infos, info.Established) (hs : totalBytes infos < 2 ^ 64) :
    ∃ t, sumUp 0 none infos = some (totalBytes infos, some t) ∧ Earliest infos t := by
  obtain ⟨info, infos, rfl⟩ := List.exists_cons_of_ne_nil hne
  obtain ⟨hinfo, hinfos⟩ := List.forall_mem_cons.mp h
  have htotal : totalBytes (info :: infos) = info.totalBytes + totalBytes infos := by
    simp [totalBytes]
  rw [htotal] at hs ⊢
  obtain ⟨t, ht, hmem, hle, hall⟩ := sumUp_some hinfos hs info.start
  refine ⟨t, ?_, ?_, List.forall_mem_cons.mpr ⟨hle, hall⟩⟩
  · rw [sumUp, if_pos hinfo, Nat.zero_add, Nat.mod_eq_of_lt (by omega), ht]
  · rcases hmem with rfl | ⟨info', hmem, rfl⟩
    · exact ⟨info, List.mem_cons_self, rfl⟩
    · exact ⟨info', List.mem_cons_of_mem _ hmem, rfl⟩

theorem sumUp_eq_none {infos : List CliThreadInfo} {info : CliThreadInfo} (hmem : info ∈ infos)
    (h : ¬info.Established) (s : Nat) (t : Option Timeval) : sumUp s t infos = none := by
  induction infos generalizing s t with
  | nil => cases hmem
  | cons info' infos ih =>
    by_cases h' : info'.Established
    · have hmem : info ∈ infos := by
        rcases List.mem_cons.mp hmem with rfl | hmem
        · exact absurd h' h
        · exact hmem
      cases t with
      | none => rw [sumUp, if_pos h', ih hmem]
      | some t => rw [sumUp, if_pos h', ih hmem]
    · cases t <;> rw [sumUp, if_neg h']

/-! ## Texts -/

theorem ascii09_ne {c d : Char} (h : ascii09 c = true) (hd : ascii09 d = false) : c ≠ d := by
  rintro rfl
  rw [h] at hd
  cases hd

theorem Timeval.text_eq {t : Timeval} (h : t.sec < 2 ^ 31) :
    t.text = decText t.sec ++ '.' :: zeroPad 6 (decText t.usec) := by
  have hmod : Int.bmod (t.sec : Int) (2 ^ 32) = t.sec := by
    rw [Int.bmod_eq_of_le] <;> omega
  unfold Timeval.text
  rw [hmod]
  rfl

theorem ascii09_of_mem_usec {t : Timeval} {c : Char} (h : c ∈ zeroPad 6 (decText t.usec)) :
    ascii09 c = true :=
  forall_mem_zeroPad (by decide) (fun _ hc => ascii09_of_mem_decText hc) c h

/-- A time is read as it was. -/
theorem signedFloat_text {t : Timeval} (h : t.sec < 2 ^ 31) :
    signedFloat t.text = some t.value := by
  have hfloat := float_dotted (decText_ne_nil t.sec) (fun c hc => ascii09_of_mem_decText hc)
    (fun c (hc : c ∈ zeroPad 6 (decText t.usec)) => ascii09_of_mem_usec hc)
  have hlen : (zeroPad 6 (decText t.usec)).length = 6 :=
    length_zeroPad_decText (by decide) t.usec_lt
  rw [digitsValue_append, digitsValue_zeroPad, digitsValue_decText, digitsValue_decText,
    hlen] at hfloat
  have hsign : signedFloat t.text = float t.text := by
    obtain ⟨c, cs, hc⟩ := List.exists_cons_of_ne_nil (decText_ne_nil t.sec)
    have hdigit := ascii09_of_mem_decText (n := t.sec) (c := c) (by simp [hc])
    rw [Timeval.text_eq h, hc, List.cons_append]
    unfold signedFloat
    split
    · rename_i heq
      exact absurd (List.cons.inj heq).1 (ascii09_ne hdigit (by decide))
    · rfl
  have hvalue : (((t.sec * 10 ^ 6 + t.usec : Nat) : ℚ) / 10 ^ 6) = t.value := by
    unfold Timeval.value
    push_cast
    ring
  rw [hsign, Timeval.text_eq h, hfloat, hvalue]

/-- The text has no blanks. -/
def NoBlanks (s : List Char) : Prop := ∀ c ∈ s, space c = false

theorem NoBlanks.newline {s : List Char} (h : NoBlanks s) : '\n' ∉ s := by
  intro hmem
  have hspace := h '\n' hmem
  revert hspace
  decide

theorem NoBlanks.blank {s : List Char} (h : NoBlanks s) : ' ' ∉ s := by
  intro hmem
  have hspace := h ' ' hmem
  revert hspace
  decide

theorem noBlanks_of_digits {s : List Char} (h : ∀ c ∈ s, ascii09 c = true) : NoBlanks s :=
  fun c hc => space_eq_false_of_decimal (decimal_of_ascii09 (h c hc))

theorem noBlanks_decText (n : Nat) : NoBlanks (decText n) :=
  noBlanks_of_digits fun _ hc => ascii09_of_mem_decText hc

theorem noBlanks_timeval {t : Timeval} (h : t.sec < 2 ^ 31) : NoBlanks t.text := by
  rw [Timeval.text_eq h]
  intro c hc
  rcases List.mem_append.mp hc with hc | hc
  · exact noBlanks_decText _ c hc
  · rcases List.mem_cons.mp hc with rfl | hc
    · decide
    · exact noBlanks_of_digits (fun _ hc => ascii09_of_mem_usec hc) c hc

theorem noBlanks_of_all {s : List Char} (h : s.all (fun c => !space c) = true) : NoBlanks s :=
  fun c hc => by simpa using List.all_eq_true.mp h c hc

theorem noBlanks_typeText (type : FlowType) : NoBlanks (typeText type) :=
  noBlanks_of_all (by cases type <;> decide)

theorem ofText_typeText (type : FlowType) : FlowType.ofText (typeText type) = some type := by
  cases type <;> decide

/-! ## Flows -/

theorem octet?_decText (byte : UInt8) : octet? (decText byte.toNat) = some byte := by
  have hall : ∀ n < 256, octet? (decText n) = some (UInt8.ofNat n) := by decide +kernel
  rw [hall _ byte.toNat_lt, UInt8.ofNat_toNat]

theorem ascii09_ne_dot {c : Char} (h : ascii09 c = true) : c ≠ '.' := ascii09_ne h (by decide)

/-- An address is read as it was. -/
theorem inetAton_inetNtoa (x : InAddr) : inetAton (inetNtoa x) = some x.bytes := by
  have hsplit : (inetNtoa x).splitOn '.' = x.bytes.map fun byte => decText byte.toNat := by
    refine List.splitOn_intercalate '.' ?_ (by simp [InAddr.bytes])
    intro l hl hdot
    obtain ⟨byte, -, rfl⟩ := List.mem_map.mp hl
    exact ascii09_ne_dot (ascii09_of_mem_decText hdot) rfl
  unfold inetAton
  rw [hsplit]
  simp [InAddr.bytes, octet?_decText]

theorem inetNtoa_eq (x : InAddr) :
    inetNtoa x = decText x.a.toNat ++ '.' :: (decText x.b.toNat ++ '.' ::
      (decText x.c.toNat ++ '.' :: decText x.d.toNat)) := by
  simp [inetNtoa, InAddr.bytes, List.intercalate]

theorem NoBlanks.append {s t : List Char} {c : Char} (hs : NoBlanks s) (hc : space c = false)
    (ht : NoBlanks t) : NoBlanks (s ++ c :: t) := by
  intro d hd
  rcases List.mem_append.mp hd with hd | hd
  · exact hs d hd
  · rcases List.mem_cons.mp hd with rfl | hd
    · exact hc
    · exact ht d hd

theorem noBlanks_inetNtoa (x : InAddr) : NoBlanks (inetNtoa x) := by
  have hdot : space '.' = false := by decide
  rw [inetNtoa_eq]
  exact (noBlanks_decText _).append hdot ((noBlanks_decText _).append hdot
    ((noBlanks_decText _).append hdot (noBlanks_decText _)))

theorem inetNtoa_ne_nil (x : InAddr) : inetNtoa x ≠ [] := by simp [inetNtoa_eq]

theorem flowLine_eq (args : GlobalArgs) (info : CliThreadInfo) :
    flowLine args info = inetNtoa info.sinAddr ++ ' ' :: (decText info.sinPort.toNat ++ ' ' ::
      (inetNtoa args.serverIp ++ ' ' :: decText args.serverPort.toNat)) := by
  simp [flowLine, List.intercalate]

theorem stops_append {s : List Char} (hne : s ≠ []) (hs : NoBlanks s) (t : List Char) :
    Stops space (s ++ t) := by
  obtain ⟨c, cs, rfl⟩ := List.exists_cons_of_ne_nil hne
  rintro d ⟨⟩
  exact hs c List.mem_cons_self

theorem strip_flowLine (args : GlobalArgs) (info : CliThreadInfo) :
    strip (flowLine args info) = flowLine args info := by
  rw [flowLine_eq]
  refine strip_eq_self (stops_append (inetNtoa_ne_nil _) (noBlanks_inetNtoa _) _) ?_
  have hport : NoBlanks (decText args.serverPort.toNat).reverse := fun c hc =>
    noBlanks_decText _ c (List.mem_reverse.mp hc)
  simp only [List.reverse_append, List.reverse_cons, List.append_assoc]
  exact stops_append (by simp [decText_ne_nil]) hport _

theorem newline_notMem_flowLine (args : GlobalArgs) (info : CliThreadInfo) :
    '\n' ∉ flowLine args info := by
  rw [flowLine_eq]
  simp [(noBlanks_inetNtoa _).newline, (noBlanks_decText _).newline]

/-- The endpoints of a connection. -/
def flowKey (args : GlobalArgs) (info : CliThreadInfo) : FlowKey where
  cip := info.sinAddr.bytes
  cport := info.sinPort.toNat
  sip := args.serverIp.bytes
  sport := args.serverPort.toNat

theorem int_decText (n : Nat) : int (decText n) = some (n : Int) := by
  rw [int_of_digits (decText_ne_nil n) fun c hc => ascii09_of_mem_decText hc, digitsValue_decText]

/-- The line of a flow is read as its endpoints. -/
theorem flowOf_flowLine (args : GlobalArgs) (info : CliThreadInfo) :
    flowOf (flowLine args info) = some (flowKey args info) := by
  have hsplit : (flowLine args info).splitOn ' ' =
      [inetNtoa info.sinAddr, decText info.sinPort.toNat, inetNtoa args.serverIp,
        decText args.serverPort.toNat] := by
    refine List.splitOn_intercalate ' ' ?_ (by simp)
    simp [(noBlanks_inetNtoa _).blank, (noBlanks_decText _).blank]
  unfold flowOf
  rw [hsplit]
  simp [int_decText, inetAton_inetNtoa, flowKey]

/-- Distinct keys are inserted one after the other. -/
theorem foldlM_insertKey {κ : Type} [DecidableEq κ] (ks : List κ) (read : Nat → Option κ)
    (hread : ∀ i k, ks[i]? = some k → read i = some k) (hks : ks.Nodup) (n : Nat)
    (hn : n ≤ ks.length) :
    ∃ keys, (List.range n).foldlM (fun keys i => (read i).map (insertKey keys))
      ⟨[], List.nodup_nil⟩ = some keys ∧ keys.1 = ks.take n := by
  induction n with
  | zero => exact ⟨⟨[], List.nodup_nil⟩, rfl, rfl⟩
  | succ n ih =>
    obtain ⟨keys, hfold, hkeys⟩ := ih (by omega)
    have hlt : n < ks.length := by omega
    have hk : ks[n]? = some ks[n] := List.getElem?_eq_getElem hlt
    have htake : ks.take (n + 1) = ks.take n ++ [ks[n]] := List.take_succ_eq_append_getElem hlt
    have hnew : ks[n] ∉ keys.1 := by
      have hnodup := htake ▸ hks.sublist (List.take_sublist (n + 1) ks)
      rw [hkeys]
      exact fun hmem => (List.nodup_append.mp hnodup).2.2 _ hmem _ (by simp) rfl
    refine ⟨insertKey keys ks[n], ?_, ?_⟩
    · rw [List.range_succ, List.foldlM_append, hfold]
      simp [hread n _ hk]
    · rw [insertKey, dif_neg hnew, htake, ← hkeys]

/-! ## The profile -/

theorem newline_notMem_profileLines {args : GlobalArgs} {infos : List CliThreadInfo}
    {tvStart tvEnd : Timeval} {sumBytes : Nat} (hstart : tvStart.sec < 2 ^ 31)
    (hend : tvEnd.sec < 2 ^ 31) (hcc : NoBlanks args.ccType) :
    ∀ l ∈ profileLines args infos tvStart tvEnd sumBytes, '\n' ∉ l := by
  simp [profileLines, (noBlanks_timeval hstart).newline, (noBlanks_timeval hend).newline,
    (noBlanks_typeText _).newline, hcc.newline, (noBlanks_decText _).newline,
    newline_notMem_flowLine]

/-- A profile is read as it was written. -/
theorem parsingProfile_textOf {args : GlobalArgs} {infos : List CliThreadInfo}
    {tvStart tvEnd : Timeval} {sumBytes : Nat} (hstart : tvStart.sec < 2 ^ 31)
    (hend : tvEnd.sec < 2 ^ 31) (hcc : NoBlanks args.ccType) (hlt : tvStart.value < tvEnd.value)
    (hflows : (infos.map (flowKey args)).Nodup) :
    ∃ p, parsingProfile (textOf (profileLines args infos tvStart tvEnd sumBytes)) = some p ∧
      p.tSApp = tvStart.value ∧ p.tEApp = tvEnd.value ∧ p.type = args.type ∧
      p.cc = args.ccType ∧ p.totalBytesApp = sumBytes ∧ p.flowNb = infos.length ∧
      p.flows.1 = infos.map (flowKey args) := by
  have hlines := @newline_notMem_profileLines args infos _ _ sumBytes hstart hend hcc
  have hline {i : Nat} {l : List Char}
      (hl : (profileLines args infos tvStart tvEnd sumBytes)[i]? = some l) (hstrip : strip l = l) :
      strip (readline (textOf (profileLines args infos tvStart tvEnd sumBytes)) i) = l := by
    rw [readline_textOf hlines hl, hstrip]
  have h₀ := hline (i := 0) rfl (strip_of_forall (noBlanks_timeval hstart))
  have h₁ := hline (i := 1) rfl (strip_of_forall (noBlanks_timeval hend))
  have h₂ := hline (i := 2) rfl (strip_of_forall (noBlanks_typeText args.type))
  have h₃ := hline (i := 3) rfl (strip_of_forall hcc)
  have h₄ := hline (i := 4) rfl (strip_of_forall (noBlanks_decText sumBytes))
  have h₅ := hline (i := 5) rfl (strip_of_forall (noBlanks_decText infos.length))
  have hread : ∀ i k, (infos.map (flowKey args))[i]? = some k →
      flowOf (strip (readline (textOf (profileLines args infos tvStart tvEnd sumBytes)) (6 + i))) =
        some k := by
    intro i k hk
    rw [List.getElem?_map] at hk
    obtain ⟨info, hinfo, rfl⟩ := Option.map_eq_some_iff.mp hk
    rw [hline (l := flowLine args info) ?_ (strip_flowLine args info), flowOf_flowLine]
    rw [profileLines, List.getElem?_append_right (by simp)]
    simp [hinfo]
  obtain ⟨flows, hfold, hkeys⟩ := foldlM_insertKey (infos.map (flowKey args)) _ hread hflows
    infos.length (by simp)
  have hsub : tvEnd.value - tvStart.value ≠ 0 := by linarith
  let p : Profile :=
    { tSApp := tvStart.value
      tEApp := tvEnd.value
      type := args.type
      cc := args.ccType
      totalBytesApp := sumBytes
      gpApp := ((sumBytes : Int) : ℚ) * 8 / (tvEnd.value - tvStart.value) / 1000000
      flowNb := infos.length
      flows := flows }
  refine ⟨p, ?_, rfl, rfl, rfl, rfl, rfl, rfl, hkeys.trans (by simp)⟩
  unfold parsingProfile
  simp only [h₀, h₁, h₂, h₃, h₄, h₅]
  refine bind_of_eq_some (signedFloat_text hstart) ?_
  refine bind_of_eq_some (signedFloat_text hend) ?_
  refine bind_of_eq_some (ofText_typeText args.type) ?_
  refine bind_of_eq_some (int_decText sumBytes) ?_
  refine bind_of_eq_some (if_neg hsub : goodput _ _ _ = some _) ?_
  refine bind_of_eq_some (int_decText infos.length) ?_
  exact bind_of_eq_some hfold rfl

/-! ## The test -/

/-- The tester as the signal finds it. -/
structure Stopped where
  args : GlobalArgs
  infos : List CliThreadInfo
  tvEnd : Timeval
  ne_nil : infos ≠ []
  start_lt : ∀ info ∈ infos, info.start.sec < 2 ^ 31
  end_lt : tvEnd.sec < 2 ^ 31
  total_lt : totalBytes infos < 2 ^ 64
  -- the kernel has accepted the name of the congestion control
  cc_noBlanks : NoBlanks args.ccType

/-- The local endpoint of a connection. -/
def CliThreadInfo.endpoint (info : CliThreadInfo) : InAddr × UInt16 := (info.sinAddr, info.sinPort)

theorem nodup_flowKeys {args : GlobalArgs} {infos : List CliThreadInfo}
    (h : (infos.map CliThreadInfo.endpoint).Nodup) : (infos.map (flowKey args)).Nodup := by
  let key (e : InAddr × UInt16) : FlowKey :=
    ⟨e.1.bytes, e.2.toNat, args.serverIp.bytes, args.serverPort.toNat⟩
  have hinj : Function.Injective key := by
    rintro ⟨⟨a, b, c, d⟩, port⟩ ⟨⟨a', b', c', d'⟩, port'⟩ heq
    simp only [key, InAddr.bytes, FlowKey.mk.injEq, List.cons.injEq, UInt16.toNat_inj] at heq
    grind
  have hmap : infos.map (flowKey args) = (infos.map CliThreadInfo.endpoint).map key := by
    rw [List.map_map]
    rfl
  rw [hmap]
  exact h.map hinj

theorem tcpResults_of_none (before after : List TestDir) (pcap : Option (List (ℚ × Packet))) :
    tcpResults (before ++ ⟨none, pcap⟩ :: after) = tcpResults (before ++ after) := by
  have hpool : poolFunc ⟨none, pcap⟩ = some none := rfl
  unfold tcpResults
  rw [List.mapM_append, List.mapM_cons, hpool, List.mapM_append]
  cases before.mapM poolFunc with
  | none => rfl
  | some rs => cases after.mapM poolFunc <;> simp

/-- The profile of established connections is read back, and a test with a connection that is not
established is left out. -/
theorem profile_round_trip (s : Stopped) :
    ((∀ info ∈ s.infos, info.Established) → (s.infos.map CliThreadInfo.endpoint).Nodup →
      (∀ info ∈ s.infos, info.start.Before s.tvEnd) →
      ∃ text p t, sigHandler s.args s.infos s.tvEnd = some text ∧
        parsingProfile text = some p ∧ Earliest s.infos t ∧ p.tSApp = t.value ∧
        p.tEApp = s.tvEnd.value ∧ p.type = s.args.type ∧ p.cc = s.args.ccType ∧
        p.totalBytesApp = totalBytes s.infos ∧ p.flowNb = s.infos.length ∧
        p.flows.1 = s.infos.map (flowKey s.args)) ∧
    ((∃ info ∈ s.infos, ¬info.Established) → sigHandler s.args s.infos s.tvEnd = none ∧
      ∀ before after pcap,
        tcpResults (before ++ ⟨sigHandler s.args s.infos s.tvEnd, pcap⟩ :: after) =
          tcpResults (before ++ after)) := by
  constructor
  · intro hest hnodup hbefore
    obtain ⟨t, hsum, hearliest⟩ := sumUp_eq s.ne_nil hest s.total_lt
    obtain ⟨info, hmem, rfl⟩ := hearliest.mem
    have hlt := (Timeval.before_iff _ _).mp (hbefore info hmem)
    obtain ⟨p, hp, hrest⟩ := @parsingProfile_textOf _ _ _ _ (totalBytes s.infos)
      (s.start_lt info hmem) s.end_lt s.cc_noBlanks hlt (nodup_flowKeys hnodup)
    refine ⟨_, p, info.start, ?_, hp, hearliest, hrest⟩
    rw [sigHandler, hsum]
  · rintro ⟨info, hmem, hnot⟩
    have hnone : sigHandler s.args s.infos s.tvEnd = none := by
      rw [sigHandler, sumUp_eq_none hmem hnot]
    refine ⟨hnone, fun before after pcap => ?_⟩
    rw [hnone, tcpResults_of_none]

/-- Two connections, of which the second was started first. -/
def twoConnections : Stopped where
  args := ⟨⟨10, 0, 0, 1⟩, 5001, .upload, "cubic".toList⟩
  infos := [⟨100, ⟨7, 20, by decide⟩, ⟨10, 0, 0, 2⟩, 40000⟩,
    ⟨200, ⟨7, 10, by decide⟩, ⟨10, 0, 0, 2⟩, 40001⟩]
  tvEnd := ⟨9, 0, by decide⟩
  ne_nil := by simp
  start_lt := by simp
  end_lt := by decide
  total_lt := by decide
  cc_noBlanks := noBlanks_of_all (by decide)

theorem profile_of_twoConnections :
    ∃ text p t,
      sigHandler twoConnections.args twoConnections.infos twoConnections.tvEnd = some text ∧
      parsingProfile text = some p ∧ Earliest twoConnections.infos t ∧ p.tSApp = t.value ∧
      p.totalBytesApp = 300 := by
  obtain ⟨text, p, t, htext, hp, ht, hts, -, -, -, htotal, -⟩ :=
    (profile_round_trip twoConnections).1 (by decide) (by decide) (by decide)
  exact ⟨text, p, t, htext, hp, ht, hts, htotal.trans (by decide)⟩

end CarFi.Tester
