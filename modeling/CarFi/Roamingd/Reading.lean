import CarFi.Roamingd.Log

/-!
# How the parser reads the rows of roamingd

Each printed row is read back as the event it reports. Five kinds of messages are events; the
address of a lease is one only if it has a gateway, and everything else is passed over.
-/
namespace CarFi.Roamingd

open Library Library.Regex Library.PyText Library.Printf Analyzer

/-! ## Patterns without their head -/

/-- Blanks before the rest of a pattern. -/
def blanks (r : Pattern) : Pattern := ⟨none, .many space⟩ :: r

/-- An address or another text of digits and dots, up to the end of the row. -/
def lastStamp (n : Nat) : Pattern := grp n (plus stampClass) ++ blanks eol

def startBody : Pattern :=
  lit "Acquiring" ++ blanks (lit "DHCPv4" ++ blanks (lit "lease" ++ blanks eol))

def viaBody : Pattern := blanks (lit "via" ++ blanks (lastStamp 5))

def getBody : Pattern :=
  lit "DHCPv4" ++ blanks (lit "address" ++ blanks (grp 3 (plus stampClass) ++ (lit "/" ++
    (grp 4 (plus decimal) ++ viaBody))))

def lostBody : Pattern := lit "Lost" ++ blanks (lit "carrier" ++ blanks eol)

def serverBody : Pattern := lit "DHCPv4" ++ blanks (lit "Server:" ++ blanks (lastStamp 3))

def dnsBody : Pattern :=
  lit "DNSv4" ++ blanks (lit "Server" ++ (plus space ++ (plus decimal ++ (lit ":" ++
    blanks (lastStamp 3)))))

/-- What a row reports, read off its message. -/
def eventOfText (text : List Char) : Option RMEvent :=
  match exec startBody text with
  | some _ => some .dhcpStart
  | none =>
    match exec getBody text with
    | some m => some (.ipGet (m.group 3) (m.group 4) (m.group 5))
    | none =>
      match exec lostBody text with
      | some _ => some .ipLost
      | none =>
        match exec serverBody text with
        | some m => some (.dhcpServer (m.group 3))
        | none => (exec dnsBody text).map fun m => .dnsServer (m.group 3)

/-- The head of a row is read back whatever the message. -/
theorem exec_line (body : Pattern) (hb : Rejects (exec body) space)
    (hg : ∀ i ∈ body, i.group ≠ some 1 ∧ i.group ≠ some 2) (head : LogHead)
    {text : List Char} (ht : Stops space (text ++ ['\n'])) :
    exec (headRe (some 1) (some 2) ++ blanks body) (head.line text) = none ∧
        exec body (text ++ ['\n']) = none ∨
      ∃ m m', exec (headRe (some 1) (some 2) ++ blanks body) (head.line text) = some m ∧
        exec body (text ++ ['\n']) = some m' ∧ m.group 1 = head.stamp ∧ m.group 2 = head.nic ∧
        m.group 3 = m'.group 3 ∧ m.group 4 = m'.group 4 ∧ m.group 5 = m'.group 5 := by
  have hexec := exec_message (some 1) (some 2) hb head [] text (by simp) ht
  rw [List.nil_append] at hexec
  cases hm : exec body (text ++ ['\n']) with
  | none => exact .inl ⟨by rw [blanks, hexec, hm]; rfl, rfl⟩
  | some m =>
    have h1 := group_eq_nil (fun i hi => (hg i hi).1) hm
    have h2 := group_eq_nil (fun i hi => (hg i hi).2) hm
    refine .inr ⟨_, m, by rw [blanks, hexec, hm]; rfl, rfl, ?_⟩
    simp [h1, h2]

theorem ofRow_line (head : LogHead) {text : List Char} (ht : Stops space (text ++ ['\n'])) :
    RMEvent.ofRow (head.line text) =
      (eventOfText (text ++ ['\n'])).map fun e => (head.stamp, head.nic, e) := by
  have hgroups (body : Pattern)
      (h : (body.all fun i => i.group != some 1 && i.group != some 2) = true) :
      ∀ i ∈ body, i.group ≠ some 1 ∧ i.group ≠ some 2 := by
    simpa using h
  have hstart := exec_line startBody (rejects_char (by decide)) (hgroups _ (by decide)) head ht
  have hget := exec_line getBody (rejects_char (by decide)) (hgroups _ (by decide)) head ht
  have hlost := exec_line lostBody (rejects_char (by decide)) (hgroups _ (by decide)) head ht
  have hserver := exec_line serverBody (rejects_char (by decide)) (hgroups _ (by decide)) head ht
  have hdns := exec_line dnsBody (rejects_char (by decide)) (hgroups _ (by decide)) head ht
  have hre : dhcpStartRe = headRe (some 1) (some 2) ++ blanks startBody ∧
      ipGetRe = headRe (some 1) (some 2) ++ blanks getBody ∧
      ipLostRe = headRe (some 1) (some 2) ++ blanks lostBody ∧
      dhcpServerRe = headRe (some 1) (some 2) ++ blanks serverBody ∧
      dnsServerRe = headRe (some 1) (some 2) ++ blanks dnsBody := ⟨rfl, rfl, rfl, rfl, rfl⟩
  obtain ⟨h₁, h₂, h₃, h₄, h₅⟩ := hre
  unfold RMEvent.ofRow eventOfText
  rw [h₁, h₂, h₃, h₄, h₅]
  obtain ⟨h, h'⟩ | ⟨m, m', h, h', hg⟩ := hstart
  swap
  · simp [h, h', hg]
  obtain ⟨g, g'⟩ | ⟨m, m', g, g', hg⟩ := hget
  swap
  · simp [h, h', g, g', hg]
  obtain ⟨l, l'⟩ | ⟨m, m', l, l', hg⟩ := hlost
  swap
  · simp [h, h', g, g', l, l', hg]
  obtain ⟨s, s'⟩ | ⟨m, m', s, s', hg⟩ := hserver
  swap
  · simp [h, h', g, g', l, l', s, s', hg]
  obtain ⟨d, d'⟩ | ⟨m, m', d, d', hg⟩ := hdns
  · simp [h, h', g, g', l, l', s, s', d, d']
  · simp [h, h', g, g', l, l', s, s', d, d', hg]

/-! ## Numbers and addresses -/

theorem stampClass_of_mem_decText {n : Nat} {c : Char} (h : c ∈ decText n) :
    stampClass c = true := by
  simp [stampClass, ascii09_of_mem_decText h]

theorem stampClass_of_mem_addressText {a : InAddr} {c : Char} (h : c ∈ addressText a) :
    stampClass c = true := by
  simp only [addressText, List.mem_append, List.mem_cons] at h
  obtain ((h | rfl | h) | rfl | h) | rfl | h := h
  all_goals first | exact stampClass_of_mem_decText h | rfl

theorem addressText_ne_nil (a : InAddr) : addressText a ≠ [] := by simp [addressText]

theorem space_eq_false_of_stampClass {c : Char} (h : stampClass c = true) : space c = false := by
  simp only [stampClass, Bool.or_eq_true, beq_iff_eq] at h
  obtain rfl | h := h
  · rfl
  · exact space_eq_false_of_nicClass (by simp [nicClass, h])

theorem stops_space {w s : List Char} (hne : w ≠ []) (hw : ∀ c ∈ w, space c = false) :
    Stops space (w ++ s) := by
  obtain ⟨c, w, rfl⟩ := List.exists_cons_of_ne_nil hne
  simpa using hw c (by simp)

/-! ## Rules for the bodies -/

/-- A word and the blank after it. -/
theorem exec_word (w : String) {r : Pattern} (hr : Rejects (exec r) space) {s : List Char}
    (hs : Stops space s) :
    exec (lit w ++ blanks r) (w.toList ++ ' ' :: s) =
      (exec r s).map (tag none (w.toList ++ [' ']) ++ ·) := by
  have hblank := exec_many_append (g := none) hr (w := [' ']) (List.all_eq_true.mp (by decide)) hs
  rw [List.singleton_append] at hblank
  rw [exec_lit_append, blanks, hblank]
  simp [Option.map_map, Function.comp_def, tag]

theorem exec_blanks_eol : exec (blanks eol) ['\n'] = some [(none, '\n')] := by decide

/-- The last address of a row. -/
theorem exec_lastStamp {n : Nat} {w : List Char} (hne : w ≠ [])
    (hw : ∀ c ∈ w, stampClass c = true) :
    exec (lastStamp n) (w ++ ['\n']) = some (tag (some n) w ++ [(none, '\n')]) :=
  exec_plus_longest hne hw (by simpa using by decide) exec_blanks_eol

theorem rejects_lastStamp (n : Nat) : Rejects (exec (lastStamp n)) space :=
  rejects_one fun c hc => by
    rcases hs : stampClass c with _ | _
    · rfl
    · simp [space_eq_false_of_stampClass hs] at hc

theorem rejects_viaBody : Rejects (exec viaBody) decimal :=
  rejects_many (fun _ hc => space_eq_false_of_decimal hc) (rejects_char (by decide))

/-- The address and the prefix length of a lease, whatever follows. -/
theorem exec_getBody {a p s : List Char} (ha : a ≠ []) (ha' : ∀ c ∈ a, stampClass c = true)
    (hp : p ≠ []) (hp' : ∀ c ∈ p, decimal c = true) (hs : Stops decimal s) :
    exec getBody ("DHCPv4".toList ++ ' ' :: ("address".toList ++ ' ' :: (a ++ '/' :: (p ++ s)))) =
      (exec viaBody s).map fun m => tag none "DHCPv4 address ".toList ++ tag (some 3) a ++
        (none, '/') :: tag (some 4) p ++ m := by
  have hstop : Stops space (a ++ '/' :: (p ++ s)) :=
    stops_space ha fun c hc => space_eq_false_of_stampClass (ha' c hc)
  have hslash : stampClass '/' = false := by decide
  have hnum : exec (grp 4 (plus decimal) ++ viaBody) (p ++ s) =
      (exec viaBody s).map (tag (some 4) p ++ ·) :=
    exec_plus_append rejects_viaBody hp hp' hs
  have haddr : exec (grp 3 (plus stampClass) ++ (lit "/" ++ (grp 4 (plus decimal) ++ viaBody)))
      (a ++ '/' :: (p ++ s)) =
        (exec viaBody s).map fun m => tag (some 3) a ++ (none, '/') :: tag (some 4) p ++ m := by
    have hnext : exec (lit "/" ++ (grp 4 (plus decimal) ++ viaBody)) ('/' :: (p ++ s)) =
        (exec (grp 4 (plus decimal) ++ viaBody) (p ++ s)).map ((none, '/') :: ·) :=
      exec_lit_append "/" _ (p ++ s)
    have hrun := exec_plus_append (g := some 3)
      (rejects_lit "/" (grp 4 (plus decimal) ++ viaBody) (by decide)) ha ha'
      (s := '/' :: (p ++ s)) (by simpa using hslash)
    refine hrun.trans ?_
    rw [hnext, hnum]
    simp [Option.map_map, Function.comp_def]
  have hrej : Rejects (exec (grp 3 (plus stampClass) ++
      (lit "/" ++ (grp 4 (plus decimal) ++ viaBody)))) space :=
    rejects_one fun c hc => by
      rcases hc' : stampClass c with _ | _
      · rfl
      · simp [space_eq_false_of_stampClass hc'] at hc
  rw [getBody, exec_word "DHCPv4" (rejects_lit "address" _ (by decide)) (by simpa using by decide),
    exec_word "address" hrej hstop, haddr]
  simp [Option.map_map, Function.comp_def, tag]

theorem exec_viaBody {g : List Char} (hg : g ≠ []) (hg' : ∀ c ∈ g, stampClass c = true) :
    exec viaBody (' ' :: ("via".toList ++ ' ' :: (g ++ ['\n']))) =
      some (tag none " via ".toList ++ tag (some 5) g ++ [(none, '\n')]) := by
  have hstop : Stops space (g ++ ['\n']) :=
    stops_space hg fun c hc => space_eq_false_of_stampClass (hg' c hc)
  have hblank := exec_many_append (g := none) (p := space)
    (rejects_lit "via" (blanks (lastStamp 5)) (by decide)) (w := [' '])
    (s := "via".toList ++ ' ' :: (g ++ ['\n'])) (List.all_eq_true.mp (by decide))
    (by simpa using by decide)
  rw [List.singleton_append] at hblank
  rw [viaBody, blanks, hblank, exec_word "via" (rejects_lastStamp 5) hstop, exec_lastStamp hg hg']
  simp

theorem exec_viaBody_eol : exec viaBody ['\n'] = none := by decide

theorem exec_serverBody {a : List Char} (ha : a ≠ []) (ha' : ∀ c ∈ a, stampClass c = true) :
    exec serverBody ("DHCPv4".toList ++ ' ' :: ("Server:".toList ++ ' ' :: (a ++ ['\n']))) =
      some (tag none "DHCPv4 Server: ".toList ++ tag (some 3) a ++ [(none, '\n')]) := by
  have hstop : Stops space (a ++ ['\n']) :=
    stops_space ha fun c hc => space_eq_false_of_stampClass (ha' c hc)
  rw [serverBody, exec_word "DHCPv4" (rejects_lit "Server:" _ (by decide))
    (by simpa using by decide), exec_word "Server:" (rejects_lastStamp 3) hstop,
      exec_lastStamp ha ha']
  simp

theorem exec_dnsBody {i a : List Char} (hi : i ≠ []) (hi' : ∀ c ∈ i, decimal c = true)
    (ha : a ≠ []) (ha' : ∀ c ∈ a, stampClass c = true) :
    exec dnsBody ("DNSv4".toList ++ ' ' :: ("Server".toList ++ ' ' :: (i ++ ':' :: ' ' ::
      (a ++ ['\n'])))) =
        some (tag none ("DNSv4 Server ".toList ++ i ++ [':', ' ']) ++ tag (some 3) a ++
          [(none, '\n')]) := by
  have hstop : Stops space (a ++ ['\n']) :=
    stops_space ha fun c hc => space_eq_false_of_stampClass (ha' c hc)
  have hcolon : exec (lit ":" ++ blanks (lastStamp 3)) (':' :: ' ' :: (a ++ ['\n'])) =
      some (tag none [':', ' '] ++ tag (some 3) a ++ [(none, '\n')]) := by
    refine (exec_word ":" (rejects_lastStamp 3) hstop).trans ?_
    rw [exec_lastStamp ha ha']
    simp
  have hnum : exec (plus decimal ++ (lit ":" ++ blanks (lastStamp 3)))
      (i ++ ':' :: ' ' :: (a ++ ['\n'])) =
        some (tag none (i ++ [':', ' ']) ++ tag (some 3) a ++ [(none, '\n')]) := by
    refine (exec_plus_append (g := none) (p := decimal) (rejects_lit ":" _ (by decide)) hi hi'
      (by simpa using by decide)).trans ?_
    rw [hcolon]
    simp [tag]
  have hrej : Rejects (exec (plus decimal ++ (lit ":" ++ blanks (lastStamp 3)))) space :=
    rejects_one fun c hc => by
      rcases hc' : decimal c with _ | _
      · rfl
      · simp [space_eq_false_of_decimal hc'] at hc
  have hblank : exec (plus space ++ (plus decimal ++ (lit ":" ++ blanks (lastStamp 3))))
      (' ' :: (i ++ ':' :: ' ' :: (a ++ ['\n']))) =
        some (tag none (' ' :: (i ++ [':', ' '])) ++ tag (some 3) a ++ [(none, '\n')]) := by
    refine (exec_plus_append (g := none) (p := space) (w := [' ']) hrej (by simp)
      (List.all_eq_true.mp (by decide))
      (stops_space hi fun c hc => space_eq_false_of_decimal (hi' c hc))).trans ?_
    rw [hnum]
    simp [tag]
  rw [dnsBody, exec_word "DNSv4" (rejects_lit "Server" _ (by decide)) (by simpa using by decide),
    exec_lit_append, hblank]
  simp [tag]

/-! ## Messages -/

/-- What a message is to the parser. -/
def LogMsg.event : LogMsg → Option RMEvent
  | .acquiringLease => some .dhcpStart
  | .lostCarrier => some .ipLost
  | .address l =>
    if l.router = 0 then none
    else some (.ipGet (addressText l.address) (decText (prefixlenOf l.subnetMask))
      (addressText l.router))
  | .dhcpServer a => some (.dhcpServer (addressText a))
  | .dnsServer _ a => some (.dnsServer (addressText a))
  | _ => none

theorem decimal_of_mem_decText {n : Nat} {c : Char} (h : c ∈ decText n) : decimal c = true :=
  decimal_of_ascii09 (ascii09_of_mem_decText h)

/-- A message with none of the first words of the patterns is no event. -/
theorem eventOfText_eq_none {s : List Char} (hstart : ¬"Acquiring".toList <+: s)
    (hget : ¬"DHCPv4".toList <+: s) (hlost : ¬"Lost".toList <+: s)
    (hdns : ¬"DNSv4".toList <+: s) : eventOfText s = none := by
  unfold eventOfText startBody getBody lostBody serverBody dnsBody
  simp only [exec_lit_eq_none _ _ hstart, exec_lit_eq_none _ _ hget, exec_lit_eq_none _ _ hlost,
    exec_lit_eq_none _ _ hdns, Option.map_none]

/-- The patterns for an address and for a server differ in the second word. -/
theorem exec_second_eq_none (w w' : String) {r : Pattern} {s : List Char}
    (hw : (w'.toList.head?.any fun c => !space c) = true) (hs : Stops space s)
    (hne : ¬w'.toList <+: s) :
    exec (lit w ++ blanks (lit w' ++ r)) (w.toList ++ ' ' :: s) = none := by
  rw [exec_word w (rejects_lit w' r hw) hs, exec_lit_eq_none w' r hne]
  rfl

theorem eventOfText_lease (loc : Locale) (l : Lease) :
    eventOfText ((LogMsg.address l).text loc ++ ['\n']) = (LogMsg.address l).event := by
  have hget {s : List Char} (hs : Stops decimal s) := exec_getBody (addressText_ne_nil l.address)
    (fun _ => stampClass_of_mem_addressText) (decText_ne_nil (prefixlenOf l.subnetMask))
    (fun _ => decimal_of_mem_decText) hs
  have hother (s : List Char) :
      exec startBody ("DHCPv4".toList ++ ' ' :: ("address".toList ++ ' ' :: s)) = none ∧
      exec lostBody ("DHCPv4".toList ++ ' ' :: ("address".toList ++ ' ' :: s)) = none ∧
      exec serverBody ("DHCPv4".toList ++ ' ' :: ("address".toList ++ ' ' :: s)) = none ∧
      exec dnsBody ("DHCPv4".toList ++ ' ' :: ("address".toList ++ ' ' :: s)) = none := by
    refine ⟨exec_lit_eq_none _ _ (by simp), exec_lit_eq_none _ _ (by simp), ?_,
      exec_lit_eq_none _ _ (by simp)⟩
    exact exec_second_eq_none "DHCPv4" "Server:" (by decide) (by simpa using by decide) (by simp)
  by_cases h0 : l.router = 0
  · have htext : (LogMsg.address l).text loc ++ ['\n'] = "DHCPv4".toList ++ ' ' ::
        ("address".toList ++ ' ' ::
          (addressText l.address ++ '/' :: (decText (prefixlenOf l.subnetMask) ++ ['\n']))) := by
      simp [LogMsg.text, LogMsg.words, LogMsg.arguments, h0]
    have hg := hget (s := ['\n']) (by simpa using by decide)
    rw [exec_viaBody_eol] at hg
    obtain ⟨h₁, h₂, h₃, h₄⟩ := hother
      (addressText l.address ++ '/' :: (decText (prefixlenOf l.subnetMask) ++ ['\n']))
    simp only [eventOfText, htext, hg, h₁, h₂, h₃, h₄, Option.map_none,
      LogMsg.event, h0, if_true]
  · have htext : (LogMsg.address l).text loc ++ ['\n'] = "DHCPv4".toList ++ ' ' ::
        ("address".toList ++ ' ' ::
          (addressText l.address ++ '/' ::
            (decText (prefixlenOf l.subnetMask) ++ ' ' ::
              ("via".toList ++ ' ' :: (addressText l.router ++ ['\n']))))) := by
      simp [LogMsg.text, LogMsg.words, LogMsg.arguments, h0]
    have hg := hget (s := ' ' :: ("via".toList ++ ' ' :: (addressText l.router ++ ['\n'])))
      (by simpa using by decide)
    rw [exec_viaBody (addressText_ne_nil _) fun _ => stampClass_of_mem_addressText] at hg
    simp only [eventOfText, htext, hg, (hother _).1, LogMsg.event, h0, if_false, Option.map_some]
    simp

theorem eventOfText_dhcpServer (loc : Locale) (a : InAddr) :
    eventOfText ((LogMsg.dhcpServer a).text loc ++ ['\n']) = (LogMsg.dhcpServer a).event := by
  have htext : (LogMsg.dhcpServer a).text loc ++ ['\n'] =
      "DHCPv4".toList ++ ' ' :: ("Server:".toList ++ ' ' :: (addressText a ++ ['\n'])) := by
    simp [LogMsg.text, LogMsg.words, LogMsg.arguments]
  have hs := exec_serverBody (addressText_ne_nil a) fun _ => stampClass_of_mem_addressText
  have hget := @exec_second_eq_none "DHCPv4" "address"
    (blanks (grp 3 (plus stampClass) ++ (lit "/" ++ (grp 4 (plus decimal) ++ viaBody))))
    ("Server:".toList ++ ' ' :: (addressText a ++ ['\n'])) (by decide) (by simpa using by decide)
    (by simp)
  rw [← getBody] at hget
  have hstart := exec_lit_eq_none "Acquiring"
    (blanks (lit "DHCPv4" ++ blanks (lit "lease" ++ blanks eol)))
    (s := "DHCPv4".toList ++ ' ' :: ("Server:".toList ++ ' ' :: (addressText a ++ ['\n'])))
      (by simp)
  have hlost := exec_lit_eq_none "Lost" (blanks (lit "carrier" ++ blanks eol))
    (s := "DHCPv4".toList ++ ' ' :: ("Server:".toList ++ ' ' :: (addressText a ++ ['\n'])))
      (by simp)
  rw [← startBody] at hstart
  rw [← lostBody] at hlost
  simp only [eventOfText, htext, hs, hget, hstart, hlost, LogMsg.event]
  simp

theorem eventOfText_dnsServer (loc : Locale) (i : Nat) (a : InAddr) :
    eventOfText ((LogMsg.dnsServer i a).text loc ++ ['\n']) = (LogMsg.dnsServer i a).event := by
  have htext : (LogMsg.dnsServer i a).text loc ++ ['\n'] =
      "DNSv4".toList ++ ' ' :: ("Server".toList ++ ' ' :: (decText i ++ ':' :: ' ' ::
        (addressText a ++ ['\n']))) := by
    simp [LogMsg.text, LogMsg.words, LogMsg.arguments]
  have hd := exec_dnsBody (decText_ne_nil i) (fun _ => decimal_of_mem_decText)
    (addressText_ne_nil a) fun _ => stampClass_of_mem_addressText
  rw [htext]
  generalize decText i ++ ':' :: ' ' :: (addressText a ++ ['\n']) = s at hd ⊢
  have hstart : exec startBody ("DNSv4".toList ++ ' ' :: ("Server".toList ++ ' ' :: s)) = none :=
    exec_lit_eq_none _ _ (by simp)
  have hget : exec getBody ("DNSv4".toList ++ ' ' :: ("Server".toList ++ ' ' :: s)) = none :=
    exec_lit_eq_none _ _ (by simp)
  have hlost : exec lostBody ("DNSv4".toList ++ ' ' :: ("Server".toList ++ ' ' :: s)) = none :=
    exec_lit_eq_none _ _ (by simp)
  have hserver : exec serverBody ("DNSv4".toList ++ ' ' :: ("Server".toList ++ ' ' :: s)) = none :=
    exec_lit_eq_none _ _ (by simp)
  simp only [eventOfText, hstart, hget, hlost, hserver, hd, LogMsg.event, Option.map_some]
  simp

/-- The text differs from the first word of every pattern. -/
def isUnknown (t : List Char) : Bool :=
  ["Acquiring".toList, "DHCPv4".toList, "Lost".toList, "DNSv4".toList].all fun w =>
    w.take t.length != t.take w.length

theorem not_prefix_of_take {w t rest : List Char} (h : w.take t.length ≠ t.take w.length) :
    ¬w <+: t ++ rest := by
  intro hp
  apply h
  calc w.take t.length = ((t ++ rest).take w.length).take t.length :=
        congrArg (List.take t.length) (List.prefix_iff_eq_take.mp hp)
    _ = ((t ++ rest).take t.length).take w.length := by
        rw [List.take_take, List.take_take, Nat.min_comm]
    _ = t.take w.length := by rw [List.take_left]

theorem eventOfText_of_isUnknown {t : List Char} (h : isUnknown t = true) (rest : List Char) :
    eventOfText (t ++ rest) = none := by
  simp only [isUnknown, List.all_cons, List.all_nil, Bool.and_true, Bool.and_eq_true,
    bne_iff_ne] at h
  obtain ⟨h₁, h₂, h₃, h₄⟩ := h
  exact eventOfText_eq_none (not_prefix_of_take h₁) (not_prefix_of_take h₂)
    (not_prefix_of_take h₃) (not_prefix_of_take h₄)

theorem Failure.isUnknown_words (f : Failure) : isUnknown f.words.toList = true := by
  cases f <;> simp only [Failure.words, isUnknown, String.reduceToList] <;> decide

theorem eventOfText_text (loc : Locale) (m : LogMsg) :
    eventOfText (m.text loc ++ ['\n']) = m.event := by
  cases m with
  | acquiringLease =>
    simp only [LogMsg.text, LogMsg.words, LogMsg.arguments, String.reduceToList]
    decide +kernel
  | lostCarrier =>
    simp only [LogMsg.text, LogMsg.words, LogMsg.arguments, String.reduceToList]
    decide +kernel
  | address l => exact eventOfText_lease loc l
  | dhcpServer a => exact eventOfText_dhcpServer loc a
  | dnsServer i a => exact eventOfText_dnsServer loc i a
  | failure f errno =>
    rw [LogMsg.text, List.append_assoc]
    exact eventOfText_of_isUnknown f.isUnknown_words _
  | _ =>
    rw [LogMsg.text, List.append_assoc]
    exact eventOfText_of_isUnknown
      (by simp only [LogMsg.words, isUnknown, String.reduceToList]; decide) _

theorem stops_of_head {p : CharClass} {t : List Char} (h : (t.head?.any fun c => !p c) = true)
    (rest : List Char) : Stops p (t ++ rest) := by
  cases t with
  | nil => simp at h
  | cons c t => simpa using h

theorem Failure.head_words (f : Failure) :
    (f.words.toList.head?.any fun c => !space c) = true := by
  cases f <;> simp only [Failure.words, String.reduceToList] <;> decide

/-- A message starts with no blank. -/
theorem LogMsg.stops_text (loc : Locale) (m : LogMsg) : Stops space (m.text loc ++ ['\n']) := by
  rw [LogMsg.text, List.append_assoc]
  refine stops_of_head ?_ _
  cases m with
  | failure f errno => exact f.head_words
  | _ => simp only [LogMsg.words, String.reduceToList]; decide

/-- A printed row is read as the event of its message. -/
theorem ofRow_text (head : LogHead) (loc : Locale) (m : LogMsg) :
    RMEvent.ofRow (head.line (m.text loc)) =
      m.event.map fun e => (head.stamp, head.nic, e) := by
  rw [ofRow_line head (m.stops_text loc), eventOfText_text]

end CarFi.Roamingd
