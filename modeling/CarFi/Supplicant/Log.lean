import CarFi.Analyzer.WpaParser

/-!
# What wpa_supplicant prints

The rows the analyser reads, as wpa_supplicant prints them: the change of state in
`wpa_supplicant_set_state`, and the selected BSS at the end of `wpa_supplicant_select_bss`,
which is printed with its level, a separator and the selection. Every other row is any row
that is neither.
-/
namespace CarFi.Supplicant

open Library Library.Regex Library.PyText Library.Printf Analyzer

inductive WpaStates where
  | disconnected | interfaceDisabled | inactive | scanning | authenticating | associating
  | associated | fourWayHandshake | groupHandshake | completed
  deriving DecidableEq, Repr

/-- `wpa_supplicant_state_txt` -/
def stateTxt : WpaStates → List Char
  | .disconnected => "DISCONNECTED".toList
  | .inactive => "INACTIVE".toList
  | .interfaceDisabled => "INTERFACE_DISABLED".toList
  | .scanning => "SCANNING".toList
  | .authenticating => "AUTHENTICATING".toList
  | .associating => "ASSOCIATING".toList
  | .associated => "ASSOCIATED".toList
  | .fourWayHandshake => "4WAY_HANDSHAKE".toList
  | .groupHandshake => "GROUP_HANDSHAKE".toList
  | .completed => "COMPLETED".toList

/-- The name of an interface, of the characters the analyser expects in one. -/
structure IfName where
  text : Intf
  ne_nil : text ≠ []
  nic_class : ∀ c ∈ text, nicClass c = true

structure OsTime where
  sec : Nat
  usec : Nat

/-- The timestamp printed before a message: `%ld.%06u`. -/
def OsTime.text (t : OsTime) : List Char := decText t.sec ++ '.' :: zeroPad 6 (decText t.usec)

theorem ascii09_of_mem_zeroPad {width n : Nat} {c : Char} (h : c ∈ zeroPad width (decText n)) :
    ascii09 c = true :=
  forall_mem_zeroPad (by decide) (fun _ hc => ascii09_of_mem_decText hc) c h

/-- The head of a message, printed by `wpa_msg`. -/
def msgHead (ifname : IfName) (t : OsTime) : LogHead where
  stamp := t.text
  nic := ifname.text
  stamp_ne := by simp [OsTime.text]
  stamp_class := by
    intro c hc
    rcases List.mem_append.mp hc with hc | hc
    · simp [stampClass, ascii09_of_mem_decText hc]
    · rcases List.mem_cons.mp hc with rfl | hc
      · decide
      · simp [stampClass, ascii09_of_mem_zeroPad hc]
  nic_ne := ifname.ne_nil
  nic_class := ifname.nic_class

/-! ## Texts -/

/-- One byte of `printf_encode`. -/
def encodeByte (b : Fin 256) : List Char :=
  if b.val = 34 then ['\\', '"']
  else if b.val = 92 then ['\\', '\\']
  else if b.val = 27 then ['\\', 'e']
  else if b.val = 10 then ['\\', 'n']
  else if b.val = 13 then ['\\', 'r']
  else if b.val = 9 then ['\\', 't']
  else if 32 ≤ b.val ∧ b.val ≤ 127 then [Char.ofNat b.val]
  else '\\' :: 'x' :: zeroPad 2 (hexText b.val)

/-- `printf_encode`, with `used` characters of the buffer written so far. -/
def printfEncode (maxlen : Nat) : Nat → List (Fin 256) → List Char
  | _, [] => []
  | used, b :: data =>
    if used + 4 ≥ maxlen then []
    else encodeByte b ++ printfEncode maxlen (used + (encodeByte b).length) data

/-- `wpa_ssid_txt`, with its buffer of `SSID_MAX_LEN * 4 + 1` characters. -/
def ssidTxt (ssid : List (Fin 256)) : List Char := printfEncode 129 0 ssid

/-- The fields of `struct wpa_bss` that are printed, with the information elements as the
lengths and flags that are printed of them. -/
structure Bss where
  bssid : Fin 6 → Fin 256
  ssid : List (Fin 256)
  wpaIeLen : Nat
  rsnIeLen : Nat
  caps : Nat
  level : Int
  freq : Int
  extSuppRates : Bool
  htCap : Bool
  vhtCap : Bool
  wps : Bool
  p2p : Bool
  osen : Bool

/-- `MACSTR` -/
def macText (addr : Fin 6 → Fin 256) : List Char :=
  let byte i := zeroPad 2 (hexText (addr i).val)
  byte 0 ++ ':' :: byte 1 ++ ':' :: byte 2 ++ ':' :: byte 3 ++ ':' :: byte 4 ++ ':' :: byte 5

def yesNo (b : Bool) : List Char := if b then "yes".toList else "no".toList

/-- The message with the level, up to the level. -/
def levelMsgStart (index : Nat) (bss : Bss) : List Char :=
  decText index ++ ": ".toList ++ macText bss.bssid ++ " ssid='".toList ++ ssidTxt bss.ssid ++
  "' wpa_ie_len=".toList ++ decText bss.wpaIeLen ++ " rsn_ie_len=".toList ++
  decText bss.rsnIeLen ++ " caps=0x".toList ++ hexText bss.caps ++ " ".toList

/-- The message with the level, after the level. -/
def levelMsgEnd (bss : Bss) : List Char :=
  " freq=".toList ++ intText bss.freq ++ " 11g=".toList ++ yesNo bss.extSuppRates ++
  " 11n=".toList ++ yesNo bss.htCap ++ " 11ac=".toList ++ yesNo bss.vhtCap ++ " ".toList ++
  (if bss.wps then " wps".toList else []) ++ (if bss.p2p then " p2p".toList else []) ++
  (if bss.osen then " osen=1".toList else [])

def levelMsg (index : Nat) (bss : Bss) : List Char :=
  levelMsgStart index bss ++ "level=".toList ++ intText bss.level ++ levelMsgEnd bss

def separatorMsg : List Char := "   *************".toList

def selectedMsg (bss : Bss) : List Char :=
  "   selected BSS ".toList ++ macText bss.bssid ++ " ssid='".toList ++ ssidTxt bss.ssid ++ ['\'']

def stateMsg (old new : WpaStates) : List Char :=
  "State: ".toList ++ stateTxt old ++ " -> ".toList ++ stateTxt new

/-! ## Runs -/

/-- What a run does that can be seen in its log. -/
inductive Print where
  /-- A call of `wpa_supplicant_set_state`. -/
  | setState (t : OsTime) (state : WpaStates)
  /-- The end of `wpa_supplicant_select_bss` when it found a BSS. -/
  | selectBss (t t' t'' : OsTime) (index : Nat) (bss : Bss)
  /-- A row that reports no change of state and no selection. -/
  | other (row : Row) (hstate : exec stateRe row = none) (hbss : exec bssRe row = none)

structure WpaSupplicant where
  ifname : IfName
  wpaState : WpaStates := .disconnected

def WpaSupplicant.rows (s : WpaSupplicant) : Print → List Row
  | .setState t state => [(msgHead s.ifname t).line (stateMsg s.wpaState state)]
  | .selectBss t t' t'' index bss =>
    [(msgHead s.ifname t).line (levelMsg index bss), (msgHead s.ifname t').line separatorMsg,
     (msgHead s.ifname t'').line (selectedMsg bss)]
  | .other row _ _ => [row]

def WpaSupplicant.next (s : WpaSupplicant) : Print → WpaSupplicant
  | .setState _ state => { s with wpaState := state }
  | _ => s

/-- The log of a run. -/
def WpaSupplicant.log (s : WpaSupplicant) : List Print → List Row
  | [] => []
  | p :: ps => s.rows p ++ (s.next p).log ps

end CarFi.Supplicant
