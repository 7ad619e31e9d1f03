import CarFi.Library.Stream
import CarFi.Library.Tlv

/-!
# Reading the options of a DHCP message

`dhcp/dhcp-option.c` reads the options of a message, and with the option that says so also the
fields for the boot file and the server name, which then hold further options. `parseOptions_eq`
tells the reader of one area from its records; a whole message is told from those of its areas.
-/
namespace CarFi.Dhcp

open Library Library.Tlv

/-! ## Messages -/

/-- A DHCP message. Numbers are in host order; `options` is what follows the fixed part. -/
structure DHCPMessage where
  op : UInt8 := 0
  htype : UInt8 := 0
  hlen : UInt8 := 0
  hops : UInt8 := 0
  xid : UInt32 := 0
  secs : UInt16 := 0
  flags : UInt16 := 0
  ciaddr : UInt32 := 0
  yiaddr : UInt32 := 0
  siaddr : UInt32 := 0
  giaddr : UInt32 := 0
  chaddr : Vector UInt8 16 := Vector.replicate 16 0
  sname : Vector UInt8 64 := Vector.replicate 64 0
  file : Vector UInt8 128 := Vector.replicate 128 0
  magic : UInt32 := 0
  options : Bytes

/-! ## Codes -/

namespace Code

def pad : UInt8 := 0
def subnetMask : UInt8 := 1
def router : UInt8 := 3
def domainNameServer : UInt8 := 6
def hostName : UInt8 := 12
def domainName : UInt8 := 15
def rootPath : UInt8 := 17
def interfaceMtu : UInt8 := 26
def broadcast : UInt8 := 28
def staticRoute : UInt8 := 33
def ntpServer : UInt8 := 42
def vendorSpecific : UInt8 := 43
def ipAddressLeaseTime : UInt8 := 51
def overload : UInt8 := 52
def messageType : UInt8 := 53
def serverIdentifier : UInt8 := 54
def errorMessage : UInt8 := 56
def renewalT1Time : UInt8 := 58
def rebindingT2Time : UInt8 := 59
def newTzdbTimezone : UInt8 := 101
def classlessStaticRoute : UInt8 := 121
def privateBase : UInt8 := 224
def privateLast : UInt8 := 254
def final : UInt8 := 255

end Code

/-- Padding and the end of an area. -/
def optionFormat : Format where
  padding := Code.pad
  final := Code.final
  ne := by decide

/-! ## Reading an area -/

inductive Errno where
  | enobufs | einval | enomsg | eaddrnotavail
  deriving DecidableEq, Repr

/-- Why a call gives no result: it returns an error, or it does not return. -/
inductive Stop where
  | errno (e : Errno)
  | hang
  deriving DecidableEq, Repr

/-- What `parse_options` writes through its arguments. -/
structure ParseState (σ : Type*) where
  overload : UInt8 := 0
  messageType : UInt8 := 0
  errorMessage : Option Bytes := none
  userdata : σ

section

variable {σ : Type*} (cb : UInt8 → Bytes → σ → Option σ)

/-- The `switch` over the code of an option. The result of the callback is ignored, but it has to
return. Only the first area may say which other fields hold options. -/
def handleOption (first : Bool) (s : ParseState σ) (option : Record) :
    Except Stop (ParseState σ) :=
  let (code, value) := option
  if code = Code.messageType then
    match value with
    | [type] => .ok { s with messageType := type }
    | _ => .error (.errno .einval)
  else if code = Code.errorMessage then
    if value = [] then .error (.errno .einval)
    -- one NUL may stand at the end
    else if 0 ∈ value.dropLast then .error (.errno .einval)
    else
      let string := value.takeWhile (· ≠ 0)
      if string.all (· < 128) then .ok { s with errorMessage := some string }
      else .error (.errno .einval)
  else if code = Code.overload then
    match value with
    | [overload] => .ok (if first then { s with overload := overload } else s)
    | _ => .error (.errno .einval)
  else
    match cb code value s.userdata with
    | some userdata => .ok { s with userdata := userdata }
    | none => .error .hang

/-- `parse_options` -/
def parseOptions (first : Bool) : Bytes → ParseState σ → Except Stop (ParseState σ)
  | [], s => .ok s
  | code :: rest, s =>
    if code = Code.pad then parseOptions first rest s
    else if code = Code.final then .ok s
    else
      match rest with
      | [] => .error (.errno .enobufs)
      | len :: rest =>
        if rest.length < len.toNat then .error (.errno .einval)
        else
          match handleOption cb first s (code, rest.take len.toNat) with
          | .ok s => parseOptions first (rest.drop len.toNat) s
          | .error e => .error e
  termination_by bytes => bytes.length
  decreasing_by
    · exact Nat.lt_succ_self _
    · rw [List.length_drop, List.length_cons, List.length_cons]
      omega

/-- What is left to do at the end of an area. -/
def finish (s : ParseState σ) : Ending → Except Stop (ParseState σ)
  | .complete => .ok s
  | .noLength => .error (.errno .enobufs)
  | .noValue => .error (.errno .einval)

/-- Reading an area handles its records one after the other. -/
theorem parseOptions_eq (first : Bool) (bytes : Bytes) (s : ParseState σ) :
    parseOptions cb first bytes s =
      ((scan optionFormat bytes).1.foldlM (handleOption cb first) s).bind
        fun s => finish s (scan optionFormat bytes).2 := by
  have hbind (s : ParseState σ) (e : Ending) :
      (([] : List Record).foldlM (handleOption cb first) s).bind (fun s => finish s e) =
        finish s e := rfl
  fun_induction parseOptions cb first bytes s with
  | case1 s => rw [scan_nil, hbind, finish]
  | case2 rest s ih => rw [ih, show Code.pad = optionFormat.padding from rfl, scan_padding]
  | case3 rest s => rw [show Code.final = optionFormat.final from rfl, scan_final, hbind, finish]
  | case4 code s hpad hfin => rw [@scan_noLength optionFormat _ hpad hfin, hbind, finish]
  | case5 code s hpad hfin len rest hlen =>
    rw [@scan_noValue optionFormat _ _ hpad hfin _ hlen, hbind, finish]
  | case6 code s hpad hfin len rest hlen s' hs' ih =>
    rw [ih, @scan_value optionFormat _ _ hpad hfin _ hlen, List.foldlM_cons, hs']
    rfl
  | case7 code s hpad hfin len rest hlen e he =>
    rw [@scan_value optionFormat _ _ hpad hfin _ hlen, List.foldlM_cons, he]
    rfl

/-- Reading an area succeeds exactly if it is one, with records that are handled without an error.
-/
theorem parseOptions_ok_iff {first : Bool} {bytes : Bytes} {s t : ParseState σ} :
    parseOptions cb first bytes s = .ok t ↔
      ∃ rs, Area optionFormat bytes rs ∧ rs.foldlM (handleOption cb first) s = .ok t := by
  rw [parseOptions_eq]
  constructor
  · intro h
    cases hfold : (scan optionFormat bytes).1.foldlM (handleOption cb first) s with
    | error e =>
      rw [hfold] at h
      cases h
    | ok s' =>
      rw [hfold] at h
      cases hend : (scan optionFormat bytes).2 with
      | complete =>
        refine ⟨_, area_of_scan bytes hend, ?_⟩
        rw [hfold, ← h, hend]
        rfl
      | noLength =>
        rw [hend] at h
        cases h
      | noValue =>
        rw [hend] at h
        cases h
  · rintro ⟨rs, harea, hfold⟩
    rw [harea.scan_eq, hfold]
    rfl

/-- Any other option is handled alike in all areas. -/
theorem handleOption_eq {r : Record} (hr : r.1 ≠ Code.overload) (first : Bool)
    (s : ParseState σ) : handleOption cb first s r = handleOption cb false s r := by
  obtain ⟨code, value⟩ := r
  have hcode : code ≠ Code.overload := hr
  simp only [handleOption, if_neg hcode]

theorem overload_of_handleOption {r : Record} (hr : r.1 ≠ Code.overload) {first : Bool}
    {s t : ParseState σ} (h : handleOption cb first s r = .ok t) : t.overload = s.overload := by
  obtain ⟨code, value⟩ := r
  have hcode : code ≠ Code.overload := hr
  simp only [handleOption, if_neg hcode] at h
  repeat' split at h
  all_goals cases h
  all_goals rfl

theorem foldlM_handleOption {rs : List Record} (hrs : ∀ r ∈ rs, r.1 ≠ Code.overload)
    (first : Bool) (s : ParseState σ) :
    rs.foldlM (handleOption cb first) s = rs.foldlM (handleOption cb false) s ∧
      ∀ t, rs.foldlM (handleOption cb first) s = .ok t → t.overload = s.overload := by
  induction rs generalizing s with
  | nil =>
    refine ⟨rfl, ?_⟩
    rintro t ⟨⟩
    rfl
  | cons r rs ih =>
    obtain ⟨hr, hrs⟩ := List.forall_mem_cons.mp hrs
    rw [List.foldlM_cons, List.foldlM_cons, handleOption_eq cb hr]
    cases hs : handleOption cb false s r with
    | error e =>
      refine ⟨rfl, ?_⟩
      rintro t ⟨⟩
    | ok s' =>
      refine ⟨(ih hrs s').1, fun t ht => ?_⟩
      exact ((ih hrs s').2 t ht).trans (overload_of_handleOption cb hr hs)

/-! ## Reading a message -/

namespace MessageType

def offer : UInt8 := 2
def request : UInt8 := 3
def decline : UInt8 := 4
def ack : UInt8 := 5
def nak : UInt8 := 6
def forcerenew : UInt8 := 9

end MessageType

/-- The field for the boot file holds options. -/
def overloadsFile (overload : UInt8) : Bool := overload &&& 1 ≠ 0

/-- The field for the server name holds options. -/
def overloadsSname (overload : UInt8) : Bool := overload &&& 2 ≠ 0

/-- What a message is read as: its type, its error message, and the data of the callback. -/
def ParseState.result (s : ParseState σ) : UInt8 × Option Bytes × σ :=
  (s.messageType,
    if s.messageType = MessageType.nak ∨ s.messageType = MessageType.decline then s.errorMessage
    else none,
    s.userdata)

/-- Reading a field that may hold options. -/
def parseField (used : Bool) (bytes : Bytes) (s : ParseState σ) : Except Stop (ParseState σ) :=
  if used then parseOptions cb false bytes s else .ok s

/-- `dhcp_option_parse` -/
def dhcpOptionParse (m : DHCPMessage) (userdata : σ) :
    Except Stop (UInt8 × Option Bytes × σ) := do
  let s ← parseOptions cb true m.options { userdata := userdata }
  let t ← parseField cb (overloadsFile s.overload) m.file.toList s
  let u ← parseField cb (overloadsSname s.overload) m.sname.toList t
  if u.messageType = 0 then .error (.errno .enomsg) else .ok u.result

/-- The records of a field that holds options only if it is said so. -/
def FieldArea (used : Bool) (bytes : Bytes) (rs : List Record) : Prop :=
  if used then Area optionFormat bytes rs else rs = []

theorem parseField_ok_iff {used : Bool} {bytes : Bytes} {s t : ParseState σ} :
    parseField cb used bytes s = .ok t ↔
      ∃ rs, FieldArea used bytes rs ∧ rs.foldlM (handleOption cb false) s = .ok t := by
  cases used with
  | true => exact parseOptions_ok_iff cb
  | false =>
    simp only [parseField, FieldArea, Bool.false_eq_true, if_false, exists_eq_left]
    rfl

/-- The records of a message, from the areas that hold options. -/
structure MessageRecords (m : DHCPMessage) (overload : UInt8) (options file sname : List Record) :
    Prop where
  options : Area optionFormat m.options options
  file : FieldArea (overloadsFile overload) m.file.toList file
  sname : FieldArea (overloadsSname overload) m.sname.toList sname

/-- A message is accepted exactly if all its areas are well formed, their options are handled
without an error, and the last type that they give is not 0. -/
theorem dhcpOptionParse_ok_iff (m : DHCPMessage) (userdata : σ) (r : UInt8 × Option Bytes × σ) :
    dhcpOptionParse cb m userdata = .ok r ↔
      ∃ options file sname s t, MessageRecords m s.overload options file sname ∧
        options.foldlM (handleOption cb true) { userdata := userdata } = .ok s ∧
        (file ++ sname).foldlM (handleOption cb false) s = .ok t ∧
        t.messageType ≠ 0 ∧ r = t.result := by
  have hfinal (u : ParseState σ) :
      (if u.messageType = 0 then .error (.errno .enomsg) else .ok u.result : Except Stop _) =
        .ok r ↔ u.messageType ≠ 0 ∧ r = u.result := by
    split_ifs with hu
    · simp [hu]
    · simp [hu, eq_comm]
  simp only [dhcpOptionParse, bind_eq_ok, parseField_ok_iff, parseOptions_ok_iff, hfinal,
    List.foldlM_append]
  constructor
  · rintro ⟨s, ⟨options, hoptions, hs⟩, t, ⟨file, hfile, ht⟩, u,
      ⟨sname, hsname, hu⟩, htype, hr⟩
    exact ⟨options, file, sname, s, u, ⟨hoptions, hfile, hsname⟩, hs,
      ⟨t, ht, hu⟩, htype, hr⟩
  · rintro ⟨options, file, sname, s, u, ⟨hoptions, hfile, hsname⟩, hs,
      ⟨t, ht, hu⟩, htype, hr⟩
    exact ⟨s, ⟨options, hoptions, hs⟩, t, ⟨file, hfile, ht⟩, u,
      ⟨sname, hsname, hu⟩, htype, hr⟩

end

end CarFi.Dhcp
