import CarFi.Dhcp.LeaseOptions
import CarFi.Library.Blocks

/-!
# Messages that are received

What the client makes of the bytes of an OFFER or an ACK. The options of a message are told from all
its areas at once (`dhcpOptionParse_lease`), so that the handlers of `sd-dhcp-client.c` can be
compared with the client that is given the content of each message.
-/
namespace CarFi.Dhcp

open Library Library.Tlv Roamingd

variable (rules : NameRules)

/-! ## The options of a message -/

/-- The areas one after the other, up to the first that does not end as it should. -/
def readAreas : List Bytes → List Record × Ending
  | [] => ([], .complete)
  | bytes :: areas =>
    match scan optionFormat bytes with
    | (rs, .complete) => (rs ++ (readAreas areas).1, (readAreas areas).2)
    | (rs, ending) => (rs, ending)

/-- The last value of an option of one byte -/
def lastByte (code : UInt8) (rs : List Record) : UInt8 :=
  rs.foldl (fun old r => if r.1 = code then r.2.headI else old) 0

/-- The areas of a message that are read -/
def areasOf (m : DHCPMessage) : List Bytes :=
  let overload := lastByte Code.overload (scan optionFormat m.options).1
  m.options :: ((if overloadsFile overload then [m.file.toList] else []) ++
    if overloadsSname overload then [m.sname.toList] else [])

/-- The last error message -/
def textOf (rs : List Record) : Option Bytes :=
  rs.foldl (fun old r => if r.1 = Code.errorMessage then some (r.2.takeWhile (· ≠ 0)) else old)
    none

instance (r : Record) : Decidable (Hangs r) := by
  unfold Hangs
  infer_instance

/-- Why the reading ends at an option -/
def rejected (r : Record) : Option Stop :=
  if r.1 = Code.messageType ∨ r.1 = Code.overload then
    if r.2.length = 1 then none else some (.errno .einval)
  else if r.1 = Code.errorMessage then
    if r.2 ≠ [] ∧ 0 ∉ r.2.dropLast ∧ (r.2.takeWhile (· ≠ 0)).all (· < 128) then none
    else some (.errno .einval)
  else if Hangs r then some .hang
  else none

/-- The state after some options -/
def stateOf (overload : UInt8) (rs : List Record) : ParseState RawLease where
  overload := overload
  messageType := lastByte Code.messageType rs
  errorMessage := textOf rs
  userdata := leaseOf rules rs

theorem lastByte_concat (code : UInt8) (rs : List Record) (r : Record) :
    lastByte code (rs ++ [r]) = if r.1 = code then r.2.headI else lastByte code rs := by
  simp [lastByte]

theorem textOf_concat (rs : List Record) (r : Record) :
    textOf (rs ++ [r]) =
      if r.1 = Code.errorMessage then some (r.2.takeWhile (· ≠ 0)) else textOf rs := by
  simp [textOf]

/-- An option that is handled on its own is not stored in the lease. -/
theorem leaseOf_concat_of_none {rs : List Record} {r : Record} (h : LeaseField.ofCode r.1 = none) :
    leaseOf rules (rs ++ [r]) = leaseOf rules rs := by
  have hstep := @dhcpLeaseParseOptions_leaseOf rules rs r (by simp [Hangs, h])
  simpa [dhcpLeaseParseOptions, h] using hstep.symm

/-- Handling an option comes to telling the state from one more. -/
theorem handleOption_stateOf (first : Bool) (overload : UInt8) (rs : List Record) (r : Record) :
    handleOption (dhcpLeaseParseOptions rules) first (stateOf rules overload rs) r =
      (rejected r).elim
        (.ok (stateOf rules (if first ∧ r.1 = Code.overload then r.2.headI else overload)
          (rs ++ [r])))
        .error := by
  have hne : Code.messageType ≠ Code.errorMessage ∧ Code.messageType ≠ Code.overload ∧
      Code.errorMessage ≠ Code.messageType ∧ Code.errorMessage ≠ Code.overload := by decide
  obtain ⟨hne₁, hne₂, hne₃, hne₄⟩ := hne
  obtain ⟨code, value⟩ := r
  simp only [handleOption, rejected, stateOf, lastByte_concat, textOf_concat]
  by_cases htype : code = Code.messageType
  · subst htype
    rw [leaseOf_concat_of_none rules rfl]
    rcases value with _ | ⟨type, _ | ⟨b, value⟩⟩ <;> simp [hne₁, hne₂]
  by_cases htext : code = Code.errorMessage
  · subst htext
    rw [leaseOf_concat_of_none rules rfl]
    simp only [hne₃, hne₄, or_self, and_false, if_false, if_true]
    by_cases hnil : value = []
    · simp [hnil]
    by_cases hzero : 0 ∈ value.dropLast
    · simp [hzero, hnil]
    · simp only [hnil, hzero, if_false, ne_eq, not_false_eq_true, true_and]
      split_ifs <;> rfl
  by_cases hover : code = Code.overload
  · subst hover
    rw [leaseOf_concat_of_none rules rfl]
    rcases value with _ | ⟨b, _ | ⟨c, value⟩⟩ <;> cases first <;> simp [htype, htext]
  simp only [htype, htext, hover, or_self, and_false, if_false]
  by_cases hhang : Hangs (code, value)
  · obtain ⟨hfield, hroutes⟩ := hhang
    have hfield : LeaseField.ofCode code = some .staticRoute := hfield
    have hroutes : leaseParseRoutes value [] = .error .hang := hroutes
    rw [if_pos ⟨hfield, hroutes⟩]
    simp only [dhcpLeaseParseOptions, hfield,
      leaseParseRoutes_append value (leaseOf rules rs).staticRoute, hroutes, Option.elim]
  · have hstep := @dhcpLeaseParseOptions_leaseOf rules rs _ hhang
    simp only [hstep, if_neg hhang, Option.elim]

/-- Reading the first area -/
theorem parseOptions_first (bytes : Bytes) :
    parseOptions (dhcpLeaseParseOptions rules) true bytes { userdata := {} } =
      ((scan optionFormat bytes).1.findSome? rejected).elim
        (finish (stateOf rules (lastByte Code.overload (scan optionFormat bytes).1)
          (scan optionFormat bytes).1) (scan optionFormat bytes).2) .error := by
  have hfold := @foldlM_eq_findSome _ _ _ (handleOption (dhcpLeaseParseOptions rules) true) rejected
    (fun rs => stateOf rules (lastByte Code.overload rs) rs)
    (fun rs r => by simp [handleOption_stateOf, lastByte_concat]) [] (scan optionFormat bytes).1
  rw [parseOptions_eq]
  have hstart : ({ userdata := {} } : ParseState RawLease) =
      stateOf rules (lastByte Code.overload []) [] :=
    rfl
  rw [hstart, hfold]
  cases (scan optionFormat bytes).1.findSome? rejected <;> rfl

/-- Reading further areas -/
theorem foldlM_parseOptions (overload : UInt8) (rs : List Record) (areas : List Bytes) :
    areas.foldlM (fun s bytes => parseOptions (dhcpLeaseParseOptions rules) false bytes s)
        (stateOf rules overload rs) =
      ((readAreas areas).1.findSome? rejected).elim
        (finish (stateOf rules overload (rs ++ (readAreas areas).1)) (readAreas areas).2)
          .error := by
  induction areas generalizing rs with
  | nil => simp [readAreas, finish, pure, Except.pure]
  | cons bytes areas ih =>
    have hfold := @foldlM_eq_findSome _ _ _
      (handleOption (dhcpLeaseParseOptions rules) false)
        rejected (fun rs => stateOf rules overload rs)
          (fun rs r => by simp [handleOption_stateOf]) rs
      (scan optionFormat bytes).1
    rw [List.foldlM_cons, parseOptions_eq, hfold]
    rcases hscan : scan optionFormat bytes with ⟨rs', ending⟩
    cases hfind : rs'.findSome? rejected with
    | some e => cases ending <;> simp [readAreas, hscan, hfind, bind, Except.bind]
    | none => cases ending <;> simp [readAreas, hscan, hfind, bind, Except.bind, finish, ih]

theorem parseField_eq (used : Bool) (bytes : Bytes) (s : ParseState RawLease) :
    parseField (dhcpLeaseParseOptions rules) used bytes s =
      (if used then [bytes] else []).foldlM
        (fun s bytes => parseOptions (dhcpLeaseParseOptions rules) false bytes s) s := by
  cases used
  · rfl
  · simp [parseField]

/-- What a message is read as, told from the options of all its areas: the first one that is
rejected ends the reading, and otherwise the end of the last area decides. -/
theorem dhcpOptionParse_lease (m : DHCPMessage) :
    dhcpOptionParse (dhcpLeaseParseOptions rules) m {} =
      ((readAreas (areasOf m)).1.findSome? rejected).elim
        ((finish (stateOf rules (lastByte Code.overload (scan optionFormat m.options).1)
          (readAreas (areasOf m)).1) (readAreas (areasOf m)).2).bind fun t =>
            if t.messageType = 0 then .error (.errno .enomsg) else .ok t.result) .error := by
  -- the two other fields are read as the areas after the first
  have hfields : dhcpOptionParse (dhcpLeaseParseOptions rules) m {} =
      parseOptions (dhcpLeaseParseOptions rules) true m.options { userdata := {} } >>= fun s =>
        (((if overloadsFile s.overload then [m.file.toList] else []) ++
          if overloadsSname s.overload then [m.sname.toList] else []).foldlM
            (fun s bytes => parseOptions (dhcpLeaseParseOptions rules) false bytes s) s) >>=
          fun t => if t.messageType = 0 then .error (.errno .enomsg) else .ok t.result := by
    simp only [dhcpOptionParse, parseField_eq, List.foldlM_append, bind_assoc]
  rw [hfields, parseOptions_first, areasOf, readAreas]
  rcases hscan : scan optionFormat m.options with ⟨rs, ending⟩
  cases hfind : rs.findSome? rejected with
  | some e => cases ending <;> simp [hfind, bind, Except.bind]
  | none =>
    cases ending with
    | complete =>
      have hrest := foldlM_parseOptions rules (lastByte Code.overload rs) rs
        ((if overloadsFile (lastByte Code.overload rs) then [m.file.toList] else []) ++
          if overloadsSname (lastByte Code.overload rs) then [m.sname.toList] else [])
      simp only [hfind, Option.elim_none, List.findSome?_append, Option.none_or]
      have hok {β : Type} (s : ParseState RawLease) (g : ParseState RawLease → Except Stop β) :
          (finish s .complete >>= g) = g s := rfl
      rw [hok]
      refine (congrArg (Except.bind · _) hrest).trans ?_
      cases (readAreas _).1.findSome? rejected <;> rfl
    | noLength => simp [hfind, bind, Except.bind, finish]
    | noValue => simp [hfind, bind, Except.bind, finish]

/-! ## The handlers of the client -/

/-- `dhcp_lease_set_default_subnet_mask` -/
def dhcpLeaseSetDefaultSubnetMask (lease : RawLease) : Option RawLease :=
  if lease.address = 0 then none
  else (defaultSubnetMask lease.address).map fun mask =>
    { lease with subnetMask := mask, haveSubnetMask := true }

/-- The checks of `client_handle_offer` -/
def checkOffer (lease : RawLease) : Except Stop RawLease :=
  if lease.address = 0 ∨ lease.serverAddress = 0 ∨
    lease.lifetime = 0 then .error (.errno .enomsg)
  else if lease.haveSubnetMask then .ok lease
  else
    match dhcpLeaseSetDefaultSubnetMask lease with
    | some lease => .ok lease
    | none => .error (.errno .enomsg)

/-- The checks of `client_handle_ack`. Here the mask itself is looked at, and not whether there was
one. -/
def checkAck (lease : RawLease) : Except Stop RawLease :=
  if lease.address = 0 ∨ lease.serverAddress = 0 ∨
    lease.lifetime = 0 then .error (.errno .enomsg)
  else if lease.subnetMask ≠ 0 then .ok lease
  else
    match dhcpLeaseSetDefaultSubnetMask lease with
    | some lease => .ok lease
    | none => .error (.errno .enomsg)

/-- `client_handle_offer`, up to the lease that it stores in the client -/
def clientHandleOffer (offer : DHCPMessage) : Except Stop RawLease :=
  match dhcpOptionParse (dhcpLeaseParseOptions rules) offer {} with
  | .error .hang => .error .hang
  | .error (.errno _) => .error (.errno .enomsg)
  | .ok (type, _, lease) =>
    if type ≠ MessageType.offer then .error (.errno .enomsg)
    else checkOffer { lease with nextServer := offer.siaddr, address := offer.yiaddr }

/-- `client_handle_ack`, up to the lease that it stores in the client -/
def clientHandleAck (ack : DHCPMessage) : Except Stop RawLease :=
  match dhcpOptionParse (dhcpLeaseParseOptions rules) ack {} with
  | .error .hang => .error .hang
  | .error (.errno _) => .error (.errno .enomsg)
  | .ok (type, _, lease) =>
    if type = MessageType.nak then .error (.errno .eaddrnotavail)
    else if type ≠ MessageType.ack then .error (.errno .enomsg)
    else checkAck { lease with nextServer := ack.siaddr, address := ack.yiaddr }

/-! ## What a message says -/

/-- What the client makes of a lease -/
def RawLease.options (lease : RawLease) : Options where
  address := lease.address
  subnetMask := if lease.haveSubnetMask then some lease.subnetMask else none
  router := lease.router
  serverAddress := lease.serverAddress
  dns := lease.dns
  staticRoutes := lease.staticRoute
  lifetime := lease.lifetime
  t1 := lease.t1
  t2 := lease.t2

/-- The lease as the client keeps it, if it has passed the checks -/
def RawLease.toLease (lease : RawLease) : Option Lease := lease.options.check lease.subnetMask

/-- The options of a message, as far as they go into a lease -/
def offeredOptions (m : DHCPMessage) : Options :=
  { leaseOf rules (readAreas (areasOf m)).1 with address := m.yiaddr }.options

/-- What a message says, told from its bytes. A message that cannot be read is ignored as any other
is, and with an option that is never read to its end there is no saying. -/
def bodyOf (m : DHCPMessage) : Except Stop Body :=
  match (readAreas (areasOf m)).1.findSome? rejected, (readAreas (areasOf m)).2 with
  | some .hang, _ => .error .hang
  | some (.errno _), _ => .ok .other
  | none, .complete =>
    let type := lastByte Code.messageType (readAreas (areasOf m)).1
    if type = MessageType.offer then .ok (.offer (offeredOptions rules m))
    else if type = MessageType.ack then .ok (.ack (offeredOptions rules m))
    else if type = MessageType.nak then .ok .nak
    else if type = MessageType.forcerenew then .ok .forcerenew
    else .ok .other
  | none, _ => .ok .other

/-- A handler that needs a lease -/
def needed (lease : Option Lease) : Except Stop (Option Lease) :=
  match lease with
  | some lease => .ok (some lease)
  | none => .error (.errno .enomsg)

/-- A message is not read to its end, or it is ignored, or its type and its lease are those told. -/
theorem parse_cases (m : DHCPMessage) :
    (bodyOf rules m = .error .hang ∧
        dhcpOptionParse (dhcpLeaseParseOptions rules) m {} = .error .hang) ∨
      (bodyOf rules m = .ok .other ∧
        ∃ e, dhcpOptionParse (dhcpLeaseParseOptions rules) m {} = .error (.errno e)) ∨
      ∃ text, dhcpOptionParse (dhcpLeaseParseOptions rules) m {} =
          .ok (lastByte Code.messageType (readAreas (areasOf m)).1, text,
            leaseOf rules (readAreas (areasOf m)).1) ∧
        (readAreas (areasOf m)).1.findSome? rejected = none ∧
        (readAreas (areasOf m)).2 = .complete := by
  have hparse := dhcpOptionParse_lease rules m
  rw [bodyOf]
  rcases hfind : (readAreas (areasOf m)).1.findSome? rejected with _ | (e | _)
  · rw [hfind, Option.elim_none] at hparse
    cases hend : (readAreas (areasOf m)).2 with
    | noLength => exact .inr (.inl ⟨rfl, .enobufs, by rw [hparse, hend]; rfl⟩)
    | noValue => exact .inr (.inl ⟨rfl, .einval, by rw [hparse, hend]; rfl⟩)
    | complete =>
      rw [hend] at hparse
      by_cases htype : lastByte Code.messageType (readAreas (areasOf m)).1 = 0
      · refine .inr (.inl ⟨by simp [htype, MessageType.offer, MessageType.ack, MessageType.nak,
          MessageType.forcerenew], .enomsg, ?_⟩)
        rw [hparse]
        exact if_pos htype
      · exact .inr (.inr ⟨_, hparse.trans (if_neg htype), rfl, rfl⟩)
  · exact .inr (.inl ⟨rfl, e, by rw [hparse, hfind]; rfl⟩)
  · exact .inl ⟨rfl, by rw [hparse, hfind]; rfl⟩

theorem check_eq_none {o : Options} {mask : InAddr}
    (h : o.address = 0 ∨ o.serverAddress = 0 ∨ o.lifetime = 0) : o.check mask = none := by
  rw [Options.check, dif_neg]
  rintro ⟨h₁, h₂, h₃⟩
  rcases h with h | h | h <;> contradiction

theorem check_isSome {o : Options} (mask : InAddr)
    (h : ¬(o.address = 0 ∨ o.serverAddress = 0 ∨ o.lifetime = 0)) :
    ∃ lease, o.check mask = some lease :=
  ⟨_, dif_pos (by simpa [not_or] using h)⟩

/-- A mask by class is filled in as it is for the content of a message. -/
theorem setDefault_refine {lease : RawLease}
    (h : ¬(lease.address = 0 ∨ lease.serverAddress = 0 ∨ lease.lifetime = 0)) :
    (match dhcpLeaseSetDefaultSubnetMask lease with
      | some lease => .ok lease
      | none => .error (.errno .enomsg) : Except Stop RawLease).map RawLease.toLease =
      needed ((defaultSubnetMask lease.address).bind lease.options.check) := by
  have haddr : lease.address ≠ 0 := fun h' => h (.inl h')
  rw [dhcpLeaseSetDefaultSubnetMask, if_neg haddr]
  cases hmask : defaultSubnetMask lease.address with
  | none => rfl
  | some mask =>
    obtain ⟨l, hl⟩ := check_isSome mask (o := lease.options) h
    have htoLease : RawLease.toLease { lease with subnetMask := mask, haveSubnetMask := true } =
        some l := hl
    simp only [Option.map_some, Option.bind_some, hl, Except.map, htoLease, needed]

theorem checkOffer_refine (lease : RawLease) :
    (checkOffer lease).map RawLease.toLease = needed lease.options.offered := by
  rw [checkOffer]
  split_ifs with hlacks hmask
  · have hnone (mask : InAddr) : lease.options.check mask = none := check_eq_none hlacks
    cases hm : lease.options.subnetMask <;> simp [Options.offered, hm, hnone, needed, Except.map]
  · obtain ⟨l, hl⟩ := check_isSome lease.subnetMask (o := lease.options) hlacks
    have hm : lease.options.subnetMask = some lease.subnetMask := if_pos hmask
    simp [Options.offered, hm, hl, needed, Except.map, RawLease.toLease]
  · have hm : lease.options.subnetMask = none := if_neg hmask
    rw [setDefault_refine hlacks, Options.offered, hm]
    rfl

/-- Without a valid mask there is none in the lease. -/
theorem subnetMask_leaseOf {rs : List Record} (h : (leaseOf rules rs).haveSubnetMask = false) :
    (leaseOf rules rs).subnetMask = 0 := by
  have hnone : ∀ v ∈ valuesOf .subnetMask rs, (leaseParseBe32 v).toOption = none := by
    intro v hv
    have := List.any_eq_false.mp h v hv
    cases hp : leaseParseBe32 v with
    | error e => rfl
    | ok a => simp [hp, Except.isOk, Except.toBool] at this
  show lastValid leaseParseBe32 0 (valuesOf .subnetMask rs) = 0
  generalize valuesOf .subnetMask rs = values at hnone
  induction values using List.reverseRecOn with
  | nil => rfl
  | append_singleton values v ih =>
    rw [lastValid_concat, hnone v (by simp), Option.getD_none,
      ih fun w hw => hnone w (by simp [hw])]

theorem checkAck_refine {lease : RawLease}
    (h : lease.haveSubnetMask = false → lease.subnetMask = 0) :
    (checkAck lease).map RawLease.toLease = needed lease.options.acknowledged := by
  rw [checkAck]
  split_ifs with hlacks hmask
  · have hnone (mask : InAddr) : lease.options.check mask = none := check_eq_none hlacks
    cases hm : lease.options.subnetMask <;>
      simp [Options.acknowledged, hm, hnone, needed, Except.map]
  · obtain ⟨l, hl⟩ := check_isSome lease.subnetMask (o := lease.options) hlacks
    have hhave : lease.haveSubnetMask = true := by
      by_contra hno
      exact hmask (h (Bool.eq_false_iff.mpr hno))
    have hm : lease.options.subnetMask = some lease.subnetMask := if_pos hhave
    simp [Options.acknowledged, hm, hl, hmask, needed, Except.map, RawLease.toLease]
  · have hzero : lease.subnetMask = 0 := not_not.mp hmask
    rw [setDefault_refine hlacks, Options.acknowledged]
    cases hhave : lease.haveSubnetMask with
    | true =>
      have hm : lease.options.subnetMask = some 0 := by simp [RawLease.options, hhave, hzero]
      rw [hm]
      rfl
    | false =>
      have hm : lease.options.subnetMask = none := by simp [RawLease.options, hhave]
      rw [hm]
      rfl

theorem ofCode_eq_staticRoute {code : UInt8} :
    LeaseField.ofCode code = some .staticRoute ↔ code = Code.staticRoute := by
  have hall : ∀ n < 256,
      LeaseField.ofCode (UInt8.ofNat n) = some .staticRoute ↔
      UInt8.ofNat n = Code.staticRoute := by
    decide +kernel
  simpa using hall code.toNat code.toNat_lt

/-- An option of static routes is read for ever if a destination has no class. -/
theorem hangs_iff (r : Record) :
    Hangs r ↔ r.1 = Code.staticRoute ∧ r.2.length % 8 = 0 ∧
      ∃ entry ∈ entries r.2, classRoute entry = none := by
  rw [Hangs, ofCode_eq_staticRoute, ← mapM_eq_none_iff]
  refine and_congr_right' ?_
  simp only [leaseParseRoutes, routeLoop_eq]
  by_cases hnil : r.2 = []
  · simp [hnil, entries]
  by_cases hlen : r.2.length % 8 = 0
  · simp only [hnil, hlen, if_false, ne_eq, not_true_eq_false, true_and]
    cases (entries r.2).mapM classRoute <;> simp
  · simp [hnil, hlen]

theorem rejected_eq_hang_iff {r : Record} : rejected r = some .hang ↔ Hangs r := by
  constructor
  · intro h
    rw [rejected] at h
    split_ifs at h with h₁ h₂ h₃ h₄ h₅
    all_goals first | assumption | cases h
  · intro h
    have hcode := ofCode_eq_staticRoute.mp h.1
    have hne : Code.staticRoute ≠ Code.messageType ∧ Code.staticRoute ≠ Code.overload ∧
        Code.staticRoute ≠ Code.errorMessage := by decide
    rw [← hcode] at hne
    simp [rejected, hne, h]

theorem checks_ne_hang (lease : RawLease) :
    checkOffer lease ≠ .error .hang ∧ checkAck lease ≠ .error .hang := by
  simp only [checkOffer, checkAck]
  cases dhcpLeaseSetDefaultSubnetMask lease <;> split_ifs <;> simp

/-- Both handlers hang exactly if the reading does. -/
theorem handlers_hang (m : DHCPMessage) :
    (clientHandleOffer rules m = .error .hang ↔
      dhcpOptionParse (dhcpLeaseParseOptions rules) m {} = .error .hang) ∧
    (clientHandleAck rules m = .error .hang ↔
      dhcpOptionParse (dhcpLeaseParseOptions rules) m {} = .error .hang) := by
  rw [clientHandleOffer, clientHandleAck]
  rcases dhcpOptionParse (dhcpLeaseParseOptions rules) m {} with (e | _) | ⟨type, text, lease⟩
  · simp
  · simp
  · obtain ⟨hoffer, -⟩ :=
      checks_ne_hang { lease with nextServer := m.siaddr, address := m.yiaddr }
    obtain ⟨-, hack⟩ :=
      checks_ne_hang { lease with nextServer := m.siaddr, address := m.yiaddr }
    dsimp only
    split_ifs <;> simp [hoffer, hack]

end CarFi.Dhcp
