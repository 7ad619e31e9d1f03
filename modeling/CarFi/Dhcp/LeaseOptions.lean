import CarFi.Dhcp.Routes
import CarFi.Library.LinkedList

/-!
# The lease of a message

`dhcp_lease_parse_options` stores one option after the other in a lease and ignores those that are
not valid. Over a whole message that comes to a lease each field of which is told from the options
of its own code (`dhcpLeaseParseOptions_leaseOf`). Options of the private range are kept in a list
that is sorted by their codes, and an option that belongs before the first of them gets lost.
-/
namespace CarFi.Dhcp

open Library Library.Tlv Roamingd

/-! ## Values -/

/-- `lease_parse_u32` -/
def leaseParseU32 (option : Bytes) (min : UInt32) : Except Errno UInt32 :=
  if option.length ≠ 4 then .error .einval
  else
    let ret := UInt32.ofNat (beNat option)
    .ok (if ret < min then min else ret)

/-- `lease_parse_u16` -/
def leaseParseU16 (option : Bytes) (min : UInt16) : Except Errno UInt16 :=
  if option.length ≠ 2 then .error .einval
  else
    let ret := UInt16.ofNat (beNat option)
    .ok (if ret < min then min else ret)

/-- `lease_parse_be32` -/
def leaseParseBe32 (option : Bytes) : Except Errno InAddr :=
  if option.length ≠ 4 then .error .einval else .ok (addrOf option)

/-- `lease_parse_string`. One NUL may stand at the end. -/
def leaseParseString (option : Bytes) : Except Errno (Option Bytes) :=
  if option = [] then .ok none
  else if 0 ∈ option.dropLast then .error .einval
  else .ok (some (option.takeWhile (· ≠ 0)))

/-- `dns_name_normalize`, `is_localhost`, `dns_name_is_root` and `timezone_is_valid` -/
structure NameRules where
  normalize : Bytes → Option Bytes
  isLocalhost : Bytes → Bool
  isRoot : Bytes → Bool
  timezoneIsValid : Bytes → Bool

variable (rules : NameRules)

/-- `lease_parse_domain` -/
def leaseParseDomain (option : Bytes) : Except Errno (Option Bytes) :=
  match leaseParseString option with
  | .error e => .error e
  | .ok none => .ok none
  | .ok (some name) =>
    match rules.normalize name with
    | none => .error .einval
    | some normalized =>
      if rules.isLocalhost normalized then .error .einval
      else if rules.isRoot normalized then .error .einval
      else .ok (some normalized)

/-- The addresses that stand one after the other -/
def addrs : Bytes → List InAddr
  | a :: b :: c :: d :: rest => addrOf [a, b, c, d] :: addrs rest
  | _ => []

/-- `lease_parse_in_addrs` -/
def leaseParseInAddrs (option : Bytes) : Except Errno (List InAddr) :=
  if option = [] then .ok []
  else if option.length % 4 ≠ 0 then .error .einval
  else .ok (addrs option)

/-- The part for the router, of which only the first is taken. -/
def leaseParseRouter (option : Bytes) : Except Errno InAddr :=
  if 4 ≤ option.length then leaseParseBe32 (option.take 4) else .error .einval

/-- The part for the timezone. No name is not a valid one. -/
def leaseParseTimezone (option : Bytes) : Except Errno (Option Bytes) :=
  match leaseParseString option with
  | .error e => .error e
  | .ok tz => if tz.any rules.timezoneIsValid then .ok tz else .error .einval

/-! ## Leases -/

/-- A lease as it is filled from a message, with `0` for what is not set. -/
structure RawLease where
  t1 : UInt32 := 0
  t2 : UInt32 := 0
  lifetime : UInt32 := 0
  address : InAddr := 0
  serverAddress : InAddr := 0
  router : InAddr := 0
  nextServer : InAddr := 0
  haveSubnetMask : Bool := false
  subnetMask : InAddr := 0
  haveBroadcast : Bool := false
  broadcast : InAddr := 0
  dns : List InAddr := []
  ntp : List InAddr := []
  staticRoute : List StaticRoute := []
  mtu : UInt16 := 0
  domainname : Option Bytes := none
  hostname : Option Bytes := none
  rootPath : Option Bytes := none
  vendorSpecific : Bytes := []
  timezone : Option Bytes := none
  privateOptions : Linked Record := {}

/-- `dhcp_lease_insert_private_option` -/
def dhcpLeaseInsertPrivateOption (lease : RawLease) (option : Record) : RawLease :=
  { lease with privateOptions := lease.privateOptions.insertByKey (fun r => r.1.toNat) option }

/-- A value is stored if it is valid. -/
def stored {α : Type*} (lease : RawLease) (value : Except Errno α) (store : α → RawLease) :
    RawLease :=
  match value with
  | .ok value => store value
  | .error _ => lease

/-- The parts of a lease that options are stored in -/
inductive LeaseField where
  | lifetime | serverAddress | subnetMask | broadcast | router | dns | ntp | staticRoute | mtu
  | domainname | hostname | rootPath | t1 | t2 | classlessStaticRoute | timezone | vendorSpecific
  | privateOption
  deriving DecidableEq, Repr

/-- The `case`s of `dhcp_lease_parse_options` -/
def LeaseField.ofCode (code : UInt8) : Option LeaseField :=
  if code = Code.ipAddressLeaseTime then some .lifetime
  else if code = Code.serverIdentifier then some .serverAddress
  else if code = Code.subnetMask then some .subnetMask
  else if code = Code.broadcast then some .broadcast
  else if code = Code.router then some .router
  else if code = Code.domainNameServer then some .dns
  else if code = Code.ntpServer then some .ntp
  else if code = Code.staticRoute then some .staticRoute
  else if code = Code.interfaceMtu then some .mtu
  else if code = Code.domainName then some .domainname
  else if code = Code.hostName then some .hostname
  else if code = Code.rootPath then some .rootPath
  else if code = Code.renewalT1Time then some .t1
  else if code = Code.rebindingT2Time then some .t2
  else if code = Code.classlessStaticRoute then some .classlessStaticRoute
  else if code = Code.newTzdbTimezone then some .timezone
  else if code = Code.vendorSpecific then some .vendorSpecific
  else if Code.privateBase ≤ code ∧ code ≤ Code.privateLast then some .privateOption
  else none

/-- `dhcp_lease_parse_options`; `none` if it does not return. -/
def dhcpLeaseParseOptions (code : UInt8) (option : Bytes) (lease : RawLease) : Option RawLease :=
  match LeaseField.ofCode code with
  | none => some lease
  | some .lifetime =>
    some (stored lease (leaseParseU32 option 1) fun v => { lease with lifetime := v })
  | some .serverAddress =>
    some (stored lease (leaseParseBe32 option) fun v => { lease with serverAddress := v })
  | some .subnetMask =>
    some (stored lease (leaseParseBe32 option) fun v =>
      { lease with subnetMask := v, haveSubnetMask := true })
  | some .broadcast =>
    some (stored lease (leaseParseBe32 option) fun v =>
      { lease with broadcast := v, haveBroadcast := true })
  | some .router =>
    some (stored lease (leaseParseRouter option) fun v => { lease with router := v })
  | some .dns => some (stored lease (leaseParseInAddrs option) fun v => { lease with dns := v })
  | some .ntp => some (stored lease (leaseParseInAddrs option) fun v => { lease with ntp := v })
  | some .staticRoute =>
    match leaseParseRoutes option lease.staticRoute with
    | .ok routes => some { lease with staticRoute := routes }
    | .error (.errno _) => some lease
    | .error .hang => none
  | some .mtu => some (stored lease (leaseParseU16 option 68) fun v => { lease with mtu := v })
  | some .domainname =>
    some (stored lease (leaseParseDomain rules option) fun v => { lease with domainname := v })
  | some .hostname =>
    some (stored lease (leaseParseDomain rules option) fun v => { lease with hostname := v })
  | some .rootPath =>
    some (stored lease (leaseParseString option) fun v => { lease with rootPath := v })
  | some .t1 => some (stored lease (leaseParseU32 option 1) fun v => { lease with t1 := v })
  | some .t2 => some (stored lease (leaseParseU32 option 1) fun v => { lease with t2 := v })
  | some .classlessStaticRoute =>
    some { lease with staticRoute := (leaseParseClasslessRoutes option lease.staticRoute).1 }
  | some .timezone =>
    some (stored lease (leaseParseTimezone rules option) fun v => { lease with timezone := v })
  | some .vendorSpecific => some { lease with vendorSpecific := option }
  | some .privateOption => some (dhcpLeaseInsertPrivateOption lease (code, option))

/-! ## All options of a message -/

/-- The values of the options that are stored in a field, in their order -/
def valuesOf (field : LeaseField) (rs : List Record) : List Bytes :=
  rs.filterMap fun r => if LeaseField.ofCode r.1 = some field then some r.2 else none

/-- The last valid one of some values -/
def lastValid {α : Type*} (parse : Bytes → Except Errno α) (unset : α)
    (values : List Bytes) : α :=
  values.foldl (fun old value => (parse value).toOption.getD old) unset

/-- The routes of an option -/
def routesOf (r : Record) : List StaticRoute :=
  match LeaseField.ofCode r.1 with
  | some .staticRoute => (leaseParseRoutes r.2 []).toOption.getD []
  | some .classlessStaticRoute => (leaseParseClasslessRoutes r.2 []).1
  | _ => []

/-- The options that are kept as they are -/
def privateOptions (rs : List Record) : List Record :=
  rs.filter fun r => LeaseField.ofCode r.1 = some .privateOption

/-- The lease that a message gives, told from its options: the last valid value of each code, and
the routes of all. -/
def leaseOf (rs : List Record) : RawLease where
  t1 := lastValid (leaseParseU32 · 1) 0 (valuesOf .t1 rs)
  t2 := lastValid (leaseParseU32 · 1) 0 (valuesOf .t2 rs)
  lifetime := lastValid (leaseParseU32 · 1) 0 (valuesOf .lifetime rs)
  serverAddress := lastValid leaseParseBe32 0 (valuesOf .serverAddress rs)
  router := lastValid leaseParseRouter 0 (valuesOf .router rs)
  haveSubnetMask := (valuesOf .subnetMask rs).any fun v => (leaseParseBe32 v).isOk
  subnetMask := lastValid leaseParseBe32 0 (valuesOf .subnetMask rs)
  haveBroadcast := (valuesOf .broadcast rs).any fun v => (leaseParseBe32 v).isOk
  broadcast := lastValid leaseParseBe32 0 (valuesOf .broadcast rs)
  dns := lastValid leaseParseInAddrs [] (valuesOf .dns rs)
  ntp := lastValid leaseParseInAddrs [] (valuesOf .ntp rs)
  staticRoute := rs.flatMap routesOf
  mtu := lastValid (leaseParseU16 · 68) 0 (valuesOf .mtu rs)
  domainname := lastValid (leaseParseDomain rules) none (valuesOf .domainname rs)
  hostname := lastValid (leaseParseDomain rules) none (valuesOf .hostname rs)
  rootPath := lastValid leaseParseString none (valuesOf .rootPath rs)
  vendorSpecific := lastValid .ok [] (valuesOf .vendorSpecific rs)
  timezone := lastValid (leaseParseTimezone rules) none (valuesOf .timezone rs)
  privateOptions := (privateOptions rs).foldl (Linked.insertByKey fun r => r.1.toNat) {}

/-- Reading the option does not end. -/
def Hangs (r : Record) : Prop :=
  LeaseField.ofCode r.1 = some .staticRoute ∧ leaseParseRoutes r.2 [] = .error .hang

theorem leaseParseRoutes_append (option : Bytes) (routes : List StaticRoute) :
    leaseParseRoutes option routes =
      match leaseParseRoutes option [] with
      | .ok rs => .ok (routes ++ rs)
      | .error e => .error e := by
  simp only [leaseParseRoutes, routeLoop_eq]
  split_ifs
  · simp
  · rfl
  · cases (entries option).mapM classRoute <;> rfl

theorem leaseParseClasslessRoutes_append (option : Bytes) (routes : List StaticRoute) :
    (leaseParseClasslessRoutes option routes).1 =
      routes ++ (leaseParseClasslessRoutes option []).1 := by
  induction hn : option.length using Nat.strong_induction_on generalizing option routes with
  | _ n ih =>
    rcases option with _ | ⟨width, option⟩
    · simp [leaseParseClasslessRoutes]
    · simp only [leaseParseClasslessRoutes]
      split_ifs
      · simp
      · simp
      · have hlt : (option.drop (dstOctets width + 4)).length < n := by
          simp only [List.length_drop, List.length_cons] at hn ⊢
          omega
        rw [ih _ hlt _ _ rfl, ih _ hlt _ ([] ++ _) rfl]
        simp

theorem stored_eq {α : Type*} {lease : RawLease} {store : α → RawLease} {old : α}
    (h : store old = lease) (value : Except Errno α) :
    stored lease value store = store (value.toOption.getD old) := by
  cases value with
  | ok value => rfl
  | error e => exact h.symm

theorem valuesOf_concat {code : UInt8} {field : LeaseField}
    (h : LeaseField.ofCode code = some field) (f : LeaseField) (rs : List Record) (option : Bytes) :
    valuesOf f (rs ++ [(code, option)]) = valuesOf f rs ++ if field = f then [option] else [] := by
  by_cases hf : field = f <;> simp [valuesOf, h, hf]

theorem lastValid_concat {α : Type*} (parse : Bytes → Except Errno α) (unset : α)
    (values : List Bytes) (value : Bytes) :
    lastValid parse unset (values ++ [value]) =
      (parse value).toOption.getD (lastValid parse unset values) := by
  simp [lastValid]

theorem privateOptions_concat {code : UInt8} {field : LeaseField}
    (h : LeaseField.ofCode code = some field) (rs : List Record) (option : Bytes) :
    privateOptions (rs ++ [(code, option)]) =
      privateOptions rs ++ if field = .privateOption then [(code, option)] else [] := by
  by_cases hf : field = .privateOption <;> simp [privateOptions, h, hf]

/-- An option is stored after others as if all had been told at once. -/
theorem dhcpLeaseParseOptions_leaseOf {rs : List Record} {r : Record} (h : ¬Hangs r) :
    dhcpLeaseParseOptions rules r.1 r.2 (leaseOf rules rs) = some (leaseOf rules (rs ++ [r])) := by
  obtain ⟨code, option⟩ := r
  cases hfield : LeaseField.ofCode code with
  | none => simp [dhcpLeaseParseOptions, leaseOf, hfield, valuesOf, privateOptions, routesOf]
  | some field =>
    have hroutes : (rs ++ [(code, option)]).flatMap routesOf =
        rs.flatMap routesOf ++ routesOf (code, option) := by simp
    simp only [dhcpLeaseParseOptions, hfield, leaseOf, valuesOf_concat hfield,
      privateOptions_concat hfield, hroutes]
    -- only the field of the option changes
    cases field <;>
      simp only [reduceCtorEq, if_false, if_true, List.append_nil, lastValid_concat,
        routesOf, hfield]
    case staticRoute =>
      have hret : leaseParseRoutes option [] ≠ .error .hang := fun hh => h ⟨hfield, hh⟩
      rw [leaseParseRoutes_append]
      rcases hread : leaseParseRoutes option [] with (_ | _) | routes
      · simp [Except.toOption]
      · exact absurd hread hret
      · rfl
    case classlessStaticRoute => rw [leaseParseClasslessRoutes_append]
    case privateOption => simp [dhcpLeaseInsertPrivateOption]
    case subnetMask =>
      cases hread : leaseParseBe32 option <;>
        simp [stored, hread, Except.toOption, Except.isOk, Except.toBool]
    case broadcast =>
      cases hread : leaseParseBe32 option <;>
        simp [stored, hread, Except.toOption, Except.isOk, Except.toBool]
    all_goals first | exact congrArg some (stored_eq rfl _) | rfl

/-! ## Giving a lease back -/

/-- The loop of `sd_dhcp_lease_unref` over the private options; `none` if it uses freed memory. -/
def sdDhcpLeaseUnref (lease : RawLease) : Option (List Record) :=
  Linked.freeNodes lease.privateOptions.hidden lease.privateOptions.list

/-- The lease of a message is freed twice in part exactly if it has a private option whose code is
below that of the first one. Such options are not found in the list, and of every other code the
first option is. -/
theorem unref_leaseOf (rs : List Record) :
    (sdDhcpLeaseUnref (leaseOf rules rs) = none ↔
      ∃ first ∈ (privateOptions rs).head?, ∃ r ∈ privateOptions rs, r.1 < first.1) ∧
    ∀ r, r ∈ (leaseOf rules rs).privateOptions.list ↔
      (privateOptions rs).find? (fun r' => r'.1.toNat = r.1.toNat) = some r ∧
        ∀ first ∈ (privateOptions rs).head?, first.1 ≤ r.1 := by
  have h : Linked.Collected _ _ (leaseOf rules rs).privateOptions :=
    Linked.collected_foldl (privateOptions rs)
  refine ⟨?_, fun r => (h.mem r).trans (and_congr_right' ?_)⟩
  · have hhead := h.head
    rw [sdDhcpLeaseUnref, Linked.freeNodes_eq_none, h.hidden]
    cases hopts : privateOptions rs with
    | nil => simp
    | cons first rest =>
      have hlist : (leaseOf rules rs).privateOptions.list ≠ [] := by
        intro hnil
        rw [hnil, hopts] at hhead
        cases hhead
      simp [hlist, UInt8.lt_iff_toNat_lt]
  · cases (privateOptions rs).head? <;> simp [UInt8.le_iff_toNat_le]

end CarFi.Dhcp
