import CarFi.Dhcp.Options
import CarFi.Roamingd.Lease
import Mathlib.Computability.StateTransition

/-!
# The routes of a lease

`sd-dhcp-lease.c` reads static routes from two options. In the older one a destination has no prefix
length and is taken by its class. The loop over it does not go on to the next route if an address
has no class, so it does not end; `turn_eq` says what a turn of it does. In the newer option the
prefix length stands before the octets of the destination it covers.
-/
namespace CarFi.Dhcp

open Library Roamingd StateTransition

/-- An address in network order; bytes that are missing at the end are `0`. -/
def addrOf (bytes : Bytes) : InAddr :=
  UInt32.ofNat (beNat (bytes ++ List.replicate (4 - bytes.length) 0))

/-! ## Routes by class -/

/-- `in_addr_default_prefixlen`, by the first octet of an address -/
def inAddrDefaultPrefixlen (msbOctet : UInt8) : Option ℕ :=
  if msbOctet < 128 then some 8
  else if msbOctet < 192 then some 16
  else if msbOctet < 224 then some 24
  else none

/-- `inet_netof` -/
def inetNetof (addr : InAddr) : UInt32 :=
  if addr < 0x80000000 then addr >>> 24
  else if addr < 0xc0000000 then addr >>> 16
  else addr >>> 8

/-- `inet_makeaddr` -/
def inetMakeaddr (net host : UInt32) : InAddr :=
  if net < 128 then net <<< 24 ||| host &&& 0xffffff
  else if net < 65536 then net <<< 16 ||| host &&& 0xffff
  else if net < 16777216 then net <<< 8 ||| host &&& 0xff
  else net ||| host

/-- What `lease_parse_routes` has still to read, and the routes it has stored. -/
structure RouteLoop where
  option : Bytes
  routes : List StaticRoute

/-- One turn of the loop of `lease_parse_routes`; `none` if it is left. If the destination has no
class, `continue` comes before the option is advanced. -/
def RouteLoop.turn (s : RouteLoop) : Option RouteLoop :=
  if 8 ≤ s.option.length then
    match inAddrDefaultPrefixlen s.option.headI with
    | none => some s
    | some prefixlen =>
      let dst := inetMakeaddr (inetNetof (addrOf (s.option.take 4))) 0
      let gateway := addrOf ((s.option.drop 4).take 4)
      some ⟨s.option.drop 8, s.routes ++ [⟨dst, prefixlen, gateway⟩]⟩
  else none

/-- The loop, run to its end. A turn that does not advance is made again for ever. -/
def routeLoop (s : RouteLoop) : Except Stop (List StaticRoute) :=
  match s.turn with
  | none => .ok s.routes
  | some t => if t.option.length < s.option.length then routeLoop t else .error .hang
  termination_by s.option.length

/-- `lease_parse_routes` -/
def leaseParseRoutes (option : Bytes) (routes : List StaticRoute) :
    Except Stop (List StaticRoute) :=
  if option = [] then .ok routes
  else if option.length % 8 ≠ 0 then .error (.errno .einval)
  else routeLoop ⟨option, routes⟩

/-! ### By the mask of the class -/

/-- The entries of an option, of two addresses each -/
def entries (option : Bytes) : List Bytes :=
  if 8 ≤ option.length then option.take 8 :: entries (option.drop 8) else []
  termination_by option.length
  decreasing_by
    rw [List.length_drop]
    omega

/-- A route whose destination is masked by its class -/
def classRoute (entry : Bytes) : Option StaticRoute :=
  (defaultSubnetMask (addrOf (entry.take 4))).map fun mask =>
    ⟨addrOf (entry.take 4) &&& mask, prefixlenOf mask, addrOf ((entry.drop 4).take 4)⟩

theorem toNat_addrOf (a b c d : UInt8) : (addrOf [a, b, c, d]).toNat =
    a.toNat * 2 ^ 24 + b.toNat * 2 ^ 16 + c.toNat * 2 ^ 8 + d.toNat := by
  have := a.toNat_lt
  have := b.toNat_lt
  have := c.toNat_lt
  have := d.toNat_lt
  simp only [addrOf, List.length_cons, List.length_nil, Nat.zero_add, Nat.reduceAdd, Nat.sub_self,
    List.replicate_zero, List.append_nil, beNat, List.foldl_cons, List.foldl_nil,
    UInt32.toNat_ofNat']
  omega

theorem and_mask_eq {x k : ℕ} (hx : x < 2 ^ 32) (hk : k ≤ 32) :
    x &&& (2 ^ (32 - k) - 1) * 2 ^ k = x / 2 ^ k * 2 ^ k := by
  apply Nat.eq_of_testBit_eq
  intro i
  simp only [Nat.testBit_and, Nat.testBit_mul_two_pow, Nat.testBit_two_pow_sub_one,
    Nat.testBit_div_two_pow]
  by_cases hi : k ≤ i
  · by_cases hlt : i < 32
    · simp [hi, show i - k < 32 - k by omega]
    · have : x.testBit i = false :=
        Nat.testBit_lt_two_pow (hx.trans_le (Nat.pow_le_pow_right (by omega) (by omega)))
      simp [hi, this]
  · simp [hi]

/-- Shifting the last bits out and back clears them. -/
theorem shift_back_eq (addr mask : UInt32) {k : UInt32} (hk : k.toNat < 32)
    (hmask : mask.toNat = (2 ^ (32 - k.toNat) - 1) * 2 ^ k.toNat) :
    addr >>> k <<< k = addr &&& mask := by
  have hlt := addr.toNat_lt
  have hle := Nat.div_mul_le_self addr.toNat (2 ^ k.toNat)
  apply UInt32.toNat_inj.mp
  rw [UInt32.toNat_shiftLeft, UInt32.toNat_shiftRight, Nat.mod_eq_of_lt hk,
    Nat.shiftRight_eq_div_pow, Nat.shiftLeft_eq, Nat.mod_eq_of_lt (by omega), UInt32.toNat_and,
    hmask, and_mask_eq hlt (by omega)]

/-- Taking the network of an address and making it an address again masks it by its class. -/
theorem inetMakeaddr_inetNetof {addr mask : InAddr} (h : defaultSubnetMask addr = some mask) :
    inetMakeaddr (inetNetof addr) 0 = addr &&& mask := by
  have hlt := addr.toNat_lt
  have hshift {k : UInt32} (hk : k.toNat < 32) : (addr >>> k).toNat = addr.toNat / 2 ^ k.toNat := by
    rw [UInt32.toNat_shiftRight, Nat.mod_eq_of_lt hk, Nat.shiftRight_eq_div_pow]
  have h24 : (addr >>> 24).toNat = addr.toNat / 2 ^ 24 := hshift (by decide)
  have h16 : (addr >>> 16).toNat = addr.toNat / 2 ^ 16 := hshift (by decide)
  have h8 : (addr >>> 8).toNat = addr.toNat / 2 ^ 8 := hshift (by decide)
  simp only [defaultSubnetMask, inetNetof, inetMakeaddr, UInt32.zero_and, UInt32.or_zero,
    UInt32.lt_iff_toNat_lt, UInt32.reduceToNat] at h ⊢
  split_ifs at h ⊢ with h₁ h₂ h₃ h₄ h₅ h₆ <;> cases h <;> try omega
  · exact shift_back_eq addr _ (by decide) (by decide)
  · exact shift_back_eq addr _ (by decide) (by decide)
  · exact shift_back_eq addr _ (by decide) (by decide)

theorem prefixlenOf_class :
    prefixlenOf 0xff000000 = 8 ∧ prefixlenOf 0xffff0000 = 16 ∧ prefixlenOf 0xffffff00 = 24 := by
  decide +kernel

/-- The prefix length by the first octet is that of the mask by the class. -/
theorem inAddrDefaultPrefixlen_eq (a b c d : UInt8) :
    inAddrDefaultPrefixlen a = (defaultSubnetMask (addrOf [a, b, c, d])).map prefixlenOf := by
  have haddr := toNat_addrOf a b c d
  have := b.toNat_lt
  have := c.toNat_lt
  have := d.toNat_lt
  obtain ⟨h8, h16, h24⟩ := prefixlenOf_class
  simp only [inAddrDefaultPrefixlen, defaultSubnetMask, UInt32.lt_iff_toNat_lt, UInt32.reduceToNat,
    UInt8.lt_iff_toNat_lt, UInt8.reduceToNat]
  split_ifs <;> first | omega | simp [h8, h16, h24]

/-! ### The loop -/

/-- A turn of the loop reads an entry, or does nothing if its destination has no class. -/
theorem turn_eq {option : Bytes} (h : 8 ≤ option.length) (routes : List StaticRoute) :
    RouteLoop.turn ⟨option, routes⟩ =
      match classRoute (option.take 8) with
      | none => some ⟨option, routes⟩
      | some route => some ⟨option.drop 8, routes ++ [route]⟩ := by
  obtain ⟨a, b, c, d, e, f, g, i, rest, rfl⟩ : ∃ a b c d e f g i rest,
      option = a :: b :: c :: d :: e :: f :: g :: i :: rest := by
    rcases option with _ |
      ⟨a, _ | ⟨b, _ | ⟨c, _ |
        ⟨d, _ | ⟨e, _ | ⟨f, _ | ⟨g, _ | ⟨i, rest⟩⟩⟩⟩⟩⟩⟩⟩ <;>
      simp at h ⊢
  rw [RouteLoop.turn, if_pos h]
  simp only [List.headI_cons, List.take_succ_cons, List.take_zero, List.drop_succ_cons,
    List.drop_zero, inAddrDefaultPrefixlen_eq a b c d, classRoute]
  cases hmask : defaultSubnetMask (addrOf [a, b, c, d]) with
  | none => rfl
  | some mask => simp only [Option.map_some, inetMakeaddr_inetNetof hmask]

theorem eval_of_none {σ : Type*} {f : σ → Option σ} {s : σ} (h : f s = none) :
    eval f s = Part.some s :=
  Part.eq_some_iff.mpr (mem_eval.mpr ⟨Relation.ReflTransGen.refl, h⟩)

/-- A turn that changes nothing is made again and again. -/
theorem eval_of_fixed {σ : Type*} {f : σ → Option σ} {s : σ} (h : f s = some s) :
    eval f s = Part.none := by
  have hsame {t : σ} (hreach : Reaches f s t) : t = s := by
    induction hreach with
    | refl => rfl
    | tail _ hstep ih =>
      subst ih
      exact (Option.some.inj (h.symm.trans hstep)).symm
  refine Part.eq_none_iff.mpr fun t ht => ?_
  obtain ⟨hreach, hnone⟩ := mem_eval.mp ht
  rw [hsame hreach, h] at hnone
  cases hnone

/-- The loop is left exactly if every destination has a class, and then each entry has given the
route to its destination masked by the class. -/
theorem routes_by_class_eval (option : Bytes) (routes : List StaticRoute) :
    eval RouteLoop.turn ⟨option, routes⟩ =
      match (entries option).mapM classRoute with
      | none => Part.none
      | some rs => Part.some ⟨option.drop (option.length / 8 * 8), routes ++ rs⟩ := by
  fun_induction entries option generalizing routes with
  | case2 option h =>
    have hturn : RouteLoop.turn ⟨option, routes⟩ = none := if_neg h
    have : option.length / 8 = 0 := by omega
    simp [eval_of_none hturn, this]
  | case1 option h ih =>
    have hturn := turn_eq h routes
    rw [List.mapM_cons]
    cases hroute : classRoute (option.take 8) with
    | none =>
      rw [hroute] at hturn
      exact eval_of_fixed hturn
    | some route =>
      rw [hroute] at hturn
      have hlen : 8 + (option.length - 8) / 8 * 8 = option.length / 8 * 8 := by omega
      rw [reaches_eval (Relation.ReflTransGen.single hturn), ih]
      cases (entries (option.drop 8)).mapM classRoute <;> simp [hlen]

theorem routeLoop_eq (option : Bytes) (routes : List StaticRoute) :
    routeLoop ⟨option, routes⟩ =
      match (entries option).mapM classRoute with
      | none => .error .hang
      | some rs => .ok (routes ++ rs) := by
  fun_induction entries option generalizing routes with
  | case2 option h =>
    have hturn : RouteLoop.turn ⟨option, routes⟩ = none := if_neg h
    rw [routeLoop, hturn]
    simp
  | case1 option h ih =>
    have hturn := turn_eq h routes
    rw [routeLoop, List.mapM_cons, hturn]
    cases hroute : classRoute (option.take 8) with
    | none => simp
    | some route =>
      have hlt : (option.drop 8).length < option.length := by
        rw [List.length_drop]
        omega
      simp only [if_pos hlt, ih]
      cases (entries (option.drop 8)).mapM classRoute <;> simp

/-! ## Routes with a prefix length -/

/-- How many octets of the destination stand in the option -/
def dstOctets (width : UInt8) : ℕ := if width = 0 then 0 else (width.toNat - 1) / 8 + 1

/-- The loop of `lease_parse_classless_routes`. The routes before an error stay. -/
def leaseParseClasslessRoutes : Bytes → List StaticRoute → List StaticRoute × Except Errno Unit
  | [], routes => (routes, .ok ())
  | width :: option, routes =>
    if 4 < dstOctets width ∨ option.length < dstOctets width then (routes, .error .einval)
    else
      let dst := addrOf (option.take (dstOctets width))
      if option.length - dstOctets width < 4 then (routes, .error .einval)
      else
        let gateway := addrOf ((option.drop (dstOctets width)).take 4)
        leaseParseClasslessRoutes (option.drop (dstOctets width + 4))
          (routes ++ [⟨dst, width.toNat, gateway⟩])
  termination_by option => option.length
  decreasing_by
    rw [List.length_drop, List.length_cons]
    omega

/-- How a route stands in the option -/
def encodeRoute (r : StaticRoute) : Bytes :=
  UInt8.ofNat r.dstPrefixlen ::
    ((be32 r.dst.toNat).take (dstOctets (UInt8.ofNat r.dstPrefixlen)) ++ be32 r.gateway.toNat)

/-- The octets that do not stand in the option are `0`. -/
structure RouteFits (r : StaticRoute) : Prop where
  prefixlen : r.dstPrefixlen ≤ 32
  dst : r.dst.toNat % 2 ^ (32 - 8 * dstOctets (UInt8.ofNat r.dstPrefixlen)) = 0

theorem dstOctets_le {width : UInt8} : dstOctets width ≤ 4 ↔ width.toNat ≤ 32 := by
  rw [dstOctets]
  split_ifs with h
  · simp [h]
  · have : width.toNat ≠ 0 := fun h' => h (UInt8.toNat_inj.mp h')
    omega

theorem be32_addrOf (a b c d : UInt8) : be32 (addrOf [a, b, c, d]).toNat = [a, b, c, d] := by
  have ha := a.toNat_lt
  have hb := b.toNat_lt
  have hc := c.toNat_lt
  have hd := d.toNat_lt
  have hoctet {x : UInt8} {n : ℕ} (h : n % 2 ^ 8 = x.toNat) : UInt8.ofNat n = x :=
    UInt8.toNat_inj.mp (by rw [UInt8.toNat_ofNat', h])
  rw [toNat_addrOf, be32, hoctet (x := a), hoctet (x := b), hoctet (x := c), hoctet (x := d)]
  all_goals omega

/-- The octets of an address are read as the address. -/
theorem addrOf_take_be32 {addr : InAddr} {k : ℕ} (hk : k ≤ 4)
    (h : addr.toNat % 2 ^ (32 - 8 * k) = 0) : addrOf ((be32 addr.toNat).take k) = addr := by
  have hlt := addr.toNat_lt
  -- the octets that are cut off are zero
  obtain ⟨p, q, r, s, haddr, hsum⟩ :
      ∃ p q r s, addrOf ((be32 addr.toNat).take k) = addrOf [p, q, r, s] ∧
        p.toNat * 2 ^ 24 + q.toNat * 2 ^ 16 + r.toNat * 2 ^ 8 + s.toNat = addr.toNat := by
    have hk : k = 0 ∨ k = 1 ∨ k = 2 ∨ k = 3 ∨ k = 4 := by omega
    rcases hk with rfl | rfl | rfl | rfl | rfl
    · exact ⟨0, 0, 0, 0, rfl, by simp at h ⊢; omega⟩
    · exact ⟨_, 0, 0, 0, rfl, by simp at h ⊢; omega⟩
    · exact ⟨_, _, 0, 0, rfl, by simp at h ⊢; omega⟩
    · exact ⟨_, _, _, 0, rfl, by simp at h ⊢; omega⟩
    · exact ⟨_, _, _, _, rfl, by simp; omega⟩
  rw [haddr]
  exact UInt32.toNat_inj.mp (by rw [toNat_addrOf, hsum])

/-- An address that is read stands in its first octets, and the others are `0`. -/
theorem take_be32_addrOf {bytes : Bytes} (h : bytes.length ≤ 4) :
    (be32 (addrOf bytes).toNat).take bytes.length = bytes ∧
      (addrOf bytes).toNat % 2 ^ (32 - 8 * bytes.length) = 0 := by
  have hpad : ∃ a b c d, addrOf bytes = addrOf [a, b, c, d] ∧
      [a, b, c, d].take bytes.length = bytes ∧
      [a, b, c, d].drop bytes.length = List.replicate (4 - bytes.length) 0 := by
    rcases bytes with _ | ⟨a, _ | ⟨b, _ | ⟨c, _ | ⟨d, _ | _⟩⟩⟩⟩
    · exact ⟨0, 0, 0, 0, rfl, rfl, rfl⟩
    · exact ⟨a, 0, 0, 0, rfl, rfl, rfl⟩
    · exact ⟨a, b, 0, 0, rfl, rfl, rfl⟩
    · exact ⟨a, b, c, 0, rfl, rfl, rfl⟩
    · exact ⟨a, b, c, d, rfl, rfl, rfl⟩
    · simp only [List.length_cons] at h
      omega
  obtain ⟨a, b, c, d, haddr, htake, hdrop⟩ := hpad
  rw [haddr, be32_addrOf, toNat_addrOf]
  refine ⟨htake, ?_⟩
  have hk : bytes.length = 0 ∨ bytes.length = 1 ∨ bytes.length = 2 ∨ bytes.length = 3 ∨
    bytes.length = 4 := by omega
  rcases hk with hk | hk | hk | hk | hk <;> rw [hk] at hdrop ⊢ <;>
    simp [List.replicate] at hdrop <;>
    simp [hdrop] <;> omega

theorem addrOf_be32 (addr : InAddr) : addrOf (be32 addr.toNat) = addr :=
  addrOf_take_be32 (k := 4) (by omega) (by simp [Nat.mod_one])

theorem leaseParseClasslessRoutes_cons {width : UInt8} {octets gateway : Bytes}
    (hwidth : width.toNat ≤ 32) (hoctets : octets.length = dstOctets width)
    (hgateway : gateway.length = 4) (option : Bytes) (routes : List StaticRoute) :
    leaseParseClasslessRoutes (width :: (octets ++ (gateway ++ option))) routes =
      leaseParseClasslessRoutes option
        (routes ++ [⟨addrOf octets, width.toNat, addrOf gateway⟩]) := by
  have hle := dstOctets_le.mpr hwidth
  have hdrop : (octets ++ (gateway ++ option)).drop (dstOctets width + 4) = option := by
    rw [← hoctets, ← hgateway, ← List.drop_drop, List.drop_left, List.drop_left]
  rw [leaseParseClasslessRoutes, if_neg (by simp; omega), if_neg (by simp; omega),
    hdrop, ← hoctets, List.take_left, List.drop_left, ← hgateway, List.take_left]

/-- A route is read from the octets it is written as. -/
theorem leaseParseClasslessRoutes_encode {r : StaticRoute} (h : RouteFits r) (option : Bytes)
    (routes : List StaticRoute) :
    leaseParseClasslessRoutes (encodeRoute r ++ option) routes =
      leaseParseClasslessRoutes option (routes ++ [r]) := by
  have hwidth : (UInt8.ofNat r.dstPrefixlen).toNat = r.dstPrefixlen := by
    have := h.prefixlen
    rw [UInt8.toNat_ofNat']
    omega
  have hle : dstOctets (UInt8.ofNat r.dstPrefixlen) ≤ 4 :=
    dstOctets_le.mpr (hwidth.trans_le h.prefixlen)
  have hlen : ((be32 r.dst.toNat).take (dstOctets (UInt8.ofNat r.dstPrefixlen))).length =
      dstOctets (UInt8.ofNat r.dstPrefixlen) := by
    rw [List.length_take]
    exact Nat.min_eq_left hle
  rw [encodeRoute, List.cons_append, List.append_assoc, leaseParseClasslessRoutes_cons
    (hwidth.trans_le h.prefixlen) hlen rfl, addrOf_take_be32 hle h.dst, addrOf_be32, hwidth]

/-- What is read was written as the routes that are stored, up to the first octet that is in none.
-/
theorem leaseParseClasslessRoutes_split (option : Bytes) (routes : List StaticRoute) :
    ∃ rs bad, (∀ r ∈ rs, RouteFits r) ∧ option = rs.flatMap encodeRoute ++ bad ∧
      (leaseParseClasslessRoutes option routes).1 = routes ++ rs ∧
      ((leaseParseClasslessRoutes option routes).2 = .ok () ↔ bad = []) := by
  fun_induction leaseParseClasslessRoutes option routes with
  | case1 routes => exact ⟨[], [], by simp⟩
  | case2 width option routes h => exact ⟨[], width :: option, by simp⟩
  | case3 width option routes h h' => exact ⟨[], width :: option, by simp⟩
  | case4 width option routes h dst h' gateway ih =>
    obtain ⟨rs, bad, hfits, hoption, hroutes, hok⟩ := ih
    obtain ⟨hle, hlen⟩ : dstOctets width ≤ 4 ∧ dstOctets width ≤ option.length := by omega
    have hread := @take_be32_addrOf (option.take (dstOctets width)) (by simp; omega)
    rw [List.length_take_of_le hlen] at hread
    have hgateway : be32 gateway.toNat = (option.drop (dstOctets width)).take 4 := by
      have := (@take_be32_addrOf ((option.drop (dstOctets width)).take 4) (by simp)).1
      rwa [List.length_take_of_le (by simp; omega)] at this
    refine ⟨⟨dst, width.toNat, gateway⟩ :: rs, bad, ?_, ?_, by simpa using hroutes, hok⟩
    · refine List.forall_mem_cons.mpr ⟨⟨dstOctets_le.mp hle, ?_⟩, hfits⟩
      simpa using hread.2
    · have hwidth : UInt8.ofNat width.toNat = width := UInt8.ofNat_toNat
      simp only [List.flatMap_cons, encodeRoute, hwidth, hgateway, List.cons_append,
        List.append_assoc, ← hoption]
      rw [hread.1, ← List.drop_drop, List.take_append_drop, List.take_append_drop]

/-- An option is accepted exactly if it is what some routes are written as, and these are added. -/
theorem leaseParseClasslessRoutes_ok_iff (option : Bytes) (routes routes' : List StaticRoute) :
    leaseParseClasslessRoutes option routes = (routes', .ok ()) ↔
      ∃ rs, (∀ r ∈ rs, RouteFits r) ∧ option = rs.flatMap encodeRoute ∧
        routes' = routes ++ rs := by
  constructor
  · intro h
    obtain ⟨rs, bad, hfits, hoption, hroutes, hok⟩ :=
      leaseParseClasslessRoutes_split option routes
    rw [h] at hroutes hok
    obtain rfl := hok.mp rfl
    exact ⟨rs, hfits, by simpa using hoption, hroutes⟩
  · rintro ⟨rs, hfits, rfl, rfl⟩
    induction rs generalizing routes with
    | nil => simp [leaseParseClasslessRoutes]
    | cons r rs ih =>
      obtain ⟨hr, hrs⟩ := List.forall_mem_cons.mp hfits
      rw [List.flatMap_cons, leaseParseClasslessRoutes_encode hr, ih _ hrs]
      simp

end CarFi.Dhcp
