import CarFi.Roamingd.Client

/-!
# The timers of a lease

`client_set_lease_timeouts` fills in the times T1 and T2 that the server left out and works out
three deadlines, each with a jitter of its own. A renewal needs the times in order: the differences
`t2 - t1` and `lifetime - t2` of `client_timeout_resend` are taken in 32 bits. The leases for which
the order holds whatever the jitter are characterised here.
-/
namespace CarFi.Roamingd

open Attached

/-! ## What is worked out -/

/-- The lease with both times filled in, and the deadlines. -/
structure LeaseTimes where
  lease : Lease
  t1 : Nat
  t2 : Nat
  expire : Nat

def leaseTimes (io : Io) (sent : Nat) (l : Lease) : LeaseTimes where
  lease := (leaseDeadlines io sent l).1
  t1 := (leaseDeadlines io sent l).2.2
  t2 := (leaseDeadlines io sent l).2.1
  expire := computeTimeout sent l.lifetime 1000000 (io.random .expire)

/-- The lease is stored and the timers are armed. -/
def LeaseTimes.arm (io : Io) (t : LeaseTimes) (c : DhcpClient) : Int × DhcpClient :=
  armLeaseTimers io t.expire t.t2 t.t1
    { c with timeoutT1 := none, timeoutT2 := none, timeoutExpire := none, lease := some t.lease }

theorem setLeaseTimeouts_eq {io : Io} {l : Lease} {c : DhcpClient} (hl : l.lifetime ≠ 0xffffffff)
    (hnow : 0 ≤ io.result .eventNow) (hsent : c.requestSent ≠ 0)
    (hle : c.requestSent ≤ io.now) :
    setLeaseTimeouts io l c = .ok ((leaseTimes io c.requestSent l).arm io c) := by
  have hpast : ¬(io.now < c.requestSent ∨ c.requestSent = 0) := by omega
  simp only [setLeaseTimeouts, if_neg hl, if_neg (Int.not_lt.mpr hnow), if_neg hpast]
  rfl

/-- The times of the lease and the deadlines are in order, and no difference wraps around. -/
structure LeaseTimes.Ordered (t : LeaseTimes) : Prop where
  t1_le : t.lease.t1 ≤ t.lease.t2
  t2_le : t.lease.t2 ≤ t.lease.lifetime
  t1_lt : t.t1 < t.t2
  t2_lt : t.t2 < t.expire
  renewing : (t.lease.t2 - t.lease.t1).toNat = t.lease.t2.toNat - t.lease.t1.toNat
  rebinding : (t.lease.lifetime - t.lease.t2).toNat = t.lease.lifetime.toNat - t.lease.t2.toNat

theorem LeaseTimes.ordered_iff {t : LeaseTimes} : t.Ordered ↔
    t.lease.t1 ≤ t.lease.t2 ∧ t.lease.t2 ≤ t.lease.lifetime ∧ t.t1 < t.t2 ∧
    t.t2 < t.expire := by
  constructor
  · intro h
    exact ⟨h.t1_le, h.t2_le, h.t1_lt, h.t2_lt⟩
  · rintro ⟨h1, h2, h3, h4⟩
    exact ⟨h1, h2, h3, h4, UInt32.toNat_sub_of_le _ _ h1, UInt32.toNat_sub_of_le _ _ h2⟩

/-! ## The condition on the lease -/

/-- The seconds of a time that count. -/
def counted (x : UInt32) : Nat := x.toNat - 3

namespace Lease

/-- Both times are given, and they are in order. -/
def GivesBoth (l : Lease) : Prop := (0 < l.t1 ∧ 0 < l.t2) ∧ l.t1 < l.t2 ∧ l.t2 < l.lifetime

def GivesT2 (l : Lease) : Prop := ¬(0 < l.t1 ∧ 0 < l.t2) ∧ 0 < l.t2 ∧ l.t2 < l.lifetime

def GivesT1 (l : Lease) : Prop :=
  ¬(0 < l.t1 ∧ 0 < l.t2) ∧ ¬(0 < l.t2 ∧ l.t2 < l.lifetime) ∧ 0 < l.t1 ∧
    l.t1 < l.lifetime

/-- The lifetime is long enough for the default times to be apart, and seven times the lifetime
fits into 32 bits. -/
def FitsDefaults (l : Lease) : Prop := 20 ≤ l.lifetime.toNat ∧ 7 * l.lifetime.toNat < 2 ^ 32

/-- With both times given, each has to be three seconds before the next. A T2 alone that may come
before the default T1 needs the defaults to fit; one that may come after it has to be in order
itself. A T1 alone has to come before the default T2. -/
structure WellTimed (l : Lease) : Prop where
  both : l.GivesBoth → counted l.t1 + 3 ≤ counted l.t2 ∧
    counted l.t2 + 3 ≤ counted l.lifetime
  early : l.GivesT2 → 2 * counted l.t2 ≤ counted l.lifetime + 4 → l.FitsDefaults
  late : l.GivesT2 → counted l.lifetime ≤ 2 * counted l.t2 + 4 →
    l.lifetime.toNat / 2 ≤ l.t2.toNat ∧ counted l.t2 + 3 ≤ counted l.lifetime
  onlyT1 : l.GivesT1 → 8 * counted l.t1 + 17 ≤ 7 * counted l.lifetime ∧
    20 ≤ l.lifetime.toNat ∧ 8 * l.t1.toNat ≤ 7 * l.lifetime.toNat % 2 ^ 32
  neither : ¬l.GivesBoth → ¬l.GivesT2 → ¬l.GivesT1 → l.FitsDefaults

end Lease

/-! ## The deadlines, kind by kind -/

def Io.jitter (io : Io) (d : Draw) : Nat := (io.random d).toNat % 2 ^ 21

theorem Io.jitter_lt (io : Io) (d : Draw) : io.jitter d < 2097152 := Nat.mod_lt _ (by decide)

theorem computeTimeout_eq (io : Io) (sent : Nat) (x : UInt32) (factor : Nat) (d : Draw) :
    computeTimeout sent x factor (io.random d) = sent + counted x * factor + io.jitter d := rfl

/-- The jitter is largest at the draws `ds` and zero at the others. -/
def latest (ds : List Draw) (sent : Nat) : Io where
  now := sent
  random := fun d => if d ∈ ds then 0x1fffff else 0
  result := fun _ => 0

theorem jitter_latest (ds : List Draw) (sent : Nat) (d : Draw) :
    (latest ds sent).jitter d = if d ∈ ds then 2097151 else 0 := by
  simp only [Io.jitter, latest]
  split <;> rfl

section Kinds

variable {io : Io} {sent : Nat} {l : Lease}

theorem ordered_both (h : l.GivesBoth) : (leaseTimes io sent l).Ordered ↔
    counted l.t1 * 1000000 + io.jitter .t1 < counted l.t2 * 1000000 + io.jitter .t2 ∧
    counted l.t2 * 1000000 + io.jitter .t2 < counted l.lifetime * 1000000 + io.jitter .expire := by
  obtain ⟨hgiven, hlt⟩ := h
  have h1 := UInt32.lt_iff_toNat_lt.mp hlt.1
  have h2 := UInt32.lt_iff_toNat_lt.mp hlt.2
  simp only [LeaseTimes.ordered_iff, leaseTimes, leaseDeadlines, if_pos hgiven, if_pos hlt,
    computeTimeout_eq, UInt32.le_iff_toNat_le]
  omega

theorem toNat_half (x : UInt32) : (x / 2).toNat = x.toNat / 2 := by simp

theorem toNat_most (x : UInt32) : (x * 7 / 8).toNat = 7 * x.toNat % 2 ^ 32 / 8 := by
  simp [Nat.mul_comm]

/-- Seven eighths of a lifetime, taken in 32 bits, come after half of it only if nothing wraps. -/
theorem half_le_most_iff (x : UInt32) :
    x / 2 ≤ x * 7 / 8 ↔ 7 * x.toNat < 2 ^ 32 := by
  have hx := x.toNat_lt
  have hdiv := Nat.div_add_mod (7 * x.toNat) (2 ^ 32)
  have hmod := Nat.mod_lt (7 * x.toNat) (show 0 < 2 ^ 32 by decide)
  rw [UInt32.le_iff_toNat_le, toNat_half, toNat_most]
  constructor
  · intro hle
    by_contra hwrap
    have hq : 1 ≤ 7 * x.toNat / 2 ^ 32 := Nat.div_pos (by omega) (by decide)
    omega
  · intro hfits
    rw [Nat.mod_eq_of_lt hfits]
    omega

theorem most_le (x : UInt32) : x * 7 / 8 ≤ x := by
  have hmod := Nat.mod_le (7 * x.toNat) (2 ^ 32)
  rw [UInt32.le_iff_toNat_le, toNat_most]
  omega

theorem ordered_defaults (hboth : ¬l.GivesBoth) (ht2 : ¬l.GivesT2) (ht1 : ¬l.GivesT1) :
    (leaseTimes io sent l).Ordered ↔ 7 * l.lifetime.toNat < 2 ^ 32 ∧
    counted l.lifetime * 500000 + io.jitter .t1 < counted l.lifetime * 875000 + io.jitter .t2 ∧
    counted l.lifetime * 875000 + io.jitter .t2 <
      counted l.lifetime * 1000000 + io.jitter .expire := by
  have hd : leaseDeadlines io sent l = ({ l with t1 := l.lifetime / 2, t2 := l.lifetime * 7 / 8 },
      computeTimeout sent l.lifetime 875000 (io.random .t2),
      computeTimeout sent l.lifetime 500000 (io.random .t1)) := by
    unfold leaseDeadlines
    by_cases hgiven : 0 < l.t1 ∧ 0 < l.t2
    · rw [if_pos hgiven, if_neg fun hlt => hboth ⟨hgiven, hlt⟩]
    · have hno2 : ¬(0 < l.t2 ∧ l.t2 < l.lifetime) := fun hlt => ht2 ⟨hgiven, hlt⟩
      rw [if_neg hgiven, if_neg hno2, if_neg fun hlt => ht1 ⟨hgiven, hno2, hlt⟩]
  simp only [LeaseTimes.ordered_iff, leaseTimes, hd, computeTimeout_eq, half_le_most_iff, most_le,
    true_and]
  omega

theorem ordered_onlyT2 (h : l.GivesT2) : (leaseTimes io sent l).Ordered ↔
    if counted l.t2 * 1000000 + io.jitter .t2 ≤ counted l.lifetime * 500000 + io.jitter .t1 then
      7 * l.lifetime.toNat < 2 ^ 32 ∧
      counted l.lifetime * 500000 + io.jitter .t1 <
        counted l.lifetime * 875000 + io.jitter .t2Again ∧
      counted l.lifetime * 875000 + io.jitter .t2Again <
        counted l.lifetime * 1000000 + io.jitter .expire
    else l.lifetime.toNat / 2 ≤ l.t2.toNat ∧
      counted l.t2 * 1000000 + io.jitter .t2 <
        counted l.lifetime * 1000000 + io.jitter .expire := by
  obtain ⟨hboth, hgiven⟩ := h
  have hle := UInt32.le_of_lt hgiven.2
  split
  · next hbefore =>
    have hd : leaseDeadlines io sent l = ({ l with t1 := l.lifetime / 2, t2 := l.lifetime * 7 / 8 },
        computeTimeout sent l.lifetime 875000 (io.random .t2Again),
        computeTimeout sent l.lifetime 500000 (io.random .t1)) := by
      unfold leaseDeadlines
      rw [if_neg hboth, if_pos hgiven, if_pos (by simp only [computeTimeout_eq]; omega)]
    simp only [LeaseTimes.ordered_iff, leaseTimes, hd, computeTimeout_eq, half_le_most_iff,
      most_le, true_and]
    omega
  · next hafter =>
    have hd : leaseDeadlines io sent l = ({ l with t1 := l.lifetime / 2 },
        computeTimeout sent l.t2 1000000 (io.random .t2),
        computeTimeout sent l.lifetime 500000 (io.random .t1)) := by
      unfold leaseDeadlines
      rw [if_neg hboth, if_pos hgiven, if_neg (by simp only [computeTimeout_eq]; omega)]
    simp only [LeaseTimes.ordered_iff, leaseTimes, hd, computeTimeout_eq, hle, true_and,
      UInt32.le_iff_toNat_le, toNat_half]
    omega

theorem ordered_onlyT1 (h : l.GivesT1) : (leaseTimes io sent l).Ordered ↔
    if counted l.lifetime * 875000 + io.jitter .t2 ≤ counted l.t1 * 1000000 + io.jitter .t1 then
      l.t1.toNat ≤ l.lifetime.toNat / 2 ∧
      counted l.t1 * 1000000 + io.jitter .t1 <
        counted l.lifetime * 500000 + io.jitter .t2Again ∧
      counted l.lifetime * 500000 + io.jitter .t2Again <
        counted l.lifetime * 1000000 + io.jitter .expire
    else 8 * l.t1.toNat ≤ 7 * l.lifetime.toNat % 2 ^ 32 ∧
      counted l.lifetime * 875000 + io.jitter .t2 <
        counted l.lifetime * 1000000 + io.jitter .expire := by
  obtain ⟨hboth, ht2, hgiven⟩ := h
  split
  · next hbefore =>
    have hd : leaseDeadlines io sent l = ({ l with t2 := l.lifetime / 2 },
        computeTimeout sent l.lifetime 500000 (io.random .t2Again),
        computeTimeout sent l.t1 1000000 (io.random .t1)) := by
      unfold leaseDeadlines
      rw [if_neg hboth, if_neg ht2, if_pos hgiven, if_pos (by simp only [computeTimeout_eq]; omega)]
    simp only [LeaseTimes.ordered_iff, leaseTimes, hd, computeTimeout_eq, UInt32.le_iff_toNat_le,
      toNat_half]
    omega
  · next hafter =>
    have hd : leaseDeadlines io sent l = ({ l with t2 := l.lifetime * 7 / 8 },
        computeTimeout sent l.lifetime 875000 (io.random .t2),
        computeTimeout sent l.t1 1000000 (io.random .t1)) := by
      unfold leaseDeadlines
      rw [if_neg hboth, if_neg ht2, if_pos hgiven, if_neg (by simp only [computeTimeout_eq]; omega)]
    simp only [LeaseTimes.ordered_iff, leaseTimes, hd, computeTimeout_eq, most_le, true_and,
      UInt32.le_iff_toNat_le (a := l.t1), toNat_most]
    omega

theorem ordered_of_wellTimed (h : l.WellTimed) : (leaseTimes io sent l).Ordered := by
  have h1 := io.jitter_lt .t1
  have h2 := io.jitter_lt .t2
  have h2' := io.jitter_lt .t2Again
  have hn : counted l.lifetime = l.lifetime.toNat - 3 := rfl
  by_cases hboth : l.GivesBoth
  · have := h.both hboth
    rw [ordered_both hboth]
    omega
  by_cases ht2 : l.GivesT2
  · have hearly := h.early ht2
    have hlate := h.late ht2
    unfold Lease.FitsDefaults at hearly
    rw [ordered_onlyT2 ht2]
    split <;> omega
  by_cases ht1 : l.GivesT1
  · obtain ⟨hapart, hlong, hmost⟩ := h.onlyT1 ht1
    rw [ordered_onlyT1 ht1, if_neg (by omega)]
    exact ⟨hmost, by omega⟩
  · obtain ⟨hlong, hfits⟩ := h.neither hboth ht2 ht1
    rw [ordered_defaults hboth ht2 ht1]
    omega

/-- Each part of the condition is forced by one or two choices of the jitter. -/
theorem wellTimed_of_ordered (h : ∀ ds, (leaseTimes (latest ds sent) sent l).Ordered) :
    l.WellTimed := by
  have hn : counted l.lifetime = l.lifetime.toNat - 3 := rfl
  constructor
  case both =>
    intro hboth
    have h1 := (ordered_both hboth).mp (h [.t1])
    have h2 := (ordered_both hboth).mp (h [.t2])
    simp [jitter_latest] at h1 h2
    omega
  case early =>
    intro ht2 hle
    have h1 := (ordered_onlyT2 ht2).mp (h [.t1])
    have h2 := (ordered_onlyT2 ht2).mp (h [.t1, .t2Again])
    simp [jitter_latest] at h1 h2
    rw [if_pos (by omega)] at h1 h2
    exact ⟨by omega, h1.1⟩
  case late =>
    intro ht2 hle
    have h2 := (ordered_onlyT2 ht2).mp (h [.t2])
    simp [jitter_latest] at h2
    rw [if_neg (by omega)] at h2
    omega
  case onlyT1 =>
    intro ht1
    have h1 := (ordered_onlyT1 ht1).mp (h [.t1])
    have h2 := (ordered_onlyT1 ht1).mp (h [.t2])
    simp [jitter_latest] at h1 h2
    -- a T1 that may come after the default T2 is after the T2 that replaces it
    split at h1
    · omega
    · split at h2 <;> omega
  case neither =>
    intro hboth ht2 ht1
    have h1 := (ordered_defaults hboth ht2 ht1).mp (h [.t1])
    have h2 := (ordered_defaults hboth ht2 ht1).mp (h [.t2])
    simp [jitter_latest] at h1 h2
    exact ⟨by omega, h1.1⟩

end Kinds

/-! ## The order of the timers -/

/-- Whatever the jitter, the times that a finite lease is stored with and its three deadlines are
in order, and no difference of times wraps around, exactly for the leases that are well timed. -/
theorem setLeaseTimeouts_ordered_iff (l : Lease) (hl : l.lifetime ≠ 0xffffffff) (c : DhcpClient)
    (hsent : c.requestSent ≠ 0) :
    (∀ io : Io, 0 ≤ io.result .eventNow → c.requestSent ≤ io.now →
      setLeaseTimeouts io l c = .ok ((leaseTimes io c.requestSent l).arm io c) ∧
        (leaseTimes io c.requestSent l).Ordered) ↔ l.WellTimed := by
  constructor
  · intro h
    refine @wellTimed_of_ordered c.requestSent l fun ds => ?_
    exact (h (latest ds c.requestSent) (Int.le_refl 0) (Nat.le_refl _)).2
  · intro h io hnow hle
    exact ⟨setLeaseTimeouts_eq hl hnow hsent hle, ordered_of_wellTimed h⟩

/-- A lease of one hour. -/
def hourLease (t1 t2 : UInt32) : Lease where
  address := 0xc0a80064
  subnetMask := 0xffffff00
  router := 0xc0a80001
  serverAddress := 0xc0a80001
  dns := []
  staticRoutes := []
  lifetime := 3600
  t1 := t1
  t2 := t2
  address_ne := by decide
  server_ne := by decide
  lifetime_ne := by decide

theorem hourLease_wellTimed : (hourLease 0 0).WellTimed where
  both h := absurd h.1.1 (by decide)
  early h := absurd h.2.1 (by decide)
  late h := absurd h.2.1 (by decide)
  onlyT1 h := absurd h.2.2.1 (by decide)
  neither _ _ _ := ⟨by decide, by decide⟩

theorem hourLease_ordered : (hourLease 0 0).lifetime ≠ 0xffffffff ∧
    ∀ io : Io, 0 ≤ io.result .eventNow → 5 ≤ io.now →
      (leaseTimes io 5 (hourLease 0 0)).Ordered :=
  ⟨by decide, fun io hnow hle => ((setLeaseTimeouts_ordered_iff (hourLease 0 0) (by decide)
    { requestSent := 5 } (by decide)).mpr hourLease_wellTimed io hnow hle).2⟩

/-- The server gives a T1 of 3500 seconds and no T2. It comes after the default T2, and instead of
T1 it is T2 that is set to half the lifetime: T1 is armed after T2, and the first renewal would be
repeated after 68 years. -/
theorem late_t1_wraps :
    (setLeaseTimeouts (latest [] 1000000) (hourLease 3500 0)
      { requestSent := 1000000 }).toOption.any fun p =>
        p.2.timeoutT2 = some 1799500000 ∧ p.2.timeoutT1 = some 3498000000 ∧
        p.2.lease.map (·.t2) = some 1800 ∧ p.2.lease.map (·.t1) = some 3500 ∧
        renewalTimeLeft p.2 (fun l => (l.t2, l.t1)) = 2147482798 * 1000000 := by
  decide +kernel

end CarFi.Roamingd
