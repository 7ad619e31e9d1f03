import CarFi.Roamingd.Link
import CarFi.Analyzer.RmParser

/-!
# What roamingd prints

The texts of the messages about an interface, and the log in which they stand. A row starts with
a timestamp and the name of the interface. The rows are those of all interfaces as they come,
and any row that the analyser does not know may stand between them.
-/
namespace CarFi.Roamingd

open Library Library.Regex Library.PyText Library.Printf Analyzer

/-- `%u.%u.%u.%u` -/
def addressText (a : InAddr) : List Char :=
  decText (a.toNat / 2 ^ 24) ++ '.' :: decText (a.toNat / 2 ^ 16 % 256) ++
  '.' :: decText (a.toNat / 2 ^ 8 % 256) ++ '.' :: decText (a.toNat % 256)

/-- What the texts depend on besides the message: the number of the interface and the texts of
the error numbers. -/
structure Locale where
  ifindex : Nat
  strerror : Int → List Char

/-- A failure, without the text of its error number. -/
def Failure.words : Failure → String
  | .clientFailed => "DHCP error: Client failed: "
  | .noLeaseAcquired => "DHCP error: No lease: "
  | .noLeaseRenewed => "DHCP error: no lease: "
  | .updateAddress => "Could not update IP address: "
  | .setAddress => "Could not set DHCPv4 address: "
  | .setRoute => "Could not set DHCPv4 route: "
  | .hostRoute => "Could not set host route: "
  | .routes => "Could not set routes: "
  | .staticRoute => "Could not set host route: "
  | .acquireLease => "Could not acquire DHCPv4 lease: "
  | .sendUp => "Could not send rtnetlink message: "
  | .bringUp => "Could not bring up interface: "
  | .dropRoute => "Could not drop route: "
  | .dropAddress => "Could not drop address: "

/-- A message up to its first argument. -/
def LogMsg.words : LogMsg → String
  | .linkAdded => "Link "
  | .upToDate => "Link state is up-to-date"
  | .unmanaged => "Unmanaged"
  | .bringingUp => "Bringing link up"
  | .failed => "Failed"
  | .configured => "Configured"
  | .gainedCarrier => "Gained carrier"
  | .lostCarrier => "Lost carrier"
  | .linkRemoved => "Link removed"
  | .linkReadded => "Link readded"
  | .acquiringLease => "Acquiring DHCPv4 lease"
  | .leaseLost => "DHCP lease lost"
  | .address _ => "DHCPv4 address "
  | .dhcpServer _ => "DHCPv4 Server: "
  | .dnsServer _ _ => "DNSv4 Server "
  | .failure f _ => f.words

/-- The rest of a message. The address of a lease has its gateway only if there is one. -/
def LogMsg.arguments (loc : Locale) : LogMsg → List Char
  | .linkAdded => decText loc.ifindex ++ " added".toList
  | .address l =>
    addressText l.address ++ '/' :: decText (prefixlenOf l.subnetMask) ++
      if l.router = 0 then [] else " via ".toList ++ addressText l.router
  | .dhcpServer a => addressText a
  | .dnsServer i a => decText i ++ ": ".toList ++ addressText a
  | .failure _ errno => loc.strerror errno
  | _ => []

/-- The text of a message after the name of the interface. -/
def LogMsg.text (loc : Locale) (m : LogMsg) : List Char := m.words.toList ++ m.arguments loc

/-- `Printed locale log ms`: the log has the messages `ms`, each about its interface, in this
order, and between them rows that the analyser does not know. -/
inductive Printed (locale : Intf → Locale) : List Row → List (Intf × LogMsg) → Prop
  | nil : Printed locale [] []
  | other {row : Row} {log : List Row} {ms : List (Intf × LogMsg)}
      (hrow : RMEvent.ofRow row = none) (h : Printed locale log ms) :
      Printed locale (row :: log) ms
  | message {head : LogHead} {ts : ℚ} {m : LogMsg} {log : List Row} {ms : List (Intf × LogMsg)}
      (hts : float head.stamp = some ts) (h : Printed locale log ms) :
      Printed locale (head.line (m.text (locale head.nic)) :: log) ((head.nic, m) :: ms)

theorem Printed.split {locale : Intf → Locale} {log : List Row} {ms ms' : List (Intf × LogMsg)}
    (h : Printed locale log (ms ++ ms')) :
    ∃ log₁ log₂, log = log₁ ++ log₂ ∧ Printed locale log₁ ms ∧
      Printed locale log₂ ms' := by
  generalize hall : ms ++ ms' = all at h
  induction h generalizing ms with
  | nil =>
    obtain ⟨rfl, rfl⟩ := List.append_eq_nil_iff.mp hall
    exact ⟨[], [], rfl, .nil, .nil⟩
  | other hrow h ih =>
    obtain ⟨log₁, log₂, rfl, h₁, h₂⟩ := ih hall
    exact ⟨_ :: log₁, log₂, rfl, .other hrow h₁, h₂⟩
  | @message head ts m log all hts h ih =>
    cases ms with
    | nil =>
      obtain rfl : ms' = (head.nic, m) :: all := hall
      exact ⟨[], _, rfl, .nil, .message hts h⟩
    | cons x ms =>
      obtain ⟨rfl, hms⟩ := List.cons_eq_cons.mp hall
      obtain ⟨log₁, log₂, rfl, h₁, h₂⟩ := ih hms
      exact ⟨_ :: log₁, log₂, rfl, .message hts h₁, h₂⟩

end CarFi.Roamingd
