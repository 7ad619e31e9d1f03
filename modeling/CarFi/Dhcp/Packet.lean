import CarFi.Library.OnesComplement

/-!
# IP and UDP headers

`dhcp-packet.c` puts the headers of a packet before a DHCP message and checks those of a packet that
was received. Its checksum adds 64 bits at a time on a little-endian machine
(`dhcpPacketChecksum_eq`).
-/
namespace CarFi.Dhcp

open Library

/-! ## The checksum -/

/-- The loop over the 64-bit words and the part for the bytes that are left -/
def sum64 (sum : ℕ) (buf : Bytes) : ℕ :=
  if 8 ≤ buf.length then sum64 (addCarry sum (leNat (buf.take 8))) (buf.drop 8)
  else if buf = [] then sum
  else addCarry sum (leNat buf)
  termination_by buf.length
  decreasing_by
    rw [List.length_drop]
    omega

/-- `dhcp_packet_checksum` -/
def dhcpPacketChecksum (buf : Bytes) : ℕ := 65535 - foldCarries (sum64 0 buf)

theorem standsFor_sum64 {sum s : ℕ} (h : StandsFor sum s) (buf : Bytes) :
    StandsFor (sum64 sum buf) (s + wordSum buf) := by
  fun_induction sum64 sum buf generalizing s with
  | case1 sum buf hlen ih =>
    have hword := h.addCarry (@standsFor_leNat (buf.take 8) (by simp))
    have hsplit : wordSum buf = wordSum (buf.take 8) + wordSum (buf.drop 8) := by
      rw [← wordSum_append (by simp [Nat.min_eq_left hlen]), List.take_append_drop]
    rw [hsplit, ← Nat.add_assoc]
    exact ih hword
  | case2 sum _ => simpa using h
  | case3 sum buf hlen hne => exact h.addCarry (standsFor_leNat (by omega))

theorem dhcpPacketChecksum_eq (buf : Bytes) :
    dhcpPacketChecksum buf = 65535 - onesSum (wordSum buf) := by
  have hsum := @standsFor_sum64 0 0 ⟨by decide, rfl, Iff.rfl⟩ buf
  rw [Nat.zero_add] at hsum
  rw [dhcpPacketChecksum, foldCarries_eq hsum.modEq hsum.zero]

/-- Adding 64 bits at a time gives the checksum that is defined by 16-bit words. -/
theorem checksum_by_words (buf : Bytes) :
    dhcpPacketChecksum buf = 65535 - (leWords buf).foldl addWord 0 := by
  have hfold := foldl_addWord (leWords_le buf) 0
  rw [show onesSum 0 = 0 from rfl, Nat.zero_add] at hfold
  rw [dhcpPacketChecksum_eq, hfold]
  rfl

/-! ## Packets -/

/-- Two bytes of a header -/
structure Raw16 where
  first : UInt8 := 0
  second : UInt8 := 0
  deriving DecidableEq, Repr

namespace Raw16

def bytes (w : Raw16) : Bytes := [w.first, w.second]

/-- The number that the machine reads -/
def value (w : Raw16) : ℕ := w.first.toNat + 256 * w.second.toNat

/-- The bytes of a number on the machine -/
def native (n : ℕ) : Raw16 := ⟨UInt8.ofNat n, UInt8.ofNat (n / 256)⟩

/-- `htobe16` -/
def htobe16 (n : ℕ) : Raw16 := ⟨UInt8.ofNat (n / 256), UInt8.ofNat n⟩

/-- `be16toh` -/
def be16toh (w : Raw16) : ℕ := 256 * w.first.toNat + w.second.toNat

theorem value_native {n : ℕ} (h : n < 65536) : (native n).value = n := by
  simp only [value, native, UInt8.toNat_ofNat']
  omega

theorem be16toh_htobe16 {n : ℕ} (h : n < 65536) : (htobe16 n).be16toh = n := by
  simp only [be16toh, htobe16, UInt8.toNat_ofNat']
  omega

theorem value_lt (w : Raw16) : w.value < 65536 := by
  have := w.first.toNat_lt
  have := w.second.toNat_lt
  rw [value]
  omega

theorem value_inj {v w : Raw16} (h : v.value = w.value) : v = w := by
  obtain ⟨a, b⟩ := v
  obtain ⟨c, d⟩ := w
  have := a.toNat_lt
  have := c.toNat_lt
  simp only [value] at h
  obtain ⟨h₁, h₂⟩ : a.toNat = c.toNat ∧ b.toNat = d.toNat := by omega
  rw [UInt8.toNat_inj.mp h₁, UInt8.toNat_inj.mp h₂]

end Raw16

/-- `struct iphdr`. The first byte has the version in its upper and the length in its lower half. -/
structure Iphdr where
  versionIhl : UInt8 := 0
  tos : UInt8 := 0
  totLen : Raw16 := {}
  id : Raw16 := {}
  fragOff : Raw16 := {}
  ttl : UInt8 := 0
  protocol : UInt8 := 0
  check : Raw16 := {}
  saddr : Raw16 × Raw16 := ({}, {})
  daddr : Raw16 × Raw16 := ({}, {})

def Iphdr.words (h : Iphdr) : List Raw16 :=
  [⟨h.versionIhl, h.tos⟩, h.totLen, h.id, h.fragOff, ⟨h.ttl, h.protocol⟩, h.check,
    h.saddr.1, h.saddr.2, h.daddr.1, h.daddr.2]

/-- `struct udphdr` -/
structure Udphdr where
  source : Raw16 := {}
  dest : Raw16 := {}
  len : Raw16 := {}
  check : Raw16 := {}

def Udphdr.words (h : Udphdr) : List Raw16 := [h.source, h.dest, h.len, h.check]

/-- `DHCPPacket`, with the bytes of the message and its options -/
structure DHCPPacket where
  ip : Iphdr := {}
  udp : Udphdr := {}
  dhcp : Bytes

namespace DHCPPacket

def bytes (p : DHCPPacket) : Bytes := (p.ip.words ++ p.udp.words).flatMap Raw16.bytes ++ p.dhcp

/-- The checksum of some bytes of a packet; `none` if they are not all in it. -/
def checksumAt (p : DHCPPacket) (offset n : ℕ) : Option ℕ :=
  if offset + n ≤ p.bytes.length then some (dhcpPacketChecksum ((p.bytes.drop offset).take n))
  else none

/-- The headers before the checksums. The pseudo header of UDP is put together in the IP header. -/
def addressed (p : DHCPPacket) (sourceAddr : Raw16 × Raw16) (sourcePort : UInt16)
    (destinationAddr : Raw16 × Raw16) (destinationPort : UInt16) (len : ℕ) : DHCPPacket where
  ip := { p.ip with
    versionIhl := 0x45, totLen := Raw16.htobe16 len, tos := 0xc0, protocol := 17
    saddr := sourceAddr, daddr := destinationAddr, check := Raw16.htobe16 (len - 20) }
  udp := { p.udp with
    source := Raw16.htobe16 sourcePort.toNat, dest := Raw16.htobe16 destinationPort.toNat
    len := Raw16.htobe16 (len - 20) }
  dhcp := p.dhcp

/-- The UDP checksum is put in, and the IP header is made ready for its own. -/
def withUdpCheck (p : DHCPPacket) (check : ℕ) : DHCPPacket :=
  { p with
    udp := { p.udp with check := Raw16.native check }
    ip := { p.ip with ttl := 64, check := {} } }

def withIpCheck (p : DHCPPacket) (check : ℕ) : DHCPPacket :=
  { p with ip := { p.ip with check := Raw16.native check } }

/-- `dhcp_packet_append_ip_headers`; `none` if it reads past the end of the packet. -/
def appendIpHeaders (p : DHCPPacket) (sourceAddr : Raw16 × Raw16) (sourcePort : UInt16)
    (destinationAddr : Raw16 × Raw16) (destinationPort : UInt16) (len : ℕ) :
    Option DHCPPacket := do
  let p := p.addressed sourceAddr sourcePort destinationAddr destinationPort len
  let check ← p.checksumAt 8 (len - 8)
  let p := p.withUdpCheck check
  let check ← p.checksumAt 0 20
  some (p.withIpCheck check)

/-- Why a packet is not accepted. Reading past its end is undefined in C. -/
inductive Refusal where
  | einval
  | overrun
  deriving DecidableEq, Repr

/-- The check of the UDP checksum, which changes the header on the way -/
def verifyUdp (p : DHCPPacket) : Except Refusal DHCPPacket :=
  let p := { p with ip := { p.ip with check := p.udp.len, ttl := 0 } }
  match p.checksumAt 8 (p.udp.len.be16toh + 12) with
  | none => .error .overrun
  | some sum => if sum ≠ 0 then .error .einval else .ok p

def hdrlen (p : DHCPPacket) : ℕ := p.ip.versionIhl.toNat % 16 * 4

/-- The part for the checksums -/
def verifyChecksums (p : DHCPPacket) (checksum : Bool) : Except Refusal DHCPPacket :=
  match p.checksumAt 0 p.hdrlen with
  | none => .error .overrun
  | some sum =>
    if sum ≠ 0 then .error .einval
    else if checksum = true ∧ p.udp.check ≠ {} then verifyUdp p
    else .ok p

/-- `dhcp_packet_verify_headers`. The length of the IP header is not used to find the UDP header. -/
def verifyHeaders (p : DHCPPacket) (len : ℕ) (checksum : Bool) : Except Refusal DHCPPacket :=
  if p.ip.versionIhl.toNat / 16 ≠ 4 then .error .einval
  else if p.ip.versionIhl.toNat % 16 < 5 then .error .einval
  else if p.hdrlen < 20 then .error .einval
  else if len < p.hdrlen then .error .einval
  else if p.ip.protocol ≠ 17 then .error .einval
  else if len < p.hdrlen + p.udp.len.be16toh then .error .einval
  else if p.udp.dest.be16toh ≠ 68 then .error .einval
  else p.verifyChecksums checksum

/-! ## What is read -/

theorem length_bytes (p : DHCPPacket) : p.bytes.length = 28 + p.dhcp.length := by
  simp [bytes, Iphdr.words, Udphdr.words, Raw16.bytes]
  omega

/-- The words of the bytes add up to the greatest sum. -/
def Balanced (bytes : Bytes) : Prop := wordSum bytes ≠ 0 ∧ wordSum bytes ≡ 0 [MOD 65535]

theorem checksum_eq_zero {bytes : Bytes} : dhcpPacketChecksum bytes = 0 ↔ Balanced bytes := by
  have hle := onesSum_le (wordSum bytes)
  rw [Balanced, ← onesSum_eq_iff, dhcpPacketChecksum_eq]
  omega

theorem checksumAt_of_le {p : DHCPPacket} {offset n : ℕ} (h : offset + n ≤ p.bytes.length) :
    p.checksumAt offset n = some (dhcpPacketChecksum ((p.bytes.drop offset).take n)) := if_pos h

/-- The packet with the pseudo header in place of the part of the IP header -/
def pseudo (p : DHCPPacket) : DHCPPacket :=
  { p with ip := { p.ip with check := p.udp.len, ttl := 0 } }

/-- What is asked of the checksums of a packet -/
structure SumsRight (p : DHCPPacket) (checksum : Bool) : Prop where
  ip : Balanced (p.bytes.take p.hdrlen)
  udp : checksum = true → p.udp.check ≠ {} →
    Balanced ((p.pseudo.bytes.drop 8).take (p.udp.len.be16toh + 12))

/-- What is asked of a packet -/
structure Accepts (p : DHCPPacket) (len : ℕ) (checksum : Bool) : Prop where
  version : p.ip.versionIhl.toNat / 16 = 4
  ihl : 20 ≤ p.hdrlen
  protocol : p.ip.protocol = 17
  length : p.hdrlen + p.udp.len.be16toh ≤ len
  dest : p.udp.dest.be16toh = 68
  sums : p.SumsRight checksum

theorem verifyUdp_eq {p : DHCPPacket} (h : 20 + p.udp.len.be16toh ≤ p.bytes.length) :
    verifyUdp p = if dhcpPacketChecksum
      ((p.pseudo.bytes.drop 8).take (p.udp.len.be16toh + 12)) ≠ 0
      then .error .einval else .ok p.pseudo := by
  have hread : p.pseudo.checksumAt 8 (p.udp.len.be16toh + 12) =
      some (dhcpPacketChecksum ((p.pseudo.bytes.drop 8).take (p.udp.len.be16toh + 12))) := by
    apply checksumAt_of_le
    rw [length_bytes] at h ⊢
    simp only [pseudo]
    omega
  unfold pseudo at hread ⊢
  simp only [verifyUdp, hread]

theorem verifyChecksums_spec {p : DHCPPacket} {checksum : Bool} (hihl : 20 ≤ p.hdrlen)
    (hlen : p.hdrlen + p.udp.len.be16toh ≤ p.bytes.length) :
    (p.verifyChecksums checksum = .error .einval ∧ ¬p.SumsRight checksum) ∨
      ∃ p', p.verifyChecksums checksum = .ok p' ∧ p'.dhcp = p.dhcp ∧
        p.SumsRight checksum := by
  have hip := @checksumAt_of_le p 0 p.hdrlen (by omega)
  rw [List.drop_zero] at hip
  have hudp := verifyUdp_eq (show 20 + p.udp.len.be16toh ≤ p.bytes.length by omega)
  simp only [verifyChecksums, hip, hudp]
  by_cases h₁ : dhcpPacketChecksum (p.bytes.take p.hdrlen) = 0
  · rw [if_neg (not_not.mpr h₁)]
    by_cases h₂ : checksum = true ∧ p.udp.check ≠ {}
    · rw [if_pos h₂]
      by_cases h₃ : dhcpPacketChecksum ((p.pseudo.bytes.drop 8).take (p.udp.len.be16toh + 12)) = 0
      · rw [if_neg (not_not.mpr h₃)]
        exact .inr ⟨_, rfl, rfl, checksum_eq_zero.mp h₁, fun _ _ => checksum_eq_zero.mp h₃⟩
      · rw [if_pos h₃]
        exact .inl ⟨rfl, fun h => h₃ (checksum_eq_zero.mpr (h.udp h₂.1 h₂.2))⟩
    · rw [if_neg h₂]
      exact .inr ⟨_, rfl, rfl, checksum_eq_zero.mp h₁, fun h h' => absurd ⟨h, h'⟩ h₂⟩
  · rw [if_pos h₁]
    exact .inl ⟨rfl, fun h => h₁ (checksum_eq_zero.mpr h.ip)⟩

/-- The checks of the headers refuse the packet or leave it to those of the checksums. -/
theorem verifyHeaders_cases (p : DHCPPacket) (len : ℕ) (checksum : Bool) :
    (p.verifyHeaders len checksum = .error .einval ∧ ¬p.Accepts len checksum) ∨
      p.verifyHeaders len checksum = p.verifyChecksums checksum ∧ 20 ≤ p.hdrlen ∧
        p.hdrlen + p.udp.len.be16toh ≤ len ∧
          (p.SumsRight checksum → p.Accepts len checksum) := by
  unfold verifyHeaders
  by_cases h₁ : p.ip.versionIhl.toNat / 16 ≠ 4
  · exact .inl ⟨if_pos h₁, fun h => h₁ h.version⟩
  rw [if_neg h₁]
  by_cases h₂ : p.ip.versionIhl.toNat % 16 < 5
  · refine .inl ⟨if_pos h₂, fun h => ?_⟩
    have hihl := h.ihl
    rw [hdrlen] at hihl
    omega
  rw [if_neg h₂]
  by_cases h₃ : p.hdrlen < 20
  · exact .inl ⟨if_pos h₃, fun h => h₃.not_ge h.ihl⟩
  rw [if_neg h₃]
  by_cases h₄ : len < p.hdrlen
  · refine .inl ⟨if_pos h₄, fun h => ?_⟩
    have hlength := h.length
    omega
  rw [if_neg h₄]
  by_cases h₅ : p.ip.protocol ≠ 17
  · exact .inl ⟨if_pos h₅, fun h => h₅ h.protocol⟩
  rw [if_neg h₅]
  by_cases h₆ : len < p.hdrlen + p.udp.len.be16toh
  · exact .inl ⟨if_pos h₆, fun h => h₆.not_ge h.length⟩
  rw [if_neg h₆]
  by_cases h₇ : p.udp.dest.be16toh ≠ 68
  · exact .inl ⟨if_pos h₇, fun h => h₇ h.dest⟩
  rw [if_neg h₇]
  refine .inr ⟨rfl, by omega, by omega, fun hsums => ?_⟩
  exact ⟨not_not.mp h₁, by omega, not_not.mp h₅, by omega, not_not.mp h₇, hsums⟩

/-- An empty message from the port of the server, with both checksums -/
def emptyReply : DHCPPacket where
  ip.versionIhl := 0x45
  ip.totLen := ⟨0, 28⟩
  ip.ttl := 64
  ip.protocol := 17
  ip.check := ⟨0x7a, 0xd2⟩
  udp.source := ⟨0, 67⟩
  udp.dest := ⟨0, 68⟩
  udp.len := ⟨0, 8⟩
  udp.check := ⟨0xff, 0x57⟩
  dhcp := []

theorem emptyReply_accepts : emptyReply.Accepts 28 true where
  version := rfl
  ihl := by decide
  protocol := rfl
  length := by decide
  dest := rfl
  sums := ⟨by unfold Balanced; decide, fun _ _ => by unfold Balanced; decide⟩

theorem wordSum_words (words : List Raw16) (rest : Bytes) :
    wordSum (words.flatMap Raw16.bytes ++ rest) = (words.map Raw16.value).sum + wordSum rest := by
  induction words with
  | nil => simp
  | cons w words ih =>
    simp only [List.flatMap_cons, Raw16.bytes, List.cons_append, List.nil_append, wordSum_cons_cons,
      List.map_cons, List.sum_cons, Raw16.value] at ih ⊢
    omega

theorem wordSum_drop (p : DHCPPacket) : wordSum (p.bytes.drop 8) =
    ((p.ip.words.drop 4 ++ p.udp.words).map Raw16.value).sum + wordSum p.dhcp :=
  wordSum_words (p.ip.words.drop 4 ++ p.udp.words) p.dhcp

theorem wordSum_take (p : DHCPPacket) :
    wordSum (p.bytes.take 20) = (p.ip.words.map Raw16.value).sum := by
  have hbytes : p.bytes.take 20 = p.ip.words.flatMap Raw16.bytes ++ [] := rfl
  rw [hbytes, wordSum_words]
  rfl

/-- The checksum makes the words that it is one of add up. -/
theorem balanced_of_complement {bytes : Bytes} {s : ℕ}
    (h : wordSum bytes = s + (65535 - onesSum s)) : Balanced bytes := by
  rw [Balanced, ← onesSum_eq_iff, h, onesSum_complement]

theorem value_native_checksum (bytes : Bytes) :
    (Raw16.native (dhcpPacketChecksum bytes)).value = 65535 - onesSum (wordSum bytes) := by
  rw [Raw16.value_native, dhcpPacketChecksum_eq]
  rw [dhcpPacketChecksum_eq]
  omega

/-- The headers of a packet that is sent -/
structure Headers (p : DHCPPacket) (destinationPort : UInt16) (len : ℕ) : Prop where
  versionIhl : p.ip.versionIhl = 0x45
  protocol : p.ip.protocol = 17
  dest : p.udp.dest = Raw16.htobe16 destinationPort.toNat
  udpLen : p.udp.len = Raw16.htobe16 (len - 20)
  ipSum : Balanced (p.bytes.take 20)
  udpSum : Balanced (p.pseudo.bytes.drop 8)

/-- Putting the checksum of the IP header in balances it. -/
theorem balanced_withIpCheck {p : DHCPPacket} (h : p.ip.check = {}) :
    Balanced ((p.withIpCheck (dhcpPacketChecksum (p.bytes.take 20))).bytes.take 20) := by
  have hzero : Raw16.value {} = 0 := rfl
  apply balanced_of_complement (s := wordSum (p.bytes.take 20))
  rw [wordSum_take, ← value_native_checksum]
  generalize dhcpPacketChecksum (p.bytes.take 20) = check
  simp only [wordSum_take, withIpCheck, Iphdr.words, h, hzero, List.map_cons, List.map_nil,
    List.sum_cons, List.sum_nil]
  omega

/-- Putting the checksum of UDP in balances the pseudo header with what follows it. -/
theorem balanced_withUdpCheck {p : DHCPPacket} (httl : p.ip.ttl = 0) (hlen : p.ip.check = p.udp.len)
    (hcheck : p.udp.check = {}) (check : ℕ) :
    Balanced (((p.withUdpCheck (dhcpPacketChecksum (p.bytes.drop 8))).withIpCheck
      check).pseudo.bytes.drop 8) := by
  have hzero : Raw16.value {} = 0 := rfl
  apply balanced_of_complement (s := wordSum (p.bytes.drop 8))
  rw [wordSum_drop, ← value_native_checksum]
  generalize dhcpPacketChecksum (p.bytes.drop 8) = sum
  simp only [wordSum_drop, pseudo, withIpCheck, withUdpCheck, Iphdr.words, Udphdr.words,
    httl, hlen, hcheck, hzero, List.drop_succ_cons, List.drop_zero, List.cons_append,
    List.nil_append, List.map_cons, List.map_nil, List.sum_cons, List.sum_nil]
  omega

theorem appendIpHeaders_headers {p : DHCPPacket} (httl : p.ip.ttl = 0) (hcheck : p.udp.check = {})
    (sourceAddr destinationAddr : Raw16 × Raw16) (sourcePort destinationPort : UInt16) :
    ∃ p', p.appendIpHeaders sourceAddr sourcePort destinationAddr destinationPort p.bytes.length =
      some p' ∧ p'.dhcp = p.dhcp ∧ p'.Headers destinationPort p.bytes.length := by
  have hread {q : DHCPPacket} (hq : q.dhcp = p.dhcp) : q.checksumAt 8 (p.bytes.length - 8) =
      some (dhcpPacketChecksum (q.bytes.drop 8)) := by
    have hlen := p.length_bytes
    have hq := hq ▸ q.length_bytes
    rw [checksumAt_of_le (by omega), List.take_of_length_le (by rw [List.length_drop]; omega)]
  have hhead (q : DHCPPacket) :
      q.checksumAt 0 20 = some (dhcpPacketChecksum (q.bytes.take 20)) := by
    have hq := q.length_bytes
    rw [checksumAt_of_le (by omega), List.drop_zero]
  let q := p.addressed sourceAddr sourcePort destinationAddr destinationPort p.bytes.length
  let r := q.withUdpCheck (dhcpPacketChecksum (q.bytes.drop 8))
  refine ⟨r.withIpCheck (dhcpPacketChecksum (r.bytes.take 20)), ?_, rfl, rfl, rfl, rfl,
    rfl, ?_, ?_⟩
  · have hq : q.checksumAt 8 (p.bytes.length - 8) = some (dhcpPacketChecksum (q.bytes.drop 8)) :=
      hread rfl
    simp only [appendIpHeaders, hq, hhead, Option.bind_eq_bind, Option.bind_some, q, r]
  · exact @balanced_withIpCheck r rfl
  · exact @balanced_withUdpCheck q httl rfl hcheck _

/-- A packet with such headers is accepted exactly if it is for the port of the client. -/
theorem Headers.verify {p : DHCPPacket} {destinationPort : UInt16}
    (h : p.Headers destinationPort p.bytes.length) (hlen : p.bytes.length < 65536)
    (checksum : Bool) : (∃ q, p.verifyHeaders p.bytes.length checksum = .ok q ∧
      q.dhcp = p.dhcp) ↔ destinationPort = 68 := by
  have hbytes := p.length_bytes
  have hudp : p.udp.len.be16toh = p.bytes.length - 20 := by
    rw [h.udpLen, Raw16.be16toh_htobe16 (by omega)]
  have hhdrlen : p.hdrlen = 20 := by
    rw [hdrlen, h.versionIhl]
    rfl
  have hport : p.udp.dest.be16toh ≠ 68 ↔ destinationPort ≠ 68 := by
    rw [h.dest, Raw16.be16toh_htobe16 destinationPort.toNat_lt, not_iff_not, ← UInt16.toNat_inj]
    rfl
  have hsums : p.SumsRight checksum := by
    refine ⟨hhdrlen ▸ h.ipSum, fun _ _ => ?_⟩
    rw [List.take_of_length_le]
    · exact h.udpSum
    · have := p.pseudo.length_bytes
      rw [show p.pseudo.dhcp = p.dhcp from rfl] at this
      rw [List.length_drop, hudp]
      omega
  rw [verifyHeaders, h.versionIhl, h.protocol, hhdrlen, hudp, if_neg (by decide),
    if_neg (by decide), if_neg (by omega), if_neg (by omega), if_neg (by decide), if_neg (by omega)]
  by_cases hdp : destinationPort = 68
  · rw [if_neg (fun hne => hport.mp hne hdp)]
    rcases @verifyChecksums_spec p checksum (by omega) (by omega) with
      ⟨-, hno⟩ | ⟨q, hok, hq, -⟩
    · exact absurd hsums hno
    · exact ⟨fun _ => hdp, fun _ => ⟨q, hok, hq⟩⟩
  · rw [if_pos (hport.mpr hdp)]
    simp [hdp]

/-- A packet that was sent is accepted by the checks exactly if it is for the port of the client,
and its message arrives as it is. -/
theorem append_verify {p : DHCPPacket} (httl : p.ip.ttl = 0) (hcheck : p.udp.check = {})
    (hlen : p.bytes.length < 65536) (sourceAddr destinationAddr : Raw16 × Raw16)
    (sourcePort destinationPort : UInt16) :
    ∃ p',
      p.appendIpHeaders sourceAddr sourcePort destinationAddr destinationPort p.bytes.length =
        some p' ∧
      p'.dhcp = p.dhcp ∧
      ∀ checksum,
        (∃ q, p'.verifyHeaders p.bytes.length checksum = .ok q ∧ q.dhcp = p.dhcp) ↔
          destinationPort = 68 := by
  obtain ⟨p', happend, hdhcp, h⟩ :=
    appendIpHeaders_headers httl hcheck sourceAddr destinationAddr sourcePort destinationPort
  have hbytes : p'.bytes.length = p.bytes.length := by rw [length_bytes, length_bytes, hdhcp]
  rw [← hbytes] at h hlen
  refine ⟨p', happend, hdhcp, fun checksum => ?_⟩
  rw [← hbytes, ← hdhcp]
  exact h.verify hlen checksum

/-- A broadcast of a small message, to the client -/
theorem append_verify_small :
    ∃ p', (⟨{}, {}, List.replicate 240 1⟩ : DHCPPacket).appendIpHeaders ({}, {}) 67
        (⟨255, 255⟩, ⟨255, 255⟩) 68 268 = some p' ∧
      ∃ q, p'.verifyHeaders 268 true = .ok q ∧ q.dhcp = List.replicate 240 1 := by
  have hlen : (⟨{}, {}, List.replicate 240 1⟩ : DHCPPacket).bytes.length = 268 := by
    rw [length_bytes, List.length_replicate]
  obtain ⟨p', happend, -, haccepted⟩ :=
    append_verify (p := ⟨{}, {}, List.replicate 240 1⟩) rfl rfl (by rw [hlen]; decide) ({}, {})
      (⟨255, 255⟩, ⟨255, 255⟩) 67 68
  rw [hlen] at happend haccepted
  exact ⟨p', happend, (haccepted true).mpr rfl⟩

/-! ## Words that are changed on the way -/

theorem balanced_of_verify {p p' : DHCPPacket} {len : ℕ} {checksum : Bool}
    (hlen : len ≤ p.bytes.length) (h : p.verifyHeaders len checksum = .ok p') :
    Balanced (p.bytes.take p.hdrlen) := by
  rcases verifyHeaders_cases p len checksum with ⟨he, -⟩ | ⟨heq, hihl, hlength, -⟩
  · rw [he] at h
    cases h
  rcases @verifyChecksums_spec p checksum hihl (hlength.trans hlen) with
    ⟨he, -⟩ | ⟨-, -, -, hsums⟩
  · rw [heq, he] at h
    cases h
  · exact hsums.ip

/-- The sum of the bytes before `n` with one word set apart -/
theorem wordSum_take_word {before after : Bytes} (heven : 2 ∣ before.length) (w : Raw16) {n : ℕ}
    (hn : before.length + 2 ≤ n) :
    wordSum ((before ++ (w.bytes ++ after)).take n) =
      wordSum before + (w.value + wordSum (after.take (n - before.length - 2))) := by
  obtain ⟨k, rfl⟩ : ∃ k, n = before.length + (k + 1 + 1) :=
    ⟨n - before.length - 2, by omega⟩
  rw [List.take_length_add_append, wordSum_append heven]
  simp [Raw16.bytes, Raw16.value]

/-- If one 16-bit word of the IP header of an accepted packet is changed, the packet is not accepted
any more, unless the word was all zeros and is all ones now or the other way round. -/
theorem changed_word_refused {p q p' : DHCPPacket} {len : ℕ} {checksum : Bool}
    {before after : Bytes} {v w : Raw16} (hlen : len ≤ p.bytes.length)
    (hp : p.verifyHeaders len checksum = .ok p') (hpbytes : p.bytes = before ++ (v.bytes ++ after))
    (hqbytes : q.bytes = before ++ (w.bytes ++ after)) (heven : 2 ∣ before.length)
    (hinside : before.length < p.hdrlen) (hsame : q.hdrlen = p.hdrlen) (hne : v ≠ w)
    (hswap : ¬(v.value = 0 ∧ w.value = 65535 ∨ v.value = 65535 ∧ w.value = 0)) :
    ∀ q', q.verifyHeaders len checksum ≠ .ok q' := by
  intro q' hq
  have hn : before.length + 2 ≤ p.hdrlen := by
    have : p.hdrlen = p.ip.versionIhl.toNat % 16 * 4 := rfl
    omega
  have hqlen : len ≤ q.bytes.length := by
    simp only [hpbytes, hqbytes, Raw16.bytes, List.length_append, List.length_cons] at hlen ⊢
    exact hlen
  have hv := (balanced_of_verify hlen hp).2
  have hw := (balanced_of_verify hqlen hq).2
  rw [hpbytes, wordSum_take_word heven v hn] at hv
  rw [hqbytes, hsame, wordSum_take_word heven w hn] at hw
  have hvlt := v.value_lt
  have hwlt := w.value_lt
  have hvalue : v.value ≠ w.value := fun h => hne (Raw16.value_inj h)
  unfold Nat.ModEq at hv hw
  omega

/-- A changed type of service is noticed. -/
theorem changed_word_refused_tos :
    ∃ p p' : DHCPPacket, p.verifyHeaders p.bytes.length true = .ok p' ∧
      ∀ q', { p with ip := { p.ip with tos := p.ip.tos + 1 } }.verifyHeaders
        p.bytes.length true ≠ .ok q' := by
  have hlen : (⟨{}, {}, List.replicate 240 1⟩ : DHCPPacket).bytes.length = 268 := by
    rw [length_bytes, List.length_replicate]
  obtain ⟨p, -, hdhcp, h⟩ :=
    appendIpHeaders_headers (p := ⟨{}, {}, List.replicate 240 1⟩) rfl rfl ({}, {})
      (⟨255, 255⟩, ⟨255, 255⟩) 67 68
  have hbytes : p.bytes.length = 268 := by rw [length_bytes, hdhcp, List.length_replicate]
  rw [hlen, ← hbytes] at h
  obtain ⟨p', hp, -⟩ := (h.verify (by omega) true).mpr rfl
  refine ⟨p, p', hp, @changed_word_refused p _ p' _ true [] _ ⟨p.ip.versionIhl, p.ip.tos⟩
    ⟨p.ip.versionIhl, p.ip.tos + 1⟩ le_rfl hp rfl rfl (Nat.dvd_zero 2) ?_ rfl (by simp) ?_⟩
  · rw [hdrlen, h.versionIhl]
    decide
  · simp [Raw16.value, h.versionIhl]

end DHCPPacket

end CarFi.Dhcp
