import CarFi.Analyzer.SweepJoin

/-!
# The rows of the database

The table `APTCPInfo` of `analyzer/lib/db_op.py`, and the attributes that `Parser._parse_exp`
sets on a row. Any attribute can be set on a row; those that are columns of the table are stored.
-/
namespace CarFi.Analyzer

/-! ## Attributes and columns -/

/-- The names that `_parse_exp` sets or the table declares. -/
inductive Attr where
  | interface | avg_speed | dist_km
  | l2_avg_signal | l2_stderr_signal | l2_essid | l2_bssid | l2_freq | l2_signal_lv
  | l2_assoc_type | l2_auth_t_s | l2_auth_t_e | l2_assoc_t_s | l2_assoc_t_e | l2_hs_t_s
  | l2_hs_t_e | l2_conn_t_s | l2_conn_t_e
  | l3_dhcp_t_s | l3_dhcp_t_e | l3_ip_t_s | l3_ip_t_e | l3_ip | l3_ip_prefix | l3_ip_gw | l3_gw
  | l3_dhcp_server | l3_dns_servers
  | tcp_t_s | tcp_t_e | tcp_t_s_pcap | tcp_t_e_pcap | tcp_direction | tcp_cc | tcp_flow_nb
  | tcp_flows | tcp_total_bytes_app | tcp_total_bytes_pcap | tcp_goodput_app | tcp_goodput_pcap
  | tcp_total_pkts | tcp_rxmt_pkts | tcp_loss_rate | tcp_test_local_id
  deriving DecidableEq, Repr

/-- The columns of the table `APTCPInfo`, without its key. -/
def columns : List Attr :=
  [.interface, .avg_speed, .dist_km, .l2_avg_signal, .l2_stderr_signal, .l2_essid, .l2_bssid,
    .l2_freq, .l2_signal_lv, .l2_assoc_type, .l2_auth_t_s, .l2_auth_t_e, .l2_assoc_t_s,
    .l2_assoc_t_e, .l2_hs_t_s, .l2_hs_t_e, .l2_conn_t_s, .l2_conn_t_e, .l3_dhcp_t_s, .l3_dhcp_t_e,
    .l3_ip_t_s, .l3_ip_t_e, .l3_ip, Attr.l3_ip_prefix, .l3_ip_gw, .l3_dhcp_server, .l3_dns_servers,
    .tcp_t_s, .tcp_t_e, .tcp_t_s_pcap, .tcp_t_e_pcap, .tcp_direction, .tcp_cc, .tcp_flow_nb,
    .tcp_flows, .tcp_total_bytes_app, .tcp_total_bytes_pcap, .tcp_goodput_app, .tcp_goodput_pcap,
    .tcp_total_pkts, .tcp_rxmt_pkts, .tcp_loss_rate, .tcp_test_local_id]

/-- The value of an attribute; `null` is Python's `None`. -/
inductive Cell (φ ρ : Type*) where
  | null
  | numeric (value : ℚ)
  | deviation (value : ρ)
  | integer (value : ℤ)
  | text (value : List Char)
  | texts (value : List (List Char))
  | assocType (value : AssocType)
  | flowType (value : FlowType)
  | flows (value : φ)

variable {φ ρ : Type*}

namespace Cell

def numeric? (value : Option ℚ) : Cell φ ρ := value.elim null numeric
def integer? (value : Option ℕ) : Cell φ ρ := value.elim null fun n => integer n
def text? (value : Option (List Char)) : Cell φ ρ := value.elim null text
def texts? (value : Option (List (List Char))) : Cell φ ρ := value.elim null texts

end Cell

/-! ## The attributes of a row -/

/-- The arguments of the constructor. -/
def L2Info.attrs (intf : Intf) (l2 : L2Info) : List (Attr × Cell φ ρ) :=
  [(.interface, .text intf), (.l2_essid, .text l2.essid), (.l2_bssid, .text l2.bssid),
    (.l2_freq, .integer l2.freq), (.l2_signal_lv, .integer l2.level),
    (.l2_assoc_type, .assocType l2.type), (.l2_auth_t_s, .numeric? l2.tAuthS),
    (.l2_auth_t_e, .numeric? l2.tAuthE), (.l2_assoc_t_s, .numeric? l2.tAssocS),
    (.l2_assoc_t_e, .numeric? l2.tAssocE), (.l2_hs_t_s, .numeric? l2.tHsS),
    (.l2_hs_t_e, .numeric? l2.tHsE), (.l2_conn_t_s, .numeric? l2.tConnS),
    (.l2_conn_t_e, .numeric? l2.tConnE)]

/-- The attributes set from a DHCP record. -/
def RMInfoBlk.attrs (l3 : RMInfoBlk) : List (Attr × Cell φ ρ) :=
  [(.l3_dhcp_t_s, .numeric l3.tDhcpS), (.l3_dhcp_t_e, .numeric? l3.tDhcpE),
    (.l3_ip_t_s, .numeric? l3.tIpS), (.l3_ip_t_e, .numeric l3.tIpE), (.l3_ip, .text? l3.ip),
    ( Attr.l3_ip_prefix, .text? l3.ipPrefix), (.l3_gw, .text? l3.gw),
    (.l3_dhcp_server, .text? l3.dhcpServer), (.l3_dns_servers, .texts? l3.dnsServers)]

/-- The attributes set from a TCP test. -/
def TCPInfo.attrs (tcp : TCPInfo φ) : List (Attr × Cell φ ρ) :=
  [(.tcp_t_s, .numeric tcp.tSApp), (.tcp_t_e, .numeric tcp.tEApp),
    (.tcp_t_s_pcap, .numeric? tcp.tSPcap), (.tcp_t_e_pcap, .numeric? tcp.tEPcap),
    (.tcp_direction, .flowType tcp.type), (.tcp_cc, .text tcp.cc),
    (.tcp_flow_nb, .integer tcp.flowNb), (.tcp_flows, .flows tcp.flows),
    (.tcp_total_bytes_app, .integer tcp.totalBytesApp),
    (.tcp_total_bytes_pcap, .integer? tcp.totalBytesPcap), (.tcp_goodput_app, .numeric tcp.gpApp),
    (.tcp_goodput_pcap, .numeric? tcp.gpPcap), (.tcp_test_local_id, .integer tcp.localId),
    (.tcp_total_pkts, .numeric tcp.pktTotal), (.tcp_rxmt_pkts, .numeric tcp.pktRxmt),
    (.tcp_loss_rate, .numeric? tcp.pktLossRate)]

namespace APTCPInfo

/-- All assignments to a row, in their order. -/
def attrs (row : APTCPInfo φ ρ) : List (Attr × Cell φ ρ) :=
  row.l2.attrs row.interface ++
  row.l2AvgSignal.toList.map (fun x => (Attr.l2_avg_signal, Cell.numeric x)) ++
  row.l2StderrSignal.toList.map (fun x => (Attr.l2_stderr_signal, Cell.deviation x)) ++
  row.avgSpeed.toList.map (fun x => (Attr.avg_speed, Cell.numeric x)) ++
  row.distKm.toList.map (fun x => (Attr.dist_km, Cell.numeric x)) ++
  row.l3.toList.flatMap RMInfoBlk.attrs ++
  row.tcp.toList.flatMap TCPInfo.attrs

/-- The value of an attribute: the last one that was assigned. -/
def get (row : APTCPInfo φ ρ) (a : Attr) : Cell φ ρ :=
  (row.attrs.reverse.lookup a).getD .null

/-- The row that `save` commits. -/
def saved (row : APTCPInfo φ ρ) : List (Attr × Cell φ ρ) := columns.map fun c => (c, row.get c)

end APTCPInfo

/-! ## What is stored -/

/-- The fields of a DHCP record, each with the column that the table has for it: the times of DHCP
and of the address, the address, its prefix, the gateway, the DHCP server and the DNS servers. -/
def RMInfoBlk.fields (l3 : RMInfoBlk) : List (Attr × Cell φ ρ) :=
  [(.l3_dhcp_t_s, .numeric l3.tDhcpS), (.l3_dhcp_t_e, .numeric? l3.tDhcpE),
    (.l3_ip_t_s, .numeric? l3.tIpS), (.l3_ip_t_e, .numeric l3.tIpE), (.l3_ip, .text? l3.ip),
    ( Attr.l3_ip_prefix, .text? l3.ipPrefix), (.l3_ip_gw, .text? l3.gw),
    (.l3_dhcp_server, .text? l3.dhcpServer), (.l3_dns_servers, .texts? l3.dnsServers)]

/-- The fields of a TCP test, each with its column. -/
def TCPInfo.fields (tcp : TCPInfo φ) : List (Attr × Cell φ ρ) :=
  [(.tcp_t_s, .numeric tcp.tSApp), (.tcp_t_e, .numeric tcp.tEApp),
    (.tcp_t_s_pcap, .numeric? tcp.tSPcap), (.tcp_t_e_pcap, .numeric? tcp.tEPcap),
    (.tcp_direction, .flowType tcp.type), (.tcp_cc, .text tcp.cc),
    (.tcp_flow_nb, .integer tcp.flowNb), (.tcp_flows, .flows tcp.flows),
    (.tcp_total_bytes_app, .integer tcp.totalBytesApp),
    (.tcp_total_bytes_pcap, .integer? tcp.totalBytesPcap), (.tcp_goodput_app, .numeric tcp.gpApp),
    (.tcp_goodput_pcap, .numeric? tcp.gpPcap), (.tcp_total_pkts, .numeric tcp.pktTotal),
    (.tcp_rxmt_pkts, .numeric tcp.pktRxmt), (.tcp_loss_rate, .numeric? tcp.pktLossRate),
    (.tcp_test_local_id, .integer tcp.localId)]

/-- The row has every field of the records it is paired with. -/
structure APTCPInfo.Carries (row : APTCPInfo φ ρ) : Prop where
  l3 : ∀ l3 ∈ row.l3, ∀ p ∈ l3.fields, p ∈ row.saved
  tcp : ∀ tcp ∈ row.tcp, ∀ p ∈ tcp.fields, p ∈ row.saved

/-- The names set from a DHCP record. -/
def l3Assigned : List Attr :=
  [.l3_dhcp_t_s, .l3_dhcp_t_e, .l3_ip_t_s, .l3_ip_t_e, .l3_ip, Attr.l3_ip_prefix, .l3_gw,
    .l3_dhcp_server, .l3_dns_servers]

/-- The names set from a TCP test. -/
def tcpAssigned : List Attr :=
  [.tcp_t_s, .tcp_t_e, .tcp_t_s_pcap, .tcp_t_e_pcap, .tcp_direction, .tcp_cc, .tcp_flow_nb,
    .tcp_flows, .tcp_total_bytes_app, .tcp_total_bytes_pcap, .tcp_goodput_app, .tcp_goodput_pcap,
    .tcp_test_local_id, .tcp_total_pkts, .tcp_rxmt_pkts, .tcp_loss_rate]

theorem RMInfoBlk.attrs_keys (l3 : RMInfoBlk) :
    (l3.attrs : List (Attr × Cell φ ρ)).map Prod.fst = l3Assigned := rfl

theorem TCPInfo.attrs_keys (tcp : TCPInfo φ) :
    (tcp.attrs : List (Attr × Cell φ ρ)).map Prod.fst = tcpAssigned := rfl

namespace APTCPInfo

/-- The names in the order in which they are assigned. -/
def assigned : List Attr :=
  [Attr.interface, .l2_essid, .l2_bssid, .l2_freq, .l2_signal_lv, .l2_assoc_type, .l2_auth_t_s,
    .l2_auth_t_e, .l2_assoc_t_s, .l2_assoc_t_e, .l2_hs_t_s, .l2_hs_t_e, .l2_conn_t_s, .l2_conn_t_e,
    .l2_avg_signal, .l2_stderr_signal, .avg_speed, .dist_km] ++ l3Assigned ++ tcpAssigned

theorem optional_sublist {α : Type*} (o : Option α) (a : Attr) (f : α → Cell φ ρ) :
    ((o.toList.map fun x => (a, f x)).map Prod.fst).Sublist [a] := by
  cases o <;> simp

theorem keys_sublist (row : APTCPInfo φ ρ) : (row.attrs.map Prod.fst).Sublist assigned := by
  obtain ⟨intf, l2, avg, dev, speed, dist, l3, tcp⟩ := row
  have hl3 : ((l3.toList.flatMap RMInfoBlk.attrs : List (Attr × Cell φ ρ)).map Prod.fst).Sublist
      l3Assigned := by
    cases l3 <;> simp [RMInfoBlk.attrs_keys]
  have htcp : ((tcp.toList.flatMap TCPInfo.attrs : List (Attr × Cell φ ρ)).map Prod.fst).Sublist
      tcpAssigned := by
    cases tcp <;> simp [TCPInfo.attrs_keys]
  simp only [attrs, List.map_append]
  exact ((((((List.Sublist.refl _).append (optional_sublist avg _ _)).append
    (optional_sublist dev _ _)).append (optional_sublist speed _ _)).append
    (optional_sublist dist _ _)).append hl3).append htcp

theorem keys_nodup (row : APTCPInfo φ ρ) : (row.attrs.map Prod.fst).Nodup :=
  (show assigned.Nodup by decide).sublist row.keys_sublist

/-- No name is assigned twice, so each has the value that was assigned. -/
theorem get_of_mem {row : APTCPInfo φ ρ} {a : Attr} {v : Cell φ ρ} (h : (a, v) ∈ row.attrs) :
    row.get a = v := by
  obtain ⟨before, after, hsplit⟩ := List.append_of_mem (List.mem_reverse.mpr h)
  have hnodup : (row.attrs.reverse.map Prod.fst).Nodup := by
    rw [List.map_reverse]
    exact List.nodup_reverse.mpr row.keys_nodup
  rw [hsplit, List.map_append, List.nodup_append] at hnodup
  have hlookup : row.attrs.reverse.lookup a = some v := by
    refine List.lookup_eq_some_iff.mpr ⟨before, after, hsplit, fun p hp => ?_⟩
    have hne := hnodup.2.2 p.1 (List.mem_map_of_mem hp) a (by simp)
    simpa using hne.symm
  rw [get, hlookup, Option.getD_some]

theorem get_of_not_mem {row : APTCPInfo φ ρ} {a : Attr} (h : a ∉ row.attrs.map Prod.fst) :
    row.get a = .null := by
  have hlookup : row.attrs.reverse.lookup a = none := by
    refine List.lookup_eq_none_iff.mpr fun p hp => ?_
    have hne : a ≠ p.1 := fun heq => h (heq ▸ List.mem_map_of_mem (List.mem_reverse.mp hp))
    simpa using hne
  rw [get, hlookup, Option.getD_none]

theorem mem_saved {row : APTCPInfo φ ρ} {c : Attr} {v : Cell φ ρ} :
    (c, v) ∈ row.saved ↔ c ∈ columns ∧ row.get c = v := by
  simp [saved]

theorem mem_saved_of_mem_attrs {row : APTCPInfo φ ρ} {c : Attr} {v : Cell φ ρ}
    (h : (c, v) ∈ row.attrs) (hc : c ∈ columns) : (c, v) ∈ row.saved :=
  mem_saved.mpr ⟨hc, get_of_mem h⟩

theorem mem_attrs_of_l3 {row : APTCPInfo φ ρ} {l3 : RMInfoBlk} (h : row.l3 = some l3)
    {p : Attr × Cell φ ρ} (hp : p ∈ l3.attrs) : p ∈ row.attrs := by
  simp [attrs, h, hp]

theorem mem_attrs_of_tcp {row : APTCPInfo φ ρ} {tcp : TCPInfo φ} (h : row.tcp = some tcp)
    {p : Attr × Cell φ ρ} (hp : p ∈ tcp.attrs) : p ∈ row.attrs := by
  simp [attrs, h, hp]

end APTCPInfo

/-- Every field of a TCP test is assigned to its column. -/
theorem TCPInfo.mem_attrs {tcp : TCPInfo φ} {p : Attr × Cell φ ρ} (h : p ∈ tcp.fields) :
    p ∈ tcp.attrs ∧ p.1 ∈ columns := by
  have hsame : (tcp.fields : List (Attr × Cell φ ρ)) ⊆ tcp.attrs := by
    simp only [TCPInfo.fields, TCPInfo.attrs, List.cons_subset, List.mem_cons, true_or, or_true,
      List.nil_subset, and_true]
  have hkey : p.1 ∈ tcpAssigned := @TCPInfo.attrs_keys φ ρ tcp ▸ List.mem_map_of_mem (hsame h)
  have hcolumns : tcpAssigned ⊆ columns := by decide
  exact ⟨hsame h, hcolumns hkey⟩

/-- So is every field of a DHCP record but the gateway. -/
theorem RMInfoBlk.mem_attrs {l3 : RMInfoBlk} {p : Attr × Cell φ ρ} (h : p ∈ l3.fields) :
    p = (.l3_ip_gw, .text? l3.gw) ∨ p ∈ l3.attrs ∧ p.1 ∈ columns := by
  simp only [RMInfoBlk.fields, List.mem_cons, List.not_mem_nil, or_false] at h
  rcases h with rfl | rfl | rfl | rfl | rfl | rfl | rfl | rfl | rfl
  all_goals first
    | exact .inl rfl
    | exact .inr ⟨by simp [RMInfoBlk.attrs], by simp [columns]⟩

namespace APTCPInfo

/-- The column of the gateway is never set. -/
theorem get_l3_ip_gw (row : APTCPInfo φ ρ) : row.get .l3_ip_gw = .null :=
  get_of_not_mem fun h => absurd (row.keys_sublist.subset h) (by decide)

/-- The gateway is lost, and nothing else. -/
theorem carries_iff (row : APTCPInfo φ ρ) : row.Carries ↔ ∀ l3 ∈ row.l3, l3.gw = none := by
  constructor
  · intro h l3 hl3
    have hgw : (Attr.l3_ip_gw, Cell.text? l3.gw) ∈ row.saved := by
      apply h.l3 l3 hl3
      simp [RMInfoBlk.fields]
    rw [mem_saved, get_l3_ip_gw] at hgw
    cases hg : l3.gw with
    | none => rfl
    | some gw => simp [hg, Cell.text?] at hgw
  · intro h
    refine ⟨fun l3 hl3 p hp => ?_, fun tcp htcp p hp => ?_⟩
    · rcases RMInfoBlk.mem_attrs hp with rfl | ⟨hmem, hcolumn⟩
      · -- the value that is lost is null, as the column is
        rw [h l3 hl3]
        exact mem_saved.mpr ⟨by decide, row.get_l3_ip_gw⟩
      · exact mem_saved_of_mem_attrs (mem_attrs_of_l3 hl3 hmem) hcolumn
    · obtain ⟨hmem, hcolumn⟩ := TCPInfo.mem_attrs hp
      exact mem_saved_of_mem_attrs (mem_attrs_of_tcp htcp hmem) hcolumn

/-- A lease with a gateway, paired with an L2 record. -/
def sampleRow : APTCPInfo Unit Unit where
  interface := "wlan0".toList
  l2 :=
    { essid := "net".toList, bssid := "02:00:00:00:00:01".toList, freq := 2412, level := -50,
      type := .new, tAuthS := some 1, tAuthE := some 2, tAssocS := some 2, tAssocE := some 3,
      tHsS := some 3, tHsE := some 4, tConnS := some 4, tConnE := some 9 }
  l3 := some
    { tDhcpS := 5, tDhcpE := some 6, tIpS := some 6, tIpE := 9, ip := some "192.168.0.100".toList,
      ipPrefix := some "24".toList, gw := some "192.168.0.1".toList, intf := "wlan0".toList,
      dhcpServer := some "192.168.0.1".toList, dnsServers := none }

theorem sampleRow_gateway_lost :
    sampleRow.l3.bind RMInfoBlk.gw = some "192.168.0.1".toList ∧
      sampleRow.get .l3_ip_gw = .null ∧ ¬sampleRow.Carries := by
  refine ⟨rfl, rfl, fun h => ?_⟩
  have hgw : (Attr.l3_ip_gw, Cell.text? (some "192.168.0.1".toList)) ∈ sampleRow.saved :=
    h.l3 _ rfl _ (by simp [RMInfoBlk.fields])
  rw [mem_saved, get_l3_ip_gw] at hgw
  simp [Cell.text?] at hgw

end APTCPInfo

end CarFi.Analyzer
