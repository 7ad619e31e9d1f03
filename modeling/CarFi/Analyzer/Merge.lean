import CarFi.Analyzer.Database
import CarFi.Library.Rows

/-!
# Merging databases

`analyzer/macao_merge.py` copies the experiments of one database to another one, and with each
experiment the rows of the other tables whose time lies in it. A table is the list of its rows in
the order of their keys; the keys are given by the database.
-/
namespace CarFi.Analyzer

open Library

variable {φ ρ : Type*}

/-! ## The tables -/

/-- A row of `Experiment` -/
structure ExpRow where
  startTime : Option ℚ
  endTime : Option ℚ
  deriving DecidableEq, Repr

/-- A row of `GPS` -/
structure GpsRow where
  latitude : Option ℚ
  longitude : Option ℚ
  elevation : Option ℚ
  time : Option ℚ
  deriving DecidableEq, Repr

/-- A row of `Link` -/
structure LinkRow where
  time : Option ℚ
  signal : Option ℚ
  interface : Option (List Char)
  deriving DecidableEq, Repr

/-- A row of `APTCPInfo`: a value for each column. -/
abbrev AssocRow (φ ρ : Type*) := {a : Attr // a ∈ columns} → Cell φ ρ

/-- The value of a numeric column -/
def Cell.asNumeric : Cell φ ρ → Option ℚ
  | .numeric value => some value
  | _ => none

def AssocRow.connStart (row : AssocRow φ ρ) : Option ℚ :=
  (row ⟨.l2_conn_t_s, by decide⟩).asNumeric

/-- The tables that the merge reads and writes. -/
structure Tables (φ ρ : Type*) where
  experiments : List ExpRow
  gps : List GpsRow
  aptcp : List (AssocRow φ ρ)
  links : List LinkRow

def Tables.empty : Tables φ ρ := ⟨[], [], [], []⟩

/-- `DBOperator.save`, without scans. -/
def Tables.save (db : Tables φ ρ) (expInfos : List ExpRow) (gpsInfos : List GpsRow)
    (apTcpInfos : List (AssocRow φ ρ)) (linkInfos : List LinkRow) : Tables φ ρ :=
  ⟨db.experiments ++ expInfos, db.gps ++ gpsInfos, db.aptcp ++ apTcpInfos,
    db.links ++ linkInfos⟩

/-! ## The merge -/

/-- The arguments of the constructor for the copy of an association. -/
def mergedColumns : List Attr :=
  [.interface, .avg_speed, .dist_km, .l2_essid, .l2_bssid, .l2_freq, .l2_signal_lv, .l2_avg_signal,
    .l2_stderr_signal, .l2_assoc_type, .l2_auth_t_s, .l2_auth_t_e, .l2_assoc_t_s, .l2_assoc_t_e,
    .l2_hs_t_s, .l2_hs_t_e, .l2_conn_t_s, .l2_conn_t_e, .l3_dhcp_t_s, .l3_dhcp_t_e, .l3_ip_t_s,
    .l3_ip_t_e, .l3_ip, Attr.l3_ip_prefix, .l3_ip_gw, .l3_dhcp_server, .l3_dns_servers, .tcp_t_s,
    .tcp_t_e, .tcp_direction, .tcp_cc, .tcp_flow_nb, .tcp_flows, .tcp_total_bytes_app,
    .tcp_total_bytes_pcap, .tcp_goodput_app, .tcp_goodput_pcap, .tcp_test_local_id]

/-- The copy of an association. -/
def AssocRow.copy (row : AssocRow φ ρ) : AssocRow φ ρ := fun a =>
  if a.1 ∈ mergedColumns then row a else .null

/-- The filter of the queries: no comparison with `NULL` holds. -/
def inRange (start finish : ℚ) (time : Option ℚ) : Bool :=
  time.any fun t => start ≤ t && t ≤ finish

/-- The experiments of the outer query, with `latest_ts = 0`. -/
def Tables.laterExps (input : Tables φ ρ) : List ExpRow :=
  input.experiments.filter fun e => e.startTime.any (0 < ·)

/-- The loop over the experiments. A query with `None` for the end of its range raises; what has
been saved before stays. -/
def Tables.mergeExps (input : Tables φ ρ) : List ExpRow → Tables φ ρ → Tables φ ρ
  | [], output => output
  | ⟨some start, some finish⟩ :: exps, output =>
    input.mergeExps exps <| output.save [⟨some start, some finish⟩]
      (input.gps.filter fun x => inRange start finish x.time)
      ((input.aptcp.filter fun x => inRange start finish (AssocRow.connStart x)).map AssocRow.copy)
      (input.links.filter fun x => inRange start finish x.time)
  | _ :: _, output => output

/-- `main` -/
def Tables.merge (input output : Tables φ ρ) : Tables φ ρ :=
  input.mergeExps input.laterExps output

/-! ## What a merge adds -/

/-- The time lies in the experiment. -/
def ExpRow.covers (e : ExpRow) (time : Option ℚ) : Bool :=
  match e with
  | ⟨some start, some finish⟩ => inRange start finish time
  | _ => false

/-- The rows that the experiments add to a table, experiment by experiment. -/
def Tables.addedBy (input : Tables φ ρ) (exps : List ExpRow) : Tables φ ρ where
  experiments := exps
  gps := exps.flatMap fun e => input.gps.filter fun x => e.covers x.time
  aptcp := exps.flatMap fun e =>
    (input.aptcp.filter fun x => e.covers (AssocRow.connStart x)).map AssocRow.copy
  links := exps.flatMap fun e => input.links.filter fun x => e.covers x.time

def Tables.append (db added : Tables φ ρ) : Tables φ ρ :=
  db.save added.experiments added.gps added.aptcp added.links

/-- The experiments before the first one without an end. -/
def Tables.mergedExps (input : Tables φ ρ) : List ExpRow :=
  input.laterExps.takeWhile fun e => e.startTime.isSome && e.endTime.isSome

theorem Tables.mergeExps_eq (input : Tables φ ρ) (exps : List ExpRow) (output : Tables φ ρ) :
    input.mergeExps exps output =
      output.append (input.addedBy
        (exps.takeWhile fun e => e.startTime.isSome && e.endTime.isSome)) := by
  induction exps generalizing output with
  | nil => simp [mergeExps, append, save, addedBy]
  | cons e exps ih =>
    obtain ⟨_ | start, _ | finish⟩ := e
    case some.some =>
      rw [mergeExps, ih]
      simp [append, save, addedBy, ExpRow.covers]
    all_goals simp [mergeExps, append, save, addedBy]

/-- What a merge adds depends on the input only. -/
theorem Tables.merge_eq (input output : Tables φ ρ) :
    input.merge output = output.append (input.addedBy input.mergedExps) :=
  input.mergeExps_eq input.laterExps output

/-! ## One merge and the next one -/

/-- The time lies in some experiment. -/
def Tables.inSomeExp (input : Tables φ ρ) (time : Option ℚ) : Bool :=
  input.experiments.any fun e => e.covers time

/-- The output has each experiment, and each row whose time lies in some experiment, exactly once
and with every column. -/
structure Tables.IsCopyOf (output input : Tables φ ρ) : Prop where
  experiments : output.experiments.Perm input.experiments
  gps : output.gps.Perm (input.gps.filter fun x => input.inSomeExp x.time)
  aptcp : output.aptcp.Perm (input.aptcp.filter fun x => input.inSomeExp (AssocRow.connStart x))
  links : output.links.Perm (input.links.filter fun x => input.inSomeExp x.time)

/-- The first merge copies everything, and the second one adds nothing. -/
structure Tables.MergesOnce (input : Tables φ ρ) : Prop where
  copies : (input.merge .empty).IsCopyOf input
  stable : input.merge (input.merge .empty) = input.merge .empty

/-- A merge with experiments adds them each time. -/
theorem merges_once_iff (input : Tables φ ρ) : input.MergesOnce ↔ input.experiments = [] := by
  constructor
  · rintro ⟨hcopies, hstable⟩
    have honce : input.mergedExps.Perm input.experiments := by
      simpa [Tables.merge_eq, Tables.append, Tables.save, Tables.empty, Tables.addedBy] using
        hcopies.experiments
    have htwice : (input.merge (input.merge .empty)).experiments =
        (input.merge .empty).experiments ++ input.mergedExps := by
      rw [Tables.merge_eq input (input.merge .empty)]
      rfl
    rw [hstable, List.self_eq_append_right] at htwice
    exact (htwice ▸ honce).nil_eq.symm
  · intro hnone
    have hmerge (output : Tables φ ρ) : input.merge output = output := by
      simp [Tables.merge, Tables.laterExps, hnone, Tables.mergeExps]
    refine ⟨?_, hmerge _⟩
    rw [hmerge]
    constructor <;> simp [Tables.empty, Tables.inSomeExp, hnone]

/-- Two experiments with a point at their common boundary: the point is copied twice, and the next
merge copies everything again. -/
def touchingExps : Tables Unit Unit where
  experiments := [⟨some 1, some 10⟩, ⟨some 10, some 20⟩]
  gps := [⟨some 0, some 0, none, some 10⟩]
  aptcp := []
  links := []

theorem second_merge_copies_again :
    (touchingExps.merge .empty).gps.length = 2 ∧
      (touchingExps.merge (touchingExps.merge .empty)).experiments.length = 4 ∧
      ¬touchingExps.MergesOnce := by
  have hgps : (touchingExps.merge .empty).gps.length = 2 := by decide +kernel
  have hagain : (touchingExps.merge (touchingExps.merge .empty)).experiments.length = 4 := by
    decide +kernel
  refine ⟨hgps, hagain, ?_⟩
  rintro ⟨⟨-, hcopies, -, -⟩, -⟩
  have hlength := hcopies.length_eq
  have hone : (touchingExps.gps.filter fun x => touchingExps.inSomeExp x.time).length = 1 := by
    decide +kernel
  omega

/-! ## Any number of merges -/

/-- The number of merged experiments in which the time lies. -/
def Tables.timesCovered (input : Tables φ ρ) (time : Option ℚ) : ℕ :=
  input.mergedExps.countP fun e => e.covers time

/-- What `n` merges have added: each row as often as its time was covered. -/
structure Tables.MergedTimes (n : ℕ) (input output result : Tables φ ρ) : Prop where
  experiments : result.experiments.Perm
    (output.experiments ++ input.mergedExps.flatMap fun e => List.replicate n e)
  gps : result.gps.Perm (output.gps ++
    input.gps.flatMap fun x => List.replicate (n * input.timesCovered x.time) x)
  aptcp : result.aptcp.Perm (output.aptcp ++ input.aptcp.flatMap fun x =>
    List.replicate (n * input.timesCovered (AssocRow.connStart x)) (AssocRow.copy x))
  links : result.links.Perm (output.links ++
    input.links.flatMap fun x => List.replicate (n * input.timesCovered x.time) x)

theorem Tables.MergedTimes.step {n : ℕ} {input output result : Tables φ ρ}
    (h : MergedTimes n input output result) :
    MergedTimes (n + 1) input output (input.merge result) := by
  rw [merge_eq]
  have hid {α : Type} (p : ExpRow → α → Bool) (rows : List α) :=
    flatMap_filter_perm id p input.mergedExps rows
  simp only [List.map_id, id_eq] at hid
  refine ⟨?_, ?_, ?_, ?_⟩
  · have h := h.experiments
    rw [← funext fun e => congrArg (List.replicate · e) (Nat.mul_one n)] at h
    have hone : input.mergedExps.Perm (input.mergedExps.flatMap fun e => List.replicate 1 e) := by
      simp
    have hsucc := perm_append_replicate_succ id (fun _ => 1) n h hone
    simp only [id_eq, Nat.mul_one] at hsucc
    exact hsucc
  · exact perm_append_replicate_succ id _ n h.gps (hid _ _)
  · exact perm_append_replicate_succ AssocRow.copy _ n h.aptcp (flatMap_filter_perm _ _ _ _)
  · exact perm_append_replicate_succ id _ n h.links (hid _ _)

/-- After any number of merges into any database, an experiment is there once for each of them, and
a row once for each of them and each experiment in which its time lies. -/
theorem iterate_merge_times (input output : Tables φ ρ) (n : ℕ) :
    Tables.MergedTimes n input output (input.merge^[n] output) := by
  induction n with
  | zero =>
    constructor <;> exact .of_eq (List.self_eq_append_right.mpr (by simp))
  | succ n ih =>
    rw [Function.iterate_succ_apply']
    exact ih.step

end CarFi.Analyzer
