import CarFi.Library.Printf
import Mathlib.Data.List.Nodup

/-!
# The process that polls an interface

`_IntfPolling` of `tester/tester_initiator.py`: while the interface has an address a test runs,
which is a `tcpdump` and a tester. The state is what `run` and the methods it calls have done up to
a statement, and a signal can come between any two statements. `no_orphans_iff` says that the
handler reaches every process unless the signal comes when a process has been started and its handle
has not been stored.
-/
namespace CarFi.Tester

open Library.PyText Library.Printf

/-! ## The program -/

/-- The statement that comes next. The number is that of the current test, and `p` is the process
that `Popen` has just started. -/
inductive Pc where
  | install
  | loop
  | launch
  | number
  | mkdir (id : Nat)
  | startDumper (id : Nat)
  | storeDumper (id p : Nat)
  | startTester (id : Nat)
  | storeTester (p : Nat)
  | ifTester
  | terminateTester
  | saveTester
  | clearTester
  | waitTester
  | ifDumper
  | terminateDumper
  | saveDumper
  | clearDumper
  | waitDumper
  | sleep
  | exited
  deriving DecidableEq

/-- The fields of `_IntfPolling`. Processes are numbered as they are started, and `tests` are the
numbers of the tests that were started. -/
structure Polling where
  pc : Pc := .install
  tcpTester : Option Nat := none
  tcpDumper : Option Nat := none
  tcpTestId : Nat := 0
  started : Nat := 0
  requested : List Nat := []
  tests : List Nat := []
  deriving DecidableEq

/-- One statement; `hasIp` is what `_intf_has_ip` returns if it is called. -/
def Polling.step (s : Polling) (hasIp : Bool) : Polling :=
  match s.pc with
  | .install => { s with pc := .loop }
  | .loop => { s with pc := if hasIp then .launch else .ifTester }
  -- `_launch_tcp_tester`
  | .launch => { s with pc := if s.tcpTester = none then .number else .sleep }
  | .number => { s with pc := .mkdir s.tcpTestId, tcpTestId := s.tcpTestId + 1 }
  | .mkdir id => { s with pc := .startDumper id }
  | .startDumper id =>
    { s with pc := .storeDumper id s.started, started := s.started + 1, tests := s.tests ++ [id] }
  | .storeDumper id p => { s with pc := .startTester id, tcpDumper := some p }
  | .startTester _ => { s with pc := .storeTester s.started, started := s.started + 1 }
  | .storeTester p => { s with pc := .sleep, tcpTester := some p }
  -- `_stop_tcp_tester`
  | .ifTester => { s with pc := if s.tcpTester = none then .ifDumper else .terminateTester }
  | .terminateTester =>
    { s with pc := .saveTester, requested := s.requested ++ s.tcpTester.toList }
  | .saveTester => { s with pc := .clearTester }
  | .clearTester => { s with pc := .waitTester, tcpTester := none }
  | .waitTester => { s with pc := .ifDumper }
  | .ifDumper => { s with pc := if s.tcpDumper = none then .sleep else .terminateDumper }
  | .terminateDumper =>
    { s with pc := .saveDumper, requested := s.requested ++ s.tcpDumper.toList }
  | .saveDumper => { s with pc := .clearDumper }
  | .clearDumper => { s with pc := .waitDumper, tcpDumper := none }
  | .waitDumper => { s with pc := .sleep }
  | .sleep => { s with pc := .loop }
  | .exited => s

/-- `_sig_handler`, which runs `_stop_tcp_tester` and leaves the process. Before `run` has installed
it the handler that was inherited does nothing. -/
def Polling.signal (s : Polling) : Polling :=
  match s.pc with
  | .install | .exited => s
  | _ => { s with
      pc := .exited
      requested := s.requested ++ s.tcpTester.toList ++ s.tcpDumper.toList
      tcpTester := none
      tcpDumper := none }

/-- The state after `n` statements. -/
def Polling.run (hasIp : Nat → Bool) : Nat → Polling
  | 0 => {}
  | n + 1 => (Polling.run hasIp n).step (hasIp n)

/-- The data directory of a test; `base` is what `os.path.join` puts before its number. -/
def dataDir (base : List Char) (id : Nat) : List Char := base ++ decText id

/-- Every process has been sent a request to terminate, and no directory was used twice. -/
structure Polling.NoOrphans (base : List Char) (s : Polling) : Prop where
  requested : ∀ p < s.started, p ∈ s.requested
  dirs : (s.tests.map (dataDir base)).Nodup

/-- The process that has been started and whose handle has not been stored. -/
def Pc.pending : Pc → Option Nat
  | .storeDumper _ p => some p
  | .storeTester p => some p
  | _ => none

/-! ## Invariant -/

/-- Which handles are set at a statement, and which processes have been sent a request. -/
def Polling.Handles (s : Polling) : Prop :=
  match s.pc with
  | .install | .loop | .launch | .sleep | .ifTester => s.tcpTester = none → s.tcpDumper = none
  | .number | .mkdir _ | .startDumper _ | .storeDumper _ _ | .waitDumper =>
    s.tcpTester = none ∧ s.tcpDumper = none
  | .startTester _ | .storeTester _ | .waitTester | .ifDumper | .terminateDumper =>
    s.tcpTester = none
  | .saveTester | .clearTester => ∀ p, s.tcpTester = some p → p ∈ s.requested
  | .saveDumper | .clearDumper =>
    s.tcpTester = none ∧ ∀ p, s.tcpDumper = some p → p ∈ s.requested
  | .terminateTester | .exited => True

/-- The number of the test that is being started. -/
def Pc.current : Pc → Option Nat
  | .mkdir id | .startDumper id => some id
  | _ => none

/-- The process is known to the program or has been sent a request. -/
def Polling.Known (s : Polling) (p : Nat) : Prop :=
  p ∈ s.requested ∨ s.tcpTester = some p ∨ s.tcpDumper = some p

structure Polling.Inv (s : Polling) : Prop where
  covered : ∀ p, p < s.started ↔ s.Known p ∨ s.pc.pending = some p
  pending : ∀ p, s.pc.pending = some p → ¬s.Known p
  handles : s.Handles
  nodup : s.tests.Nodup
  below : ∀ id ∈ s.tests, id < s.tcpTestId
  current : ∀ id, s.pc.current = some id → id < s.tcpTestId ∧ id ∉ s.tests

theorem Polling.inv_start : Polling.Inv {} := by
  constructor <;> simp [Polling.Known, Pc.pending, Polling.Handles, Pc.current]

/-- A statement that only moves on keeps the invariant if the handles are as they should be. -/
theorem Polling.Inv.move {s : Polling} (h : s.Inv) {pc : Pc} (hpending : s.pc.pending = none)
    (hpending' : pc.pending = none) (hcurrent : pc.current = none ∨ pc.current = s.pc.current)
    (hhandles : Polling.Handles { s with pc := pc }) : Polling.Inv { s with pc := pc } := by
  refine ⟨?_, ?_, hhandles, h.nodup, h.below, ?_⟩
  · intro p
    have hcov := h.covered p
    simpa [hpending, hpending', Polling.Known] using hcov
  · simp [hpending']
  · intro id hid
    rcases hcurrent with hnone | heq
    · exact absurd hid (by simp [hnone])
    · exact h.current id (heq ▸ hid)

theorem Polling.Inv.step {s : Polling} (h : s.Inv) (hasIp : Bool) : (s.step hasIp).Inv := by
  have hhandles := h.handles
  unfold Polling.Handles at hhandles
  cases hpc : s.pc with
  | install | loop | launch | mkdir | ifTester | saveTester | waitTester | ifDumper | saveDumper |
    waitDumper | sleep =>
    simp only [Polling.step, hpc] at hhandles ⊢
    refine h.move (by simp [hpc, Pc.pending]) ?_ ?_ ?_
    · grind [Pc.pending]
    · grind [Pc.current]
    · grind [Polling.Handles]
  | exited =>
    simp only [Polling.step, hpc]
    exact h
  | _ =>
    obtain ⟨hcov, hpend, -, hnodup, hbelow, hcur⟩ := h
    simp only [Polling.step, hpc, Polling.Known, Pc.pending, Pc.current]
      at hhandles hcov hpend hcur ⊢
    constructor <;> grind [Polling.Known, Pc.pending, Pc.current, Polling.Handles]

theorem Polling.inv_run (hasIp : Nat → Bool) (n : Nat) : (Polling.run hasIp n).Inv := by
  induction n with
  | zero => exact Polling.inv_start
  | succ n ih => exact ih.step (hasIp n)

/-! ## The signal -/

theorem dataDir_injective (base : List Char) : Function.Injective (dataDir base) := by
  intro id id' heq
  have htext : decText id = decText id' := List.append_cancel_left heq
  rw [← digitsValue_decText id, htext, digitsValue_decText]

theorem Polling.signal_eq {s : Polling} (h : s.signal.pc = .exited) (hs : s.pc ≠ .exited) :
    s.signal = { s with
      pc := .exited
      requested := s.requested ++ s.tcpTester.toList ++ s.tcpDumper.toList
      tcpTester := none
      tcpDumper := none } := by
  unfold Polling.signal at h ⊢
  split at h
  · rename_i hpc
    rw [hpc] at h
    cases h
  · exact absurd h hs
  · rfl

theorem Polling.run_pc_ne_exited (hasIp : Nat → Bool) (n : Nat) :
    (Polling.run hasIp n).pc ≠ .exited := by
  induction n with
  | zero => simp [Polling.run]
  | succ n ih =>
    rw [Polling.run]
    cases hpc : (Polling.run hasIp n).pc <;> grind [Polling.step]

/-- When the process exits, no process is left without a request and no directory was used twice,
iff the signal did not come between the start of a process and the storing of its handle. -/
theorem no_orphans_iff (base : List Char) (hasIp : Nat → Bool) (n : Nat) :
    ((Polling.run hasIp n).signal.pc = .exited → (Polling.run hasIp n).signal.NoOrphans base) ↔
      (Polling.run hasIp n).pc.pending = none := by
  have hinv := Polling.inv_run hasIp n
  have hrun := Polling.run_pc_ne_exited hasIp n
  generalize Polling.run hasIp n = s at hinv hrun ⊢
  have hknown (p : Nat) :
      p ∈ s.requested ++ s.tcpTester.toList ++ s.tcpDumper.toList ↔ s.Known p := by
    simp [Polling.Known, Option.mem_toList]
  constructor
  · intro hno
    cases hpending : s.pc.pending with
    | none => rfl
    | some p =>
      have hexit : s.signal.pc = .exited := by
        cases hpc : s.pc <;> simp [hpc, Pc.pending] at hpending <;> simp [Polling.signal, hpc]
      have hreq := (hno hexit).requested
      rw [Polling.signal_eq hexit hrun] at hreq
      have hp := hreq p ((hinv.covered p).mpr (.inr hpending))
      exact absurd ((hknown p).mp hp) (hinv.pending p hpending)
  · intro hpending hexit
    rw [Polling.signal_eq hexit hrun]
    refine ⟨fun p hp => (hknown p).mpr ?_, hinv.nodup.map (dataDir_injective base)⟩
    simpa [hpending] using (hinv.covered p).mp hp

/-- `tcpdump` has been started, and the handler does not know it. -/
theorem orphan_tcpdump : (Polling.run (fun _ => true) 6).signal.pc = .exited ∧
    ∀ base, ¬(Polling.run (fun _ => true) 6).signal.NoOrphans base := by
  have hsignal : (Polling.run (fun _ => true) 6).signal =
      { pc := .exited, tcpTestId := 1, started := 1, requested := [], tests := [0] } := by
    decide
  rw [hsignal]
  refine ⟨rfl, fun base h => ?_⟩
  simpa using h.requested 0 (by decide)

end CarFi.Tester
