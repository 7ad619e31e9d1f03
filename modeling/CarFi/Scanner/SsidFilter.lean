import Mathlib.Data.List.Induction
import CarFi.Library.Blocks
import CarFi.Library.PyText

/-!
# The SSID filter of the scanner

`carfi/bin/__ssid_filter` reads the lines of a scan, collects them up to the next line with a BSS,
and writes a block with a listed SSID to the current file. After `file_size` blocks it goes on to
the next file. At the end of its input `input()` raises, so the block that is being collected is
written only if the input has an empty line. `filtered_iff` says when the files hold all blocks.
-/
namespace CarFi.Scanner

open Library Library.Regex Library.PyText

abbrev Line := List Char

/-! ## The program -/

/-- The class `[a-z0-9]`. -/
def lowerAlphanumeric : CharClass := fun c =>
  ('a'.toNat ≤ c.toNat && c.toNat ≤ 'z'.toNat) || ascii09 c

/-- `^.*:\s*BSS\s*([a-z0-9]{2}:){5}[a-z0-9]{2}.*$` -/
def bssRe : Pattern :=
  let two := one lowerAlphanumeric ++ one lowerAlphanumeric
  Regex.star dot ++ lit ":" ++ Regex.star space ++ lit "BSS" ++ Regex.star space ++
    (List.replicate 5 (two ++ lit ":")).flatten ++ two ++ Regex.star dot ++ eol

/-- `^.*:\s*SSID:\s*(.*)\s*$` -/
def ssidRe : Pattern :=
  Regex.star dot ++ lit ":" ++ Regex.star space ++ lit "SSID:" ++ Regex.star space ++
    grp 1 (Regex.star dot) ++ Regex.star space ++ eol

/-- The variables of `main`. The files that have been opened before `log_file` are `closed`, and a
file is given by its rows. -/
structure Filter where
  bssInfo : List Line := []
  store : Bool := false
  closed : List (List Line) := []
  logFile : Option (List Line) := none
  logFileSz : Nat := 0
  deriving DecidableEq

def Filter.files (s : Filter) : List (List Line) := s.closed ++ s.logFile.toList

/-- `log_file = open(..., "w")` on the next name. -/
def Filter.openNext (s : Filter) : Filter :=
  { s with closed := s.closed ++ s.logFile.toList, logFile := some [] }

variable (ssids : List Line) (fileSize : Int)

/-- The block in `bss_info` is written. -/
def Filter.write (s : Filter) : Filter :=
  let s :=
    if s.logFileSz = 0 then s.openNext
    else if s.logFileSz ≥ fileSize then { s.openNext with logFileSz := 0 }
    else s
  { s with logFileSz := s.logFileSz + 1, logFile := s.logFile.map (· ++ s.bssInfo) }

def Filter.writeStored (s : Filter) : Filter :=
  if s.bssInfo ≠ [] ∧ s.store then s.write fileSize else s

/-- One turn of the loop. -/
def Filter.line (s : Filter) (curLine : Line) : Filter :=
  let s :=
    if (exec bssRe curLine).isSome then
      { s.writeStored fileSize with bssInfo := [], store := false }
    else if let some m := exec ssidRe curLine then
      if ssids.contains (m.group 1) then { s with store := true } else s
    else s
  { s with bssInfo := s.bssInfo ++ [curLine] }

/-- How `main` ends. -/
inductive Exit where
  | returned | eofError
  deriving DecidableEq

/-- The loop of `main` over the lines of its input: an empty line ends it, and the end of the input
is an `EOFError`. -/
def loop (s : Filter) : List Line → Filter × Exit
  | [] => (s, .eofError)
  | curLine :: stream =>
    if curLine = [] then (s.writeStored fileSize, .returned)
    else loop (s.line ssids fileSize curLine) stream

/-- `main`: the files that it leaves and how it ends. -/
def main (stream : List Line) : List (List Line) × Exit :=
  let (s, exit) := loop ssids fileSize {} stream
  (s.files, exit)

/-! ## Blocks -/

def isBss (l : Line) : Bool := (exec bssRe l).isSome

/-- A line with an SSID of the list. -/
def isListed (l : Line) : Bool :=
  !isBss l && (exec ssidRe l).any fun m => ssids.contains (m.group 1)

/-- The block has a listed SSID. -/
def listed (block : List Line) : Bool := block.any (isListed ssids)

/-- The blocks of a scan that are to be stored. -/
def stored (stream : List Line) : List (List Line) := (pieces isBss stream).filter (listed ssids)

/-- The blocks stand in the files in order, `n` in every file but the last. -/
def Rotated (n : Nat) (files blocks : List (List Line)) : Prop :=
  ∃ groups : List (List (List Line)), files = groups.map List.flatten ∧
    groups.flatten = blocks ∧ (∀ g ∈ groups, g ≠ [] ∧ g.length ≤ n) ∧
    ∀ g ∈ groups.dropLast, g.length = n

theorem Rotated.flatten_eq {n : Nat} {files blocks : List (List Line)}
    (h : Rotated n files blocks) : files.flatten = blocks.flatten := by
  obtain ⟨groups, rfl, rfl, -, -⟩ := h
  exact List.flatten_flatten.symm

/-! ## Rotation -/

variable {ssids fileSize}

/-- The number of blocks in a full file. -/
def capacity (fileSize : Int) : Nat := (max 1 fileSize).toNat

theorem capacity_ne_zero (fileSize : Int) : capacity fileSize ≠ 0 := by
  unfold capacity
  omega

/-- The files hold the blocks, and `log_file_sz` is the number of those in the last one. -/
inductive Filter.Holds (n : Nat) (s : Filter) : List (List Line) → Prop where
  | none (hfiles : s.closed = [] ∧ s.logFile = none) (hsz : s.logFileSz = 0) : Holds n s []
  | some (groups : List (List (List Line))) (g : List (List Line))
      (hclosed : s.closed = groups.map List.flatten) (hfile : s.logFile = some g.flatten)
      (hsz : s.logFileSz = g.length) (hfull : ∀ g ∈ groups, g.length = n)
      (hlast : g ≠ [] ∧ g.length ≤ n) : Holds n s (groups.flatten ++ g)

theorem Filter.Holds.rotated {n : Nat} (hn : n ≠ 0) {s : Filter} {blocks : List (List Line)}
    (h : s.Holds n blocks) : Rotated n s.files blocks := by
  cases h with
  | none hfiles hsz => exact ⟨[], by simp [Filter.files, hfiles], by simp⟩
  | some groups g hclosed hfile hsz hfull hlast =>
    refine ⟨groups ++ [g],
      by simp [Filter.files, hclosed, hfile], by simp, ?_, by simpa using hfull⟩
    intro x hx
    rcases List.mem_append.mp hx with hx | hx
    · have hlen := hfull x hx
      exact ⟨List.ne_nil_of_length_pos (by omega), hlen.le⟩
    · rwa [List.mem_singleton.mp hx]

/-- A block is written to the last file, or to the next one if that is full. -/
theorem Filter.Holds.write {s : Filter} {blocks : List (List Line)}
    (h : s.Holds (capacity fileSize) blocks) :
    (s.write fileSize).Holds (capacity fileSize) (blocks ++ [s.bssInfo]) := by
  have hcap : 1 ≤ capacity fileSize := Nat.one_le_iff_ne_zero.mpr (capacity_ne_zero fileSize)
  cases h with
  | none hfiles hsz =>
    have hwrite : s.write fileSize =
        { s with closed := [], logFile := Option.some s.bssInfo, logFileSz := 1 } := by
      simp [Filter.write, Filter.openNext, hsz, hfiles]
    rw [hwrite]
    exact .some [] [s.bssInfo] rfl (by simp) rfl (by simp) ⟨by simp, hcap⟩
  | some groups g hclosed hfile hsz hfull hlast =>
    have hpos : s.logFileSz ≠ 0 := by
      rw [hsz, List.length_eq_zero_iff.ne]
      exact hlast.1
    by_cases hroom : (s.logFileSz : Int) ≥ fileSize
    · have hwrite : s.write fileSize =
          { s with closed := (groups ++ [g]).map List.flatten, logFile := Option.some s.bssInfo,
                   logFileSz := 1 } := by
        simp [Filter.write, Filter.openNext, hpos, hroom, hclosed, hfile]
      have hg : g.length = capacity fileSize := by
        unfold capacity at hlast ⊢
        omega
      rw [hwrite, show groups.flatten ++ g ++ [s.bssInfo] = (groups ++ [g]).flatten ++
        [s.bssInfo] by
        simp]
      refine .some (groups ++ [g]) [s.bssInfo] rfl (by simp) rfl ?_ ⟨by simp, hcap⟩
      intro x hx
      rcases List.mem_append.mp hx with hx | hx
      · exact hfull x hx
      · rwa [List.mem_singleton.mp hx]
    · have hwrite : s.write fileSize =
          { s with
            logFile := Option.some (g.flatten ++ s.bssInfo)
            logFileSz := s.logFileSz + 1 } := by
        simp [Filter.write, hpos, hroom, hfile]
      rw [hwrite, List.append_assoc]
      refine .some groups (g ++ [s.bssInfo]) hclosed (by simp) (by simp [hsz])
        hfull ⟨by simp, ?_⟩
      unfold capacity
      simp only [List.length_append, List.length_singleton]
      omega

/-- The block that is being collected does not matter to the files. -/
theorem Filter.Holds.collect {n : Nat} {s : Filter} {blocks : List (List Line)}
    (h : s.Holds n blocks) (bssInfo : List Line) (store : Bool) :
    Filter.Holds n { s with bssInfo := bssInfo, store := store } blocks := by
  cases h with
  | none hfiles hsz => exact .none hfiles hsz
  | some groups g hclosed hfile hsz hfull hlast =>
    exact .some groups g hclosed hfile hsz hfull hlast

/-! ## The loop -/

/-- After the lines `done` all pieces but the last have been dealt with, and the last is being
collected. -/
structure Filter.After (ssids : List Line) (fileSize : Int) (s : Filter) (done : List Line)
    (ps : List (List Line)) : Prop where
  pieces : pieces isBss done = ps ++ if s.bssInfo = [] then [] else [s.bssInfo]
  start : s.bssInfo = [] → done = []
  store : s.store = listed ssids s.bssInfo
  holds : s.Holds (capacity fileSize) (ps.filter (listed ssids))

theorem Filter.After.writeStored {s : Filter} {done : List Line} {ps : List (List Line)}
    (h : s.After ssids fileSize done ps) :
    (s.writeStored fileSize).Holds (capacity fileSize) (stored ssids done) := by
  rw [stored, h.pieces, Filter.writeStored, h.store]
  by_cases hnil : s.bssInfo = []
  · simpa [hnil] using h.holds
  · cases hlisted : listed ssids s.bssInfo with
    | false => simpa [hnil, hlisted, List.filter_append] using h.holds
    | true => simpa [hnil, hlisted, List.filter_append] using h.holds.write

theorem Filter.After.line {s : Filter} {done : List Line} {ps : List (List Line)}
    (h : s.After ssids fileSize done ps) (l : Line) :
    ∃ ps', (s.line ssids fileSize l).After ssids fileSize (done ++ [l]) ps' := by
  cases hl : isBss l with
  | true =>
    have hline : s.line ssids fileSize l =
        { s.writeStored fileSize with bssInfo := [l], store := false } := by
      simp [Filter.line, show (exec bssRe l).isSome = true from hl]
    rw [hline]
    refine ⟨Library.pieces isBss done, ?_, by simp, ?_, h.writeStored.collect _ _⟩
    · simpa using pieces_append_of_head hl done
    · simp [listed, isListed, hl]
  | false =>
    have hline : s.line ssids fileSize l =
        { s with bssInfo := s.bssInfo ++ [l], store := s.store || isListed ssids l } := by
      have hbss : exec bssRe l = none := by simpa [isBss] using hl
      cases hm : exec ssidRe l with
      | none => simp [Filter.line, isListed, hbss, hm]
      | some m =>
        by_cases hmem : m.group 1 ∈ ssids
        · simp [Filter.line, isListed, isBss, hbss, hm, hmem]
        · simp [Filter.line, isListed, hbss, hm, hmem]
    rw [hline]
    refine ⟨ps, ?_, by simp, ?_, h.holds.collect _ _⟩
    · by_cases hnil : s.bssInfo = []
      · obtain rfl := h.start hnil
        have hps : ps = [] := by simpa [hnil] using h.pieces.symm
        simp [hps, hnil, Library.pieces, lead_cons hl, blocks_cons hl]
      · have hpieces := h.pieces
        rw [if_neg hnil] at hpieces
        simpa using pieces_append hl hpieces
    · simp [h.store, listed]

/-- On lines that are not empty, `main` deals with every line and ends at the end of its input. -/
theorem Filter.After.loop {s : Filter} {done : List Line} {ps : List (List Line)}
    (h : s.After ssids fileSize done ps) {stream : List Line} (hstream : [] ∉ stream) :
    ∃ s' ps', Scanner.loop ssids fileSize s stream = (s', .eofError) ∧
      s'.After ssids fileSize (done ++ stream) ps' := by
  induction stream generalizing s done ps with
  | nil => exact ⟨s, ps, rfl, by simpa using h⟩
  | cons l stream ih =>
    obtain ⟨hl, hstream⟩ := not_or.mp (List.mem_cons.not.mp hstream)
    obtain ⟨ps₁, h₁⟩ := h.line l
    obtain ⟨s', ps', hloop, h'⟩ := ih h₁ hstream
    refine ⟨s', ps', ?_, by simpa using h'⟩
    rw [Scanner.loop, if_neg (Ne.symm hl), hloop]

theorem Filter.after_start : Filter.After ssids fileSize {} [] [] where
  pieces := rfl
  start _ := rfl
  store := rfl
  holds := .none ⟨rfl, rfl⟩ rfl

/-- At the end of the input the last block is lost. -/
theorem rotated_main {stream : List Line} (hstream : [] ∉ stream) :
    Rotated (capacity fileSize) (main ssids fileSize stream).1
      ((pieces isBss stream).dropLast.filter (listed ssids)) := by
  obtain ⟨s, ps, hloop, h⟩ := (@Filter.after_start ssids fileSize).loop hstream
  have hps : (pieces isBss stream).dropLast = ps := by
    have hpieces := h.pieces
    rw [List.nil_append] at hpieces
    by_cases hnil : s.bssInfo = []
    · obtain rfl : stream = [] := h.start hnil
      simpa [hnil] using hpieces
    · rw [hpieces, if_neg hnil, List.dropLast_concat]
  rw [main, hloop, hps]
  exact h.holds.rotated (capacity_ne_zero fileSize)

/-- The blocks that `main` writes: at an empty line it writes the last block too. -/
def written (ssids : List Line) (stream : List Line) : List (List Line) :=
  if stream.contains [] then stored ssids (stream.takeWhile (· ≠ []))
  else (pieces isBss stream).dropLast.filter (listed ssids)

theorem loop_append (s : Filter) {done rest : List Line} (hdone : [] ∉ done) :
    loop ssids fileSize s (done ++ [] :: rest) =
      ((loop ssids fileSize s done).1.writeStored fileSize, .returned) := by
  induction done generalizing s with
  | nil => rfl
  | cons l done ih =>
    obtain ⟨hl, hdone⟩ := not_or.mp (List.mem_cons.not.mp hdone)
    rw [List.cons_append, loop, if_neg (Ne.symm hl), ih _ hdone, loop, if_neg (Ne.symm hl)]

/-- The blocks that are written do not depend on the size of the files. -/
theorem rotated_written (ssids : List Line) (fileSize : Int) (stream : List Line) :
    Rotated (capacity fileSize) (main ssids fileSize stream).1 (written ssids stream) := by
  unfold written
  split_ifs with hmem
  · obtain ⟨done, rest, rfl, hdone⟩ :=
      List.eq_append_cons_of_mem (List.contains_iff_mem.mp hmem)
    obtain ⟨s, ps, hloop, h⟩ := (@Filter.after_start ssids fileSize).loop hdone
    have hfull : ∀ l ∈ done, decide (l ≠ []) = true := by
      rintro l hl
      rw [decide_eq_true_iff]
      rintro rfl
      exact hdone hl
    have htake : (done ++ [] :: rest).takeWhile (· ≠ []) = done := by
      rw [List.takeWhile_append_of_pos hfull]
      simp
    rw [htake, main, loop_append _ hdone, hloop]
    exact h.writeStored.rotated (capacity_ne_zero fileSize)
  · exact rotated_main (mt List.contains_iff_mem.mpr hmem)

/-- The files hold all blocks with a listed SSID iff the last block of the scan has none. -/
theorem filtered_iff (ssids : List Line) (fileSize : Int) (stream : List Line)
    (hstream : [] ∉ stream) :
    Rotated (capacity fileSize) (main ssids fileSize stream).1 (stored ssids stream) ↔
      ∀ block ∈ (pieces isBss stream).getLast?, listed ssids block = false := by
  have hmain := @rotated_main ssids fileSize _ hstream
  rcases List.eq_nil_or_concat (pieces isBss stream) with hp | ⟨ps, block, hp⟩
  · simpa [stored, hp] using hmain
  · rw [List.concat_eq_append] at hp
    simp only [stored, hp, List.dropLast_concat] at hmain ⊢
    cases hlisted : listed ssids block with
    | false => simpa [List.filter_append, hlisted] using hmain
    | true =>
      refine iff_of_false (fun hall => ?_) (by simp [hlisted])
      have hflat := hmain.flatten_eq.symm.trans hall.flatten_eq
      have hmem : block ∈ pieces isBss stream := by simp [hp]
      have hblock := ne_nil_of_mem_pieces hmem
      simp [List.filter_append, hlisted, hblock] at hflat

def bssLine : Line := "t h: BSS 00:11:22:33:44:55".toList
def ssidLine (ssid : String) : Line := ("t h: SSID: " ++ ssid).toList

theorem filtered_two_blocks :
    Rotated (capacity 1)
      (main ["a".toList] 1 [bssLine, ssidLine "a", bssLine, ssidLine "b"]).1
      (stored ["a".toList] [bssLine, ssidLine "a", bssLine, ssidLine "b"]) :=
  (filtered_iff ["a".toList] 1 [bssLine, ssidLine "a", bssLine, ssidLine "b"] (by decide)).mpr
    (by decide +kernel)

/-- The only block of a scan is not written. -/
theorem last_block_lost :
    main ["a".toList] 1 [bssLine, ssidLine "a"] = ([], .eofError) ∧
      stored ["a".toList] [bssLine, ssidLine "a"] = [[bssLine, ssidLine "a"]] := by
  decide +kernel

end CarFi.Scanner
