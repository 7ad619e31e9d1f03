import CarFi.Analyzer.ScanBlocks
import CarFi.Library.Chunks
import CarFi.Scanner.SsidFilter

/-!
# From the scanner to the access points

The filter of the scanner writes blocks to files of a given size, and `ScanParser.parse` reads each
file on its own and never takes the last access point of a file. `parse_same_iff` says when the size
of the files makes no difference. The last block of all stands at the end of the last file, so that
it gives no access point for any size.
-/
namespace CarFi.Analyzer.ScanParser

open Library

variable {τ : Type} (timestamp : List Char → Option τ) (ssid : List Char)

/-- `parse` on the files of the directory, in the order in which they are listed. `reduce` has no
initial value. -/
def parse (files : List (List (List Char))) : Except PyError (List (AP τ)) :=
  match files.mapM (processOne timestamp ssid) with
  | none => .error .valueError
  | some [] => .error .typeError
  | some apLists => .ok apLists.flatten

/-- The lines that a row is read back as. A carriage return ends a line, and one before the newline
belongs to the end of the row. -/
def rowLines (row : List Char) : List (List Char) :=
  ((if row.getLast? = some '\r' then row.dropLast else row).splitOn '\r').map (· ++ ['\n'])

example : rowLines "a\rb\r".toList = ["a\n".toList, "b\n".toList] := by decide

/-- The lines of a file with the given rows, each written with a newline after it. -/
def fileLines (rows : List (List Char)) : List (List Char) := rows.flatMap rowLines

/-- The files that the filter leaves. -/
def scanFiles (ssids : List (List Char)) (fileSize : Int) (stream : List (List Char)) :
    List (List (List Char)) :=
  (Scanner.main ssids fileSize stream).1.map fileLines

/-- Both give the same access points, or none of them does give any. -/
def SameAps : Except PyError (List (AP τ)) → Except PyError (List (AP τ)) → Prop
  | .ok aps, .ok aps' => aps.Perm aps'
  | .error _, .error _ => True
  | _, _ => False

/-- The blocks that the filter writes, as lines of files. -/
def writtenBlocks (ssids stream : List (List Char)) : List (List (List Char)) :=
  (Scanner.written ssids stream).map fileLines

/-- All timestamps and numbers of the lines can be read. -/
abbrev Reads (lines : List (List Char)) : Prop := (reader timestamp).Reads isBss lines

/-- No block that is written leaves an access point that a later one completes. -/
abbrev Separate (bs : List (List (List Char))) : Prop :=
  (reader timestamp).Separate isBss (keep ssid) bs

abbrev apsOf (lines : List (List Char)) : List (AP τ) :=
  (reader timestamp).out isBss (keep ssid) lines

variable {timestamp ssid}

theorem processOne_eq_some {lines : List (List Char)} (h : Reads timestamp lines) :
    processOne timestamp ssid lines = some (apsOf timestamp ssid lines) := by
  rw [processOne_eq_read]
  exact Reader.read_eq_some h

theorem processOne_eq_none {lines : List (List Char)} (h : ¬Reads timestamp lines) :
    processOne timestamp ssid lines = none := by
  rw [processOne_eq_read, Reader.read_eq_none_iff]
  unfold Reads Reader.Reads at h
  push Not at h
  obtain ⟨b, hb, hnone⟩ := h
  exact ⟨b, hb, by simpa using hnone⟩

theorem parse_eq_error {files : List (List (List Char))} {lines : List (List Char)}
    (hmem : lines ∈ files) (h : ¬Reads timestamp lines) :
    parse timestamp ssid files = .error .valueError := by
  rw [parse, mapM_eq_none_iff.mpr ⟨lines, hmem, processOne_eq_none h⟩]

theorem parse_eq_ok {files : List (List (List Char))} (hne : files ≠ [])
    (h : ∀ lines ∈ files, Reads timestamp lines) :
    parse timestamp ssid files = .ok (files.flatMap (apsOf timestamp ssid)) := by
  have hmap : files.mapM (processOne timestamp ssid) = some (files.map (apsOf timestamp ssid)) := by
    cases hm : files.mapM (processOne timestamp ssid) with
    | none =>
      obtain ⟨lines, hlines, hnone⟩ := mapM_eq_none_iff.mp hm
      rw [processOne_eq_some (h lines hlines)] at hnone
      cases hnone
    | some apLists =>
      have hsome : files.map (processOne timestamp ssid) =
          (files.map (apsOf timestamp ssid)).map some := by
        rw [List.map_map]
        exact List.map_congr_left fun lines hlines => processOne_eq_some (h lines hlines)
      rw [map_eq_of_mapM_eq_some hm] at hsome
      rw [List.map_injective_iff.mpr (fun _ _ h => Option.some.inj h) hsome]
  obtain ⟨lines, rest, rfl⟩ := List.exists_cons_of_ne_nil hne
  rw [parse, hmap, List.map_cons, List.flatMap_def, List.map_cons]

/-! ## Files of any size -/

theorem fileLines_flatten (blocks : List (List (List Char))) :
    fileLines blocks.flatten = (blocks.map fileLines).flatten := by
  rw [fileLines, List.flatten_eq_flatMap, List.flatMap_assoc, ← List.flatMap_def]
  rfl

theorem rotated_scanFiles (ssids : List (List Char)) (fileSize : Int) (stream : List (List Char)) :
    Scanner.Rotated (Scanner.capacity fileSize) (scanFiles ssids fileSize stream)
      (writtenBlocks ssids stream) := by
  obtain ⟨groups, hfiles, hblocks, hsize, hfull⟩ :=
    Scanner.rotated_written ssids fileSize stream
  refine ⟨groups.map (List.map fileLines), ?_, ?_, ?_, ?_⟩
  · rw [scanFiles, hfiles, List.map_map, List.map_map]
    exact List.map_congr_left fun g _ => fileLines_flatten g
  · rw [writtenBlocks, ← hblocks, List.map_flatten]
  · simpa using hsize
  · simpa [← List.map_dropLast] using hfull

section Rotated

variable {n : Nat} {files fs bs : List (List (List Char))}

theorem parse_of_not_reads (hrot : Scanner.Rotated n files bs) (hfs : fs.Perm files)
    {b : List (List Char)} (hb : b ∈ bs) (hread : ¬Reads timestamp b) :
    parse timestamp ssid fs = .error .valueError := by
  obtain ⟨groups, rfl, rfl, -, -⟩ := hrot
  obtain ⟨g, hg, hbg⟩ := List.mem_flatten.mp hb
  exact parse_eq_error (hfs.mem_iff.mpr (List.mem_map_of_mem hg)) fun h =>
    hread (h.of_mem_flatten hbg)

theorem parse_of_separate (hrot : Scanner.Rotated n files bs) (hfs : fs.Perm files)
    (hne : bs ≠ []) (hread : ∀ b ∈ bs, Reads timestamp b)
    (hsep : Separate timestamp ssid bs) : ∃ aps, parse timestamp ssid fs = .ok aps ∧
      aps.Perm (bs.flatMap (apsOf timestamp ssid)) := by
  obtain ⟨groups, rfl, rfl, -, -⟩ := hrot
  have hgroup : ∀ g ∈ groups, Reads timestamp g.flatten ∧
      apsOf timestamp ssid g.flatten = g.flatMap (apsOf timestamp ssid) := by
    intro g hg
    refine Reader.Separate.flatten ?_ fun b hb => hread b (List.mem_flatten_of_mem hg hb)
    obtain ⟨before, after, rfl⟩ := List.append_of_mem hg
    rw [List.flatten_append, List.flatten_cons] at hsep
    exact hsep.append.2.append.1
  have hfiles : fs ≠ [] := by
    rintro rfl
    rw [List.nil_perm, List.map_eq_nil_iff] at hfs
    exact hne (by rw [hfs]; rfl)
  have hok : ∀ lines ∈ fs, Reads timestamp lines := by
    intro lines hlines
    obtain ⟨g, hg, rfl⟩ := List.mem_map.mp (hfs.mem_iff.mp hlines)
    exact (hgroup g hg).1
  refine ⟨_, parse_eq_ok hfiles hok, (hfs.flatMap_right _).trans (.of_eq ?_)⟩
  rw [List.flatMap_map, List.flatten_eq_flatMap, List.flatMap_assoc]
  exact List.flatMap_congr fun g hg => (hgroup g hg).2

theorem files_of_one (h : Scanner.Rotated 1 files bs) : files = bs := by
  obtain ⟨groups, rfl, rfl, hsize, -⟩ := h
  have hone : ∀ g ∈ groups, [g.flatten] = g := by
    intro g hg
    obtain ⟨hne, hle⟩ := hsize g hg
    have hpos := List.length_pos_iff.mpr hne
    have hlen : g.length = 1 := by omega
    obtain ⟨b, rfl⟩ := List.length_eq_one_iff.mp hlen
    simp
  calc groups.map List.flatten
    _ = groups.flatMap fun g => [g.flatten] := List.map_eq_flatMap
    _ = groups.flatten := by
      rw [List.flatten_eq_flatMap]
      exact List.flatMap_congr hone

theorem files_of_length (h : Scanner.Rotated n files bs) (hne : bs ≠ []) (hn : bs.length ≤ n) :
    files = [bs.flatten] := by
  obtain ⟨groups, rfl, rfl, hsize, hfull⟩ := h
  rcases List.eq_nil_or_concat groups with rfl | ⟨gs, g, hg⟩
  · simp at hne
  · rw [List.concat_eq_append] at hg
    subst hg
    have hpos : 0 < g.length := List.length_pos_iff.mpr (hsize g (by simp)).1
    cases gs with
    | nil => simp
    | cons g' gs =>
      rw [List.dropLast_concat] at hfull
      have hlen : g'.length = n := hfull g' List.mem_cons_self
      rw [List.cons_append, List.flatten_cons, List.flatten_append, List.length_append,
        List.length_append, List.flatten_singleton] at hn
      omega

end Rotated

/-- The size of the files makes no difference iff some block cannot be read, or no block leaves an
access point that a later one completes. -/
theorem parse_same_iff (timestamp : List Char → Option τ) (ssid : List Char)
    (ssids stream : List (List Char)) :
    (∀ (s₁ s₂ : Int) (fs₁ fs₂ : List (List (List Char))),
      fs₁.Perm (scanFiles ssids s₁ stream) → fs₂.Perm (scanFiles ssids s₂ stream) →
        SameAps (parse timestamp ssid fs₁) (parse timestamp ssid fs₂)) ↔
      (∃ b ∈ writtenBlocks ssids stream, ¬Reads timestamp b) ∨
        Separate timestamp ssid (writtenBlocks ssids stream) := by
  have hrot := fun s => rotated_scanFiles ssids s stream
  generalize writtenBlocks ssids stream = bs at hrot ⊢
  by_cases hread : ∀ b ∈ bs, Reads timestamp b
  · have hreads : ¬∃ b ∈ bs, ¬Reads timestamp b := by simpa using hread
    rw [or_iff_right hreads]
    by_cases hne : bs = []
    · subst hne
      have hnone (s : Int) : scanFiles ssids s stream = [] := by
        obtain ⟨groups, hfiles, hnil, hsize, -⟩ := hrot s
        have hgroups : groups = [] := by
          by_contra hgroups
          obtain ⟨g, gs, rfl⟩ := List.exists_cons_of_ne_nil hgroups
          simp [(hsize g List.mem_cons_self).1] at hnil
        rw [hfiles, hgroups]
        rfl
      refine iff_of_true (fun s₁ s₂ fs₁ fs₂ h₁ h₂ => ?_) trivial
      rw [hnone, List.perm_nil] at h₁ h₂
      rw [h₁, h₂]
      trivial
    constructor
    · intro hsame
      -- one block a file, and all blocks in one file
      have hone := files_of_one (hrot 1)
      have hcap : Scanner.capacity bs.length = bs.length := by
        have hpos := List.length_pos_iff.mpr hne
        unfold Scanner.capacity
        omega
      have hall := files_of_length (hrot bs.length) hne hcap.ge
      have hboth := hsame 1 bs.length bs [bs.flatten] (.of_eq hone.symm) (.of_eq hall.symm)
      rw [parse_eq_ok hne hread] at hboth
      by_cases hflat : Reads timestamp bs.flatten
      · rw [parse_eq_ok (by simp) (by simpa using hflat), List.flatMap_singleton] at hboth
        exact Reader.separate_of_length_le hflat hboth.length_eq.ge
      · rw [parse_eq_error (List.mem_singleton_self _) hflat] at hboth
        exact hboth.elim
    · intro hsep s₁ s₂ fs₁ fs₂ h₁ h₂
      obtain ⟨aps₁, hok₁, hperm₁⟩ := parse_of_separate (hrot s₁) h₁ hne hread hsep
      obtain ⟨aps₂, hok₂, hperm₂⟩ := parse_of_separate (hrot s₂) h₂ hne hread hsep
      rw [hok₁, hok₂]
      exact hperm₁.trans hperm₂.symm
  · push Not at hread
    obtain ⟨b, hb, hnot⟩ := hread
    refine iff_of_true (fun s₁ s₂ fs₁ fs₂ h₁ h₂ => ?_) (.inl ⟨b, hb, hnot⟩)
    rw [parse_of_not_reads (hrot s₁) h₁ hb hnot, parse_of_not_reads (hrot s₂) h₂ hb hnot]
    trivial

/-- A block of the scanner. -/
def scanBlock (bssid : String) : List (List Char) :=
  [("2021-01-01T00:00:00.0+0000 h: BSS " ++ bssid).toList, "t h: freq: 2412".toList,
   "t h: signal: -60.5 dBm".toList, "t h: SSID: wifi".toList, "t h: Supported rates: 1.0*".toList,
   "t h: DS Parameter set: channel 1".toList]

/-- Two blocks and the empty line that ends them. -/
def scanStream : List (List Char) :=
  scanBlock "00:11:22:33:44:55" ++ scanBlock "00:11:22:33:44:66" ++ [[]]

/-- The access point of the first block is lost if it is alone in its file. -/
theorem file_size_matters :
    (parse newYear "wifi".toList (scanFiles ["wifi".toList] 1 scanStream)).toOption = some [] ∧
      (parse newYear "wifi".toList (scanFiles ["wifi".toList] 2 scanStream)).toOption.map
        (·.map AP.bssid) = some ["00:11:22:33:44:55".toList] := by
  decide +kernel

end CarFi.Analyzer.ScanParser
