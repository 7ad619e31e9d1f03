import CarFi.Library.Wire

/-!
# Areas of tagged records

An area of a message that holds records one after the other, each a tag, the length of its value in
one byte, and the value. Two tags have no length and no value: one is skipped, and one ends the
area. `scan` reads an area; `Area` says which bytes are an area for which records, and
`Area.scan_eq` and `area_of_scan` say that `scan` accepts exactly those.
-/
namespace CarFi.Library.Tlv

/-- A tag and its value -/
abbrev Record := UInt8 × Bytes

/-- The two tags without a value -/
structure Format where
  padding : UInt8
  final : UInt8
  ne : padding ≠ final

/-- How the reading of an area ends. -/
inductive Ending where
  /-- At the final tag or at the end of the area. -/
  | complete
  /-- The area ends after a tag. -/
  | noLength
  /-- The area ends within a value. -/
  | noValue
  deriving DecidableEq, Repr

variable (fmt : Format)

/-- The records of an area up to where the reading ends. -/
def scan : Bytes → List Record × Ending
  | [] => ([], .complete)
  | tag :: rest =>
    if tag = fmt.padding then scan rest
    else if tag = fmt.final then ([], .complete)
    else
      match rest with
      | [] => ([], .noLength)
      | len :: rest =>
        if rest.length < len.toNat then ([], .noValue)
        else
          let (records, ending) := scan (rest.drop len.toNat)
          ((tag, rest.take len.toNat) :: records, ending)
  termination_by bytes => bytes.length
  decreasing_by
    · exact Nat.lt_succ_self _
    · rw [List.length_drop, List.length_cons, List.length_cons]
      omega

/-- The bytes of a record -/
def Record.encode (r : Record) : Bytes := r.1 :: UInt8.ofNat r.2.length :: r.2

def encode (rs : List Record) : Bytes := rs.flatMap Record.encode

/-- A record that can be written: it has a value, and its length fits into a byte. -/
structure Format.Fits (r : Record) : Prop where
  ne_padding : r.1 ≠ fmt.padding
  ne_final : r.1 ≠ fmt.final
  short : r.2.length < 256

/-- The bytes are an area with these records. -/
inductive Area : Bytes → List Record → Prop
  | nil : Area [] []
  | padding {bytes : Bytes} {rs : List Record} : Area bytes rs → Area (fmt.padding :: bytes) rs
  | final (bytes : Bytes) : Area (fmt.final :: bytes) []
  | record {r : Record} {bytes : Bytes} {rs : List Record} : fmt.Fits r → Area bytes rs →
      Area (r.encode ++ bytes) (r :: rs)

@[simp] theorem encode_nil : encode [] = [] := rfl

@[simp] theorem encode_cons (r : Record) (rs : List Record) :
    encode (r :: rs) = r.encode ++ encode rs := rfl

@[simp] theorem encode_append (rs rs' : List Record) :
    encode (rs ++ rs') = encode rs ++ encode rs' :=
  List.flatMap_append ..

@[simp] theorem Record.length_encode (r : Record) : r.encode.length = r.2.length + 2 := rfl

variable {fmt}

@[simp] theorem scan_nil : scan fmt [] = ([], .complete) := by rw [scan]

@[simp] theorem scan_padding (bytes : Bytes) :
    scan fmt (fmt.padding :: bytes) = scan fmt bytes := by
  rw [scan.eq_def]
  exact if_pos rfl

@[simp] theorem scan_final (bytes : Bytes) : scan fmt (fmt.final :: bytes) = ([], .complete) := by
  rw [scan.eq_def]
  exact (if_neg fmt.ne.symm).trans (if_pos rfl)

section

variable {tag len : UInt8} (hpad : tag ≠ fmt.padding) (hfin : tag ≠ fmt.final)

include hpad hfin

theorem scan_noLength : scan fmt [tag] = ([], .noLength) := by
  rw [scan.eq_def]
  exact (if_neg hpad).trans (if_neg hfin)

theorem scan_noValue {rest : Bytes} (h : rest.length < len.toNat) :
    scan fmt (tag :: len :: rest) = ([], .noValue) := by
  rw [scan.eq_def]
  exact ((if_neg hpad).trans (if_neg hfin)).trans (if_pos h)

theorem scan_value {rest : Bytes} (h : ¬rest.length < len.toNat) :
    scan fmt (tag :: len :: rest) =
      ((tag, rest.take len.toNat) :: (scan fmt (rest.drop len.toNat)).1,
        (scan fmt (rest.drop len.toNat)).2) := by
  rw [scan.eq_def]
  exact ((if_neg hpad).trans (if_neg hfin)).trans (if_neg h)

end

theorem scan_record {r : Record} (h : fmt.Fits r) (bytes : Bytes) :
    scan fmt (r.encode ++ bytes) = (r :: (scan fmt bytes).1, (scan fmt bytes).2) := by
  have hlen : (UInt8.ofNat r.2.length).toNat = r.2.length := by
    simpa using Nat.mod_eq_of_lt h.short
  rw [Record.encode, List.cons_append, List.cons_append,
    scan_value h.ne_padding h.ne_final (by simp [hlen])]
  simp [hlen]

/-- An area is read as the records it has. -/
theorem Area.scan_eq {bytes : Bytes} {rs : List Record} (h : Area fmt bytes rs) :
    scan fmt bytes = (rs, .complete) := by
  induction h with
  | nil => exact scan_nil
  | padding _ ih => rw [scan_padding, ih]
  | final bytes => exact scan_final bytes
  | record hfits _ ih => rw [scan_record hfits, ih]

theorem area_of_scan (bytes : Bytes) (h : (scan fmt bytes).2 = .complete) :
    Area fmt bytes (scan fmt bytes).1 := by
  fun_induction scan fmt bytes with
  | case1 => exact .nil
  | case2 rest ih => exact .padding (ih h)
  | case3 rest => exact .final rest
  | case4 => cases h
  | case5 => cases h
  | case6 tag hpad hfin len rest hlen records ending heq ih =>
    have hfits : fmt.Fits (tag, rest.take len.toNat) := by
      refine ⟨hpad, hfin, ?_⟩
      have := len.toNat_lt
      simp only [List.length_take]
      omega
    have hlen' : (rest.take len.toNat).length = len.toNat := by
      rw [List.length_take]
      omega
    have hbytes : tag :: len :: rest =
        Record.encode (tag, rest.take len.toNat) ++ rest.drop len.toNat := by
      simp [Record.encode, hlen']
    rw [hbytes]
    exact .record hfits (by simpa [heq] using ih (by simpa [heq] using h))

/-- Records that are followed by an area. -/
theorem Area.encode_append {rs rs' : List Record} {bytes : Bytes} (hfits : ∀ r ∈ rs, fmt.Fits r)
    (h : Area fmt bytes rs') : Area fmt (encode rs ++ bytes) (rs ++ rs') := by
  induction rs with
  | nil => exact h
  | cons r rs ih =>
    obtain ⟨hr, hrs⟩ := List.forall_mem_cons.mp hfits
    rw [encode_cons, List.append_assoc]
    exact .record hr (ih hrs)

/-- Padding alone has no records. -/
theorem Area.replicate (n : ℕ) : Area fmt (List.replicate n fmt.padding) [] := by
  induction n with
  | zero => exact .nil
  | succ n ih => exact .padding ih

end CarFi.Library.Tlv
