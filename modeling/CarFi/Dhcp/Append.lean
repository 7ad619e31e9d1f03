import CarFi.Dhcp.Options

/-!
# Writing the options of a DHCP message

`option_append` writes an option into a field of a message, and `dhcp_option_append` goes on with
the fields for the boot file and the server name once the options are full, if it may. What has been
written is read back by `dhcp_option_parse` (`Appending.Written.parse`).
-/
namespace CarFi.Dhcp

open Library Library.Tlv

/-! ## Fields -/

/-- Why nothing was appended. A write past the end of a field is undefined in C. -/
inductive Failure where
  | enobufs
  | overrun
  deriving DecidableEq, Repr

/-- A write into a field -/
def writeAt {n : ℕ} (field : Vector UInt8 n) (offset : ℕ) (bytes : Bytes) :
    Option (Vector UInt8 n) :=
  if h : offset + bytes.length ≤ n then
    some ⟨(field.toList.take offset ++ bytes ++ field.toList.drop
      (offset + bytes.length)).toArray, by
      simp
      omega⟩
  else none

/-- What an option is written as: padding and the end have no length and no value. -/
def optionBytes (code : UInt8) (value : Bytes) : Bytes :=
  if code = Code.pad ∨ code = Code.final then [code] else Record.encode (code, value)

/-- `option_append`, which leaves room for the end. -/
def optionAppend {n : ℕ} (field : Vector UInt8 n) (size offset : ℕ) (code : UInt8)
    (value : Bytes) : Except Failure (Vector UInt8 n × ℕ) :=
  let size := if code ≠ Code.final then size - 1 else size
  let bytes := optionBytes code value
  if size < offset + bytes.length then .error .enobufs
  else
    match writeAt field offset bytes with
    | some field => .ok (field, offset + bytes.length)
    | none => .error .overrun

theorem writeAt_of_le {n : ℕ} {field : Vector UInt8 n} {offset : ℕ} {bytes : Bytes}
    (h : offset + bytes.length ≤ n) :
    ∃ field', writeAt field offset bytes = some field' ∧
      field'.toList = field.toList.take offset ++ bytes ++ field.toList.drop
        (offset + bytes.length) :=
  ⟨_, dif_pos h, by simp⟩

/-- An option is appended if it leaves room for the end, and otherwise refused. -/
theorem optionAppend_record {n size offset : ℕ} {field : Vector UInt8 n} {r : Record}
    (hr : optionFormat.Fits r) (hsize : size ≤ n) :
    if size - 1 < offset + r.encode.length then
      optionAppend field size offset r.1 r.2 = .error .enobufs
    else
      ∃ field', optionAppend field size offset r.1 r.2 =
        .ok (field', offset + r.encode.length) ∧ field'.toList =
          field.toList.take offset ++ r.encode ++ field.toList.drop (offset + r.encode.length) := by
  have hbytes : optionBytes r.1 r.2 = r.encode :=
    if_neg (not_or.mpr ⟨hr.ne_padding, hr.ne_final⟩)
  simp only [optionAppend, hbytes, if_pos (show r.1 ≠ Code.final from hr.ne_final)]
  split
  · rfl
  · obtain ⟨field', hwrite, hfield⟩ := @writeAt_of_le n field offset r.encode (by omega)
    exact ⟨field', by rw [hwrite], hfield⟩

/-- The end is written if there is room for it. -/
theorem optionAppend_final {n size offset : ℕ} {field : Vector UInt8 n} (hsize : size ≤ n) :
    if size < offset + 1 then optionAppend field size offset Code.final [] = .error .enobufs
    else
      ∃ field', optionAppend field size offset Code.final [] = .ok (field', offset + 1) ∧
        field'.toList = field.toList.take offset ++ [Code.final] ++ field.toList.drop
          (offset + 1) := by
  simp only [optionAppend, optionBytes, or_true, if_true, ne_eq, not_true_eq_false, if_false,
    List.length_singleton]
  split
  · rfl
  · obtain ⟨field', hwrite, hfield⟩ :=
      @writeAt_of_le n field offset [Code.final] (by simp; omega)
    exact ⟨field', by rw [hwrite], hfield⟩

/-! ## Messages -/

/-- A message and the offset of what is written next. Offsets past the size of the options are in
the other fields. -/
structure Appending where
  message : DHCPMessage
  offset : ℕ

namespace Appending

variable (size : ℕ) (overload : UInt8)

/-- Appending to the options -/
def appendOptions (s : Appending) (code : UInt8) (value : Bytes) : Except Failure Appending :=
  let field : Vector UInt8 s.message.options.length := ⟨s.message.options.toArray, by simp⟩
  match optionAppend field size s.offset code value with
  | .ok (field, offset) => .ok ⟨{ s.message with options := field.toList }, offset⟩
  | .error e => .error e

/-- The part for the server name -/
def appendSname (s : Appending) (code : UInt8) (value : Bytes) : Appending × Except Failure Unit :=
  if overloadsSname overload then
    let base := size + if overloadsFile overload then 128 else 0
    if s.offset - base < 64 then
      match optionAppend s.message.sname 64 (s.offset - base) code value with
      | .ok (sname, offset) => (⟨{ s.message with sname := sname }, base + offset⟩, .ok ())
      | .error e => (s, .error e)
    else (s, .error .enobufs)
  else (s, .error .enobufs)

/-- The part for the boot file. If the option does not fit, the end is put into the options again
and not into this field. -/
def appendFile (s : Appending) (code : UInt8) (value : Bytes) : Appending × Except Failure Unit :=
  if overloadsFile overload then
    if s.offset - size < 128 then
      match optionAppend s.message.file 128 (s.offset - size) code value with
      | .ok (file, offset) => (⟨{ s.message with file := file }, size + offset⟩, .ok ())
      | .error .enobufs =>
        if overloadsSname overload then
          match s.appendOptions size Code.final [] with
          | .ok s => appendSname size overload { s with offset := size + 128 } code value
          | .error e => (s, .error e)
        else (s, .error .enobufs)
      | .error e => (s, .error e)
    else appendSname size overload s code value
  else appendSname size overload s code value

/-- `dhcp_option_append` -/
def dhcpOptionAppend (s : Appending) (code : UInt8) (value : Bytes) :
    Appending × Except Failure Unit :=
  if s.offset < size then
    match s.appendOptions size code value with
    | .ok s => (s, .ok ())
    | .error .enobufs =>
      if overloadsFile overload || overloadsSname overload then
        match s.appendOptions size Code.final [] with
        | .ok s => appendFile size overload { s with offset := size } code value
        | .error e => (s, .error e)
      else (s, .error .enobufs)
    | .error e => (s, .error e)
  else appendFile size overload s code value

/-- Appending options one after the other, up to the first that fails. -/
def appendAll : Appending → List Record → Appending × Except Failure Unit
  | s, [] => (s, .ok ())
  | s, r :: rs =>
    match s.dhcpOptionAppend size overload r.1 r.2 with
    | (s, .ok ()) => appendAll s rs
    | (s, .error e) => (s, .error e)

end Appending

/-! ## What has been written -/

/-- The bytes of a field after a write at the end of what it holds. -/
theorem take_append_drop_write (written bytes rest : Bytes) :
    (written ++ rest).take written.length ++ bytes ++ (written ++ rest).drop
      (written.length + bytes.length) = written ++ bytes ++ rest.drop bytes.length := by
  rw [List.take_left, ← List.drop_drop, List.drop_left]

/-- The field holds the records and is padding from there on. -/
structure Holds {n : ℕ} (field : Vector UInt8 n) (rs : List Record) : Prop where
  toList_eq : field.toList = encode rs ++ List.replicate (n - (encode rs).length) Code.pad
  room : (encode rs).length < n

theorem holds_blank (n : ℕ) (h : 0 < n) : Holds (Vector.replicate n Code.pad) [] :=
  ⟨by simp, by simpa using h⟩

theorem Holds.area {n : ℕ} {field : Vector UInt8 n} {rs : List Record} (h : Holds field rs)
    (hfits : ∀ r ∈ rs, optionFormat.Fits r) : Area optionFormat field.toList rs := by
  have harea := Area.encode_append hfits (Area.replicate (n - (encode rs).length))
  rw [List.append_nil] at harea
  rw [h.toList_eq]
  exact harea

/-- A record is appended to a field if it leaves room for the end. -/
theorem Holds.append {n : ℕ} {field field' : Vector UInt8 n} {rs : List Record} {r : Record}
    {offset : ℕ} (h : Holds field rs) (hr : optionFormat.Fits r)
    (hok : optionAppend field n (encode rs).length r.1 r.2 = .ok (field', offset)) :
    Holds field' (rs ++ [r]) ∧ offset = (encode (rs ++ [r])).length := by
  have hcases := @optionAppend_record n n (encode rs).length field r hr (le_refl n)
  split at hcases
  · rw [hcases] at hok
    cases hok
  · next hroom =>
    obtain ⟨f, hf, hlist⟩ := hcases
    rw [hf] at hok
    obtain ⟨rfl, rfl⟩ : f = field' ∧ (encode rs).length + r.encode.length = offset := by
      simpa using hok
    have hlength : (encode (rs ++ [r])).length = (encode rs).length + r.encode.length := by simp
    have := h.room
    refine ⟨⟨?_, by omega⟩, hlength.symm⟩
    rw [hlist, h.toList_eq, take_append_drop_write, List.drop_replicate, hlength]
    simp [Nat.sub_sub]

/-- After the end the field still holds the records. -/
theorem Holds.final {n : ℕ} {field : Vector UInt8 n} {rs : List Record} (h : Holds field rs)
    (hfits : ∀ r ∈ rs, optionFormat.Fits r) :
    ∃ field' offset, optionAppend field n (encode rs).length Code.final [] =
      .ok (field', offset) ∧ Area optionFormat field'.toList rs := by
  have hcases := @optionAppend_final n n (encode rs).length field (le_refl n)
  have hroom := h.room
  rw [if_neg (by omega)] at hcases
  obtain ⟨field', hok, hlist⟩ := hcases
  refine ⟨field', _, hok, ?_⟩
  rw [hlist, h.toList_eq]
  have hwrite := take_append_drop_write (encode rs) [Code.final]
    (List.replicate (n - (encode rs).length) Code.pad)
  rw [List.length_singleton] at hwrite
  rw [hwrite, List.append_assoc]
  have harea := Area.encode_append hfits (@Area.final optionFormat
    ((List.replicate (n - (encode rs).length) Code.pad).drop 1))
  rwa [List.append_nil] at harea

namespace Appending

variable (size : ℕ) (overload : UInt8)

/-- There is room in the options, which hold the records, and the other fields are blank. -/
structure Open (s : Appending) (rs : List Record) : Prop where
  options : ∃ rest, s.message.options = encode rs ++ rest
  offset : s.offset = (encode rs).length
  room : s.offset < size
  size_le : size ≤ s.message.options.length
  file : Holds s.message.file []
  sname : Holds s.message.sname []

/-- The options are closed, and further records stand in one of the other fields. -/
structure Closed (s : Appending) (rs₁ rs₂ rs₃ : List Record) : Prop where
  options : ∃ rest, s.message.options = encode rs₁ ++ Code.final :: rest
  offset : s.offset = size + (encode (rs₂ ++ rs₃)).length
  size_le : size ≤ s.message.options.length
  file : Holds s.message.file rs₂
  sname : Holds s.message.sname rs₃
  one : if overloadsFile overload then rs₃ = [] else rs₂ = []
  used : (overloadsFile overload || overloadsSname overload) = true
  ended : (encode rs₁).length < size

/-- The records that have been written so far, by the fields that hold them. -/
inductive Written (s : Appending) : List Record → List Record → List Record → Prop
  | opened {rs : List Record} : Open size s rs → Written s rs [] []
  | closed {rs₁ rs₂ rs₃ : List Record} : Closed size overload s rs₁ rs₂ rs₃ →
      Written s rs₁ rs₂ rs₃

variable {size overload} {s s' : Appending} {rs rs₁ rs₂ rs₃ : List Record} {r : Record}

/-- The other fields stay as they are. -/
theorem appendOptions_frame {code : UInt8} {value : Bytes}
    (h : s.appendOptions size code value = .ok s') :
    s'.message.file = s.message.file ∧ s'.message.sname = s.message.sname := by
  simp only [appendOptions] at h
  split at h
  · rw [← Except.ok.inj h]
    exact ⟨rfl, rfl⟩
  · cases h

theorem appendOptions_record (h : Open size s rs) (hr : optionFormat.Fits r) :
    if size - 1 < s.offset + r.encode.length then
      s.appendOptions size r.1 r.2 = .error .enobufs
    else ∃ s', s.appendOptions size r.1 r.2 = .ok s' ∧ Open size s' (rs ++ [r]) := by
  have hcases := @optionAppend_record s.message.options.length size s.offset
    ⟨s.message.options.toArray, by simp⟩ r hr h.size_le
  simp only [appendOptions]
  split
  · next hfull =>
    rw [if_pos hfull] at hcases
    rw [hcases]
  · next hroom =>
    rw [if_neg hroom] at hcases
    obtain ⟨field, hok, hlist⟩ := hcases
    obtain ⟨rest, hrest⟩ := h.options
    refine ⟨_, by rw [hok], ?_⟩
    have hwrite := take_append_drop_write (encode rs) r.encode rest
    rw [← h.offset, ← hrest] at hwrite
    have hlength : (encode (rs ++ [r])).length = s.offset + r.encode.length := by simp [h.offset]
    exact
      { options := ⟨rest.drop r.encode.length, by simpa using hlist.trans hwrite⟩
        offset := hlength.symm
        room := by
          have := h.room
          show s.offset + r.encode.length < size
          omega
        size_le := by simpa using h.size_le
        file := h.file
        sname := h.sname }

/-- The end of the options -/
theorem appendOptions_final (h : Open size s rs) :
    ∃ s', s.appendOptions size Code.final [] = .ok s' ∧ s'.offset = s.offset + 1 ∧
      (∃ rest, s'.message.options = encode rs ++ Code.final :: rest) ∧
      s'.message.options.length = s.message.options.length := by
  have hroom := h.room
  have hcases := @optionAppend_final s.message.options.length size s.offset
    ⟨s.message.options.toArray, by simp⟩ h.size_le
  rw [if_neg (by omega)] at hcases
  obtain ⟨field, hok, hlist⟩ := hcases
  obtain ⟨rest, hrest⟩ := h.options
  have hwrite := take_append_drop_write (encode rs) [Code.final] rest
  rw [← h.offset, ← hrest] at hwrite
  refine ⟨⟨{ s.message with options := field.toList }, s.offset + 1⟩, ?_, rfl,
    ⟨rest.drop 1, ?_⟩, ?_⟩
  · simp only [appendOptions, hok]
  · simpa using hlist.trans hwrite
  · simp

/-- The options are closed before another field is used. -/
theorem Open.close (h : Open size s rs)
    (hused : (overloadsFile overload || overloadsSname overload) = true) :
    ∃ s', s.appendOptions size Code.final [] = .ok s' ∧
      Closed size overload { s' with offset := size } rs [] [] ∧
      s'.message.sname = s.message.sname := by
  obtain ⟨s', hs', -, hoptions, hlength⟩ := appendOptions_final h
  obtain ⟨hfile, hsname⟩ := appendOptions_frame hs'
  refine ⟨s', hs', ?_, hsname⟩
  exact
    { options := hoptions
      offset := by simp
      size_le := by simpa [hlength] using h.size_le
      file := hfile ▸ h.file
      sname := hsname ▸ h.sname
      one := by simp
      used := hused
      ended := h.offset ▸ h.room }

/-- Once the options are closed, the end is not put into them again. -/
theorem appendOptions_closed (h : size ≤ s.offset) (hsize : size ≤ s.message.options.length) :
    s.appendOptions size Code.final [] = .error .enobufs := by
  have hcases := @optionAppend_final s.message.options.length size s.offset
    ⟨s.message.options.toArray, by simp⟩ hsize
  rw [if_pos (by omega)] at hcases
  simp only [appendOptions, hcases]

/-- A record that is appended after the options were closed goes to the first of the other fields
that may be used. -/
theorem Closed.append (h : Closed size overload s rs₁ rs₂ rs₃) (hr : optionFormat.Fits r)
    (hok : s.appendFile size overload r.1 r.2 = (s', .ok ())) :
    if overloadsFile overload then Closed size overload s' rs₁ (rs₂ ++ [r]) rs₃
    else Closed size overload s' rs₁ rs₂ (rs₃ ++ [r]) := by
  have hone := h.one
  have hoffset := h.offset
  cases hfile : overloadsFile overload with
  | true =>
    obtain rfl : rs₃ = [] := by simpa [hfile] using hone
    have hlen : s.offset - size = (encode rs₂).length := by simp [hoffset]
    simp only [appendFile, hfile, if_true, hlen, if_pos h.file.room] at hok
    split at hok
    · next field offset happend =>
      obtain ⟨hholds, rfl⟩ := h.file.append hr happend
      obtain ⟨rfl, -⟩ := Prod.mk.inj hok
      exact
        { options := h.options
          offset := by simp
          size_le := h.size_le
          file := hholds
          sname := h.sname
          one := by simp [hfile]
          used := h.used
          ended := h.ended }
    · split at hok
      · rw [appendOptions_closed (by omega) h.size_le] at hok
        cases hok
      · cases hok
    · cases hok
  | false =>
    obtain rfl : rs₂ = [] := by simpa [hfile] using hone
    have hlen : s.offset - size = (encode rs₃).length := by simp [hoffset]
    simp only [appendFile, appendSname, hfile, Bool.false_eq_true, if_false, Nat.add_zero, hlen,
      if_pos h.sname.room] at hok
    split at hok
    · split at hok
      · next field offset happend =>
        obtain ⟨hholds, rfl⟩ := h.sname.append hr happend
        obtain ⟨rfl, -⟩ := Prod.mk.inj hok
        exact
          { options := h.options
            offset := by simp
            size_le := h.size_le
            file := h.file
            sname := hholds
            one := by simp [hfile]
            used := h.used
            ended := h.ended }
      · cases hok
    · cases hok

/-- The same as one more record after all those written so far. -/
theorem Closed.append_written (h : Closed size overload s rs₁ rs₂ rs₃)
    (hr : optionFormat.Fits r) (hok : s.appendFile size overload r.1 r.2 = (s', .ok ())) :
    ∃ rs₂' rs₃', Written size overload s' rs₁ rs₂' rs₃' ∧
      rs₂' ++ rs₃' = rs₂ ++ rs₃ ++ [r] := by
  have hclosed := h.append hr hok
  have hone := h.one
  split at hclosed
  · next hfile =>
    obtain rfl : rs₃ = [] := by simpa [hfile] using hone
    exact ⟨_, _, .closed hclosed, by simp⟩
  · exact ⟨_, _, .closed hclosed, by simp⟩

/-- Appending a record writes it after all the others, and what is in the options stays there. -/
theorem Written.append (h : Written size overload s rs₁ rs₂ rs₃) (hr : optionFormat.Fits r)
    (hok : s.dhcpOptionAppend size overload r.1 r.2 = (s', .ok ())) :
    ∃ rs₁' rs₂' rs₃', Written size overload s' rs₁' rs₂' rs₃' ∧ rs₁ <+: rs₁' ∧
      rs₁' ++ rs₂' ++ rs₃' = rs₁ ++ rs₂ ++ rs₃ ++ [r] := by
  cases h with
  | closed h =>
    have hoffset := h.offset
    rw [dhcpOptionAppend, if_neg (by omega)] at hok
    obtain ⟨rs₂', rs₃', hwritten, heq⟩ := h.append_written hr hok
    exact ⟨rs₁, rs₂', rs₃', hwritten, List.prefix_refl _,
      by simp [List.append_assoc, heq]⟩
  | opened h =>
    rw [dhcpOptionAppend, if_pos h.room] at hok
    have hcases := appendOptions_record h hr
    split at hcases
    · -- the options are closed first
      simp only [hcases] at hok
      split at hok
      · next hused =>
        obtain ⟨s₁, hs₁, hclosed, -⟩ := h.close hused
        simp only [hs₁] at hok
        obtain ⟨rs₂', rs₃', hwritten, heq⟩ := hclosed.append_written hr hok
        exact ⟨rs₁, rs₂', rs₃', hwritten, List.prefix_refl _, by simpa using heq⟩
      · cases hok
    · obtain ⟨s₁, hs₁, hopen⟩ := hcases
      simp only [hs₁] at hok
      obtain ⟨rfl, -⟩ := Prod.mk.inj hok
      exact ⟨rs₁ ++ [r], [], [], .opened hopen, List.prefix_append .., by simp⟩

theorem Written.appendAll (h : Written size overload s rs₁ rs₂ rs₃)
    (hrs : ∀ r ∈ rs, optionFormat.Fits r) (hok : appendAll size overload s rs = (s', .ok ())) :
    ∃ rs₁' rs₂' rs₃', Written size overload s' rs₁' rs₂' rs₃' ∧ rs₁ <+: rs₁' ∧
      rs₁' ++ rs₂' ++ rs₃' = rs₁ ++ rs₂ ++ rs₃ ++ rs := by
  induction rs generalizing s rs₁ rs₂ rs₃ with
  | nil =>
    obtain ⟨rfl, -⟩ := Prod.mk.inj hok
    exact ⟨rs₁, rs₂, rs₃, h, List.prefix_refl _, by simp⟩
  | cons r rs ih =>
    obtain ⟨hr, hrs⟩ := List.forall_mem_cons.mp hrs
    rw [Appending.appendAll] at hok
    split at hok
    · next s₁ hs₁ =>
      obtain ⟨rs₁', rs₂', rs₃', h', hpre, heq⟩ := h.append hr hs₁
      obtain ⟨ts₁, ts₂, ts₃, ht, hpre', heq'⟩ := ih h' hrs hok
      exact ⟨ts₁, ts₂, ts₃, ht, hpre.trans hpre', by simp [heq', heq]⟩
    · cases hok

/-- The end always fits, and it leaves a well-formed area in each field. -/
theorem Written.final (h : Written size overload s rs₁ rs₂ rs₃)
    (hfits : ∀ r ∈ rs₁ ++ rs₂ ++ rs₃, optionFormat.Fits r) :
    ∃ s', s.dhcpOptionAppend size overload Code.final [] = (s', .ok ()) ∧
      (∃ rest, s'.message.options = encode rs₁ ++ Code.final :: rest) ∧
      (encode rs₁).length < s'.offset ∧
      Area optionFormat s'.message.file.toList rs₂ ∧
      Area optionFormat s'.message.sname.toList rs₃ := by
  simp only [List.forall_mem_append] at hfits
  obtain ⟨⟨hfits₁, hfits₂⟩, hfits₃⟩ := hfits
  cases h with
  | opened h =>
    obtain ⟨s₁, hs₁, hoffset, hoptions, -⟩ := appendOptions_final h
    obtain ⟨hfile, hsname⟩ := appendOptions_frame hs₁
    refine ⟨s₁, ?_, hoptions, ?_, ?_, ?_⟩
    · simp only [dhcpOptionAppend, if_pos h.room, hs₁]
    · have := h.offset
      omega
    · exact hfile ▸ h.file.area (by simp)
    · exact hsname ▸ h.sname.area (by simp)
  | closed h =>
    have hoffset := h.offset
    have hone := h.one
    have hended := h.ended
    rw [dhcpOptionAppend, if_neg (by omega), appendFile]
    cases hfile : overloadsFile overload with
    | true =>
      obtain rfl : rs₃ = [] := by simpa [hfile] using hone
      have hlen : s.offset - size = (encode rs₂).length := by simp [hoffset]
      obtain ⟨field, offset, hok, harea⟩ := h.file.final hfits₂
      refine ⟨⟨{ s.message with file := field }, size + offset⟩, ?_, h.options, ?_, harea,
        h.sname.area hfits₃⟩
      · simp only [if_true, hlen, if_pos h.file.room, hok]
      · show (encode rs₁).length < size + offset
        omega
    | false =>
      obtain rfl : rs₂ = [] := by simpa [hfile] using hone
      have hsname : overloadsSname overload = true := by simpa [hfile] using h.used
      have hlen : s.offset - size = (encode rs₃).length := by simp [hoffset]
      obtain ⟨field, offset, hok, harea⟩ := h.sname.final hfits₃
      refine ⟨⟨{ s.message with sname := field }, size + offset⟩, ?_, h.options, ?_,
        h.file.area hfits₂, harea⟩
      · simp only [appendSname, hfile, hsname, Bool.false_eq_true, if_false, if_true, Nat.add_zero,
          hlen, if_pos h.sname.room, hok]
      · show (encode rs₁).length < size + offset
        omega

/-! ## What is never done -/

/-- The outcome of appending an option, whether it succeeds or not. -/
structure Outcome (overload : UInt8) (s : Appending) (result : Appending × Except Failure Unit) :
    Prop where
  inside : result.2 ≠ .error .overrun
  sname : overloadsFile overload = true → result.1.message.sname = s.message.sname

theorem optionAppend_ne_overrun {n offset : ℕ} {field : Vector UInt8 n}
    (hr : optionFormat.Fits r) : optionAppend field n offset r.1 r.2 ≠ .error .overrun := by
  have hcases := @optionAppend_record n n offset field r hr (le_refl n)
  split at hcases
  · simp [hcases]
  · obtain ⟨field', hok, -⟩ := hcases
    simp [hok]

theorem appendSname_outcome (hfile : overloadsFile overload = false) (hr : optionFormat.Fits r) :
    Outcome overload s (s.appendSname size overload r.1 r.2) := by
  refine ⟨?_, by simp [hfile]⟩
  simp only [appendSname, hfile, Bool.false_eq_true, if_false, Nat.add_zero]
  repeat' split
  · simp
  · next e he =>
    rintro ⟨⟩
    exact optionAppend_ne_overrun hr he
  · simp
  · simp

theorem Closed.outcome (h : Closed size overload s rs₁ rs₂ rs₃) (hr : optionFormat.Fits r) :
    Outcome overload s (s.appendFile size overload r.1 r.2) := by
  have hoffset := h.offset
  rw [appendFile]
  cases hfile : overloadsFile overload with
  | false => exact appendSname_outcome hfile hr
  | true =>
    have hone := h.one
    obtain rfl : rs₃ = [] := by simpa [hfile] using hone
    have hlen : s.offset - size = (encode rs₂).length := by simp [hoffset]
    simp only [if_true, hlen, if_pos h.file.room]
    split
    · exact ⟨by simp, fun _ => rfl⟩
    · split
      · rw [appendOptions_closed (by omega) h.size_le]
        exact ⟨by simp, fun _ => rfl⟩
      · exact ⟨by simp, fun _ => rfl⟩
    · next e _ he =>
      refine ⟨?_, fun _ => rfl⟩
      rintro ⟨⟩
      exact optionAppend_ne_overrun hr he

/-- No field is written past its end, and the one for the server name not at all if the one for the
boot file may be used: once that is full, options are refused. -/
theorem Written.outcome (h : Written size overload s rs₁ rs₂ rs₃) (hr : optionFormat.Fits r) :
    Outcome overload s (s.dhcpOptionAppend size overload r.1 r.2) := by
  cases h with
  | closed h =>
    have hoffset := h.offset
    rw [dhcpOptionAppend, if_neg (by omega)]
    exact h.outcome hr
  | opened h =>
    rw [dhcpOptionAppend, if_pos h.room]
    have hcases := appendOptions_record h hr
    split at hcases
    · simp only [hcases]
      split
      · next hused =>
        obtain ⟨s₁, hs₁, hclosed, hsname⟩ := h.close hused
        simp only [hs₁]
        obtain ⟨hinside, hkept⟩ := hclosed.outcome hr
        exact ⟨hinside, fun hf => (hkept hf).trans hsname⟩
      · exact ⟨by simp, fun _ => rfl⟩
    · obtain ⟨s₁, hs₁, -⟩ := hcases
      simp only [hs₁]
      exact ⟨by simp, fun _ => (appendOptions_frame hs₁).2⟩

/-! ## Reading what was written -/

variable {σ : Type*} (cb : UInt8 → Bytes → σ → Option σ)

/-- The overload stands in the first option and nowhere else, or no other field is used. -/
def Announced (overload : UInt8) (rs : List Record) : Prop :=
  ∃ rest, (∀ r ∈ rest, r.1 ≠ Code.overload) ∧
    (overload = 0 ∧ rs = rest ∨ rs = (Code.overload, [overload]) :: rest)

theorem written_start {m : DHCPMessage} (hsize : 0 < size) (hlen : size ≤ m.options.length)
    (hfile : m.file = Vector.replicate 128 Code.pad)
    (hsname : m.sname = Vector.replicate 64 Code.pad) : Open size ⟨m, 0⟩ [] :=
  { options := ⟨m.options, rfl⟩
    offset := rfl
    room := hsize
    size_le := hlen
    file := hfile ▸ holds_blank 128 (by decide)
    sname := hsname ▸ holds_blank 64 (by decide) }

/-- The fields that are read are those that were written to. -/
theorem parse_fields {t : ParseState σ} {m : DHCPMessage}
    (hfile : Area optionFormat m.file.toList rs₂)
    (hsname : Area optionFormat m.sname.toList rs₃)
    (hused₂ : rs₂ ≠ [] → overloadsFile t.overload = true)
    (hused₃ : rs₃ ≠ [] → overloadsSname t.overload = true)
    (hrs : ∀ r ∈ rs₂ ++ rs₃, r.1 ≠ Code.overload) :
    (parseField cb (overloadsFile t.overload) m.file.toList t >>= fun u =>
        parseField cb (overloadsSname t.overload) m.sname.toList u) =
      (rs₂ ++ rs₃).foldlM (handleOption cb true) t := by
  have hfield {used : Bool} {bytes : Bytes} {rs : List Record} (harea : Area optionFormat bytes rs)
      (hused : rs ≠ [] → used = true) (u : ParseState σ) :
      parseField cb used bytes u = rs.foldlM (handleOption cb false) u := by
    cases used with
    | true =>
      rw [parseField, if_pos rfl, parseOptions_eq, harea.scan_eq]
      cases rs.foldlM (handleOption cb false) u <;> rfl
    | false =>
      obtain rfl : rs = [] := by
        by_contra hne
        exact absurd (hused hne) (by decide)
      rfl
  rw [(foldlM_handleOption cb hrs true t).1, List.foldlM_append, hfield hfile hused₂]
  congr 1
  funext u
  rw [hfield hsname hused₃]

/-- The options that are sent, up to the given length -/
def cut (m : DHCPMessage) (n : ℕ) : DHCPMessage := { m with options := m.options.take n }

/-- Only fields that may be used have been. -/
theorem Written.used (h : Written size overload s rs₁ rs₂ rs₃) :
    (rs₂ ≠ [] → overloadsFile overload = true) ∧
      (rs₃ ≠ [] → overloadsSname overload = true) := by
  cases h with
  | opened _ => simp
  | closed h =>
    have hone := h.one
    have hused := h.used
    cases hfile : overloadsFile overload with
    | true =>
      rw [hfile, if_pos rfl] at hone
      simp [hone]
    | false =>
      rw [hfile, if_neg (by decide)] at hone
      rw [hfile, Bool.false_or] at hused
      simp [hone, hused]

/-- The first area says which fields are used. -/
theorem overload_of_announced (hann : Announced overload rs) {userdata : σ} {t : ParseState σ}
    (h : rs.foldlM (handleOption cb true) { userdata := userdata } = .ok t) :
    t.overload = overload := by
  obtain ⟨rest, hrest, ⟨rfl, rfl⟩ | rfl⟩ := hann
  · exact (foldlM_handleOption cb hrest true _).2 t h
  · rw [List.foldlM_cons] at h
    exact (foldlM_handleOption cb hrest true _).2 t h

/-- After the end, the message is read as the options that were appended, in their order. -/
theorem Written.parse (h : Written size overload s rs₁ rs₂ rs₃)
    (hfits : ∀ r ∈ rs₁ ++ rs₂ ++ rs₃, optionFormat.Fits r)
    (hann : Announced overload rs₁) (hrs : ∀ r ∈ rs₂ ++ rs₃, r.1 ≠ Code.overload) :
    ∃ s', s.dhcpOptionAppend size overload Code.final [] = (s', .ok ()) ∧
      ∀ n, s'.offset ≤ n → ∀ userdata, dhcpOptionParse cb (cut s'.message n) userdata =
        ((rs₁ ++ rs₂ ++ rs₃).foldlM (handleOption cb true) { userdata := userdata }).bind
          fun t => if t.messageType = 0 then .error (.errno .enomsg) else .ok t.result := by
  obtain ⟨s', hs', ⟨rest, hoptions⟩, hoffset, hfile, hsname⟩ := h.final hfits
  refine ⟨s', hs', fun n hn userdata => ?_⟩
  obtain ⟨k, rfl⟩ : ∃ k, n = (encode rs₁).length + (k + 1) :=
    ⟨n - (encode rs₁).length - 1, by omega⟩
  have harea : Area optionFormat (cut s'.message ((encode rs₁).length + (k + 1))).options
      rs₁ := by
    have hfits₁ : ∀ r ∈ rs₁, optionFormat.Fits r := fun r hr => hfits r (by simp [hr])
    have := Area.encode_append hfits₁ (@Area.final optionFormat (rest.take k))
    rw [List.append_nil] at this
    simp only [cut, hoptions, List.take_length_add_append, List.take_succ_cons]
    exact this
  have hread : parseOptions cb true (cut s'.message ((encode rs₁).length + (k + 1))).options
      { userdata := userdata } = rs₁.foldlM (handleOption cb true) { userdata := userdata } := by
    rw [parseOptions_eq, harea.scan_eq]
    cases rs₁.foldlM (handleOption cb true) { userdata := userdata } <;> rfl
  rw [dhcpOptionParse, hread, List.append_assoc, List.foldlM_append]
  cases hfold : rs₁.foldlM (handleOption cb true) { userdata := userdata } with
  | error e => rfl
  | ok t =>
    have hover := overload_of_announced cb hann hfold
    obtain ⟨hused₂, hused₃⟩ := h.used
    rw [← hover] at hused₂ hused₃
    have hfields := parse_fields cb hfile hsname hused₂ hused₃ hrs
    show (parseField cb (overloadsFile t.overload) s'.message.file.toList t >>= fun u =>
      parseField cb (overloadsSname t.overload) s'.message.sname.toList u >>= _) = _
    rw [← bind_assoc, hfields]
    rfl

end Appending

/-! ## Whole messages -/

/-- An empty message with room for options -/
def blankMessage (n : ℕ) : DHCPMessage := { options := List.replicate n Code.pad }

/-- An option that says that the boot file is used, a message type, and a server. -/
def spilled : List Record :=
  [(Code.overload, [1]), (Code.messageType, [5]), (Code.serverIdentifier, [10, 0, 0, 1])]

theorem fits_spilled : ∀ r ∈ spilled, optionFormat.Fits r := by
  simp only [spilled, List.forall_mem_cons, List.not_mem_nil, false_implies, implies_true, and_true]
  refine ⟨⟨?_, ?_, ?_⟩, ⟨?_, ?_, ?_⟩, ⟨?_, ?_, ?_⟩⟩ <;> decide

/-- Options that fill the boot file, and one more. -/
def overflowing : List Record :=
  [(Code.overload, [3]), (Code.messageType, [5]), (Code.domainName, List.replicate 100 97),
    (Code.hostName, List.replicate 50 98)]

theorem fits_overflowing : ∀ r ∈ overflowing, optionFormat.Fits r := by
  simp only [overflowing, List.forall_mem_cons, List.not_mem_nil, false_implies, implies_true,
    and_true]
  refine ⟨⟨?_, ?_, ?_⟩, ⟨?_, ?_, ?_⟩, ⟨?_, ?_, ?_⟩, ⟨?_, ?_, ?_⟩⟩ <;> decide

end CarFi.Dhcp
