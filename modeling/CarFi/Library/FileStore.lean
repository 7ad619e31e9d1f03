import CarFi.Library.Wire
import Mathlib.Logic.Function.Basic

/-!
# A file system with buffered writers

Directory entries point to files, so that a file that is renamed or replaced stays open for
those who opened it before. A writer keeps the bytes it has not yet written in a buffer and
writes at its own position, whatever others did to the file.
-/
namespace CarFi.Library

/-- A name in a directory. -/
structure Loc where
  dir : Nat
  name : Bytes
  deriving DecidableEq

structure Fs where
  entry : Loc → Option Nat
  data : Nat → Bytes
  /-- The files from this number on are not in use. -/
  next : Nat

namespace Fs

/-- The content of the file of an entry. -/
def read (fs : Fs) (loc : Loc) : Option Bytes := (fs.entry loc).map fs.data

def setData (fs : Fs) (i : Nat) (bs : Bytes) : Fs :=
  { fs with data := Function.update fs.data i bs }

/-- `open(loc, "wb")`: the file is truncated if it exists, else created. -/
def openTrunc (fs : Fs) (loc : Loc) : Nat × Fs :=
  match fs.entry loc with
  | some i => (i, fs.setData i [])
  | none =>
    (fs.next, { entry := Function.update fs.entry loc (some fs.next)
                data := Function.update fs.data fs.next []
                next := fs.next + 1 })

/-- The entry moves, over what the target was. -/
def rename (fs : Fs) (src dst : Loc) : Option Fs :=
  (fs.entry src).map fun i =>
    { fs with entry := Function.update (Function.update fs.entry src none) dst (some i) }

@[simp] theorem setData_entry (fs : Fs) (i : Nat) (bs : Bytes) :
    (fs.setData i bs).entry = fs.entry := rfl

@[simp] theorem setData_data (fs : Fs) (i : Nat) (bs : Bytes) :
    (fs.setData i bs).data = Function.update fs.data i bs := rfl

@[simp] theorem setData_next (fs : Fs) (i : Nat) (bs : Bytes) : (fs.setData i bs).next = fs.next :=
  rfl

theorem openTrunc_entry (fs : Fs) (loc : Loc) :
    (fs.openTrunc loc).2.entry = Function.update fs.entry loc (some (fs.openTrunc loc).1) := by
  unfold openTrunc
  split
  · rename_i i hi
    rw [setData_entry, Function.update_eq_self_iff.mpr]
    exact hi.symm
  · rfl

theorem openTrunc_data (fs : Fs) (loc : Loc) :
    (fs.openTrunc loc).2.data = Function.update fs.data (fs.openTrunc loc).1 [] := by
  unfold openTrunc
  split <;> rfl

theorem setData_setData (fs : Fs) (i : Nat) (a b : Bytes) :
    (fs.setData i a).setData i b = fs.setData i b := by
  simp [setData, Function.update_idem]

theorem setData_of_data_eq {fs : Fs} {i : Nat} {bs : Bytes} (h : fs.data i = bs) :
    fs.setData i bs = fs := by
  simp [setData, ← h]

theorem openTrunc_data_self (fs : Fs) (loc : Loc) :
    (fs.openTrunc loc).2.data (fs.openTrunc loc).1 = [] := by
  rw [openTrunc_data, Function.update_self]

theorem read_rename {fs fs' : Fs} {src dst : Loc} (h : fs.rename src dst = some fs') :
    fs'.read dst = fs.read src := by
  obtain ⟨i, hi, rfl⟩ := Option.map_eq_some_iff.mp h
  simp [read, hi]

/-- No two entries have the same file, and all files are below `next`. -/
structure Linked (fs : Fs) : Prop where
  inj : ∀ a b i, fs.entry a = some i → fs.entry b = some i → a = b
  below : ∀ a i, fs.entry a = some i → i < fs.next

theorem Linked.setData {fs : Fs} (h : fs.Linked) (i : Nat) (bs : Bytes) :
    (fs.setData i bs).Linked :=
  ⟨h.inj, h.below⟩

theorem Linked.openTrunc {fs : Fs} (h : fs.Linked) (loc : Loc) : (fs.openTrunc loc).2.Linked := by
  unfold Fs.openTrunc
  split
  · exact h.setData _ _
  · refine ⟨fun a b i ha hb => ?_, fun a i ha => ?_⟩
    · have hnext := fun c (hc : fs.entry c = some fs.next) => (h.below c _ hc).ne rfl
      simp only [Function.update_apply] at ha hb
      grind [h.inj]
    · have := h.below a i
      simp only [Function.update_apply] at ha
      grind

/-- The file that is opened is not one of another name. -/
theorem Linked.ne_openTrunc {fs : Fs} (h : fs.Linked) {a loc : Loc} {i : Nat}
    (ha : fs.entry a = some i) (hne : a ≠ loc) : i ≠ (fs.openTrunc loc).1 := by
  unfold Fs.openTrunc
  split
  · rename_i j hj
    rintro rfl
    exact hne (h.inj _ _ _ ha hj)
  · exact (h.below a i ha).ne

theorem Linked.rename {fs fs' : Fs} {src dst : Loc} (h : fs.Linked)
    (hr : fs.rename src dst = some fs') : fs'.Linked := by
  obtain ⟨i, hi, rfl⟩ := Option.map_eq_some_iff.mp hr
  refine ⟨fun a b j ha hb => ?_, fun a j ha => ?_⟩
  · simp only [Function.update_apply] at ha hb
    grind [h.inj]
  · have := h.below a j
    have := h.below src i hi
    simp only [Function.update_apply] at ha
    grind

end Fs

/-! ## Buffered writers -/

/-- `bs` written over `data` at a position; a gap before them is filled with zeros. -/
def overwrite (data : Bytes) (pos : Nat) (bs : Bytes) : Bytes :=
  if bs = [] then data
  else data.take pos ++ List.replicate (pos - data.length) 0 ++ bs ++ data.drop (pos + bs.length)

theorem overwrite_end (data bs : Bytes) : overwrite data data.length bs = data ++ bs := by
  unfold overwrite
  split <;> simp_all

/-- An open file: what it is, the position of the next write and the bytes not yet written. -/
structure Writer where
  file : Nat
  pos : Nat := 0
  buf : Bytes := []

namespace Writer

/-- The first `k` bytes of the buffer are written. -/
def emit (w : Writer) (k : Nat) : Writer :=
  { w with pos := w.pos + (w.buf.take k).length, buf := w.buf.drop k }

/-- The file after the first `k` bytes of the buffer are written. -/
def emitted (w : Writer) (k : Nat) (fs : Fs) : Fs :=
  fs.setData w.file (overwrite (fs.data w.file) w.pos (w.buf.take k))

def put (w : Writer) (bs : Bytes) : Writer := { w with buf := w.buf ++ bs }

/-- The file holds what was written, `bs` with the buffer. -/
structure Holds (w : Writer) (fs : Fs) (bs : Bytes) : Prop where
  content : fs.data w.file ++ w.buf = bs
  pos : w.pos = (fs.data w.file).length

theorem Holds.put {w : Writer} {fs : Fs} {bs : Bytes} (h : w.Holds fs bs) (more : Bytes) :
    (w.put more).Holds fs (bs ++ more) :=
  ⟨by simp [Writer.put, ← h.content], h.pos⟩

theorem Holds.emit {w : Writer} {fs : Fs} {bs : Bytes} (h : w.Holds fs bs) (k : Nat) :
    (w.emit k).Holds (w.emitted k fs) bs := by
  have hdata : (w.emitted k fs).data w.file = fs.data w.file ++ w.buf.take k := by
    simp [emitted, h.pos, overwrite_end]
  refine ⟨?_, ?_⟩
  · simp [Writer.emit, hdata, List.take_append_drop, h.content]
  · simp [Writer.emit, hdata, h.pos]

theorem emitted_data_of_ne (w : Writer) (k : Nat) (fs : Fs) {i : Nat} (h : i ≠ w.file) :
    (w.emitted k fs).data i = fs.data i := by
  simp [emitted, h]

theorem emitted_of_buf_eq_nil {w : Writer} (h : w.buf = []) (k : Nat) (fs : Fs) :
    w.emitted k fs = fs := by
  simp [emitted, h, overwrite, Fs.setData]

@[simp] theorem emitted_entry (w : Writer) (k : Nat) (fs : Fs) :
    (w.emitted k fs).entry = fs.entry := rfl

end Writer

end CarFi.Library
