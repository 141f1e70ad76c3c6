import Ds4.Lib.Bytes

/-!
# Open files

A `FILE *` is its content and a position. `read` returns fewer bytes than asked for only at the end,
and `write` overwrites and extends.
-/

namespace Ds4.Lib

/-- Bytes written over a part of a buffer. -/
def patch (d : Bytes) (off : Nat) (b : Bytes) : Bytes := d.take off ++ b ++ d.drop (off + b.length)

theorem patch_over {a x c y : Bytes} (h : x.length = y.length) :
    patch (a ++ x ++ c) a.length y = a ++ y ++ c := by
  simp [patch, ← h]

/-- The `k` bytes at `i`. -/
def part (d : Bytes) (i k : Nat) : Bytes := (d.drop i).take k

theorem part_length (d : Bytes) (i k : Nat) : (part d i k).length = min k (d.length - i) := by
  simp [part]

theorem part_append_of_le {d e : Bytes} {i k : Nat} (h : i + k ≤ d.length) :
    part (d ++ e) i k = part d i k := by
  rw [part, part, List.drop_append_of_le_length (by omega), List.take_append_of_le_length]
  rw [List.length_drop]
  omega

theorem part_take {d : Bytes} {i k n : Nat} (h : i + k ≤ n) : part (d.take n) i k = part d i k := by
  rw [part, part, List.drop_take, List.take_take, Nat.min_eq_left (by omega)]

theorem patch_length {d b : Bytes} {off : Nat} (h : off + b.length ≤ d.length) :
    (patch d off b).length = d.length := by
  simp only [patch, List.length_append, List.length_take, List.length_drop]
  omega

theorem part_patch {d b : Bytes} {off i k : Nat} (hoff : off ≤ d.length)
    (h : i + k ≤ off ∨ off + b.length ≤ i) : part (patch d off b) i k = part d i k := by
  rcases h with h | h
  · rw [patch, List.append_assoc, part_append_of_le, part_take h]
    rw [List.length_take]
    omega
  · have hlen : (d.take off ++ b).length = off + b.length := by
      rw [List.length_append, List.length_take]
      omega
    rw [patch, part, List.drop_append, List.drop_eq_nil_of_le (by omega), List.nil_append,
      List.drop_drop, hlen, part]
    congr 2
    omega

/-- An open file. -/
structure File where
  data : Bytes
  pos : Nat
deriving DecidableEq

namespace File

/-- A new file. -/
def empty : File := ⟨[], 0⟩

/-- A file opened at its start. -/
def open' (data : Bytes) : File := ⟨data, 0⟩

/-- What is left to read. -/
def rest (f : File) : Bytes := f.data.drop f.pos

/-- `fseek` from the start. -/
def seek (f : File) (n : Nat) : File := ⟨f.data, n⟩

/-- `fread`. -/
def read (f : File) (n : Nat) : Bytes × File :=
  (f.rest.take n, ⟨f.data, f.pos + (f.rest.take n).length⟩)

/-- `fwrite`. -/
def write (f : File) (b : Bytes) : File := ⟨patch f.data f.pos b, f.pos + b.length⟩

@[simp] theorem rest_open (d : Bytes) : (open' d).rest = d := rfl

@[simp] theorem seek_data (f : File) (n : Nat) : (f.seek n).data = f.data := rfl

@[simp] theorem seek_pos (f : File) (n : Nat) : (f.seek n).pos = n := rfl

@[simp] theorem read_data (f : File) (n : Nat) : (f.read n).2.data = f.data := rfl

theorem rest_read (f : File) (n : Nat) : (f.read n).2.rest = f.rest.drop n := by
  simp only [read, rest, List.length_take, List.length_drop]
  rw [List.drop_drop]
  rcases Nat.le_total n (f.data.length - f.pos) with h | h
  · rw [Nat.min_eq_left h]
  · rw [Nat.min_eq_right h, List.drop_eq_nil_of_le (by omega), List.drop_eq_nil_of_le (by omega)]

theorem read_pos (f : File) (n : Nat) : (f.read n).2.pos = f.pos + (f.read n).1.length := rfl

theorem read_pos_le {f : File} (h : f.pos ≤ f.data.length) (n : Nat) :
    (f.read n).2.pos ≤ (f.read n).2.data.length := by
  simp only [read, rest, List.length_take, List.length_drop]
  omega

theorem read_of_rest {f : File} {a r : Bytes} (h : f.rest = a ++ r) :
    (f.read a.length).1 = a ∧ (f.read a.length).2.rest = r ∧
      (f.read a.length).2.pos = f.pos + a.length := by
  refine ⟨by simp [read, h], by rw [rest_read, h]; simp, by simp [read, h]⟩

/-- A file written so far, at its end. -/
def written (d : Bytes) : File := ⟨d, d.length⟩

@[simp] theorem written_data (d : Bytes) : (written d).data = d := rfl

@[simp] theorem write_written (d b : Bytes) : (written d).write b = written (d ++ b) := by
  simp [write, written, patch]

end File

end Ds4.Lib
