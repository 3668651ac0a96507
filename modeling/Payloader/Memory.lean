-- Blocks of memory with checked access. A read or a copy that leaves its
-- block is a fault, so a run with no fault stays in its blocks. The blocks
-- hold any type of cell: bytes, or the tags that say where a byte came from.
import Mathlib.Algebra.Group.Int.Defs
import Mathlib.Algebra.Group.Nat.Defs
import Mathlib.Data.List.Basic

set_option autoImplicit false

namespace payloader.memory

/-- Why a call gives no result: a read or a write outside a block, or a loop
that still runs when its fuel is used up. -/
inductive Fault
  | read
  | write
  | running
  deriving DecidableEq, Repr

/-- `size` cells at the addresses `0 .. size - 1`. The size is in the type,
so no copy changes it. -/
structure Block (size : Nat) (α : Type) where
  cell : Nat → α

variable {α : Type} {size m : Nat}

/-- An `int` that C turns into a `size_t`. -/
def sizeT (n : Int) : Nat := (n % 2 ^ 64).toNat

theorem sizeT_ofNat (n : Nat) (h : n < 2 ^ 64) : sizeT n = n := by
  unfold sizeT
  omega

/-- The `n` cells from address `off`. -/
def Block.slice (b : Block size α) (off n : Nat) : List α :=
  (List.range n).map (fun i => b.cell (off + i))

/-- The block with the cells of `l` written from address `off`. -/
def Block.put (b : Block size α) (off : Nat) (l : List α) : Block size α :=
  { cell := fun i => if off ≤ i then l[i - off]?.getD (b.cell i) else b.cell i }

/-- A block that holds a list, with `d` in the addresses after it. -/
def Block.ofList (l : List α) (d : α) : Block size α := { cell := fun i => l.getD i d }

def Block.load (b : Block size α) (i : Nat) : Except Fault α :=
  if i < size then .ok (b.cell i) else .error .read

def Block.store (b : Block size α) (i : Nat) (x : α) : Except Fault (Block size α) :=
  if i < size then .ok (b.put i [x]) else .error .write

/-- `memcpy(dst + p, src + q, n)`, with `n` turned into a `size_t`. The
source is checked first. -/
def Block.memcpy (dst : Block size α) (p : Int) (src : Block m α) (q n : Int) :
    Except Fault (Block size α) :=
  if 0 ≤ q ∧ q + sizeT n ≤ m then
    if 0 ≤ p ∧ p + sizeT n ≤ size then
      .ok (dst.put p.toNat (src.slice q.toNat (sizeT n)))
    else .error .write
  else .error .read

/-! ## Slices -/

@[simp] theorem slice_length (b : Block size α) (off n : Nat) : (b.slice off n).length = n := by
  simp [Block.slice]

@[simp] theorem slice_zero (b : Block size α) (off : Nat) : b.slice off 0 = [] := rfl

theorem slice_getElem? (b : Block size α) (off n i : Nat) :
    (b.slice off n)[i]? = if i < n then some (b.cell (off + i)) else none := by
  unfold Block.slice
  rw [List.getElem?_map]
  split
  · simp [*]
  · rw [List.getElem?_eq_none (by simp; omega)]
    rfl

theorem slice_append (b : Block size α) (off m n : Nat) :
    b.slice off (m + n) = b.slice off m ++ b.slice (off + m) n := by
  simp [Block.slice, List.range_add, Nat.add_assoc]

theorem slice_congr {b : Block size α} {c : Block m α} {off n : Nat}
    (h : ∀ i < n, b.cell (off + i) = c.cell (off + i)) : b.slice off n = c.slice off n := by
  unfold Block.slice
  exact List.map_congr_left (fun i hi => h i (by simpa using hi))

/-- A part of a slice is a slice. -/
theorem slice_drop_take (b : Block size α) (off n i m : Nat) (h : i + m ≤ n) :
    ((b.slice off n).drop i).take m = b.slice (off + i) m := by
  apply List.ext_getElem?
  intro k
  rw [List.getElem?_take, slice_getElem?]
  split
  · rw [List.getElem?_drop, slice_getElem?, if_pos (by omega), Nat.add_assoc]
  · rfl

theorem slice_ofList (l : List α) (d : α) (off n : Nat) (h : off + n ≤ l.length) :
    (Block.ofList l d : Block size α).slice off n = (l.drop off).take n := by
  apply List.ext_getElem?
  intro i
  rw [slice_getElem?, List.getElem?_take]
  split
  · rw [List.getElem?_drop]
    simp [Block.ofList, List.getElem?_eq_getElem (by omega : off + i < l.length)]
  · rfl

/-- A block that is made from a list starts with all of it. -/
theorem slice_ofList_self (l : List α) (d : α) :
    (Block.ofList l d : Block size α).slice 0 l.length = l := by
  rw [slice_ofList _ _ _ _ (by omega), List.drop_zero, List.take_length]

/-! ## Writes -/

/-- A write leaves every cell outside it as it was. -/
theorem put_cell_outside (b : Block size α) (off i : Nat) (l : List α)
    (h : i < off ∨ off + l.length ≤ i) : (b.put off l).cell i = b.cell i := by
  simp only [Block.put]
  split
  · rw [List.getElem?_eq_none (by omega)]
    rfl
  · rfl

theorem put_cell_inside (b : Block size α) (off i : Nat) (l : List α) (h : i < l.length) :
    (b.put off l).cell (off + i) = l[i] := by
  simp [Block.put, List.getElem?_eq_getElem h]

/-- A slice of cells that a write does not touch. -/
theorem slice_put_outside (b : Block size α) (off p n : Nat) (l : List α)
    (h : off + n ≤ p ∨ p + l.length ≤ off) : (b.put p l).slice off n = b.slice off n := by
  apply slice_congr
  intro i hi
  exact put_cell_outside _ _ _ _ (by omega)

@[simp] theorem put_nil (b : Block size α) (off : Nat) : b.put off [] = b := by
  simp [Block.put]

/-- Two writes in a row are one write. -/
theorem put_append (b : Block size α) (off : Nat) (l m : List α) :
    (b.put off l).put (off + l.length) m = b.put off (l ++ m) := by
  simp only [Block.put, Block.mk.injEq]
  funext i
  rcases Nat.lt_or_ge i off with h1 | h1
  · rw [if_neg (by omega), if_neg (by omega), if_neg (by omega)]
  · rw [if_pos h1]
    rcases Nat.lt_or_ge i (off + l.length) with h2 | h2
    · rw [if_neg (by omega), if_pos h1, List.getElem?_append_left (by omega)]
    · have hnone : l[i - off]? = none := List.getElem?_eq_none (by omega)
      rw [if_pos h2, if_pos h1, hnone, Option.getD_none, List.getElem?_append_right (by omega),
        Nat.sub_sub]

/-- Reading back what was written. -/
theorem slice_put_self (b : Block size α) (off : Nat) (l : List α) :
    (b.put off l).slice off l.length = l := by
  apply List.ext_getElem?
  intro i
  rw [slice_getElem?]
  split
  · rw [put_cell_inside _ _ _ _ ‹_›, List.getElem?_eq_getElem ‹_›]
  · rw [List.getElem?_eq_none (by omega)]

/-- A write right after a slice makes the slice longer. -/
theorem slice_put_after (b : Block size α) (off n : Nat) (l : List α) :
    (b.put (off + n) l).slice off (n + l.length) = b.slice off n ++ l := by
  rw [slice_append, slice_put_self, slice_put_outside _ _ _ _ _ (by omega)]

/-! ## Copies -/

theorem memcpy_ok (dst : Block size α) (src : Block m α) {p q n : Nat} (hn : n < 2 ^ 64)
    (h1 : q + n ≤ m) (h2 : p + n ≤ size) :
    dst.memcpy p src q n = .ok (dst.put p (src.slice q n)) := by
  unfold Block.memcpy
  rw [sizeT_ofNat n hn, if_pos (by omega), if_pos (by omega)]
  rfl

theorem memcpy_write (dst : Block size α) (src : Block m α) {p q n : Nat} (hn : n < 2 ^ 64)
    (h1 : q + n ≤ m) (h2 : size < p + n) : dst.memcpy p src q n = .error .write := by
  unfold Block.memcpy
  rw [sizeT_ofNat n hn, if_pos (by omega), if_neg (by omega)]

/-- A copy that is made lies in both blocks. -/
theorem memcpy_ok_inv {dst r : Block size α} {src : Block m α} {p q n : Nat} (hn : n < 2 ^ 64)
    (h : dst.memcpy p src q n = .ok r) :
    q + n ≤ m ∧ p + n ≤ size ∧ r = dst.put p (src.slice q n) := by
  by_cases h1 : q + n ≤ m
  · by_cases h2 : p + n ≤ size
    · rw [memcpy_ok dst src hn h1 h2] at h
      exact ⟨h1, h2, (Except.ok.inj h).symm⟩
    · rw [memcpy_write dst src hn h1 (by omega)] at h
      cases h
  · unfold Block.memcpy at h
    rw [sizeT_ofNat n hn, if_neg (by omega)] at h
    cases h

/-- A copy whose source lies in its block is not a bad read. -/
theorem memcpy_source_inside (dst : Block size α) (src : Block m α) {p : Int} {q n : Nat}
    (hn : n < 2 ^ 64) (h : q + n ≤ m) : dst.memcpy p src q n ≠ .error .read := by
  unfold Block.memcpy
  rw [sizeT_ofNat n hn, if_pos (by omega)]
  split <;> simp

end payloader.memory
