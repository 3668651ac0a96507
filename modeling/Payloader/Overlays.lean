-- Writes to one block that lie over one another. A cell holds what the last
-- write over it has put there. A structure that is laid over the block is the
-- parts of it, one after another, and a write to one of its parts is a write to
-- the cells of that part.
import Mathlib.Algebra.GroupWithZero.Nat
import Mathlib.Data.List.Induction
import Payloader.Memory

set_option autoImplicit false

namespace payloader.overlays

open payloader.memory

variable {α : Type} {size : Nat} {b : Block size α} {i j : Nat}

/-! ## Runs of writes -/

/-- A list that is written from an address on. -/
structure Write (α : Type) where
  off : Nat
  cells : List α

/-- The write goes over the cell. -/
def Write.Covers (w : Write α) (i : Nat) : Prop := w.off ≤ i ∧ i < w.off + w.cells.length

instance (w : Write α) (i : Nat) : Decidable (w.Covers i) := by
  unfold Write.Covers
  infer_instance

/-- The write goes over none of the `n` cells from `off`. -/
def Write.Misses (w : Write α) (off n : Nat) : Prop :=
  off + n ≤ w.off ∨ w.off + w.cells.length ≤ off

def putAll (ws : List (Write α)) (b : Block size α) : Block size α :=
  ws.foldl (fun b w => b.put w.off w.cells) b

/-- What the last write over a cell has put there. -/
def lastOver (i : Nat) (ws : List (Write α)) : Option α :=
  (ws.filter (fun w => w.Covers i)).getLast?.bind (fun w => w.cells[i - w.off]?)

variable {ws before after : List (Write α)} {w : Write α} {off n : Nat}

@[simp] theorem putAll_nil (b : Block size α) : putAll [] b = b := rfl

theorem putAll_cons (w : Write α) (ws : List (Write α)) (b : Block size α) :
    putAll (w :: ws) b = putAll ws (b.put w.off w.cells) := rfl

theorem putAll_append (ws after : List (Write α)) (b : Block size α) :
    putAll (ws ++ after) b = putAll after (putAll ws b) := List.foldl_append

theorem lastOver_snoc_covers (h : w.Covers i) :
    lastOver i (ws ++ [w]) = w.cells[i - w.off]? := by
  unfold lastOver
  rw [List.filter_append, List.filter_singleton, decide_eq_true h]
  simp

theorem lastOver_snoc_other (h : ¬ w.Covers i) : lastOver i (ws ++ [w]) = lastOver i ws := by
  unfold lastOver
  rw [List.filter_append, List.filter_singleton, decide_eq_false h]
  simp

theorem put_cell_covers (b : Block size α) (h : w.Covers i) :
    some ((b.put w.off w.cells).cell i) = w.cells[i - w.off]? := by
  obtain ⟨hle, hlt⟩ := h
  have hinside : i - w.off < w.cells.length := by omega
  have hcell := put_cell_inside b w.off (i - w.off) w.cells hinside
  rw [Nat.add_sub_cancel' hle] at hcell
  rw [hcell, List.getElem?_eq_getElem hinside]

/-- Each cell holds what the last write over it has put there, and what it held
at first when there is none. -/
theorem cell_putAll (ws : List (Write α)) (b : Block size α) (i : Nat) :
    (putAll ws b).cell i = (lastOver i ws).getD (b.cell i) := by
  induction ws using List.reverseRecOn with
  | nil => rfl
  | append_singleton ws w ih =>
    rw [putAll_append, putAll_cons, putAll_nil]
    by_cases hw : w.Covers i
    · rw [lastOver_snoc_covers hw, ← put_cell_covers (putAll ws b) hw]
      rfl
    · have houtside : i < w.off ∨ w.off + w.cells.length ≤ i := by
        unfold Write.Covers at hw
        omega
      rw [lastOver_snoc_other hw, put_cell_outside _ _ _ _ houtside, ih]

/-- Cells that all writes miss. -/
theorem slice_putAll_missed (h : ∀ w ∈ ws, w.Misses off n) (b : Block size α) :
    (putAll ws b).slice off n = b.slice off n := by
  induction ws generalizing b with
  | nil => rfl
  | cons w ws ih =>
    rw [putAll_cons, ih (fun x hx => h x (List.mem_cons_of_mem w hx))]
    exact slice_put_outside b off w.off n w.cells (h w List.mem_cons_self)

/-- What a write has put is there as long as the writes after it miss it. -/
theorem slice_putAll_last (h : ∀ x ∈ after, x.Misses w.off w.cells.length) (b : Block size α) :
    (putAll (before ++ w :: after) b).slice w.off w.cells.length = w.cells := by
  rw [putAll_append, putAll_cons, slice_putAll_missed h]
  exact slice_put_self _ _ _

/-! ## The parts of a structure -/

/-- The block starts with the parts. -/
def StartsWith (b : Block size α) (parts : List (List α)) : Prop :=
  b.slice 0 parts.flatten.length = parts.flatten

/-- Where a part starts. -/
def partOff (parts : List (List α)) (k : Nat) : Nat := (parts.take k).flatten.length

variable {parts : List (List α)} {k : Nat} {l part : List α}

theorem partOff_eq (parts : List (List α)) (k : Nat) :
    partOff parts k = ((parts.map List.length).take k).sum := by
  unfold partOff
  rw [List.length_flatten, List.map_take]

theorem flatten_parts (h : parts[k]? = some part) :
    parts.flatten = (parts.take k).flatten ++ (part ++ (parts.drop (k + 1)).flatten) := by
  obtain ⟨hlt, rfl⟩ := List.getElem?_eq_some_iff.mp h
  rw [← List.flatten_cons, ← List.flatten_append, List.getElem_cons_drop, List.take_append_drop]

/-- A slice of the parts. -/
theorem StartsWith.slice (hb : StartsWith b parts) (l₁ l₂ : List α)
    (h : parts.flatten = l₁ ++ (l ++ l₂)) : b.slice l₁.length l.length = l := by
  have hwhole : b.slice 0 parts.flatten.length = parts.flatten := hb
  have hlen : l₁.length + l.length ≤ parts.flatten.length := by
    rw [h, List.length_append, List.length_append]
    omega
  rw [← Nat.zero_add l₁.length, ← slice_drop_take b 0 _ l₁.length _ hlen, hwhole, h,
    List.drop_left, List.take_left]

theorem StartsWith.slice_part (hb : StartsWith b parts) (h : parts[k]? = some part) :
    b.slice (partOff parts k) part.length = part :=
  hb.slice _ _ (flatten_parts h)

/-- To write what is there changes nothing. -/
theorem put_same (h : b.slice off l.length = l) : b.put off l = b := by
  unfold Block.put
  congr
  funext i
  split
  case isTrue hle =>
    by_cases hlt : i - off < l.length
    · have hcell := slice_getElem? b off l.length (i - off)
      rw [h, if_pos hlt, Nat.add_sub_cancel' hle] at hcell
      rw [hcell, Option.getD_some]
    · rw [List.getElem?_eq_none (by omega), Option.getD_none]
  case isFalse => rfl

/-- To write all parts, one of them new, is to write the new one. -/
theorem StartsWith.put_part (hb : StartsWith b parts) (h : parts[k]? = some part)
    (hlen : l.length = part.length) :
    b.put 0 (parts.set k l).flatten = b.put (partOff parts k) l := by
  have hflat := flatten_parts h
  have hlt : k < parts.length := (List.getElem?_eq_some_iff.mp h).1
  have hnew : (parts.set k l).flatten =
      (parts.take k).flatten ++ (l ++ (parts.drop (k + 1)).flatten) := by
    rw [flatten_parts (List.getElem?_set_self hlt), List.take_set_of_le (Nat.le_refl k),
      List.drop_set_of_lt (Nat.lt_succ_self k)]
  have hfirst : b.put 0 (parts.take k).flatten = b := by
    apply put_same
    exact hb.slice [] _ (by rw [hflat, List.nil_append])
  have hrest : b.slice (partOff parts k + l.length) (parts.drop (k + 1)).flatten.length =
      (parts.drop (k + 1)).flatten := by
    rw [hlen, partOff, ← List.length_append]
    exact hb.slice _ [] (by rw [hflat, List.append_nil, List.append_assoc])
  have hlast : (b.put (partOff parts k) l).put (partOff parts k + l.length)
      (parts.drop (k + 1)).flatten = b.put (partOff parts k) l := by
    apply put_same
    rw [slice_put_outside _ _ _ _ _ (Or.inr (Nat.le_refl _)), hrest]
  calc b.put 0 (parts.set k l).flatten
      = (b.put 0 (parts.take k).flatten).put (0 + partOff parts k)
          (l ++ (parts.drop (k + 1)).flatten) := by rw [hnew]; exact (put_append _ _ _ _).symm
    _ = b.put (partOff parts k) (l ++ (parts.drop (k + 1)).flatten) := by
        rw [hfirst, Nat.zero_add]
    _ = b.put (partOff parts k) l := by rw [← put_append, hlast]

end payloader.overlays
