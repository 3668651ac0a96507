-- Counted references. An object counts the references to it, and the thread
-- that drops the last one deletes the object.
import Mathlib.Algebra.BigOperators.Group.Finset.Piecewise
import Mathlib.Logic.Function.Basic

set_option autoImplicit false

namespace payloader.references

variable {O T : Type}

/-- What the objects count, against the references that there are. A deleted
object has no count, and no reference. -/
structure Counted (refs : O → Nat) (counts : O → Option Int) (deleting : T → Option O) : Prop where
  count : ∀ o, (counts o).getD 0 = refs o
  last : ∀ t o, deleting t = some o → counts o = some 0
  once : ∀ t t' o, deleting t = some o → deleting t' = some o → t = t'
  kept : ∀ o, counts o = some 0 → ∃ t, deleting t = some o

variable {refs : O → Nat} {counts : O → Option Int} {deleting : T → Option O} {o : O} {n : Int}
variable {t : T}

theorem Counted.count_eq (h : Counted refs counts deleting) (hn : counts o = some n) :
    n = refs o := by
  rw [← h.count o, hn, Option.getD_some]

theorem Counted.gone (h : Counted refs counts deleting) (hnone : counts o = none) :
    refs o = 0 := by
  have hcount := h.count o
  rw [hnone, Option.getD_none] at hcount
  exact Int.natCast_eq_zero.mp hcount.symm

theorem Counted.alive (h : Counted refs counts deleting) (href : refs o ≠ 0) :
    ∃ n, counts o = some n := by
  cases ho : counts o with
  | none => exact absurd (h.gone ho) href
  | some n => exact ⟨n, rfl⟩

/-- An object that a thread is about to delete has no reference. -/
theorem Counted.unreferenced (h : Counted refs counts deleting) (ht : deleting t = some o) :
    refs o = 0 :=
  Int.natCast_eq_zero.mp (h.count_eq (h.last t o ht)).symm

theorem Counted.not_deleting (h : Counted refs counts deleting) (href : refs o ≠ 0) (t : T) :
    deleting t ≠ some o :=
  fun ht => href (h.unreferenced ht)

/-! ## What threads do with references -/

variable [DecidableEq O]

/-- The count follows the references of its object. -/
theorem Counted.recount (h : Counted refs counts deleting) {n : Option Int} {r : Nat}
    (hn : n.getD 0 = r) (o' : O) :
    (Function.update counts o n o').getD 0 = Function.update refs o r o' := by
  by_cases ho : o' = o
  · subst ho
    rw [Function.update_self, Function.update_self, hn]
  · rw [Function.update_of_ne ho, Function.update_of_ne ho, h.count]

/-- A new object, with one reference. -/
theorem Counted.make (h : Counted refs counts deleting) (hnew : counts o = none) :
    Counted (Function.update refs o 1) (Function.update counts o (some 1)) deleting where
  count := h.recount rfl
  last t o' ht := by
    have hne : o' ≠ o := by
      rintro rfl
      cases hnew.symm.trans (h.last t o' ht)
    rw [Function.update_of_ne hne]
    exact h.last t o' ht
  once := h.once
  kept o' h' := by
    by_cases ho : o' = o
    · subst ho
      rw [Function.update_self] at h'
      cases h'
    · rw [Function.update_of_ne ho] at h'
      exact h.kept o' h'

/-- Who has a reference may give another one. -/
theorem Counted.share (h : Counted refs counts deleting) (hn : counts o = some n)
    (href : refs o ≠ 0) : Counted (Function.update refs o (refs o + 1))
      (Function.update counts o (some (n + 1))) deleting where
  count := h.recount (by rw [Option.getD_some, h.count_eq hn]; rfl)
  last t o' ht := by
    have hne : o' ≠ o := by
      rintro rfl
      exact h.not_deleting href t ht
    rw [Function.update_of_ne hne]
    exact h.last t o' ht
  once := h.once
  kept o' h' := by
    by_cases ho : o' = o
    · subst ho
      rw [Function.update_self] at h'
      have hzero := Option.some.inj h'
      have hcount := h.count_eq hn
      omega
    · rw [Function.update_of_ne ho] at h'
      exact h.kept o' h'

variable [DecidableEq T]

/-- A thread that deletes nothing drops a reference. It deletes the object when
that was the last one. -/
theorem Counted.drop (h : Counted refs counts deleting) (hn : counts o = some n)
    (href : refs o ≠ 0) (ht : deleting t = none) :
    Counted (Function.update refs o (refs o - 1)) (Function.update counts o (some (n - 1)))
      (Function.update deleting t (if n - 1 = 0 then some o else none)) := by
  have hnot := h.not_deleting href
  have hcases : ∀ u o', Function.update deleting t
      (if n - 1 = 0 then some o else none) u = some o' →
      (u = t ∧ o' = o ∧ n - 1 = 0) ∨ (u ≠ t ∧ o' ≠ o ∧ deleting u = some o') := by
    intro u o' hu
    by_cases hut : u = t
    · subst hut
      rw [Function.update_self, Option.ite_none_right_eq_some] at hu
      exact Or.inl ⟨rfl, (Option.some.inj hu.2).symm, hu.1⟩
    · rw [Function.update_of_ne hut] at hu
      refine Or.inr ⟨hut, ?_, hu⟩
      rintro rfl
      exact hnot u hu
  constructor
  case count =>
    have hcount := h.count_eq hn
    exact h.recount (by rw [Option.getD_some]; omega)
  case last =>
    intro u o' hu
    rcases hcases u o' hu with ⟨rfl, rfl, hzero⟩ | ⟨-, hne, hold⟩
    · rw [Function.update_self, hzero]
    · rw [Function.update_of_ne hne]
      exact h.last u o' hold
  case once =>
    intro t1 t2 o' h1 h2
    rcases hcases t1 o' h1 with ⟨ht1, ho1, -⟩ | ⟨-, ho1, hold1⟩ <;>
      rcases hcases t2 o' h2 with ⟨ht2, ho2, -⟩ | ⟨-, ho2, hold2⟩
    · exact ht1.trans ht2.symm
    · exact absurd ho1 ho2
    · exact absurd ho2 ho1
    · exact h.once t1 t2 o' hold1 hold2
  case kept =>
    intro o' h'
    by_cases ho : o' = o
    · subst ho
      rw [Function.update_self] at h'
      refine ⟨t, ?_⟩
      rw [Function.update_self, if_pos (Option.some.inj h')]
    · rw [Function.update_of_ne ho] at h'
      obtain ⟨u, hu⟩ := h.kept o' h'
      refine ⟨u, ?_⟩
      have hut : u ≠ t := by
        rintro rfl
        cases ht.symm.trans hu
      rw [Function.update_of_ne hut, hu]

theorem Counted.delete (h : Counted refs counts deleting) (ht : deleting t = some o) :
    Counted refs (Function.update counts o none) (Function.update deleting t none) := by
  have hother : ∀ u o', Function.update deleting t none u = some o' →
      deleting u = some o' ∧ o' ≠ o := by
    intro u o' hu
    have hut : u ≠ t := by
      rintro rfl
      rw [Function.update_self] at hu
      cases hu
    rw [Function.update_of_ne hut] at hu
    refine ⟨hu, ?_⟩
    rintro rfl
    exact hut (h.once u t o' hu ht)
  constructor
  case count =>
    have hcount := h.recount (n := none) (r := refs o) (o := o) (by rw [h.unreferenced ht]; rfl)
    rwa [Function.update_eq_self] at hcount
  case last =>
    intro u o' hu
    obtain ⟨hold, hne⟩ := hother u o' hu
    rw [Function.update_of_ne hne]
    exact h.last u o' hold
  case once =>
    intro t1 t2 o' h1 h2
    exact h.once t1 t2 o' (hother t1 o' h1).1 (hother t2 o' h2).1
  case kept =>
    intro o' h'
    by_cases ho : o' = o
    · subst ho
      rw [Function.update_self] at h'
      cases h'
    · rw [Function.update_of_ne ho] at h'
      obtain ⟨u, hu⟩ := h.kept o' h'
      refine ⟨u, ?_⟩
      have hut : u ≠ t := by
        rintro rfl
        exact ho (Option.some.inj (hu.symm.trans ht))
      rw [Function.update_of_ne hut, hu]

/-! ## Sums -/

/-- A sum over places, one of which changes. -/
theorem sum_update {n i : Nat} (hi : i < n) (f : Nat → Nat) (y : Nat) :
    ∑ j ∈ Finset.range n, Function.update f i y j + f i = ∑ j ∈ Finset.range n, f j + y := by
  have hmem : i ∈ Finset.range n := Finset.mem_range.mpr hi
  rw [Finset.sum_update_of_mem hmem, Finset.sum_eq_add_sum_sdiff_singleton_of_mem hmem f]
  omega

end payloader.references
