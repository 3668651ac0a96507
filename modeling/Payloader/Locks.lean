-- Locks of threads. A lock names the thread that holds it, and the thread knows
-- what it holds. When each thread waits for locks above the ones it holds, some
-- thread goes on.
import Mathlib.Logic.Function.Basic

set_option autoImplicit false

namespace payloader.locks

variable {L T : Type}

/-- A lock names its holder exactly when the holder knows of it. -/
def Held (owner : L → Option T) (held : T → Option L) : Prop :=
  ∀ l t, owner l = some t ↔ held t = some l

variable {owner : L → Option T} {held : T → Option L} {l : L} {t : T}

theorem Held.free (h : Held owner held) (hfree : owner l = none) (t : T) : held t ≠ some l := by
  intro ht
  rw [(h l t).mpr ht] at hfree
  cases hfree

theorem Held.unique (h : Held owner held) {t' : T} (ht : held t = some l) (ht' : held t' = some l) :
    t = t' :=
  Option.some.inj (((h l t).mpr ht).symm.trans ((h l t').mpr ht'))

/-! ## No circular wait -/

/-- A thread that waits for no lock, or for a free one. -/
def Ready (owner : L → Option T) (wants : T → Option L) (t : T) : Prop :=
  ∀ l, wants t = some l → owner l = none

theorem ready_or_waits (owner : L → Option T) (wants : T → Option L) (t : T) :
    Ready owner wants t ∨ ∃ l t', wants t = some l ∧ owner l = some t' := by
  cases hw : wants t with
  | none => exact Or.inl (fun l hl => absurd (hw.symm.trans hl) nofun)
  | some l =>
    cases ho : owner l with
    | none =>
      left
      intro l' hl'
      rw [← Option.some.inj (hw.symm.trans hl'), ho]
    | some t' => exact Or.inr ⟨l, t', rfl, ho⟩

/-- When each thread waits for locks above the ones it holds, a wait ends at a
holder that is ready. The induction is on the distance to the bound. -/
theorem someone_is_ready {wants : T → Option L} (rank : L → Nat) (bound : Nat)
    (hbound : ∀ t l, wants t = some l → rank l ≤ bound)
    (hup : ∀ t l l', owner l = some t → wants t = some l' → rank l < rank l') {l : L} {t : T}
    (ht : owner l = some t) : ∃ l t, owner l = some t ∧ Ready owner wants t := by
  have hchain : ∀ n l t, bound - rank l ≤ n → owner l = some t →
      ∃ l t, owner l = some t ∧ Ready owner wants t := by
    intro n
    induction n with
    | zero =>
      intro l t hn ht
      refine ⟨l, t, ht, ?_⟩
      intro l' hl'
      have hlt := hup t l l' ht hl'
      have hle := hbound t l' hl'
      omega
    | succ n ih =>
      intro l t hn ht
      rcases ready_or_waits owner wants t with hready | ⟨l', t', hl', ht'⟩
      · exact ⟨l, t, ht, hready⟩
      · have hlt := hup t l l' ht hl'
        have hle := hbound t l' hl'
        exact ih l' t' (by omega) ht'
  exact hchain _ l t (Nat.le_refl _) ht

/-! ## Taking and giving back -/

theorem update_same {α β : Type} [DecidableEq α] {f : α → β} {x : α} {y : β} (h : f x = y) :
    Function.update f x y = f := by
  rw [← h, Function.update_eq_self]

theorem Held.keep_owner [DecidableEq L] (h : Held owner held) {x : Option T} (ho : owner l = x) :
    Held (Function.update owner l x) held := by
  rwa [update_same ho]

theorem Held.keep_held [DecidableEq T] (h : Held owner held) {y : Option L} (hh : held t = y) :
    Held owner (Function.update held t y) := by
  rwa [update_same hh]

variable [DecidableEq L] [DecidableEq T]

theorem Held.keep (h : Held owner held) {x : Option T} {y : Option L} (ho : owner l = x)
    (hh : held t = y) : Held (Function.update owner l x) (Function.update held t y) :=
  (h.keep_owner ho).keep_held hh

/-- A thread that holds nothing takes a free lock. -/
theorem Held.take (h : Held owner held) (hfree : owner l = none) (hnone : held t = none) :
    Held (Function.update owner l (some t)) (Function.update held t (some l)) := by
  intro l' t'
  simp only [Function.update_apply]
  by_cases hl : l' = l <;> by_cases ht : t' = t
  · simp [hl, ht]
  · subst hl
    rw [if_pos rfl, if_neg ht]
    exact ⟨fun he => absurd (Option.some.inj he).symm ht, fun he => absurd he (h.free hfree t')⟩
  · subst ht
    rw [if_neg hl, if_pos rfl, h l' t', hnone]
    exact ⟨nofun, fun he => absurd (Option.some.inj he).symm hl⟩
  · rw [if_neg hl, if_neg ht, h l' t']

/-- A thread gives back what it holds. -/
theorem Held.give (h : Held owner held) (hheld : held t = some l) :
    Held (Function.update owner l none) (Function.update held t none) := by
  intro l' t'
  simp only [Function.update_apply]
  by_cases hl : l' = l <;> by_cases ht : t' = t
  · simp [hl, ht]
  · subst hl
    rw [if_pos rfl, if_neg ht]
    exact ⟨nofun, fun he => absurd (h.unique he hheld) ht⟩
  · subst ht
    rw [if_neg hl, if_pos rfl, h l' t', hheld]
    exact ⟨fun he => absurd (Option.some.inj he).symm hl, nofun⟩
  · rw [if_neg hl, if_neg ht, h l' t']

end payloader.locks
