-- Named registers of one state. A setter changes what the getter of its own
-- name gives and what no other getter gives, so a run of setters leaves in each
-- register what the last call for it has put there.
import Mathlib.Data.List.Induction

set_option autoImplicit false

namespace payloader.registers

variable {F A V S : Type}

/-- `keep` is what a register makes of the value that it is set to. -/
structure Independent (get : F → S → V) (set : F → A → S → S) (keep : F → A → V) : Prop where
  same : ∀ f v s, get f (set f v s) = keep f v
  other : ∀ f g v s, g ≠ f → get g (set f v s) = get g s

/-- A run of setter calls. -/
def setAll (set : F → A → S → S) (calls : List (F × A)) (s : S) : S :=
  calls.foldl (fun s call => set call.1 call.2 s) s

/-- The value of the last call for a register. -/
def lastValue [DecidableEq F] (f : F) (calls : List (F × A)) : Option A :=
  ((calls.filter (fun call => call.1 = f)).getLast?).map (·.2)

@[simp] theorem setAll_nil (set : F → A → S → S) (s : S) : setAll set [] s = s := rfl

theorem setAll_snoc (set : F → A → S → S) (calls : List (F × A)) (call : F × A) (s : S) :
    setAll set (calls ++ [call]) s = set call.1 call.2 (setAll set calls s) := by
  unfold setAll
  rw [List.foldl_append]
  rfl

section
variable [DecidableEq F]

@[simp] theorem lastValue_nil (f : F) : lastValue f ([] : List (F × A)) = none := rfl

theorem lastValue_snoc_self (f : F) (calls : List (F × A)) (v : A) :
    lastValue f (calls ++ [(f, v)]) = some v := by
  simp [lastValue, List.filter_append]

theorem lastValue_snoc_other {f g : F} (calls : List (F × A)) (v : A) (h : g ≠ f) :
    lastValue f (calls ++ [(g, v)]) = lastValue f calls := by
  simp [lastValue, List.filter_append, h]

/-- A register that was called has a last value. -/
theorem lastValue_of_mem {f : F} {v : A} {calls : List (F × A)} (h : (f, v) ∈ calls) :
    ∃ w, lastValue f calls = some w := by
  have hmem : (f, v) ∈ calls.filter (fun call => call.1 = f) := by simp [h]
  obtain ⟨last, hlast⟩ := Option.isSome_iff_exists.mp
    (List.getLast?_isSome.mpr (List.ne_nil_of_mem hmem))
  exact ⟨last.2, by rw [lastValue, hlast, Option.map_some]⟩

/-- The last value was set. -/
theorem mem_of_lastValue {f : F} {v : A} {calls : List (F × A)} (h : lastValue f calls = some v) :
    (f, v) ∈ calls := by
  obtain ⟨⟨g, w⟩, hlast, rfl⟩ := Option.map_eq_some_iff.mp h
  obtain ⟨hmem, hf⟩ := List.mem_filter.mp (List.mem_of_getLast? hlast)
  exact of_decide_eq_true hf ▸ hmem

variable {get : F → S → V} {set : F → A → S → S} {keep : F → A → V}

/-- Each register holds what the last call for it has put there, and what the
state had at first when there is none. -/
theorem Independent.get_setAll (h : Independent get set keep) (f : F) (calls : List (F × A))
    (s : S) : get f (setAll set calls s) = ((lastValue f calls).map (keep f)).getD (get f s) := by
  induction calls using List.reverseRecOn with
  | nil => rfl
  | append_singleton calls call ih =>
    obtain ⟨g, v⟩ := call
    rw [setAll_snoc]
    by_cases hg : g = f
    · subst hg
      rw [h.same, lastValue_snoc_self]
      rfl
    · rw [h.other g f v _ (Ne.symm hg), ih, lastValue_snoc_other calls v hg]

end

/-- What no setter changes, a run of setters does not change. -/
theorem setAll_kept {X : Type} {set : F → A → S → S} (p : S → X)
    (h : ∀ f v s, p (set f v s) = p s) (calls : List (F × A)) (s : S) :
    p (setAll set calls s) = p s := by
  induction calls using List.reverseRecOn with
  | nil => rfl
  | append_singleton calls call ih => rw [setAll_snoc, h, ih]

end payloader.registers
