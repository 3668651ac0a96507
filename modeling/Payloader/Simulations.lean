-- Simulations. A system shows some of its steps, and a model follows it when
-- each step is a run of the model that shows the same. A program that uses the
-- system then also works with the model.
import Payloader.Machines

set_option autoImplicit false

namespace payloader.simulations

open payloader.machines

variable {σ τ γ ι κ l ο : Type}

/-- Each step of a system is a run of its model that shows the same. -/
def Simulates (Step : σ → ι → σ → Prop) (shown : ι → Option ο) (Model : τ → κ → τ → Prop)
    (shows : κ → Option ο) (R : σ → τ → Prop) : Prop :=
  ∀ s t i s', R s t → Step s i s' →
    ∃ ks t', Reaches Model t ks t' ∧ ks.filterMap shows = (shown i).toList ∧ R s' t'

variable {Step : σ → ι → σ → Prop} {shown : ι → Option ο} {Model : τ → κ → τ → Prop}
variable {shows : κ → Option ο} {R : σ → τ → Prop}

theorem filterMap_snoc {α β : Type} (f : α → Option β) (xs : List α) (x : α) :
    (xs ++ [x]).filterMap f = xs.filterMap f ++ (f x).toList := by
  rw [List.filterMap_append]
  cases h : f x with
  | none => rw [List.filterMap_cons_none h, List.filterMap_nil, Option.toList_none]
  | some y => rw [List.filterMap_cons_some h, List.filterMap_nil, Option.toList_some]

/-- A run of the system shows what some run of the model shows. -/
theorem Simulates.run (h : Simulates Step shown Model shows R) {s s' : σ} {t : τ} {is : List ι}
    (hR : R s t) (hrun : Reaches Step s is s') :
    ∃ ks t', Reaches Model t ks t' ∧ ks.filterMap shows = is.filterMap shown ∧ R s' t' := by
  induction hrun with
  | start => exact ⟨[], t, .start, rfl, hR⟩
  | @next is s1 s2 i _ hs ih =>
    obtain ⟨ks, t1, hks, hshow, hR1⟩ := ih
    obtain ⟨ks', t2, hks', hshow', hR2⟩ := h s1 t1 i s2 hR1 hs
    refine ⟨ks ++ ks', t2, hks.trans hks', ?_, hR2⟩
    rw [filterMap_snoc, List.filterMap_append, hshow, hshow']

/-! ## With a program -/

/-- A program and the system that it uses. They take what the system shows
together, and each takes its other steps alone. -/
inductive Joint (Client : γ → l → γ → Prop) (calls : l → Option ο) (Step : σ → ι → σ → Prop)
    (shown : ι → Option ο) : γ × σ → Option l × Option ι → γ × σ → Prop
  | client {g g' : γ} {s : σ} {a : l} (h : Client g a g') (hown : calls a = none) :
      Joint Client calls Step shown (g, s) (some a, none) (g', s)
  | system {g : γ} {s s' : σ} {i : ι} (h : Step s i s') (hown : shown i = none) :
      Joint Client calls Step shown (g, s) (none, some i) (g, s')
  | both {g g' : γ} {s s' : σ} {a : l} {i : ι} {o : ο} (hc : Client g a g') (hs : Step s i s')
      (ha : calls a = some o) (hi : shown i = some o) :
      Joint Client calls Step shown (g, s) (some a, some i) (g', s')

variable {Client : γ → l → γ → Prop} {calls : l → Option ο}

/-- The same as a function, of two functions. -/
def joint [DecidableEq ο] (client : γ → l → Option γ) (calls : l → Option ο)
    (step : σ → ι → Option σ) (shown : ι → Option ο) (x : γ × σ) :
    Option l × Option ι → Option (γ × σ)
  | (none, none) => none
  | (some a, none) => if calls a = none then (client x.1 a).map (·, x.2) else none
  | (none, some i) => if shown i = none then (step x.2 i).map (x.1, ·) else none
  | (some a, some i) =>
    if calls a = shown i ∧ calls a ≠ none then
      (client x.1 a).bind fun g => (step x.2 i).map (g, ·)
    else none

theorem joint_step [DecidableEq ο] {client : γ → l → Option γ} {step : σ → ι → Option σ}
    (hclient : ∀ g a g', client g a = some g' → Client g a g')
    (hstep : ∀ s i s', step s i = some s' → Step s i s') (x : γ × σ) (j : Option l × Option ι)
    (x' : γ × σ) (h : joint client calls step shown x j = some x') :
    Joint Client calls Step shown x j x' := by
  obtain ⟨g, s⟩ := x
  match j with
  | (none, none) => cases h
  | (some a, none) =>
    obtain ⟨hown, h⟩ := Option.ite_none_right_eq_some.mp h
    obtain ⟨g', hg, rfl⟩ := Option.map_eq_some_iff.mp h
    exact .client (hclient g a g' hg) hown
  | (none, some i) =>
    obtain ⟨hown, h⟩ := Option.ite_none_right_eq_some.mp h
    obtain ⟨s', hs, rfl⟩ := Option.map_eq_some_iff.mp h
    exact .system (hstep s i s' hs) hown
  | (some a, some i) =>
    obtain ⟨⟨hsame, hsome⟩, h⟩ := Option.ite_none_right_eq_some.mp h
    obtain ⟨g', hg, h⟩ := Option.bind_eq_some_iff.mp h
    obtain ⟨s', hs, rfl⟩ := Option.map_eq_some_iff.mp h
    obtain ⟨o, ho⟩ := Option.ne_none_iff_exists'.mp hsome
    exact .both (hclient g a g' hg) (hstep s i s' hs) ho (hsame.symm.trans ho)

/-- The program waits while the model takes steps of its own. -/
theorem Joint.alone {g : γ} {t t' : τ} {ks : List κ} (h : Reaches Model t ks t')
    (hown : ks.filterMap shows = []) :
    Reaches (Joint Client calls Model shows) (g, t) (ks.map fun k => (none, some k)) (g, t') := by
  induction h with
  | start => exact .start
  | @next ks t1 t2 k _ hs ih =>
    rw [filterMap_snoc, List.append_eq_nil_iff] at hown
    rw [List.map_append]
    exact (ih hown.1).next (.system hs (Option.toList_eq_nil_iff.mp hown.2))

theorem filterMap_alone (ks : List κ) :
    (ks.map fun k => ((none : Option l), some k)).filterMap Prod.fst = [] := by
  rw [List.filterMap_map]
  exact List.filterMap_eq_nil_iff.mpr (fun _ _ => rfl)

/-- The program takes part in the one step that the model shows. -/
theorem Joint.together {g g' : γ} {t t' : τ} {ks : List κ} {a : l} {o : ο}
    (h : Reaches Model t ks t') (hshow : ks.filterMap shows = [o]) (hc : Client g a g')
    (ha : calls a = some o) :
    ∃ js, Reaches (Joint Client calls Model shows) (g, t) js (g', t') ∧
      js.filterMap Prod.fst = [a] := by
  induction h with
  | start => cases hshow
  | @next ks t1 t2 k hks hs ih =>
    rw [filterMap_snoc] at hshow
    cases hk : shows k with
    | none =>
      rw [hk, Option.toList_none, List.append_nil] at hshow
      obtain ⟨js, hjs, hfst⟩ := ih hshow
      refine ⟨js ++ [(none, some k)], hjs.next (.system hs hk), ?_⟩
      rw [filterMap_snoc, hfst]
      rfl
    | some o' =>
      rw [hk, Option.toList_some] at hshow
      obtain ⟨hnil, ho⟩ := List.append_inj' (hshow.trans (List.nil_append [o]).symm) rfl
      obtain rfl := List.singleton_inj.mp ho
      refine ⟨_, (Joint.alone hks hnil).next (.both hc hs ha hk), ?_⟩
      rw [filterMap_snoc, filterMap_alone]
      rfl

/-- A program that uses the system does what it can do with the model. -/
theorem Simulates.joint (h : Simulates Step shown Model shows R) {g g' : γ} {s s' : σ} {t : τ}
    {js : List (Option l × Option ι)} (hR : R s t)
    (hrun : Reaches (Joint Client calls Step shown) (g, s) js (g', s')) :
    ∃ ks t', Reaches (Joint Client calls Model shows) (g, t) ks (g', t') ∧
      ks.filterMap Prod.fst = js.filterMap Prod.fst ∧ R s' t' := by
  -- one step, for the induction over the run
  have hstep : Simulates (Joint Client calls Step shown) Prod.fst
      (Joint Client calls Model shows) Prod.fst (fun x y => x.1 = y.1 ∧ R x.2 y.2) := by
    rintro ⟨g, s⟩ ⟨-, t⟩ j x ⟨rfl, hR⟩ hs
    cases hs with
    | client hc hown => exact ⟨_, _, Reaches.start.next (.client hc hown), rfl, rfl, hR⟩
    | system hs hown =>
      obtain ⟨ks, t', hks, hshow, hR'⟩ := h _ _ _ _ hR hs
      rw [hown, Option.toList_none] at hshow
      exact ⟨_, _, Joint.alone hks hshow, filterMap_alone ks, rfl, hR'⟩
    | both hc hs ha hi =>
      obtain ⟨ks, t', hks, hshow, hR'⟩ := h _ _ _ _ hR hs
      rw [hi, Option.toList_some] at hshow
      obtain ⟨js, hjs, hfst⟩ := Joint.together hks hshow hc ha
      exact ⟨js, _, hjs, hfst, rfl, hR'⟩
  obtain ⟨ks, ⟨-, t'⟩, hks, hshow, rfl, hR'⟩ := hstep.run (s := (g, s)) (t := (g, t)) ⟨rfl, hR⟩ hrun
  exact ⟨ks, t', hks, hshow, hR'⟩

end payloader.simulations
