-- Runs of machines and loops. A machine takes one input at a time and gives
-- one output, or it fails. What one step keeps, a run of any length keeps,
-- and a machine that agrees with its model step by step agrees over a run.
import Payloader.Memory
import Mathlib.Data.List.Forall2

set_option autoImplicit false

namespace payloader.machines

open payloader.memory

variable {σ τ ι κ ο ε : Type}

@[simp] theorem ok_bind {α β : Type} (a : α) (f : α → Except ε β) : (Except.ok a >>= f) = f a := rfl

@[simp] theorem error_bind {α β : Type} (e : ε) (f : α → Except ε β) :
    (Except.error e >>= f) = .error e := rfl

/-- Two steps in a row that succeed. -/
theorem bind_eq_ok {α β : Type} {x : Except ε α} {f : α → Except ε β} {r : β}
    (h : x >>= f = .ok r) : ∃ a, x = .ok a ∧ f a = .ok r := by
  cases x with
  | error e => cases h
  | ok a => exact ⟨a, rfl, h⟩

theorem mapM_congr {α β : Type} {f g : α → Except ε β} {l : List α} (h : ∀ x ∈ l, f x = g x) :
    l.mapM f = l.mapM g := by
  induction l with
  | nil => rfl
  | cons x l ih =>
    rw [List.mapM_cons, List.mapM_cons, h x List.mem_cons_self,
      ih (fun y hy => h y (List.mem_cons_of_mem x hy))]

/-- The run of a machine: the last state, and the output of each step. -/
def run (step : σ → ι → Except ε (σ × ο)) : σ → List ι → Except ε (σ × List ο)
  | s, [] => .ok (s, [])
  | s, i :: is =>
    match step s i with
    | .error e => .error e
    | .ok (s', o) =>
      match run step s' is with
      | .error e => .error e
      | .ok (s'', os) => .ok (s'', o :: os)

theorem run_cons_ok {step : σ → ι → Except ε (σ × ο)} {s s' : σ} {i : ι} {is : List ι} {o : ο}
    (h : step s i = .ok (s', o)) :
    run step s (i :: is) = (run step s' is).map (fun r => (r.1, o :: r.2)) := by
  simp only [run, h]
  cases run step s' is <;> rfl

/-- A run with one more input. -/
theorem run_snoc {step : σ → ι → Except ε (σ × ο)} {s s' : σ} {i : ι} {is : List ι} {os : List ο}
    (h : run step s is = .ok (s', os)) :
    run step s (is ++ [i]) = (step s' i).map (fun r => (r.1, os ++ [r.2])) := by
  induction is generalizing s os with
  | nil =>
    cases h
    simp only [List.nil_append, run]
    cases step s' i <;> rfl
  | cons j is ih =>
    simp only [run] at h
    split at h
    · cases h
    case h_2 s1 o1 hj =>
      split at h
      · cases h
      case h_2 s2 os' hrest =>
        cases h
        rw [List.cons_append, run_cons_ok hj, ih hrest]
        cases step s' i <;> rfl

/-! ## Agreement with a model -/

/-- Each member of the left list has its partner in the right one. -/
theorem forall₂_exists_right {α β : Type} {R : α → β → Prop} {xs : List α} {ys : List β}
    (h : List.Forall₂ R xs ys) : ∀ x ∈ xs, ∃ y ∈ ys, R x y := by
  induction h with
  | nil => simp
  | cons hxy _ ih =>
    rw [List.forall_mem_cons]
    refine ⟨⟨_, List.mem_cons_self, hxy⟩, ?_⟩
    intro x hx
    obtain ⟨y, hy, hR⟩ := ih x hx
    exact ⟨y, List.mem_cons_of_mem _ hy, hR⟩

/-- Two results agree: both fail in the same way, or both give the same
output in related states. -/
inductive Agree (R : σ → τ → Prop) : Except ε (σ × ο) → Except ε (τ × ο) → Prop
  | ok {s : σ} {t : τ} {o : ο} (h : R s t) : Agree R (.ok (s, o)) (.ok (t, o))
  | error (e : ε) : Agree R (.error e) (.error e)

theorem Agree.of_ok {R : σ → τ → Prop} {x : Except ε (σ × ο)} {t : τ} {o : ο}
    (h : Agree R x (.ok (t, o))) : ∃ s, x = .ok (s, o) ∧ R s t := by
  cases h with
  | ok h => exact ⟨_, rfl, h⟩

theorem Agree.inv_ok {R : σ → τ → Prop} {x : Except ε (τ × ο)} {s : σ} {o : ο}
    (h : Agree R (.ok (s, o)) x) : ∃ t, x = .ok (t, o) ∧ R s t := by
  cases h with
  | ok h => exact ⟨_, rfl, h⟩

theorem Agree.of_error {R : σ → τ → Prop} {x : Except ε (σ × ο)} {e : ε}
    (h : Agree (τ := τ) R x (.error e)) : x = .error e := by
  cases h
  rfl

/-- What agrees step by step agrees in a row. -/
theorem Agree.bind {σ' τ' ο' : Type} {R : σ → τ → Prop} {R' : σ' → τ' → Prop}
    {x : Except ε (σ × ο)} {y : Except ε (τ × ο)} {f : σ × ο → Except ε (σ' × ο')}
    {g : τ × ο → Except ε (τ' × ο')} (h : Agree R x y)
    (hnext : ∀ s t o, R s t → Agree R' (f (s, o)) (g (t, o))) : Agree R' (x >>= f) (y >>= g) := by
  cases h with
  | ok h => exact hnext _ _ _ h
  | error e => exact .error e

theorem Agree.map {ο' : Type} {R : σ → τ → Prop} {x : Except ε (σ × ο)} {y : Except ε (τ × ο)}
    (h : Agree R x y) (f : ο → ο') :
    Agree R (x.map (fun r => (r.1, f r.2))) (y.map (fun r => (r.1, f r.2))) := by
  cases h with
  | ok h => exact .ok h
  | error e => exact .error e

/-- The outputs are the same. -/
theorem Agree.outputs {R : σ → τ → Prop} {x : Except ε (σ × ο)} {y : Except ε (τ × ο)}
    (h : Agree R x y) : x.map (·.2) = y.map (·.2) := by
  cases h <;> rfl

/-- A machine that agrees with its model on each step agrees with it over
every run. -/
theorem run_agree {step : σ → ι → Except ε (σ × ο)} {spec : τ → κ → Except ε (τ × ο)}
    (R : σ → τ → Prop) (M : ι → κ → Prop)
    (hstep : ∀ s t i k, R s t → M i k → Agree R (step s i) (spec t k)) {is : List ι} {ks : List κ}
    (hM : List.Forall₂ M is ks) {s : σ} {t : τ} (hR : R s t) :
    Agree R (run step s is) (run spec t ks) := by
  induction hM generalizing s t with
  | nil => exact .ok hR
  | @cons i k is ks hik _ ih =>
    have h := hstep _ _ _ _ hR hik
    simp only [run]
    rcases hspec : spec t k with e | ⟨t', o⟩
    · rw [hspec] at h
      rw [h.of_error]
      exact .error e
    · rw [hspec] at h
      obtain ⟨s', hs, hR'⟩ := h.of_ok
      have hr := ih hR'
      rw [hs]
      simp only
      rcases hrun : run spec t' ks with e | ⟨t'', os⟩
      · rw [hrun] at hr
        rw [hr.of_error]
        exact .error e
      · rw [hrun] at hr
        obtain ⟨s'', hs', hR''⟩ := hr.of_ok
        rw [hs']
        exact .ok hR''

/-! ## Several parties -/

/-- A log holds what it held before its last event, and that event. -/
theorem exists_mem_snoc {P : ο → Prop} {os : List ο} {o : ο} :
    (∃ o' ∈ os ++ [o], P o') ↔ (∃ o' ∈ os, P o') ∨ P o := by
  simp only [List.mem_append, List.mem_singleton, or_and_right, exists_or, exists_eq_left]

theorem forall_mem_snoc {P : ο → Prop} {os : List ο} {o : ο} :
    (∀ o' ∈ os ++ [o], P o') ↔ (∀ o' ∈ os, P o') ∧ P o := by
  rw [List.forall_mem_append, List.forall_mem_singleton]

/-- What a system with a step relation can do from `start`: the events so far,
in order, and the state they lead to. Any party may take the next step. -/
inductive Reaches (Step : σ → ο → σ → Prop) (start : σ) : List ο → σ → Prop
  | start : Reaches Step start [] start
  | next {os : List ο} {s s' : σ} {o : ο} (h : Reaches Step start os s) (hs : Step s o s') :
      Reaches Step start (os ++ [o]) s'

/-- What holds at the start and what each step keeps holds in every state
that the system reaches. -/
theorem Reaches.invariant {Step : σ → ο → σ → Prop} {start : σ} (I : List ο → σ → Prop)
    (h0 : I [] start) (hstep : ∀ os s o s', I os s → Step s o s' → I (os ++ [o]) s')
    {os : List ο} {s : σ} (h : Reaches Step start os s) : I os s := by
  induction h with
  | start => exact h0
  | next _ hs ih => exact hstep _ _ _ _ ih hs

theorem Reaches.trans {Step : σ → ο → σ → Prop} {s s' s'' : σ} {os os' : List ο}
    (h : Reaches Step s os s') (h' : Reaches Step s' os' s'') : Reaches Step s (os ++ os') s'' := by
  induction h' with
  | start => rwa [List.append_nil]
  | next _ hs ih =>
    rw [← List.append_assoc]
    exact ih.next hs

/-- Where each step can do no more than another system allows, so can a run. -/
theorem Reaches.mono {Step Step' : σ → ο → σ → Prop} (hle : ∀ s o s', Step s o s' → Step' s o s')
    {start s : σ} {os : List ο} (h : Reaches Step start os s) : Reaches Step' start os s := by
  induction h with
  | start => exact .start
  | next _ hs ih => exact ih.next (hle _ _ _ hs)

/-- A run that is cut in two. -/
theorem Reaches.split {Step : σ → ο → σ → Prop} {start s : σ} {os : List ο}
    (h : Reaches Step start os s) {before after : List ο} (hsplit : os = before ++ after) :
    ∃ s', Reaches Step start before s' ∧ Reaches Step s' after s := by
  induction h generalizing after with
  | start =>
    obtain ⟨rfl, rfl⟩ := List.append_eq_nil_iff.mp hsplit.symm
    exact ⟨start, .start, .start⟩
  | @next os s s1 o h hs ih =>
    rcases List.eq_nil_or_concat after with rfl | ⟨after', o', rfl⟩
    · rw [List.append_nil] at hsplit
      exact ⟨s1, hsplit ▸ h.next hs, .start⟩
    · rw [List.concat_eq_append, ← List.append_assoc] at hsplit
      obtain ⟨hos, ho⟩ := List.append_inj' hsplit rfl
      obtain ⟨s', hbefore, hafter⟩ := ih hos
      obtain rfl := List.singleton_inj.mp ho
      rw [List.concat_eq_append]
      exact ⟨s', hbefore, hafter.next hs⟩

/-- The last step of a run. -/
theorem Reaches.last {Step : σ → ο → σ → Prop} {start s : σ} {log os : List ο} {o : ο}
    (h : Reaches Step start log s) (hlog : log = os ++ [o]) :
    ∃ s', Reaches Step start os s' ∧ Step s' o s := by
  cases h with
  | start => exact absurd hlog.symm (List.append_ne_nil_of_right_ne_nil os (List.cons_ne_nil o []))
  | next h hs =>
    obtain ⟨rfl, ho⟩ := List.append_inj' hlog rfl
    obtain rfl := List.singleton_inj.mp ho
    exact ⟨_, h, hs⟩

/-- No step. -/
theorem Reaches.no_steps {Step : σ → ο → σ → Prop} {start s : σ} {os : List ο}
    (h : Reaches Step start os s) (hos : os = []) : s = start := by
  cases h with
  | start => rfl
  | next h hs => exact absurd hos (List.append_ne_nil_of_right_ne_nil _ (List.cons_ne_nil _ []))

/-- When each event leads to one state, so does a run. -/
theorem Reaches.unique {Step : σ → ο → σ → Prop}
    (hstep : ∀ s o s1 s2, Step s o s1 → Step s o s2 → s1 = s2) {start s s' : σ} {os : List ο}
    (h : Reaches Step start os s) (h' : Reaches Step start os s') : s = s' := by
  induction h generalizing s' with
  | start => exact (h'.no_steps rfl).symm
  | next _ hs ih =>
    obtain ⟨s1, hbefore, hs'⟩ := h'.last rfl
    obtain rfl := ih hbefore
    exact hstep _ _ _ _ hs hs'

/-- The step at a place of a run. -/
theorem Reaches.step_at {Step : σ → ο → σ → Prop} {start s : σ} {before after : List ο} {o : ο}
    (h : Reaches Step start (before ++ o :: after) s) :
    ∃ s1 s2, Reaches Step start before s1 ∧ Step s1 o s2 ∧
      Reaches Step start (before ++ [o]) s2 := by
  obtain ⟨s2, hfirst, -⟩ := h.split (List.append_cons before o after)
  obtain ⟨s1, hbefore, hstep⟩ := hfirst.last rfl
  exact ⟨s1, s2, hbefore, hstep, hfirst⟩

/-- The steps of a list, one after another. -/
theorem Reaches.steps {Step : σ → ο → σ → Prop} {step : σ → ο → Option σ}
    (hstep : ∀ s o s', step s o = some s' → Step s o s') {start s s' : σ} {os : List ο}
    (h : Reaches Step start os s) (rest : List ο) (hrun : rest.foldlM step s = some s') :
    Reaches Step start (os ++ rest) s' := by
  induction rest generalizing os s with
  | nil =>
    cases hrun
    rwa [List.append_nil]
  | cons o rest ih =>
    rw [List.foldlM_cons] at hrun
    obtain ⟨s1, hs1, hrest⟩ := Option.bind_eq_some_iff.mp hrun
    have hmore := ih (h.next (hstep _ _ _ hs1)) hrest
    rwa [List.append_assoc] at hmore

/-! ## Loops -/

/-- `do body while (..)`, for at most `fuel` turns. The body also gives
whether the loop stops after it. -/
def doWhile (body : σ → Except Fault (σ × Bool)) : Nat → σ → Except Fault σ
  | 0, _ => .error .running
  | fuel + 1, s =>
    match body s with
    | .error e => .error e
    | .ok (s', true) => .ok s'
    | .ok (s', false) => doWhile body fuel s'

theorem doWhile_stop {body : σ → Except Fault (σ × Bool)} {s s' : σ} (fuel : Nat)
    (h : body s = .ok (s', true)) : doWhile body (fuel + 1) s = .ok s' := by
  simp [doWhile, h]

theorem doWhile_turn {body : σ → Except Fault (σ × Bool)} {s s' : σ} (fuel : Nat)
    (h : body s = .ok (s', false)) : doWhile body (fuel + 1) s = doWhile body fuel s' := by
  simp [doWhile, h]

/-- A loop never ends when some fact holds at its start, and each turn keeps
the fact and does not stop. -/
theorem doWhile_never (body : σ → Except Fault (σ × Bool)) (I : σ → Prop)
    (hturn : ∀ s, I s → ∃ s', body s = .ok (s', false) ∧ I s') (fuel : Nat) {s : σ} (hs : I s) :
    doWhile body fuel s = .error .running := by
  induction fuel generalizing s with
  | zero => rfl
  | succ fuel ih =>
    obtain ⟨s', hb, hi⟩ := hturn s hs
    rw [doWhile_turn fuel hb]
    exact ih hi

/-- What one turn of a loop does: it goes on, or it leaves with a result. -/
inductive Flow (σ β : Type)
  | next (s : σ)
  | leave (b : β)

/-- `for` and `while` with their breaks, for at most `fuel` turns. -/
def loop {β : Type} (body : σ → Except Fault (Flow σ β)) : Nat → σ → Except Fault β
  | 0, _ => .error .running
  | fuel + 1, s =>
    match body s with
    | .error e => .error e
    | .ok (.leave b) => .ok b
    | .ok (.next s') => loop body fuel s'

/-- Total correctness of a loop: an invariant holds at its start, and each
turn keeps it and makes the measure smaller, or leaves with a good result. -/
theorem loop_total {β : Type} {body : σ → Except Fault (Flow σ β)} (I : σ → Prop) (m : σ → Nat)
    (Q : β → Prop)
    (hturn : ∀ s, I s → (∃ s', body s = .ok (.next s') ∧ I s' ∧ m s' < m s) ∨
      ∃ b, body s = .ok (.leave b) ∧ Q b)
    {fuel : Nat} {s : σ} (hs : I s) (hf : m s < fuel) : ∃ b, loop body fuel s = .ok b ∧ Q b := by
  induction fuel generalizing s with
  | zero => omega
  | succ fuel ih =>
    unfold loop
    rcases hturn s hs with ⟨s', hb, hi, hm⟩ | ⟨b, hb, hq⟩
    · rw [hb]
      exact ih hi (by omega)
    · rw [hb]
      exact ⟨b, rfl, hq⟩

/-- The same for a loop with one result. -/
theorem loop_result {β : Type} {body : σ → Except Fault (Flow σ β)} (I : σ → Prop) (m : σ → Nat)
    (r : β)
    (hturn : ∀ s, I s → (∃ s', body s = .ok (.next s') ∧ I s' ∧ m s' < m s) ∨
      body s = .ok (.leave r))
    {fuel : Nat} {s : σ} (hs : I s) (hf : m s < fuel) : loop body fuel s = .ok r := by
  obtain ⟨b, hb, rfl⟩ := loop_total I m (fun b => b = r)
    (fun s hi => (hturn s hi).imp_right fun h => ⟨r, h, rfl⟩) hs hf
  exact hb

/-- A loop that computes a function: each turn keeps the value of the function
and makes the measure smaller, or it ends as the function does. -/
theorem loop_follows {β : Type} {body : σ → Except Fault (Flow σ β)} (f : σ → Except Fault β)
    (I : σ → Prop) (m : σ → Nat)
    (hturn : ∀ s, I s → (∃ s', body s = .ok (.next s') ∧ I s' ∧ m s' < m s ∧ f s' = f s) ∨
      (∃ b, body s = .ok (.leave b) ∧ f s = .ok b) ∨ ∃ e, body s = .error e ∧ f s = .error e)
    {fuel : Nat} {s : σ} (hs : I s) (hf : m s < fuel) : loop body fuel s = f s := by
  induction fuel generalizing s with
  | zero => omega
  | succ fuel ih =>
    unfold loop
    rcases hturn s hs with ⟨s', hb, hi, hm, hfs⟩ | ⟨b, hb, hfs⟩ | ⟨e, hb, hfs⟩
    · rw [hb, ← hfs]
      exact ih hi (by omega)
    · rw [hb, hfs]
    · rw [hb, hfs]

end payloader.machines
