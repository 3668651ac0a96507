-- What callers can count on: waits come back with an event that resets itself
-- at most as often as it was set.
import Payloader.PeventsRefinement
import Mathlib.Data.Finset.Lattice.Fold
import Mathlib.Order.Lattice.Nat

set_option autoImplicit false

namespace payloader.pevents

open payloader.machines payloader.references

/-! ## Counting -/

/-- The calls under way, how many events there are, and of one event how often
it was set and how often a wait came back with it. -/
structure Tally where
  pending : Tid → Option Call
  created : Nat
  sets : Nat
  gains : Nat

def Tally.init : Tally where
  pending := fun _ => none
  created := 0
  sets := 0
  gains := 0

/-- The places where a call has the event. -/
def Call.places (c : Call) (event : neosmart_event_t) (among : Finset Nat) : Nat :=
  (among.filter (fun i => c.events[i]? = some event)).card

/-- How often a call that returns has got the event. -/
def Call.gained (c : Call) (event : neosmart_event_t) (result waitIndex : Int) : Nat :=
  match c with
  | .ResetEvent _ => 0
  | .SetEvent _ => 0
  | .WaitForEvent e _ => if e = event ∧ result = 0 then 1 else 0
  | .WaitForMultipleEvents events waitAll _ =>
    if waitAll then if result = 0 then c.places event (Finset.range events.length) else 0
    else if 0 ≤ waitIndex ∧ events[waitIndex.toNat]? = some event then 1 else 0

def Tally.next (event : neosmart_event_t) (k : Tally) : Action → Tally
  | .created _ initialState =>
    { k with
      created := k.created + 1
      sets := k.sets + if k.created = event ∧ initialState = true then 1 else 0 }
  | .call t c =>
    { k with
      pending := Function.update k.pending t (some c)
      sets := k.sets + if c = .SetEvent event then 1 else 0 }
  | .ret t result waitIndex =>
    { k with
      pending := Function.update k.pending t none
      gains := k.gains + (k.pending t).elim 0 (fun c => c.gained event result waitIndex) }
  | .step _ => k
  | .spurious _ => k
  | .timedOut _ => k

def tally (event : neosmart_event_t) (acts : List Action) : Tally :=
  acts.foldl (Tally.next event) Tally.init

/-- How often the event was set: by `SetEvent`, or by its creation. -/
def sets (event : neosmart_event_t) (acts : List Action) : Nat := (tally event acts).sets

/-- How often a wait came back with the event. -/
def gains (event : neosmart_event_t) (acts : List Action) : Nat := (tally event acts).gains

theorem tally_shown (event : neosmart_event_t) (acts : List Action) :
    tally event (acts.filterMap Action.shown) = tally event acts := by
  unfold tally
  generalize Tally.init = k
  induction acts generalizing k with
  | nil => rfl
  | cons act acts ih => cases act <;> exact ih _

/-! ## The balance -/

/-- What a thread has of the event: it was taken and is not given to the caller
yet, or it is to be set and is not yet. -/
def Party.weight (event : neosmart_event_t) : Party → Nat
  | .idle => 0
  | .calling c did =>
    if c.waitsAll = none then if c = .SetEvent event ∧ did = ∅ then 1 else 0
    else c.places event did

/-- The call of a thread. -/
def Party.call : Party → Option Call
  | .idle => none
  | .calling c _ => some c

def Op.tid : Op → Option Tid
  | .created _ _ => none
  | .call t _ => some t
  | .ret t _ _ => some t
  | .reset t _ => some t
  | .set t _ => some t
  | .take t _ _ => some t

structure Balanced (event : neosmart_event_t) (N : Nat) (k : Tally) (s : Signals) : Prop where
  pending : ∀ t, k.pending t = (s.parties t).call
  created : k.created = s.created
  unmade : ∀ e, s.created ≤ e → s.auto e = true
  balance : s.auto event = true → k.gains + (if s.set event then 1 else 0) +
    ∑ t ∈ Finset.range N, (s.parties t).weight event ≤ k.sets

variable {event : neosmart_event_t} {N : Nat} {k : Tally} {s s' : Signals} {t : Tid}

/-- The weight of one thread changes. -/
theorem weight_party (ht : t < N) (x : Party) :
    ∑ u ∈ Finset.range N, ((s.party t x).parties u).weight event + (s.parties t).weight event =
      ∑ u ∈ Finset.range N, (s.parties u).weight event + x.weight event := by
  have hnew : ∑ u ∈ Finset.range N, ((s.party t x).parties u).weight event =
      ∑ u ∈ Finset.range N, Function.update (fun u => (s.parties u).weight event) t
        (x.weight event) u := by
    refine Finset.sum_congr rfl (fun u _ => ?_)
    change (Function.update s.parties t x u).weight event = _
    rw [Function.update_apply, Function.update_apply]
    split <;> rfl
  rw [hnew]
  exact sum_update ht _ _

theorem call_party (x : Party) (u : Tid) :
    ((s.party t x).parties u).call = Function.update (fun u => (s.parties u).call) t x.call u := by
  change (Function.update s.parties t x u).call = _
  rw [Function.update_apply, Function.update_apply]
  split <;> rfl

theorem places_insert {c : Call} {i : Nat} {did : Finset Nat} (hnew : i ∉ did) :
    c.places event (insert i did) =
      c.places event did + if c.events[i]? = some event then 1 else 0 := by
  unfold Call.places
  rw [Finset.filter_insert]
  split
  · rw [Finset.card_insert_of_notMem (fun h => hnew (Finset.mem_filter.mp h).1)]
  · rfl

theorem places_singleton {c : Call} {i : Nat} (hi : c.events[i]? = some event) :
    c.places event {i} = 1 := by
  have hone : c.places event (insert i ∅) = c.places event ∅ + _ :=
    places_insert (Finset.notMem_empty i)
  rw [if_pos hi] at hone
  exact hone

theorem weight_wait {c : Call} {did : Finset Nat} {waitAll : Bool} (h : c.waitsAll = some waitAll) :
    (Party.calling c did).weight event = c.places event did := by
  have hwaits : c.waitsAll ≠ none := by
    rw [h]
    nofun
  simp only [Party.weight, hwaits, if_false]

/-- A call gives its caller no more than it has taken. -/
theorem gained_le_weight {c : Call} {did : Finset Nat} {result waitIndex : Int}
    (h : c.Returns did result waitIndex) :
    c.gained event result waitIndex ≤ (Party.calling c did).weight event := by
  cases c with
  | ResetEvent e => exact Nat.zero_le _
  | SetEvent e => exact Nat.zero_le _
  | WaitForEvent e milliseconds =>
    obtain ⟨-, hcase⟩ := h
    rw [weight_wait rfl]
    simp only [Call.gained]
    split
    case isTrue hgot =>
      obtain ⟨rfl, rfl⟩ := hgot
      rcases hcase with ⟨rfl, -⟩ | ⟨-, htime, -⟩
      · rw [places_singleton rfl]
      · cases htime
    case isFalse => exact Nat.zero_le _
  | WaitForMultipleEvents events waitAll milliseconds =>
    obtain ⟨hshows, hcase⟩ := h
    rw [weight_wait rfl]
    simp only [Call.gained]
    unfold Shows at hshows
    split
    case isTrue hall =>
      split
      case isTrue hresult =>
        rcases hcase with ⟨-, hgot, -⟩ | ⟨htime, -⟩
        · unfold Got at hgot
          rw [if_pos hall] at hgot
          rw [hgot]
        · cases hresult.symm.trans htime
      case isFalse => exact Nat.zero_le _
    case isFalse hany =>
      rw [if_neg hany] at hshows
      split
      case isTrue hgot =>
        obtain ⟨hpos, hi⟩ := hgot
        rcases hshows with ⟨-, rfl⟩ | ⟨i, rfl, rfl⟩
        · cases hpos
        · exact Nat.le_of_eq (places_singleton hi).symm
      case isFalse => exact Nat.zero_le _

theorem weight_set {e : neosmart_event_t} {did : Finset Nat} :
    (Party.calling (.SetEvent e) did).weight event = if e = event ∧ did = ∅ then 1 else 0 := by
  simp only [Party.weight, Call.waitsAll, Call.SetEvent.injEq, if_true]

theorem weight_done {e : neosmart_event_t} :
    (Party.calling (.SetEvent e) {0}).weight event = 0 := by
  rw [weight_set, if_neg (fun hboth => Finset.singleton_ne_empty 0 hboth.2)]

theorem weight_reset {e : neosmart_event_t} {did : Finset Nat} :
    (Party.calling (.ResetEvent e) did).weight event = 0 := rfl

theorem weight_call (c : Call) :
    (Party.calling c ∅).weight event = if c = .SetEvent event then 1 else 0 := by
  cases c with
  | ResetEvent e => rfl
  | SetEvent e => simp only [weight_set, and_true, Call.SetEvent.injEq]
  | WaitForEvent e milliseconds =>
    rw [weight_wait rfl, if_neg nofun]
    rfl
  | WaitForMultipleEvents events waitAll milliseconds =>
    rw [weight_wait rfl, if_neg nofun]
    rfl

/-- A thread acts on an event and goes on in its call. -/
theorem Balanced.act (h : Balanced event N k s) (ht : t < N) {c : Call} {did did' : Finset Nat}
    {e : neosmart_event_t} {b : Bool} (hx : s.parties t = .calling c did)
    (hweight : s.auto event = true →
      (if (s.put e b).set event then 1 else 0) + (Party.calling c did').weight event ≤
        (if s.set event then 1 else 0) + (Party.calling c did).weight event) :
    Balanced event N k ((s.put e b).party t (.calling c did')) := by
  refine ⟨?_, h.created, h.unmade, ?_⟩
  · intro u
    rw [call_party, Function.update_apply]
    split
    case isTrue heq => rw [heq, h.pending t, hx, Party.call, Party.call]
    case isFalse => exact h.pending u
  · intro hauto
    have hbalance := h.balance hauto
    have hsum : _ + ((s.put e b).parties t).weight event = _ := weight_party ht (.calling c did')
    have hone := hweight hauto
    rw [show (s.put e b).parties = s.parties from rfl, hx] at hsum
    change k.gains + (if (s.put e b).set event then 1 else 0) + _ ≤ k.sets
    omega

/-- One step keeps the balance. -/
theorem Balanced.next {op : Op} (h : Balanced event N k s) (hstep : Signals.Step s op s')
    (hbound : ∀ t, op.tid = some t → t < N) :
    Balanced event N (op.shows.elim k (k.next event)) s' := by
  cases hstep with
  | CreateEvent manualReset initialState =>
    refine ⟨h.pending, congrArg (· + 1) h.created, ?_, ?_⟩
    · intro e he
      have hlt : s.created < e := he
      exact (Function.update_of_ne (Nat.ne_of_gt hlt) _ _).trans (h.unmade e (Nat.le_of_lt hlt))
    · intro hauto
      change k.gains + (if Function.update s.set s.created initialState event then 1 else 0) + _ ≤
        k.sets + (if k.created = event ∧ initialState = true then 1 else 0)
      rw [h.created]
      by_cases heq : s.created = event
      · have hbalance := h.balance (h.unmade event (Nat.le_of_eq heq))
        subst heq
        rw [Function.update_self]
        simp only [true_and]
        change k.gains + _ + ∑ u ∈ Finset.range N, (s.parties u).weight s.created ≤ _
        omega
      · have hold : s.auto event = true :=
          (Function.update_of_ne (Ne.symm heq) _ _).symm.trans hauto
        have hbalance := h.balance hold
        rw [Function.update_of_ne (Ne.symm heq)]
        exact Nat.le_add_right_of_le hbalance
  | @call t c hidle hevents =>
    refine ⟨?_, h.created, h.unmade, ?_⟩
    · intro u
      rw [call_party]
      change Function.update k.pending t (some c) u = _
      rw [show k.pending = fun u => (s.parties u).call from funext h.pending]
      rfl
    · intro hauto
      have hbalance := h.balance hauto
      have hsum : _ + (s.parties t).weight event = _ :=
        weight_party (hbound t rfl) (.calling c ∅)
      rw [hidle, weight_call] at hsum
      change k.gains + (if s.set event then 1 else 0) + _ ≤
        k.sets + if c = .SetEvent event then 1 else 0
      have hzero : Party.idle.weight event = 0 := rfl
      omega
  | @reset t e hx =>
    refine h.act (hbound t rfl) hx (fun _ => ?_)
    rw [weight_reset, weight_reset]
    change (if Function.update s.set e false event then 1 else 0) + 0 ≤ _
    rw [Function.update_apply]
    split
    · exact Nat.zero_le _
    · exact Nat.le_refl _
  | @set t e hx =>
    refine h.act (hbound t rfl) hx (fun _ => ?_)
    rw [weight_done, weight_set]
    change (if Function.update s.set e true event then 1 else 0) + 0 ≤ _
    rw [Function.update_apply]
    by_cases heq : e = event
    · have hdue : e = event ∧ (∅ : Finset Nat) = ∅ := ⟨heq, rfl⟩
      rw [if_pos heq.symm, if_pos rfl, if_pos hdue]
      exact Nat.le_add_left 1 _
    · rw [if_neg (Ne.symm heq)]
      exact Nat.le_add_right _ _
  | @take t c waitAll did i e hx hwaits hi hnew hset hone =>
    refine h.act (hbound t rfl) hx (fun hauto => ?_)
    rw [weight_wait hwaits, weight_wait hwaits, places_insert hnew, hi]
    change (if Function.update s.set e _ event then 1 else 0) + _ ≤ _
    rw [Function.update_apply]
    by_cases heq : e = event
    · subst heq
      rw [if_pos rfl, if_pos rfl, hauto, hset]
      simp only [Bool.not_true, Bool.false_eq_true, if_false, if_true]
      omega
    · rw [if_neg (Ne.symm heq), if_neg (fun h => heq (Option.some.inj h))]
      exact Nat.le_refl _
  | @ret t c did result waitIndex hx hret =>
    have hpending : k.pending t = some c := by
      rw [h.pending t, hx]
      rfl
    refine ⟨?_, h.created, h.unmade, ?_⟩
    · intro u
      rw [call_party]
      change Function.update k.pending t none u = _
      rw [show k.pending = fun u => (s.parties u).call from funext h.pending]
      rfl
    · intro hauto
      have hbalance := h.balance hauto
      have hsum : _ + (s.parties t).weight event = _ := weight_party (hbound t rfl) .idle
      have hgained : c.gained event result waitIndex ≤ _ := gained_le_weight hret
      rw [hx] at hsum
      change k.gains + (k.pending t).elim 0 (fun c => c.gained event result waitIndex) +
        (if s.set event then 1 else 0) + _ ≤ k.sets
      rw [hpending, Option.elim_some]
      have hzero : Party.idle.weight event = 0 := rfl
      omega

theorem balanced_init : Balanced event N Tally.init Signals.init where
  pending _ := rfl
  created := rfl
  unmade _ _ := rfl
  balance _ := by
    have hzero : ∑ t ∈ Finset.range N, (Signals.init.parties t).weight event = 0 :=
      Finset.sum_eq_zero (fun _ _ => rfl)
    rw [hzero]
    exact Nat.le_refl 0

/-- The balance at the end of a run. -/
theorem Balanced.run {ops : List Op} (h : Reaches Signals.Step Signals.init ops s)
    (hbound : ∀ op ∈ ops, ∀ t, op.tid = some t → t < N) :
    Balanced event N (tally event (ops.filterMap Op.shows)) s := by
  induction h with
  | start => exact balanced_init
  | @next ops s1 s2 op _ hs ih =>
    have hI := ih (fun op hop => hbound op (List.mem_append_left _ hop))
    have hnext := hI.next hs (hbound op (List.mem_append_right _ (List.mem_singleton_self op)))
    unfold tally at hnext ⊢
    rw [simulations.filterMap_snoc, List.foldl_append]
    cases hshow : op.shows with
    | none =>
      rw [hshow] at hnext
      exact hnext
    | some act =>
      rw [hshow] at hnext
      exact hnext

/-- Whatever the threads do: the waits that came back with an event which resets
itself are at most as many as the times that it was set. -/
theorem waits_are_paid_by_sets {acts : List Action} {p : Process}
    (h : Reaches Step Process.init acts p) (event : neosmart_event_t)
    (hauto : (p.events event).AutoReset = true) : gains event acts ≤ sets event acts := by
  obtain ⟨ops, s, hops, hshow, hcoupled⟩ := coupled_reaches h
  let N := (ops.filterMap Op.tid).toFinset.sup id + 1
  have hbound : ∀ op ∈ ops, ∀ t, op.tid = some t → t < N := by
    intro op hop t ht
    have hmem : t ∈ (ops.filterMap Op.tid).toFinset :=
      List.mem_toFinset.mpr (List.mem_filterMap.mpr ⟨op, hop, ht⟩)
    exact Nat.lt_succ_of_le (Finset.le_sup (f := id) hmem)
  have hbalanced : Balanced event N _ s := Balanced.run hops hbound
  have hbalance := hbalanced.balance ((hcoupled.auto event).trans hauto)
  rw [hshow, tally_shown] at hbalance
  unfold gains sets
  omega

theorem one_wait_is_paid_by_one_set :
    gains 0 handOver = 1 ∧ sets 0 handOver = 1 ∧ gains 0 handOver ≤ sets 0 handOver := by
  have hrun : Reaches Step Process.init handOver _ := Reaches.start.steps step_step handOver rfl
  exact ⟨rfl, rfl, waits_are_paid_by_sets hrun 0 rfl⟩

end payloader.pevents
