-- The memory of the waiters of pevents.cpp. A thread deletes a waiter when it
-- has dropped the last reference to it. No entry that is still to be visited and
-- no wait names a deleted waiter, and no waiter is left behind that nothing names.
import Payloader.PeventsRefinement

set_option autoImplicit false

namespace payloader.pevents

open payloader.machines payloader.locks payloader.references

variable {p : Process} {t : Tid} {event : neosmart_event_t} {wfmo : neosmart_wfmo_t}
variable {w : neosmart_wfmo_t_} {acts : List Action}

/-! ## No use after free -/

/-- No entry that is still to be visited names the waiter, no wait does, and its
mutex is free. A `SetEvent` that stands at its signal may still name it. -/
structure Process.Dropped (p : Process) (wfmo : neosmart_wfmo_t) : Prop where
  unlisted : ∀ event i, i ∈ (p.events event).RegisteredWaits → i.Waiter ≠ wfmo
  uncalled : ¬ p.accounts.Called wfmo
  unlocked : p.accounts.waiterOwner wfmo = none

structure Process.Safe (p : Process) : Prop where
  listed : ∀ event i, i ∈ (p.events event).RegisteredWaits → p.waiters i.Waiter ≠ none
  called : ∀ t c point, p.threads t = .WaitForMultipleEvents c point → p.waiters c.wfmo ≠ none
  deleted : ∀ t wfmo, p.accounts.deleting t = some wfmo → p.waiters wfmo ≠ none ∧ p.Dropped wfmo
  once : ∀ t t' wfmo, p.accounts.deleting t = some wfmo → p.accounts.deleting t' = some wfmo →
    t = t'
  last : ∀ wfmo w, p.waiters wfmo = some w → w.RefCount = 0 → ∃ t, p.accounts.deleting t = some wfmo

/-- A waiter that a thread is about to delete is in no list. -/
theorem Process.Sound.dropped (h : p.Sound) (hdel : p.accounts.deleting t = some wfmo) :
    p.Dropped wfmo := by
  refine ⟨fun event i hi heq => ?_, h.accounts.not_called hdel, h.accounts.free hdel⟩
  have href : p.accounts.refs i.Waiter ≠ 0 := refs_mem (a := p.accounts) h.accounts.entries hi
  rw [heq] at href
  exact href (Counted.unreferenced h.accounts.counts hdel)

/-- It is there for one thread to delete it. -/
theorem Process.Sound.deleted (h : p.Sound) (hdel : p.accounts.deleting t = some wfmo) :
    p.waiters wfmo ≠ none := by
  intro hnone
  have hcount : p.accounts.counts wfmo = some 0 := Counted.last h.accounts.counts t wfmo hdel
  unfold Accounts.counts at hcount
  rw [show p.accounts.waiters wfmo = none from hnone] at hcount
  cases hcount

theorem Process.Sound.safe (h : p.Sound) : p.Safe where
  listed event i hi hnone := by
    obtain ⟨w, hw⟩ : ∃ w, p.waiters i.Waiter = some w := h.accounts.listed hi
    cases hw.symm.trans hnone
  called t c point ht := by
    cases point with
    | destroy result waitIndex => exact h.deleted (deleting_eq (multi_role ht) :)
    | _ =>
      intro hnone
      obtain ⟨w, hw, -⟩ := h.accounts.calls.alive t c (call_eq (multi_role ht) :)
      cases hw.symm.trans hnone
  deleted t wfmo hdel := ⟨h.deleted hdel, h.dropped hdel⟩
  once := Counted.once h.accounts.counts
  last wfmo w hw hzero :=
    Counted.kept h.accounts.counts wfmo
      ((counts_eq (a := p.accounts) hw).trans (congrArg some hzero))

/-- Whatever the threads do, the entries that are still to be visited and the
waits name waiters that are not deleted. One thread deletes a waiter, and then
none of them names it. -/
theorem waiters_are_safe (h : Reaches Step Process.init acts p) : p.Safe :=
  (sound_reaches h).safe

/-- A wait comes to the end of its time, and `SetEvent` deletes its waiter. -/
def late : List Action :=
  [.created false false, .call 0 (.WaitForMultipleEvents [0] false 1), .step 0, .step 0, .step 0,
    .timedOut 0, .step 0, .step 0, .ret 0 WAIT_TIMEOUT (-1), .call 1 (.SetEvent 0),
    .step 1, .step 1]

theorem a_late_waiter_is_deleted_once : ∃ p, Reaches Step Process.init late p ∧
    p.accounts.deleting 1 = some 0 ∧ p.Safe := by
  have hrun : Reaches Step Process.init late _ := Reaches.start.steps step_step late rfl
  exact ⟨_, hrun, rfl, waiters_are_safe hrun⟩

/-! ## No waiter is lost -/

/-- When no call goes on, each mutex is free, and each waiter is in a list that
will drop it. -/
structure Process.Tidy (p : Process) : Prop where
  events_free : ∀ event, (p.events event).Mutex = none
  waiters_free : ∀ wfmo w, p.waiters wfmo = some w → w.Mutex = none
  expired : ∀ wfmo w, p.waiters wfmo = some w → w.StillWaiting = false
  listed : ∀ wfmo w, p.waiters wfmo = some w →
    w.RefCount = p.accounts.registrations wfmo ∧ 0 < p.accounts.registrations wfmo

theorem idle_is_tidy (h : Reaches Step Process.init acts p)
    (hidle : ∀ t, p.threads t = .idle ∨
      ∃ result waitIndex, p.threads t = .returned result waitIndex) :
    p.Tidy := by
  have hS := sound_reaches h
  have hrole : ∀ t, p.accounts.roles t = .outside := by
    intro t
    rcases hidle t with ht | ⟨result, waitIndex, ht⟩ <;> exact congrArg Thread.role ht
  have hcalled : ∀ wfmo, ¬ p.accounts.Called wfmo := by
    rintro wfmo ⟨t, c, hc, -⟩
    cases (call_eq (hrole t)).symm.trans hc
  constructor
  case events_free =>
    intro event
    cases ho : (p.events event).Mutex with
    | none => rfl
    | some t =>
      have hheld := (hS.accounts.events_held event t).mp ho
      cases (heldEvent_eq (hrole t)).symm.trans hheld
  case waiters_free =>
    intro wfmo w hw
    cases ho : w.Mutex with
    | none => rfl
    | some t =>
      have howner := (waiterOwner_eq (a := p.accounts) hw).trans ho
      exact absurd (hS.accounts.held_called howner) (hcalled _)
  case expired =>
    intro wfmo w hw
    cases hs : w.StillWaiting with
    | false => rfl
    | true => exact absurd (hS.accounts.calls.still wfmo w hw hs) (hcalled _)
  case listed =>
    intro wfmo w hw
    have hcount := Counted.count_eq hS.accounts.counts (counts_eq (a := p.accounts) hw)
    unfold Accounts.refs at hcount
    rw [if_neg (hcalled wfmo), Nat.add_zero] at hcount
    refine ⟨hcount, Nat.pos_of_ne_zero (fun hzero => ?_)⟩
    rw [hzero] at hcount
    obtain ⟨t, ht⟩ := hS.safe.last wfmo w hw hcount
    cases (deleting_eq (hrole t)).symm.trans ht

theorem a_late_waiter_stays_listed : ∃ p, Reaches Step Process.init (late.take 9) p ∧
    p.waiters 0 ≠ none ∧ p.Tidy := by
  have hrun : Reaches Step Process.init (late.take 9) _ :=
    Reaches.start.steps step_step (late.take 9) rfl
  refine ⟨_, hrun, nofun, idle_is_tidy hrun (fun t => Or.inl ?_)⟩
  rcases t with _ | t <;> rfl

/-! ## The assertions -/

/-- A call acts on events that it names. -/
def Signals.Placed (s : Signals) : Prop :=
  ∀ t c did, s.parties t = .calling c did → did ⊆ Finset.range c.events.length

theorem Signals.Placed.party {s s1 : Signals} (h : s.Placed) (hs : s1.parties = s.parties)
    {x : Party} (hx : ∀ c did, x = .calling c did → did ⊆ Finset.range c.events.length) :
    (s1.party t x).Placed := by
  intro u c did hu
  change Function.update s1.parties t x u = _ at hu
  rw [hs, Function.update_apply] at hu
  split at hu
  · exact hx c did hu
  · exact h u c did hu

theorem placed_reaches {s : Signals} {ops : List Op} (h : Reaches Signals.Step Signals.init ops s) :
    s.Placed := by
  refine h.invariant (fun _ s => s.Placed) nofun (fun ops s op s' hI hs => ?_)
  have hfirst : ∀ {c : Call}, c.events.length = 1 →
      ({0} : Finset Nat) ⊆ .range c.events.length := by
    intro c hc
    rw [hc]
    exact Finset.Subset.refl _
  cases hs with
  | CreateEvent => exact hI
  | call c =>
    refine hI.party rfl (fun c' did hc' => ?_)
    cases hc'
    exact Finset.empty_subset _
  | reset =>
    refine hI.party rfl (fun c' did hc' => ?_)
    cases hc'
    exact hfirst rfl
  | set =>
    refine hI.party rfl (fun c' did hc' => ?_)
    cases hc'
    exact hfirst rfl
  | take hp hwaits hi =>
    refine hI.party rfl (fun c' did hc' => ?_)
    cases hc'
    rw [Finset.insert_subset_iff, Finset.mem_range]
    exact ⟨(List.getElem?_eq_some_iff.mp hi).1, hI _ _ _ hp⟩
  | ret => exact hI.party rfl nofun

/-- What the code asserts of the counters of a waiter, and where the place of
the event lies that it says it got. -/
structure neosmart_wfmo_t_.Asserted (w : neosmart_wfmo_t_) (c : Wait) : Prop where
  RefCount : 1 ≤ w.RefCount
  EventsLeft : c.waitAll = true → 0 ≤ w.Status ∧ w.Status ≤ c.events.length
  FiredEvent : c.waitAll = false → -1 ≤ w.Status ∧ w.Status < c.events.length

theorem shows_asserted {waitAll : Bool} {count : Nat} {did : Finset Nat} {Status : Int}
    (h : Shows waitAll count did Status) (hdid : did ⊆ Finset.range count) :
    (waitAll = true → 0 ≤ Status ∧ Status ≤ count) ∧
      (waitAll = false → -1 ≤ Status ∧ Status < count) := by
  have hcard : did.card ≤ count := by simpa using Finset.card_le_card hdid
  constructor
  · rintro rfl
    have hstatus : Status = count - did.card := h
    omega
  · rintro rfl
    rcases (h : (did = ∅ ∧ Status = -1) ∨ ∃ i : Nat, did = {i} ∧ Status = i) with
      ⟨-, hstatus⟩ | ⟨i, rfl, hstatus⟩
    · omega
    · have hi := Finset.mem_range.mp (hdid (Finset.mem_singleton_self i))
      omega

/-- A thread whose waiter is counted for it is in its call. -/
theorem call_thread {c : Wait} (h : p.accounts.call t = some c) :
    ∃ point, p.threads t = .WaitForMultipleEvents c point ∧
      ∀ result waitIndex, point ≠ .destroy result waitIndex := by
  have hcall : (p.threads t).role.call = some c := h
  cases hth : p.threads t with
  | SetEvent x q =>
    rw [hth] at hcall
    cases q <;> cases hcall
  | WaitForMultipleEvents c' point =>
    rw [hth] at hcall
    cases point <;> cases hcall <;> exact ⟨_, rfl, nofun⟩
  | _ =>
    rw [hth] at hcall
    cases hcall

/-- No assertion on `RefCount` and `EventsLeft` fails. -/
theorem assertions_hold (h : Reaches Step Process.init acts p) :
    (∀ wfmo w, p.waiters wfmo = some w → 0 ≤ w.RefCount) ∧
      ∀ t c w, p.accounts.call t = some c → p.waiters c.wfmo = some w → w.Asserted c := by
  have hS := sound_reaches h
  have hcount : ∀ wfmo w, p.waiters wfmo = some w → w.RefCount = p.accounts.refs wfmo :=
    fun wfmo w hw => Counted.count_eq hS.accounts.counts (counts_eq (a := p.accounts) hw)
  refine ⟨fun wfmo w hw => ?_, fun t c w hc hw => ?_⟩
  · rw [hcount wfmo w hw]
    exact Int.natCast_nonneg _
  · obtain ⟨ops, s, hops, -, hcoupled⟩ := coupled_reaches h
    obtain ⟨point, hth, hpoint⟩ := call_thread hc
    obtain ⟨got, w', hparty, hw', hgoing, -⟩ := hcoupled.multi hth hpoint
    cases hw.symm.trans hw'
    obtain ⟨hall, hone⟩ := shows_asserted hgoing.status (placed_reaches hops t _ got hparty)
    have href : p.accounts.refs c.wfmo ≠ 0 := refs_called ⟨t, c, hc, rfl⟩
    refine ⟨?_, hall, hone⟩
    rw [hcount c.wfmo w hw]
    omega

theorem assertions_hold_at_hand_over : ∃ p, Reaches Step Process.init (handOver.take 8) p ∧
    ∃ w, p.waiters 0 = some w ∧
      w.Asserted { wfmo := 0, events := [0], waitAll := false, milliseconds := INFINITE } := by
  have hrun : Reaches Step Process.init (handOver.take 8) _ :=
    Reaches.start.steps step_step (handOver.take 8) rfl
  exact ⟨_, hrun, _, rfl, (assertions_hold hrun).2 0 _ _ rfl rfl⟩

end payloader.pevents
