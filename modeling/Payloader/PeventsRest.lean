-- What is left when the threads of pevents.cpp have done what they can. Each
-- thread that is in a call sleeps, and sleeps for events that are not set.
import Payloader.PeventsProgress
import Payloader.PeventsWaking

set_option autoImplicit false

namespace payloader.pevents

open payloader.machines payloader.locks

variable {p p' p1 : Process} {t u : Tid} {event : neosmart_event_t} {wfmo : neosmart_wfmo_t}
variable {w : neosmart_wfmo_t_} {c : Wait} {act : Action} {acts : List Action}
variable {th th0 : Thread} {b : Bool}

/-! ## Who wakes the threads that sleep on an event -/

/-- The thread will wake another one that sleeps on the event, or it is woken
itself, to take an event that resets itself. -/
def Thread.Rouses (AutoReset : Bool) (event : neosmart_event_t) : Thread → Prop
  | .idle => False
  | .ResetEvent _ => False
  | .SetEvent e point => e = event ∧ point ≠ .lock
  | .WaitForEvent e _ point => e = event ∧ AutoReset = true ∧ point = .woken 0
  | .WaitForMultipleEvents _ _ => False
  | .returned _ _ => False

/-- No thread is left asleep on an event that is set. -/
def Roused (p : Process) : Prop :=
  ∀ event u, (p.threads u).SleepsOn event → (p.events event).State = true →
    ∃ t, (p.threads t).Rouses (p.events event).AutoReset event

/-- No event is set by the step. -/
def Fades (p p1 : Process) : Prop :=
  ∀ e, (p1.events e).AutoReset = (p.events e).AutoReset ∧
    ((p1.events e).State = true → (p.events e).State = true)

theorem Fades.same (h : p1.events = p.events) : Fades p p1 := by
  intro e
  rw [h]
  exact ⟨rfl, id⟩

theorem Fades.put {e : neosmart_event_t_} (h : p1.events = Function.update p.events event e)
    (hauto : e.AutoReset = (p.events event).AutoReset)
    (hset : e.State = true → (p.events event).State = true) : Fades p p1 := by
  intro x
  rw [h, Function.update_apply]
  split
  case isTrue heq =>
    subst heq
    exact ⟨hauto, hset⟩
  case isFalse => exact ⟨rfl, id⟩

theorem Fades.obtained (h : p1.events = Function.update p.events event (p.events event).obtained) :
    Fades p p1 :=
  .put h rfl (fun hs => (Bool.and_eq_true_iff.mp hs).1)

/-- What is left of the rousing, when the thread that did it goes on. -/
def Settled (p p1 : Process) (t : Tid) (th : Thread) (e : neosmart_event_t) : Prop :=
  th.Rouses (p.events e).AutoReset e ∨ (p1.events e).State = false ∨
    (∃ u, u ≠ t ∧ (p.threads u).Rouses (p.events e).AutoReset e) ∨
      ∀ u, ¬ (p.threads u).SleepsOn e

theorem Roused.move (h : Roused p) (hth : p.threads t = th0) (hthreads : p1.threads = p.threads)
    (hfades : Fades p p1) (hsleep : ∀ e, th.SleepsOn e → (p1.events e).State = false)
    (hsettled : ∀ e, th0.Rouses (p.events e).AutoReset e → Settled p p1 t th e) :
    Roused (p1.move t th) := by
  intro e u hu hs
  change (Function.update p1.threads t th u).SleepsOn e at hu
  change (p1.events e).State = true at hs
  change ∃ v, (Function.update p1.threads t th v).Rouses (p1.events e).AutoReset e
  rw [hthreads] at hu ⊢
  obtain ⟨hauto, hset⟩ := hfades e
  rw [hauto]
  rw [Function.update_apply] at hu
  split at hu
  · cases (hsleep e hu).symm.trans hs
  obtain ⟨v, hv⟩ := h e u hu (hset hs)
  have hother : ∀ x, x ≠ t → (p.threads x).Rouses (p.events e).AutoReset e →
      ∃ v, (Function.update p.threads t th v).Rouses (p.events e).AutoReset e :=
    fun x hx hrouses => ⟨x, by rwa [Function.update_of_ne hx]⟩
  by_cases hvt : v = t
  · rw [hvt, hth] at hv
    rcases hsettled e hv with hnew | hunset | ⟨x, hx, hrouses⟩ | hnone
    · exact ⟨t, by rwa [Function.update_self]⟩
    · cases hunset.symm.trans hs
    · exact hother x hx hrouses
    · exact absurd hu (hnone u)
  · exact hother v hvt hv

/-- A thread that rouses no one goes on, and does not fall asleep on an event. -/
theorem Roused.goes (h : Roused p) (hth : p.threads t = th0) (hthreads : p1.threads = p.threads)
    (hfades : Fades p p1) (h0 : ∀ b e, ¬ th0.Rouses b e) (h1 : ∀ e, ¬ th.SleepsOn e) :
    Roused (p1.move t th) :=
  h.move hth hthreads hfades (fun e he => absurd he (h1 e)) (fun e he => absurd he (h0 _ e))

/-- `SetEvent` goes on behind its lock. -/
theorem Roused.sets (h : Roused p) {point point' : SetPoint}
    (hth : p.threads t = .SetEvent event point) (hthreads : p1.threads = p.threads)
    (hfades : Fades p p1) (hpoint : point' ≠ .lock) :
    Roused (p1.move t (.SetEvent event point')) := by
  refine h.move hth hthreads hfades (fun e he => ?_) (fun e he => ?_)
  · obtain ⟨milliseconds, he⟩ := he
    cases he
  · exact Or.inl ⟨he.1, hpoint⟩

theorem not_sleeps_multi (c : Wait) (point : MultiPoint) (e : neosmart_event_t) :
    ¬ (Thread.WaitForMultipleEvents c point).SleepsOn e := by
  rintro ⟨milliseconds, h⟩
  cases h

theorem not_sleeps_returned (result waitIndex : Int) (e : neosmart_event_t) :
    ¬ (Thread.returned result waitIndex).SleepsOn e := by
  rintro ⟨milliseconds, h⟩
  cases h

/-- A signal for a waiter leaves the threads that sleep on events. -/
theorem Roused.signal (h : Roused p) (wfmo : neosmart_wfmo_t) : Roused (p.signal wfmo) := by
  have hsame : ∀ th : Thread, (∀ e, (th.signal wfmo).SleepsOn e ↔ th.SleepsOn e) ∧
      ∀ b e, (th.signal wfmo).Rouses b e ↔ th.Rouses b e := by
    intro th
    unfold Thread.signal
    split
    · exact ⟨fun e => iff_of_false (not_sleeps_multi _ _ e) (not_sleeps_multi _ _ e),
        fun b e => Iff.rfl⟩
    · exact ⟨fun _ => Iff.rfl, fun _ _ => Iff.rfl⟩
  intro e u hu hs
  obtain ⟨v, hv⟩ := h e u (((hsame _).1 e).mp hu) hs
  exact ⟨v, ((hsame _).2 _ e).mpr hv⟩

/-- After a broadcast no thread sleeps on the event. -/
theorem Roused.broadcast (h : Roused p) (hth : p.threads t = .SetEvent event .wake) :
    Roused ((p.broadcast event).move t (.returned 0 0)) := by
  have hsleeps : ∀ th : Thread, ∀ e, (th.broadcast event).SleepsOn e →
      th.SleepsOn e ∧ e ≠ event := by
    intro th e hsleep
    unfold Thread.broadcast at hsleep
    split at hsleep
    case h_1 x milliseconds =>
      obtain ⟨ms, heq⟩ := hsleep
      split at heq
      · cases heq
      case isFalse hne =>
        cases heq
        exact ⟨⟨_, rfl⟩, hne⟩
    case h_2 hnot =>
      obtain ⟨ms, heq⟩ := hsleep
      exact absurd heq (hnot e ms)
  have hrouses : ∀ th : Thread, ∀ b e, th.Rouses b e → (th.broadcast event).Rouses b e := by
    intro th b e hr
    unfold Thread.broadcast
    split
    · cases hr.2.2
    · exact hr
  intro e u hu hs
  change (Function.update (p.broadcast event).threads t _ u).SleepsOn e at hu
  rw [Function.update_apply] at hu
  split at hu
  · exact absurd hu (not_sleeps_returned 0 0 e)
  obtain ⟨hold, hne⟩ := hsleeps _ e hu
  obtain ⟨v, hv⟩ := h e u hold hs
  refine ⟨v, ?_⟩
  change (Function.update (p.broadcast event).threads t _ v).Rouses _ e
  rw [Function.update_of_ne]
  · exact hrouses _ _ e hv
  · rintro rfl
    rw [hth] at hv
    exact hne hv.1.symm

theorem roused_next (hS : p.Sound) (hI : Roused p) (h : Step p act p') : Roused p' := by
  cases h with
  | CreateEvent manualReset initialState =>
    intro e u hu hs
    have hne : e ≠ p.created := by
      rintro rfl
      obtain ⟨milliseconds, hth⟩ := hu
      have hlt := hS.named u p.created (by rw [show p.threads u = _ from hth]; rfl)
      exact Nat.lt_irrefl _ hlt
    change (Function.update p.events p.created _ e).State = true at hs
    change ∃ v, (p.threads v).Rouses (Function.update p.events p.created _ e).AutoReset e
    rw [Function.update_of_ne hne] at hs ⊢
    exact hI e u hu hs
  | @call t c h hevents =>
    cases c with
    | WaitForMultipleEvents events waitAll milliseconds =>
      exact hI.goes h rfl (.same rfl) (fun _ _ => id) (not_sleeps_multi _ _)
    | WaitForEvent event milliseconds =>
      refine hI.goes h rfl (.same rfl) (fun _ _ => id) (fun e he => ?_)
      obtain ⟨ms, heq⟩ := he
      cases heq
    | _ =>
      refine hI.goes h rfl (.same rfl) (fun _ _ => id) (fun e he => ?_)
      obtain ⟨ms, heq⟩ := he
      cases heq
  | ret h =>
    refine hI.goes h rfl (.same rfl) (fun _ _ => id) (fun e he => ?_)
    obtain ⟨ms, heq⟩ := he
    cases heq
  | @reset t event h hfree =>
    exact hI.goes h rfl (.put rfl rfl nofun) (fun _ _ => id) (not_sleeps_returned 0 0)
  | @setLock t event h hfree =>
    intro e u hu hs
    change (Function.update p.threads t _ u).SleepsOn e at hu
    change (Function.update p.events event _ e).State = true at hs
    change ∃ v, (Function.update p.threads t _ v).Rouses
      (Function.update p.events event _ e).AutoReset e
    by_cases he : event = e
    · exact ⟨t, by rw [Function.update_self]; exact ⟨he, nofun⟩⟩
    · rw [Function.update_of_ne (Ne.symm he)] at hs ⊢
      rw [Function.update_apply] at hu
      split at hu
      · obtain ⟨ms, heq⟩ := hu
        cases heq
      obtain ⟨v, hv⟩ := hI e u hu hs
      refine ⟨v, ?_⟩
      rw [Function.update_of_ne]
      · exact hv
      · rintro rfl
        rw [h] at hv
        exact hv.2 rfl
  | @setExpired t event i rest w h hfront hw =>
    refine hI.sets h rfl (.put rfl rfl id) ?_
    unfold SetPoint.afterDrop
    split <;> nofun
  | setFired h hfront hw =>
    exact hI.sets h rfl (.put rfl rfl (fun hs => (Bool.and_eq_true_iff.mp hs).1)) nofun
  | setDestroy h => exact hI.sets h rfl (.same rfl) nofun
  | @setSignalOne t event wfmo h halive hauto =>
    have hth : (p.signal wfmo).threads t = .SetEvent event (.signal wfmo) :=
      congrArg (Thread.signal wfmo) h
    refine (hI.signal wfmo).move hth rfl (.put rfl rfl id)
      (fun e he => absurd he (not_sleeps_returned 0 0 e)) (fun e he => Or.inr (Or.inl ?_))
    -- the event went to the waiter
    obtain rfl : event = e := he.1
    have hlow := hS.accounts.states.raised t event _ (set_role h rfl)
    change (Function.update p.events event (p.events event).unlock event).State = false
    rw [Function.update_self]
    refine Eq.trans hlow ?_
    change (!(p.events event).AutoReset) = false
    rw [hauto]
    rfl
  | @setSignalEach t event wfmo h =>
    have hth : (p.signal wfmo).threads t = .SetEvent event (.signal wfmo) :=
      congrArg (Thread.signal wfmo) h
    exact (hI.signal wfmo).sets hth rfl (.same rfl) nofun
  | setEmpty h => exact hI.sets h rfl (.put rfl rfl id) nofun
  | @setThrough t event h hempty hauto hunset =>
    refine hI.move h rfl (.same rfl) (fun e he => absurd he (not_sleeps_returned 0 0 e))
      (fun e he => Or.inr (Or.inl ?_))
    obtain rfl : event = e := he.1
    exact hunset
  | @setWakeOne t t' event milliseconds h hauto hasleep =>
    have hne : t' ≠ t := by
      rintro rfl
      cases h.symm.trans hasleep
    have hwoken : Roused (p.move t' (.WaitForEvent event milliseconds (.woken 0))) := by
      refine hI.goes hasleep rfl (.same rfl) ?_ ?_
      · rintro b e ⟨-, -, he⟩
        cases he
      · rintro e ⟨ms, he⟩
        cases he
    have hth : (p.move t' (.WaitForEvent event milliseconds (.woken 0))).threads t =
        .SetEvent event .wake := (Function.update_of_ne (Ne.symm hne) _ _).trans h
    refine hwoken.move hth rfl (.same rfl) (fun e he => absurd he (not_sleeps_returned 0 0 e))
      (fun e he => Or.inr (Or.inr (Or.inl ⟨t', hne, ?_⟩)))
    change (Function.update p.threads t' _ t').Rouses _ e
    rw [Function.update_self]
    obtain rfl : event = e := he.1
    exact ⟨rfl, hauto, rfl⟩
  | @setWakeNone t event h hauto hnone =>
    refine hI.move h rfl (.same rfl) (fun e he => absurd he (not_sleeps_returned 0 0 e))
      (fun e he => Or.inr (Or.inr (Or.inr ?_)))
    obtain rfl : event = e := he.1
    exact hnone
  | setWakeAll h => exact hI.broadcast h
  | waitBusy h =>
    refine hI.goes h rfl (.same rfl) ?_ (not_sleeps_returned _ 0)
    rintro b e ⟨-, -, he⟩
    cases he
  | @waitObtained t event milliseconds point h hpoint hfree hset =>
    refine hI.move h rfl (.obtained rfl) (fun e he => absurd he (not_sleeps_returned 0 0 e))
      (fun e he => Or.inr (Or.inl ?_))
    obtain ⟨rfl, hauto, -⟩ := he
    change (Function.update p.events event (p.events event).obtained event).State = false
    rw [Function.update_self]
    change ((p.events event).State && !(p.events event).AutoReset) = false
    rw [hauto, Bool.not_true, Bool.and_false]
  | waitNoTime h =>
    refine hI.goes h rfl (.same rfl) ?_ (not_sleeps_returned _ 0)
    rintro b e ⟨-, -, he⟩
    cases he
  | @waitSleep t event milliseconds point h hpoint hfree hunset =>
    refine hI.move h rfl (.same rfl) (fun e he => ?_) (fun e he => Or.inr (Or.inl ?_))
    · obtain ⟨ms, heq⟩ := he
      cases heq
      exact hunset
    · obtain rfl : event = e := he.1
      exact hunset
  | @waitTimedOut t event milliseconds result h hresult =>
    refine hI.goes h rfl (.same rfl) ?_ (not_sleeps_returned _ 0)
    rintro b e ⟨-, -, he⟩
    cases he
    exact hresult rfl
  | multiLock h =>
    exact hI.goes h rfl (.put rfl rfl id) (fun _ _ => id) (not_sleeps_multi _ _)
  | multiDrop h =>
    exact hI.goes h rfl (.put rfl rfl id) (fun _ _ => id) (not_sleeps_multi _ _)
  | multiObtained h =>
    exact hI.goes h rfl (.put rfl rfl (fun hs => (Bool.and_eq_true_iff.mp hs).1))
      (fun _ _ => id) (not_sleeps_multi _ _)
  | multiRegister h =>
    exact hI.goes h rfl (.put rfl rfl id) (fun _ _ => id) (not_sleeps_multi _ _)
  | multiFinish h =>
    refine hI.goes h rfl (.same rfl) (fun _ _ => id) ?_
    unfold Thread.afterFinish
    split
    · exact not_sleeps_multi _ _
    · exact not_sleeps_returned _ _
  | multiDestroy h =>
    exact hI.goes h rfl (.same rfl) (fun _ _ => id) (not_sleeps_returned _ _)
  | spuriousOne h =>
    refine hI.goes h rfl (.same rfl) ?_ ?_
    · rintro b e ⟨-, -, he⟩
      cases he
    · rintro e ⟨ms, he⟩
      cases he
  | timedOutOne h =>
    refine hI.goes h rfl (.same rfl) ?_ ?_
    · rintro b e ⟨-, -, he⟩
      cases he
    · rintro e ⟨ms, he⟩
      cases he
  | _ h => exact hI.goes h rfl (.same rfl) (fun _ _ => id) (not_sleeps_multi _ _)

theorem roused_reaches (h : Reaches Step Process.init acts p) : Roused p := by
  have hI := h.invariant (fun _ p => p.Sound ∧ Roused p)
    ⟨sound_init, fun _ _ hu => nomatch hu⟩
    (fun _ _ _ _ hI hs => ⟨sound_next hI.1 hs, roused_next hI.1 hI.2 hs⟩)
  exact hI.2

theorem Thread.Rouses.busy {th : Thread} (h : th.Rouses b event) : th.Busy := by
  cases th with
  | SetEvent => trivial
  | WaitForEvent =>
    obtain ⟨-, -, rfl⟩ := h
    nofun
  | _ => exact h.elim

/-! ## At rest -/

/-- The thread is in no call, or sleeps for events that it cannot get. -/
def Thread.Rests (events : neosmart_event_t → neosmart_event_t_) : Thread → Prop
  | .idle => True
  | .ResetEvent _ => False
  | .SetEvent _ _ => False
  | .WaitForEvent event _ point => point = .asleep ∧ (events event).State = false
  | .WaitForMultipleEvents c point => point = .asleep ∧
      if c.waitAll then ∃ e ∈ c.events, (events e).State = false
      else ∀ e ∈ c.events, (events e).State = false
  | .returned _ _ => True

/-- An event with a waiter in its list is not set, unless a thread is in its
`SetEvent`. -/
theorem listed_unset (hS : p.Sound) (hquiet : ∀ u, ¬ (p.threads u).Busy)
    {i : neosmart_wfmo_info_t_} (hi : i ∈ (p.events event).RegisteredWaits) :
    (p.events event).State = false := by
  refine Bool.eq_false_iff.mpr (fun hset => ?_)
  rcases hS.accounts.states.settled event hset with hnil | ⟨u, point, hu⟩
  · have hlist : (p.events event).RegisteredWaits = [] := hnil
    rw [hlist] at hi
    cases hi
  · have hheld : p.owner (.event event) = some u :=
      (hS.accounts.events_held event u).mpr (heldEvent_eq hu)
    exact hquiet u (owner_busy hS hheld)

/-- A wait that sleeps is registered with the events that it has not got. -/
theorem sleeps_unset (hS : p.Sound) {s : Signals} (hcoupled : Coupled p s)
    (halerted : Alerted p) (hquiet : ∀ u, ¬ (p.threads u).Busy)
    (h : p.threads t = .WaitForMultipleEvents c .asleep) :
    if c.waitAll then ∃ e ∈ c.events, (p.events e).State = false
    else ∀ e ∈ c.events, (p.events e).State = false := by
  obtain ⟨got, w, -, hw, hgoing, -⟩ := hcoupled.multi h nofun
  obtain ⟨w', hw', hall⟩ := hS.accounts.calls.alive t c (call_eq (multi_role h) :)
  cases hw.symm.trans hw'
  -- nobody is left to signal it, so it has not got its events
  have hnot : w.done = false := by
    refine Bool.eq_false_iff.mpr (fun hdone => ?_)
    obtain ⟨u, hu⟩ := halerted t c w (nap_of h) hw hdone
    have hbusy := hquiet u
    unfold Process.nap at hu
    cases hth : p.threads u with
    | SetEvent =>
      rw [hth] at hbusy
      exact hbusy trivial
    | WaitForMultipleEvents c' point =>
      rw [hth] at hu
      cases point <;> cases hu
    | _ =>
      rw [hth] at hu
      cases hu
  have hunset : ∀ i e, c.events[i]? = some e → i ∉ got → (c.waitAll = true ∨ got = ∅) →
      (p.events e).State = false := by
    intro i e hi hout hwaits
    have hlt : i < c.events.length := (List.getElem?_eq_some_iff.mp hi).1
    exact listed_unset hS hquiet (hgoing.listed hwaits i e hlt hi hout)
  have hstatus := hgoing.status
  unfold neosmart_wfmo_t_.done at hnot
  rw [hall] at hnot
  split
  case isTrue hevery =>
    unfold Shows at hstatus
    rw [if_pos hevery] at hstatus
    simp only [hevery, Bool.true_and, Bool.not_true, Bool.false_and, Bool.or_false,
      beq_eq_false_iff_ne, ne_eq] at hnot
    -- the places that it has got are too few
    obtain ⟨i, hi, hout⟩ : ∃ i ∈ Finset.range c.events.length, i ∉ got := by
      by_contra hnone
      have hsub : Finset.range c.events.length ⊆ got := by
        intro i hi
        by_contra hout
        exact hnone ⟨i, hi, hout⟩
      have hle : got ⊆ Finset.range c.events.length :=
        fun i hi => Finset.mem_range.mpr (hgoing.within i hi)
      rw [Finset.Subset.antisymm hle hsub, Finset.card_range, Int.sub_self] at hstatus
      exact hnot hstatus
    have hlt := Finset.mem_range.mp hi
    refine ⟨c.events[i], List.getElem_mem hlt, ?_⟩
    exact hunset i _ (List.getElem?_eq_getElem hlt) hout (Or.inl hevery)
  case isFalse hone =>
    have hone := Bool.not_eq_true _ ▸ hone
    unfold Shows at hstatus
    rw [if_neg (by rw [hone]; nofun)] at hstatus
    simp only [hone, Bool.false_and, Bool.not_false, Bool.true_and, Bool.false_or,
      bne_eq_false_iff_eq] at hnot
    have hempty : got = ∅ := by
      rcases hstatus with ⟨hempty, -⟩ | ⟨i, -, hi⟩
      · exact hempty
      · omega
    intro e he
    obtain ⟨i, hi⟩ := List.getElem?_of_mem he
    exact hunset i e hi (by rw [hempty]; exact Finset.notMem_empty i) (Or.inr hempty)

theorem rests_reaches (h : Reaches Step Process.init acts p) (halive : p.Signalling)
    {order : neosmart_event_t → Nat} (horder : p.Ordered order) (hrest : ∀ u, ¬ p.Steps u)
    (t : Tid) : (p.threads t).Rests p.events := by
  have hquiet : ∀ u, ¬ (p.threads u).Busy := by
    intro u hbusy
    obtain ⟨v, hv⟩ := someone_steps h halive horder hbusy
    exact hrest v hv
  have hS := sound_reaches h
  have hawake := hquiet t
  cases hth : p.threads t with
  | idle => trivial
  | returned => trivial
  | WaitForEvent event milliseconds point =>
    rw [hth] at hawake
    have hasleep : point = .asleep := not_not.mp hawake
    subst hasleep
    refine ⟨rfl, Bool.eq_false_iff.mpr (fun hset => ?_)⟩
    obtain ⟨u, hu⟩ := roused_reaches h event t ⟨milliseconds, hth⟩ hset
    exact hquiet u hu.busy
  | WaitForMultipleEvents c point =>
    rw [hth] at hawake
    have hasleep : point = .asleep := not_not.mp hawake
    subst hasleep
    obtain ⟨ops, s, -, -, hcoupled⟩ := coupled_reaches h
    exact ⟨rfl, sleeps_unset hS hcoupled (alerted_reaches h) hquiet hth⟩
  | _ =>
    rw [hth] at hawake
    exact hawake trivial

/-- When no thread goes on, none is left in a call that could: each sleeps for
events that are not set. -/
theorem all_rest (h : Reaches Step Process.init acts p) (halive : p.Signalling)
    {order : neosmart_event_t → Nat} (horder : p.Ordered order) (hrest : ∀ u, ¬ p.Steps u)
    (t : Tid) : (p.threads t).Rests p.events :=
  rests_reaches h halive horder hrest t

/-- One thread waits for two events, one of which was set, and one for the other. -/
def half : List Action :=
  [.created false false, .created false true, .call 0 (.WaitForMultipleEvents [0, 1] true INFINITE),
    .step 0, .step 0, .step 0, .step 0, .step 0, .call 1 (.WaitForEvent 0 5), .step 1]

theorem half_rests : ∃ p, Reaches Step Process.init half p ∧
    (p.threads 0).Rests p.events ∧ (p.threads 1).Rests p.events := by
  have hrun : Reaches Step Process.init half _ := Reaches.start.steps step_step half rfl
  have hall := all_rest hrun ?_ (?_ : Process.Ordered id _) ?_
  · exact ⟨_, hrun, hall 0, hall 1⟩
  · intro t event wfmo ht
    rcases t with _ | _ | t <;> cases ht
  · intro t c point ht
    rcases t with _ | _ | t <;> cases ht
    decide
  · rintro t ⟨p', hstep⟩
    have hbusy := hstep.ready.1
    rcases t with _ | _ | t
    · exact hbusy rfl
    · exact hbusy rfl
    · exact hbusy

end payloader.pevents
