-- The invariant of the events of pevents.cpp. Mutexes are held by who takes
-- them, the lists name waiters that are not deleted, and a waiter counts the
-- lists that it is in and the call that it belongs to.
import Payloader.Locks
import Payloader.References
import Payloader.PeventsAccounts
import Mathlib.Algebra.BigOperators.Group.Finset.Piecewise
import Mathlib.Algebra.Order.BigOperators.Group.Finset

set_option autoImplicit false

namespace payloader.pevents

open payloader.locks payloader.references payloader.machines

/-! ## The invariant -/

/-- A call goes on whose waiter this is. -/
def Accounts.Called (a : Accounts) (wfmo : neosmart_wfmo_t) : Prop :=
  ∃ t c, a.call t = some c ∧ c.wfmo = wfmo

/-- In how many lists the waiter is. -/
def Accounts.registrations (a : Accounts) (wfmo : neosmart_wfmo_t) : Nat :=
  ∑ e ∈ Finset.range a.created, (a.events e).RegisteredWaits.countP (fun i => i.Waiter = wfmo)

open Classical in
/-- The references to a waiter: its lists and its call. -/
noncomputable def Accounts.refs (a : Accounts) (wfmo : neosmart_wfmo_t) : Nat :=
  a.registrations wfmo + if a.Called wfmo then 1 else 0

/-- Each call has a waiter of its own. -/
structure Calls (a : Accounts) : Prop where
  valid : ∀ t c, a.call t = some c → ∀ e ∈ c.events, e < a.created
  fresh : ∀ wfmo, a.fresh ≤ wfmo → a.waiters wfmo = none
  alive : ∀ t c, a.call t = some c → ∃ w, a.waiters c.wfmo = some w ∧ w.WaitAll = c.waitAll
  one_call : ∀ t t' c c', a.call t = some c → a.call t' = some c' → c.wfmo = c'.wfmo → t = t'
  still : ∀ wfmo w, a.waiters wfmo = some w → w.StillWaiting = true → a.Called wfmo

/-- The lists hold what calls have put there. -/
structure Entries (a : Accounts) : Prop where
  unmade : ∀ e, a.created ≤ e → (a.events e).RegisteredWaits = []
  placed : ∀ e i t c, i ∈ (a.events e).RegisteredWaits → a.call t = some c → i.Waiter = c.wfmo →
    c.events[i.WaitIndex]? = some e ∧ i.WaitIndex < (a.roles t).looked
  nodup : ∀ e, (a.events e).RegisteredWaits.Nodup

/-- The state of an event at a point of the loop of `SetEvent`. -/
def SetPoint.state (e : neosmart_event_t_) : SetPoint → Bool
  | .lock => true
  | .loop => true
  | .destroy _ => true
  | .signal _ => !e.AutoReset
  | .wake => true

/-- The state of an event, while `SetEvent` is in its loop and after it. -/
structure States (a : Accounts) : Prop where
  made : ∀ t event point, a.roles t = .setting event point → event < a.created
  raised : ∀ t event point, a.roles t = .setting event point →
    (a.events event).State = point.state (a.events event)
  settled : ∀ event, (a.events event).State = true →
    (a.events event).RegisteredWaits = [] ∨ ∃ t point, a.roles t = .setting event point

/-- A waiter counts its lists and its call. -/
def Counts (a : Accounts) : Prop := Counted a.refs a.counts a.deleting

structure Sound (a : Accounts) : Prop where
  events_held : Held a.eventOwner a.heldEvent
  waiters_held : Held a.waiterOwner a.heldWaiter
  calls : Calls a
  entries : Entries a
  states : States a
  counts : Counts a

variable {a a' : Accounts} {t : Tid} {r : Role} {event : neosmart_event_t} {e : neosmart_event_t_}
variable {wfmo : neosmart_wfmo_t} {w w' : neosmart_wfmo_t_}

/-! ## The mutexes -/

theorem events_held_next (h : Change a a') (hI : Held a.eventOwner a.heldEvent)
    (hnew : a.eventOwner a.created = none)
    (hraised : ∀ t event, a.roles t = .setting event .loop → (a.events event).State = true) :
    Held a'.eventOwner a'.heldEvent := by
  cases h with
  | quiet => exact hI
  | @state event b hfree hb =>
    rw [eventOwner_putEvent, heldEvent_putEvent]
    exact hI.keep_owner rfl
  | create manualReset initialState =>
    change Held (a.putEvent a.created _).eventOwner _
    rw [eventOwner_putEvent]
    exact hI.keep_owner hnew
  | @enter t c h hc hevents =>
    change Held a.eventOwner (a.role t (.looking c 0)).heldEvent
    rw [heldEvent_role]
    exact hI.keep_held (heldEvent_eq h :)
  | setLock h hevent hfree =>
    rw [eventOwner_role, eventOwner_putEvent, heldEvent_role, heldEvent_putEvent]
    exact hI.take hfree (heldEvent_eq h :)
  | setExpired h hfront hw hexpired =>
    rw [eventOwner_role, eventOwner_putEvent, heldEvent_role, heldEvent_putEvent]
    exact hI.keep rfl (heldEvent_eq h :)
  | setFired h hfront hw hwaits =>
    rw [eventOwner_role, eventOwner_putEvent, heldEvent_role, heldEvent_putEvent]
    exact hI.keep rfl (heldEvent_eq h :)
  | setDestroy h =>
    rw [eventOwner_role, heldEvent_role]
    exact hI.keep_held (heldEvent_eq h :)
  | setNext h hmanual =>
    rw [eventOwner_role, heldEvent_role]
    exact hI.keep_held (heldEvent_eq h :)
  | setUnlock h hout =>
    rw [eventOwner_role, eventOwner_putEvent, heldEvent_role, heldEvent_putEvent]
    exact hI.give (heldEvent_eq h :)
  | setThrough h hunset => exact absurd (hunset.symm.trans (hraised _ _ h)) nofun
  | multiLock h hi hfree =>
    rw [eventOwner_role, eventOwner_putEvent, heldEvent_role, heldEvent_putEvent, Role.event, hi]
    exact hI.take hfree (heldEvent_eq h :)
  | multiDrop h hi hk hw hexpired =>
    rw [eventOwner_role, eventOwner_putEvent, heldEvent_role, heldEvent_putEvent]
    exact hI.keep rfl (heldEvent_eq h :)
  | multiExpired h =>
    rw [eventOwner_role, heldEvent_role]
    exact hI.keep_held (heldEvent_eq h :)
  | multiObtained h hi hset hw =>
    rw [eventOwner_role, eventOwner_putEvent, heldEvent_role, heldEvent_putEvent]
    have hheld := (heldEvent_eq h :).trans hi
    split <;> exact hI.give hheld
  | multiRegister h hi hunset hw =>
    rw [eventOwner_role, eventOwner_putEvent, heldEvent_role, heldEvent_putEvent]
    exact hI.give ((heldEvent_eq h :).trans hi)
  | multiReady h =>
    rw [eventOwner_role, heldEvent_role]
    exact hI.keep_held (heldEvent_eq h :)
  | multiSleep h hw =>
    rw [eventOwner_role, heldEvent_role]
    exact hI.keep_held (heldEvent_eq h :)
  | multiWoken h hw hfree =>
    rw [eventOwner_role, heldEvent_role]
    exact hI.keep_held (heldEvent_eq h :)
  | multiFinish h hw =>
    rw [eventOwner_role, heldEvent_role]
    have hheld := heldEvent_eq h
    split <;> exact hI.keep_held hheld
  | multiDestroy h =>
    rw [eventOwner_role, heldEvent_role]
    exact hI.keep_held (heldEvent_eq h :)

theorem waiters_held_next (h : Change a a') (hI : Held a.waiterOwner a.heldWaiter)
    (hnew : a.waiterOwner a.fresh = none)
    (hdeleting : ∀ t wfmo, a.deleting t = some wfmo → a.waiterOwner wfmo = none)
    (hraised : ∀ t event, a.roles t = .setting event .loop → (a.events event).State = true) :
    Held a'.waiterOwner a'.heldWaiter := by
  cases h with
  | quiet => exact hI
  | state => exact hI
  | create => exact hI
  | @enter t c h hc hevents =>
    change Held (a.putWaiter a.fresh _).waiterOwner (a.role t (.looking c 0)).heldWaiter
    rw [waiterOwner_putWaiter, heldWaiter_role, Role.waiter, hc]
    exact hI.take hnew (heldWaiter_eq h :)
  | setLock h hevent hfree =>
    rw [heldWaiter_role]
    exact hI.keep_held (heldWaiter_eq h :)
  | setExpired h hfront hw hexpired =>
    rw [waiterOwner_role, waiterOwner_putEvent, waiterOwner_putWaiter, heldWaiter_role]
    exact hI.keep (waiterOwner_eq hw :) (heldWaiter_eq h :)
  | setFired h hfront hw hwaits =>
    rw [waiterOwner_role, waiterOwner_putEvent, waiterOwner_putWaiter, heldWaiter_role]
    exact hI.keep (waiterOwner_eq hw :) (heldWaiter_eq h :)
  | setDestroy h =>
    rw [waiterOwner_role, waiterOwner_putWaiter, heldWaiter_role]
    exact hI.keep (hdeleting _ _ (deleting_eq h :)) (heldWaiter_eq h :)
  | setNext h hmanual =>
    rw [heldWaiter_role]
    exact hI.keep_held (heldWaiter_eq h :)
  | setUnlock h hout =>
    rw [heldWaiter_role]
    exact hI.keep_held (heldWaiter_eq h :)
  | setThrough h hunset => exact absurd (hunset.symm.trans (hraised _ _ h)) nofun
  | multiLock h hi hfree =>
    rw [heldWaiter_role]
    exact hI.keep_held (heldWaiter_eq h :)
  | multiDrop h hi hk hw hexpired =>
    rw [waiterOwner_role, waiterOwner_putEvent, waiterOwner_putWaiter, heldWaiter_role]
    exact hI.keep (waiterOwner_eq hw :) (heldWaiter_eq h :)
  | multiExpired h =>
    rw [waiterOwner_role, waiterOwner_putWaiter, heldWaiter_role]
    exact hI.keep (hdeleting _ _ (deleting_eq h :)) (heldWaiter_eq h :)
  | multiObtained h hi hset hw =>
    rw [waiterOwner_role, waiterOwner_putEvent, waiterOwner_putWaiter, heldWaiter_role]
    have hheld := heldWaiter_eq h
    split <;> exact hI.keep (waiterOwner_eq hw :) hheld
  | multiRegister h hi hunset hw =>
    rw [waiterOwner_role, waiterOwner_putEvent, waiterOwner_putWaiter, heldWaiter_role]
    exact hI.keep (waiterOwner_eq hw :) (heldWaiter_eq h :)
  | multiReady h =>
    rw [heldWaiter_role]
    exact hI.keep_held (heldWaiter_eq h :)
  | multiSleep h hw =>
    rw [waiterOwner_role, waiterOwner_putWaiter, heldWaiter_role]
    exact hI.give (heldWaiter_eq h :)
  | multiWoken h hw hfree =>
    rw [waiterOwner_role, waiterOwner_putWaiter, heldWaiter_role]
    exact hI.take ((waiterOwner_eq hw :).trans hfree) (heldWaiter_eq h :)
  | multiFinish h hw =>
    rw [waiterOwner_role, waiterOwner_putWaiter, heldWaiter_role]
    have hheld := heldWaiter_eq h
    split <;> exact hI.give hheld
  | multiDestroy h =>
    rw [waiterOwner_role, waiterOwner_putWaiter, heldWaiter_role]
    exact hI.keep (hdeleting _ _ (deleting_eq h :)) (heldWaiter_eq h :)

/-! ## The calls -/

theorem call_same (h : a.call t = r.call) : (a.role t r).call = a.call := by
  rw [call_role, update_same h]

theorem Calls.role (h : Calls a) (hsame : a.call t = r.call) : Calls (a.role t r) := by
  have hcall := call_same hsame
  constructor
  · rw [hcall]
    exact h.valid
  · exact h.fresh
  · rw [hcall]
    exact h.alive
  · rw [hcall]
    exact h.one_call
  · unfold Accounts.Called
    rw [hcall]
    exact h.still

theorem Calls.putEvent (h : Calls a) : Calls (a.putEvent event e) :=
  ⟨h.valid, h.fresh, h.alive, h.one_call, h.still⟩

theorem Calls.putWaiter (h : Calls a) (hw : a.waiters wfmo = some w) (hall : w'.WaitAll = w.WaitAll)
    (hstill : w'.StillWaiting = true → w.StillWaiting = true) :
    Calls (a.putWaiter wfmo (some w')) where
  valid := h.valid
  fresh x hx := by
    rw [waiters_putWaiter]
    split
    case isTrue heq =>
      subst heq
      cases hw.symm.trans (h.fresh x hx)
    case isFalse => exact h.fresh x hx
  alive t c hc := by
    rw [waiters_putWaiter]
    obtain ⟨w0, hw0, hall0⟩ := h.alive t c hc
    split
    case isTrue heq =>
      rw [heq, hw] at hw0
      cases hw0
      exact ⟨w', rfl, hall.trans hall0⟩
    case isFalse => exact ⟨w0, hw0, hall0⟩
  one_call := h.one_call
  still x w0 hx hs := by
    rw [waiters_putWaiter] at hx
    split at hx
    case isTrue heq =>
      cases hx
      rw [heq]
      exact h.still wfmo w hw (hstill hs)
    case isFalse => exact h.still x w0 hx hs

theorem Calls.delete (h : Calls a) (hnot : ¬ a.Called wfmo) : Calls (a.putWaiter wfmo none) where
  valid := h.valid
  fresh x hx := by
    rw [waiters_putWaiter]
    split
    · rfl
    · exact h.fresh x hx
  alive t c hc := by
    rw [waiters_putWaiter, if_neg (fun heq => hnot ⟨t, c, hc, heq⟩)]
    exact h.alive t c hc
  one_call := h.one_call
  still x w0 hx hs := by
    rw [waiters_putWaiter] at hx
    split at hx
    · cases hx
    · exact h.still x w0 hx hs

theorem Calls.not_fresh (h : Calls a) : ¬ a.Called a.fresh := by
  rintro ⟨t, c, hc, hfresh⟩
  obtain ⟨w, hw, -⟩ := h.alive t c hc
  rw [hfresh, h.fresh a.fresh (Nat.le_refl _)] at hw
  cases hw

theorem Calls.enter (h : Calls a) {c : Wait} (hrole : a.roles t = .outside) (hc : c.wfmo = a.fresh)
    (hevents : ∀ e ∈ c.events, e < a.created) :
    Calls (({ a.putWaiter a.fresh (some (.new t c.events.length c.waitAll)) with
      fresh := a.fresh + 1 }).role t (.looking c 0)) := by
  -- the calls are the old ones and the new one
  have hcases : ∀ u c', (a.role t (.looking c 0)).call u = some c' →
      (u = t ∧ c' = c) ∨ (u ≠ t ∧ a.call u = some c' ∧ c'.wfmo ≠ a.fresh) := by
    intro u c' hu
    rw [call_role, Function.update_apply] at hu
    split at hu
    case isTrue heq => exact Or.inl ⟨heq, (Option.some.inj hu).symm⟩
    case isFalse hne =>
      exact Or.inr ⟨hne, hu, fun hfresh => h.not_fresh ⟨u, c', hu, hfresh⟩⟩
  have hkept : ∀ x, a.Called x →
      ∃ u c', (a.role t (.looking c 0)).call u = some c' ∧ c'.wfmo = x := by
    rintro x ⟨u, c', hu, hx⟩
    refine ⟨u, c', ?_, hx⟩
    have hne : u ≠ t := by
      rintro rfl
      cases (call_eq hrole).symm.trans hu
    rw [call_role, Function.update_of_ne hne, hu]
  constructor
  case valid =>
    intro u c' hu
    rcases hcases u c' hu with ⟨-, rfl⟩ | ⟨-, hold, -⟩
    · exact hevents
    · exact h.valid u c' hold
  case fresh =>
    intro x hx
    have hlt : a.fresh < x := hx
    change (a.putWaiter a.fresh _).waiters x = none
    rw [waiters_putWaiter, if_neg (Nat.ne_of_gt hlt)]
    exact h.fresh x (Nat.le_of_lt hlt)
  case alive =>
    intro u c' hu
    change ∃ w, (a.putWaiter a.fresh _).waiters c'.wfmo = some w ∧ _
    rw [waiters_putWaiter]
    rcases hcases u c' hu with ⟨-, rfl⟩ | ⟨-, hold, hne⟩
    · rw [if_pos hc]
      exact ⟨_, rfl, rfl⟩
    · rw [if_neg hne]
      exact h.alive u c' hold
  case one_call =>
    intro u u' c1 c2 h1 h2 heq
    rcases hcases u c1 h1 with ⟨rfl, rfl⟩ | ⟨-, hold1, hne1⟩ <;>
      rcases hcases u' c2 h2 with ⟨rfl, rfl⟩ | ⟨-, hold2, hne2⟩
    · rfl
    · exact absurd (heq.symm.trans hc) hne2
    · exact absurd (heq.trans hc) hne1
    · exact h.one_call u u' c1 c2 hold1 hold2 heq
  case still =>
    intro x w hx hs
    change (a.putWaiter a.fresh _).waiters x = some w at hx
    rw [waiters_putWaiter] at hx
    split at hx
    case isTrue heq =>
      refine ⟨t, c, ?_, hc.trans heq.symm⟩
      change (a.role t (.looking c 0)).call t = some c
      rw [call_role, Function.update_self]
      rfl
    case isFalse => exact hkept x (h.still x w hx hs)

theorem Calls.finish (h : Calls a) {c : Wait} (hc : a.call t = some c)
    (hw : a.waiters c.wfmo = some w) (hout : r.call = none) :
    Calls ((a.putWaiter c.wfmo (some w.finished)).role t r) := by
  have h' : Calls (a.putWaiter c.wfmo (some w.finished)) := h.putWaiter hw rfl nofun
  have hcases : ∀ u c', (a.role t r).call u = some c' → u ≠ t ∧ a.call u = some c' := by
    intro u c' hu
    rw [call_role, hout, Function.update_apply] at hu
    split at hu
    · cases hu
    case isFalse hne => exact ⟨hne, hu⟩
  refine ⟨fun u c' hu => h'.valid u c' (hcases u c' hu).2, h'.fresh,
    fun u c' hu => h'.alive u c' (hcases u c' hu).2,
    fun u u' c1 c2 h1 h2 => h'.one_call u u' c1 c2 (hcases u c1 h1).2 (hcases u' c2 h2).2, ?_⟩
  intro x w0 hx hs
  obtain ⟨u, c', hu, heq⟩ := h'.still x w0 hx hs
  have hne : u ≠ t := by
    rintro rfl
    cases hu.symm.trans hc
    change (a.putWaiter c.wfmo _).waiters x = some w0 at hx
    rw [waiters_putWaiter, if_pos heq.symm] at hx
    cases hx
    cases hs
  refine ⟨u, c', ?_, heq⟩
  change (a.role t r).call u = some c'
  rw [call_role, Function.update_of_ne hne]
  exact hu

theorem calls_next (h : Change a a') (hI : Calls a)
    (hdeleting : ∀ t wfmo, a.deleting t = some wfmo → ¬ a.Called wfmo) : Calls a' := by
  cases h with
  | quiet => exact hI
  | state hfree hb => exact hI.putEvent
  | create manualReset initialState =>
    exact ⟨fun t c hc e he => Nat.lt_succ_of_lt (hI.valid t c hc e he), hI.fresh, hI.alive,
      hI.one_call, hI.still⟩
  | enter h hc hevents => exact hI.enter h hc hevents
  | setLock h hevent hfree => exact hI.putEvent.role (call_eq h :)
  | setExpired h hfront hw hexpired =>
    exact Calls.role (Calls.putEvent (Calls.putWaiter hI hw rfl id)) (call_eq h :)
  | setFired h hfront hw hwaits =>
    exact Calls.role (Calls.putEvent (Calls.putWaiter hI hw rfl (fun _ => hwaits))) (call_eq h :)
  | setDestroy h => exact (hI.delete (hdeleting _ _ (deleting_eq h))).role (call_eq h :)
  | setNext h hmanual => exact hI.role (call_eq h :)
  | setUnlock h hout => exact hI.putEvent.role (call_eq h :)
  | setThrough h hunset => exact hI.role (call_eq h :)
  | multiLock h hi hfree => exact hI.putEvent.role (call_eq h :)
  | multiDrop h hi hk hw hexpired =>
    exact Calls.role (Calls.putEvent (Calls.putWaiter hI hw rfl id)) (call_eq h :)
  | multiExpired h => exact (hI.delete (hdeleting _ _ (deleting_eq h))).role (call_eq h :)
  | multiObtained h hi hset hw =>
    have hcall := call_eq h
    refine Calls.role (Calls.putEvent (Calls.putWaiter hI hw rfl id)) ?_
    split <;> exact hcall
  | multiRegister h hi hunset hw =>
    exact Calls.role (Calls.putEvent (Calls.putWaiter hI hw rfl id)) (call_eq h :)
  | multiReady h => exact hI.role (call_eq h :)
  | multiSleep h hw => exact Calls.role (Calls.putWaiter hI hw rfl id) (call_eq h :)
  | multiWoken h hw hfree => exact Calls.role (Calls.putWaiter hI hw rfl id) (call_eq h :)
  | multiFinish h hw =>
    refine hI.finish (call_eq h :) hw ?_
    split <;> rfl
  | multiDestroy h => exact (hI.delete (hdeleting _ _ (deleting_eq h))).role (call_eq h :)

/-! ## The lists -/

theorem Entries.putWaiter (h : Entries a) {w : Option neosmart_wfmo_t_} :
    Entries (a.putWaiter wfmo w) :=
  ⟨h.unmade, h.placed, h.nodup⟩

/-- A list that only loses entries. -/
theorem Entries.putEvent (h : Entries a)
    (hsub : e.RegisteredWaits.Sublist (a.events event).RegisteredWaits) :
    Entries (a.putEvent event e) := by
  have hlist : ∀ x, ((a.putEvent event e).events x).RegisteredWaits.Sublist
      (a.events x).RegisteredWaits := by
    intro x
    rw [events_putEvent]
    split
    case isTrue heq =>
      rw [heq]
      exact hsub
    case isFalse => exact List.Sublist.refl _
  constructor
  · intro x hx
    have hnil := hlist x
    rw [h.unmade x hx] at hnil
    exact List.sublist_nil.mp hnil
  · exact fun x i t c hi hc heq => h.placed x i t c ((hlist x).subset hi) hc heq
  · exact fun x => (h.nodup x).sublist (hlist x)

/-- A thread that goes on in its call, or leaves it. -/
theorem Entries.role (h : Entries a)
    (hgoes : ∀ c, r.call = some c → a.call t = some c ∧ (a.roles t).looked ≤ r.looked) :
    Entries (a.role t r) := by
  refine ⟨h.unmade, ?_, h.nodup⟩
  intro x i u c hi hc heq
  rw [roles_role]
  rw [call_role, Function.update_apply] at hc
  split at hc
  case isTrue hu =>
    obtain ⟨hold, hle⟩ := hgoes c hc
    rw [if_pos hu]
    exact (h.placed x i t c hi hold heq).imp_right (fun hlt => Nat.lt_of_lt_of_le hlt hle)
  case isFalse hne =>
    rw [if_neg hne]
    exact h.placed x i u c hi hc heq

/-- The steps of one call. -/
theorem Entries.goes (h : Entries a) {r0 : Role} (h0 : a.roles t = r0) (hcall : r.call = r0.call)
    (hle : r0.looked ≤ r.looked) : Entries (a.role t r) := by
  refine h.role (fun c hc => ⟨?_, ?_⟩)
  · rw [call_eq h0, ← hcall, hc]
  · rwa [h0]

theorem Entries.leaves (h : Entries a) (hout : r.call = none) : Entries (a.role t r) :=
  h.role (fun _ hc => nomatch hout.symm.trans hc)

theorem Entries.register (h : Entries a) (hcalls : Calls a) {c : Wait} {i : Nat}
    (hrole : a.roles t = .sweeping c i none) (hi : c.events[i]? = some event) :
    Entries ((a.putEvent event
      ((a.events event).push_back { Waiter := c.wfmo, WaitIndex := i }).unlock).role t
        (.looking c (i + 1))) := by
  have hmade : event < a.created :=
    hcalls.valid t c (call_eq hrole) event (List.mem_of_getElem? hi)
  have hmem : ∀ x j, j ∈ ((a.putEvent event
      ((a.events event).push_back { Waiter := c.wfmo, WaitIndex := i }).unlock).events
        x).RegisteredWaits → j ∈ (a.events x).RegisteredWaits ∨
          (x = event ∧ j = { Waiter := c.wfmo, WaitIndex := i }) := by
    intro x j hj
    rw [events_putEvent] at hj
    split at hj
    case isTrue heq =>
      rw [heq]
      exact (List.mem_append.mp hj).imp_right (fun hj => ⟨rfl, List.mem_singleton.mp hj⟩)
    case isFalse => exact Or.inl hj
  constructor
  case unmade =>
    intro x hx
    rw [events_role, events_putEvent, if_neg (Nat.ne_of_gt (Nat.lt_of_lt_of_le hmade hx))]
    exact h.unmade x hx
  case placed =>
    intro x j u c' hj hc heq
    rw [call_role, Function.update_apply] at hc
    rw [roles_role]
    split at hc
    case isTrue hu =>
      cases hc
      rw [if_pos hu]
      rcases hmem x j hj with hold | ⟨rfl, rfl⟩
      · have hplaced := h.placed x j t c hold (call_eq hrole) heq
        rw [hrole] at hplaced
        exact hplaced.imp_right Nat.lt_succ_of_lt
      · exact ⟨hi, Nat.lt_succ_self i⟩
    case isFalse hne =>
      rw [if_neg hne]
      rcases hmem x j hj with hold | ⟨rfl, rfl⟩
      · exact h.placed x j u c' hold hc heq
      · exact absurd (hcalls.one_call u t c' c hc (call_eq hrole) heq.symm) hne
  case nodup =>
    intro x
    rw [events_role, events_putEvent]
    split
    case isTrue =>
      refine List.nodup_append.mpr ⟨h.nodup event, List.nodup_singleton _, ?_⟩
      rintro j hj j' hj' rfl
      obtain rfl := List.mem_singleton.mp hj'
      have hplaced := h.placed event _ t c hj (call_eq hrole) rfl
      rw [hrole] at hplaced
      exact Nat.lt_irrefl i hplaced.2
    case isFalse => exact h.nodup x

theorem Entries.enter (h : Entries a) {c : Wait} {w : Option neosmart_wfmo_t_} {fresh : Nat}
    (hunlisted : ∀ e, ∀ i ∈ (a.events e).RegisteredWaits, i.Waiter ≠ c.wfmo) :
    Entries (({ a.putWaiter a.fresh w with fresh := fresh }).role t (.looking c 0)) := by
  refine ⟨h.unmade, ?_, h.nodup⟩
  intro x i u c' hi hc heq
  change (a.role t (.looking c 0)).call u = some c' at hc
  rw [call_role, Function.update_apply] at hc
  split at hc
  case isTrue hu =>
    cases hc
    exact absurd heq (hunlisted x i hi)
  case isFalse hne =>
    rw [roles_role, if_neg hne]
    exact h.placed x i u c' hi hc heq

theorem entries_next (h : Change a a') (hI : Entries a) (hcalls : Calls a)
    (hunlisted : ∀ e, ∀ i ∈ (a.events e).RegisteredWaits, i.Waiter ≠ a.fresh) : Entries a' := by
  have hsame : ∀ e, (a.events e).RegisteredWaits.Sublist (a.events e).RegisteredWaits :=
    fun e => List.Sublist.refl _
  have herase : ∀ e k, ((a.events e).RegisteredWaits.eraseIdx k).Sublist
      (a.events e).RegisteredWaits := fun e k => List.eraseIdx_sublist _ k
  cases h with
  | quiet => exact hI
  | state hfree hb => exact hI.putEvent (hsame _)
  | create manualReset initialState =>
    have hput : Entries (a.putEvent a.created (.new manualReset initialState)) :=
      hI.putEvent (List.nil_sublist _)
    exact ⟨fun x hx => hput.unmade x (Nat.le_of_succ_le hx), hput.placed, hput.nodup⟩
  | enter h hc hevents => exact hI.enter (by rwa [hc])
  | setLock h hevent hfree => exact Entries.leaves (Entries.putEvent hI (hsame _)) rfl
  | setExpired h hfront hw hexpired =>
    exact Entries.leaves (Entries.putEvent hI.putWaiter (herase _ 0)) rfl
  | setFired h hfront hw hwaits =>
    exact Entries.leaves (Entries.putEvent hI.putWaiter (herase _ 0)) rfl
  | setDestroy h => exact Entries.leaves hI.putWaiter rfl
  | setNext h hmanual => exact Entries.leaves hI rfl
  | setUnlock h hout => exact Entries.leaves (Entries.putEvent hI (hsame _)) rfl
  | setThrough h hunset => exact Entries.leaves hI rfl
  | multiLock h hi hfree =>
    exact Entries.goes (Entries.putEvent hI (hsame _)) h rfl (Nat.le_refl _)
  | multiDrop h hi hk hw hexpired =>
    exact Entries.goes (Entries.putEvent hI.putWaiter (herase _ _)) h rfl (Nat.le_refl _)
  | multiExpired h => exact Entries.goes hI.putWaiter h rfl (Nat.le_refl _)
  | @multiObtained t c i event w h hi hset hw =>
    have hlt : i < c.events.length := (List.getElem?_eq_some_iff.mp hi).1
    refine Entries.goes (Entries.putEvent hI.putWaiter (hsame _)) h ?_ ?_
    · split <;> rfl
    · split
      · exact Nat.le_succ i
      · exact Nat.le_of_lt hlt
  | @multiRegister t c i event w h hi hunset hw =>
    have hput : Calls (a.putWaiter c.wfmo (some w.registered)) := hcalls.putWaiter hw rfl id
    exact Entries.register hI.putWaiter hput h hi
  | multiReady h => exact Entries.goes hI h rfl (Nat.le_refl _)
  | multiSleep h hw => exact Entries.goes hI.putWaiter h rfl (Nat.le_refl _)
  | multiWoken h hw hfree => exact Entries.goes hI.putWaiter h rfl (Nat.le_refl _)
  | multiFinish h hw =>
    refine Entries.leaves hI.putWaiter ?_
    split <;> rfl
  | multiDestroy h => exact Entries.leaves hI.putWaiter rfl

/-! ## The states -/

theorem not_setting_of_free (hI : Held a.eventOwner a.heldEvent)
    (hfree : (a.events event).Mutex = none) (u : Tid) (point : SetPoint) :
    a.roles u ≠ .setting event point :=
  fun hu => hI.free hfree u (heldEvent_eq hu)

theorem not_setting_of_held (hI : Held a.eventOwner a.heldEvent)
    (hheld : a.heldEvent t = some event) (u : Tid) (point : SetPoint) (hu : u ≠ t) :
    a.roles u ≠ .setting event point :=
  fun hset => hu (hI.unique (heldEvent_eq hset) hheld)

/-- An event that is set and that no thread sets has no waiter. -/
theorem States.empty (h : States a) (hset : (a.events event).State = true)
    (hnone : ∀ u point, a.roles u ≠ .setting event point) :
    (a.events event).RegisteredWaits = [] := by
  rcases h.settled event hset with hnil | ⟨u, point, hu⟩
  · exact hnil
  · exact absurd hu (hnone u point)

/-- A step of a thread that is not in the loop of `SetEvent`, and does not
enter it. -/
theorem States.role (h : States a) (h0 : ∀ x point, a.roles t ≠ .setting x point)
    (hr : ∀ x point, r ≠ .setting x point) : States (a.role t r) := by
  have hold : ∀ u x point, (a.role t r).roles u = .setting x point →
      a.roles u = .setting x point := by
    intro u x point hu
    rw [roles_role] at hu
    split at hu
    · exact absurd hu (hr x point)
    · exact hu
  refine ⟨fun u x point hu => h.made u x point (hold u x point hu),
    fun u x point hu => h.raised u x point (hold u x point hu), ?_⟩
  intro x hx
  refine (h.settled x hx).imp_right ?_
  rintro ⟨u, point, hu⟩
  refine ⟨u, point, ?_⟩
  have hne : u ≠ t := by
    rintro rfl
    exact h0 x point hu
  rw [roles_role, if_neg hne, hu]

theorem States.putWaiter (h : States a) {w : Option neosmart_wfmo_t_} :
    States (a.putWaiter wfmo w) :=
  ⟨h.made, h.raised, h.settled⟩

/-- An event that no thread sets. -/
theorem States.putEvent (h : States a) (hnone : ∀ u point, a.roles u ≠ .setting event point)
    (hempty : e.State = true → e.RegisteredWaits = []) : States (a.putEvent event e) := by
  refine ⟨h.made, ?_, ?_⟩
  · intro u x point hu
    have hne : x ≠ event := by
      rintro rfl
      exact hnone u point hu
    rw [events_putEvent, if_neg hne]
    exact h.raised u x point hu
  · intro x hx
    rw [events_putEvent] at hx ⊢
    split at hx
    case isTrue heq =>
      rw [if_pos heq]
      exact Or.inl (hempty hx)
    case isFalse hne =>
      rw [if_neg hne]
      exact h.settled x hx

/-- A step of the thread that sets an event. -/
theorem States.next (h : States a) (hnone : ∀ u point, u ≠ t → a.roles u ≠ .setting event point)
    (h0 : ∀ x point, a.roles t = .setting x point → x = event)
    (hr : ∀ x point, r = .setting x point → x = event ∧ event < a.created ∧
      e.State = point.state e)
    (hempty : e.State = true → e.RegisteredWaits = [] ∨ ∃ point, r = .setting event point) :
    States ((a.putEvent event e).role t r) := by
  have hcases : ∀ u x point, ((a.putEvent event e).role t r).roles u = .setting x point →
      (x = event ∧ event < a.created ∧ e.State = point.state e) ∨
        (x ≠ event ∧ a.roles u = .setting x point) := by
    intro u x point hu
    rw [roles_role] at hu
    split at hu
    case isTrue => exact Or.inl (hr x point hu)
    case isFalse hne =>
      refine Or.inr ⟨?_, hu⟩
      rintro rfl
      exact hnone u point hne hu
  constructor
  case made =>
    intro u x point hu
    rcases hcases u x point hu with ⟨rfl, hmade, -⟩ | ⟨-, hold⟩
    · exact hmade
    · exact h.made u x point hold
  case raised =>
    intro u x point hu
    rw [events_role, events_putEvent]
    rcases hcases u x point hu with ⟨rfl, -, hstate⟩ | ⟨hne, hold⟩
    · rw [if_pos rfl]
      exact hstate
    · rw [if_neg hne]
      exact h.raised u x point hold
  case settled =>
    intro x hx
    rw [events_role, events_putEvent] at hx ⊢
    by_cases heq : x = event
    · rw [if_pos heq] at hx ⊢
      refine (hempty hx).imp_right ?_
      rintro ⟨point, hpoint⟩
      refine ⟨t, point, ?_⟩
      rw [roles_role, if_pos rfl, hpoint, heq]
    · rw [if_neg heq] at hx ⊢
      refine (h.settled x hx).imp_right ?_
      rintro ⟨u, point, hu⟩
      refine ⟨u, point, ?_⟩
      have hne : u ≠ t := by
        rintro rfl
        exact heq (h0 x point hu)
      rw [roles_role, if_neg hne]
      exact hu

/-- A step of a thread that keeps the mutex of the event. -/
theorem States.goes (h : States a) (hI : Held a.eventOwner a.heldEvent) {point point' : SetPoint}
    (h0 : a.roles t = .setting event point) (hstate : e.State = point'.state e) :
    States ((a.putEvent event e).role t (.setting event point')) := by
  refine h.next ?_ ?_ ?_ (fun _ => Or.inr ⟨point', rfl⟩)
  · exact fun u p hu => not_setting_of_held hI (heldEvent_eq h0) u p hu
  · intro x p hp
    cases h0.symm.trans hp
    rfl
  · intro x p hp
    cases hp
    exact ⟨rfl, h.made t event point h0, hstate⟩

theorem putEvent_self (a : Accounts) (event : neosmart_event_t) :
    a.putEvent event (a.events event) = a := by
  unfold Accounts.putEvent
  rw [Function.update_eq_self]

theorem States.stays (h : States a) (hI : Held a.eventOwner a.heldEvent) {point point' : SetPoint}
    (h0 : a.roles t = .setting event point)
    (hstate : (a.events event).State = point'.state (a.events event)) :
    States (a.role t (.setting event point')) := by
  have hgoes := h.goes hI h0 hstate
  rwa [putEvent_self] at hgoes

/-- A step of `WaitForMultipleEvents` on an event that it locks or has locked. -/
theorem States.waits (h : States a) (hnone : ∀ u point, a.roles u ≠ .setting event point)
    (h0 : ∀ x point, a.roles t ≠ .setting x point) (hr : ∀ x point, r ≠ .setting x point)
    (hempty : e.State = true → e.RegisteredWaits = []) :
    States ((a.putEvent event e).role t r) :=
  (h.putEvent hnone hempty).role h0 hr

theorem states_next (h : Change a a') (hI : States a) (hheld : Held a.eventOwner a.heldEvent)
    (hunmade : ∀ e, a.created ≤ e → ∀ t point, a.roles t ≠ .setting e point) : States a' := by
  have hnot : ∀ {t r}, a.roles t = r → (∀ x point, r ≠ .setting x point) →
      ∀ x point, a.roles t ≠ .setting x point := fun h hr x point => h ▸ hr x point
  -- the event that a wait looks at is set by nobody
  have hfree : ∀ {t c i w event}, a.roles t = .sweeping c i w → c.events[i]? = some event →
      ∀ u point, a.roles u ≠ .setting event point := by
    intro t c i w event hrole hi u point hu
    have hheld' := (heldEvent_eq hrole).trans hi
    rw [hheld.unique (heldEvent_eq hu) hheld', hrole] at hu
    cases hu
  cases h with
  | quiet => exact hI
  | state hfree' hb =>
    have hnone := not_setting_of_free hheld hfree'
    exact hI.putEvent hnone (fun hs => hI.empty (hb hs) hnone)
  | create manualReset initialState =>
    have hput : States (a.putEvent a.created (.new manualReset initialState)) :=
      hI.putEvent (hunmade _ (Nat.le_refl _)) (fun _ => rfl)
    exact ⟨fun u x point hu => Nat.lt_succ_of_lt (hput.made u x point hu), hput.raised,
      hput.settled⟩
  | enter h hc hevents =>
    exact States.role ⟨hI.made, hI.raised, hI.settled⟩ (hnot h nofun) nofun
  | setLock h hevent hfree' =>
    have hnone := not_setting_of_free hheld hfree'
    refine hI.next (fun u point _ => hnone u point) (fun x point hp => nomatch h.symm.trans hp) ?_
      (fun _ => Or.inr ⟨_, rfl⟩)
    intro x point hp
    cases hp
    exact ⟨rfl, hevent, rfl⟩
  | @setExpired t event i rest w h hfront hw hexpired =>
    refine States.goes hI.putWaiter hheld h ?_
    have hset := hI.raised _ _ _ h
    unfold SetPoint.afterDrop
    split <;> exact hset
  | @setFired t event i rest w h hfront hw hwaits =>
    refine States.goes hI.putWaiter hheld h ?_
    have hset := hI.raised _ _ _ h
    change ((a.events event).State && !(a.events event).AutoReset) = _
    rw [hset]
    rfl
  | setDestroy h =>
    have hset := hI.raised _ _ _ h
    exact States.stays hI.putWaiter hheld h hset
  | setNext h hmanual =>
    refine hI.stays hheld h ?_
    rw [hI.raised _ _ _ h]
    simp only [SetPoint.state, hmanual, Bool.not_false]
  | @setUnlock t event point h hout =>
    refine hI.next (fun u p hu => not_setting_of_held hheld (heldEvent_eq h) u p hu) ?_ nofun ?_
    · intro x p hp
      cases h.symm.trans hp
      rfl
    · intro hs
      rcases hout with ⟨-, hnil⟩ | ⟨wfmo, rfl, hauto⟩
      · exact Or.inl hnil
      · have hlow := hI.raised _ _ _ h
        rw [SetPoint.state, hauto] at hlow
        cases hs.symm.trans hlow
  | setThrough h hunset => exact absurd (hunset.symm.trans (hI.raised _ _ _ h)) nofun
  | multiLock h hi hfree' =>
    have hnone := not_setting_of_free hheld hfree'
    exact hI.waits hnone (hnot h nofun) nofun (fun hs => hI.empty hs hnone)
  | @multiDrop t c i k event wait w h hi hk hw hexpired =>
    refine States.waits hI.putWaiter (hfree h hi) (hnot h nofun) nofun (fun hs => ?_)
    have hnil := hI.empty hs (hfree h hi)
    change (a.events event).RegisteredWaits.eraseIdx k = []
    rw [hnil, List.eraseIdx_nil]
  | multiExpired h => exact States.role hI.putWaiter (hnot h nofun) nofun
  | @multiObtained t c i event w h hi hset hw =>
    refine States.waits hI.putWaiter (hfree h hi) (hnot h nofun) ?_
      (fun _ => hI.empty hset (hfree h hi))
    intro x point
    split <;> nofun
  | multiRegister h hi hunset hw =>
    exact States.waits hI.putWaiter (hfree h hi) (hnot h nofun) nofun
      (fun hs => nomatch hunset.symm.trans hs)
  | multiReady h => exact hI.role (hnot h nofun) nofun
  | multiSleep h hw => exact States.role hI.putWaiter (hnot h nofun) nofun
  | multiWoken h hw hfree' => exact States.role hI.putWaiter (hnot h nofun) nofun
  | multiFinish h hw =>
    refine States.role hI.putWaiter (hnot h nofun) ?_
    intro x point
    split <;> nofun
  | multiDestroy h => exact States.role hI.putWaiter (hnot h nofun) nofun

/-! ## The counts -/

theorem registrations_putEvent (hmade : event < a.created) (x : neosmart_wfmo_t) :
    (a.putEvent event e).registrations x +
        (a.events event).RegisteredWaits.countP (fun i => i.Waiter = x) =
      a.registrations x + e.RegisteredWaits.countP (fun i => i.Waiter = x) := by
  have hnew : (a.putEvent event e).registrations x = ∑ y ∈ Finset.range a.created,
      Function.update (fun y => (a.events y).RegisteredWaits.countP (fun i => i.Waiter = x)) event
        (e.RegisteredWaits.countP (fun i => i.Waiter = x)) y := by
    refine Finset.sum_congr rfl (fun y _ => ?_)
    rw [events_putEvent, Function.update_apply]
    split <;> rfl
  rw [hnew]
  exact sum_update hmade _ _

theorem registrations_mem (hI : Entries a) {i : neosmart_wfmo_info_t_}
    (hi : i ∈ (a.events event).RegisteredWaits) :
    event < a.created ∧ a.registrations i.Waiter ≠ 0 := by
  have hmade : event < a.created := by
    refine Nat.lt_of_not_le (fun hle => ?_)
    rw [hI.unmade event hle] at hi
    cases hi
  refine ⟨hmade, ?_⟩
  have hle : (a.events event).RegisteredWaits.countP (fun j => j.Waiter = i.Waiter) ≤
      a.registrations i.Waiter :=
    Finset.single_le_sum
      (f := fun e => (a.events e).RegisteredWaits.countP (fun j => j.Waiter = i.Waiter))
      (fun _ _ => Nat.zero_le _) (Finset.mem_range.mpr hmade)
  have hpos : 0 < (a.events event).RegisteredWaits.countP (fun j => j.Waiter = i.Waiter) :=
    List.countP_pos_iff.mpr ⟨i, hi, decide_eq_true rfl⟩
  omega

section counts

open Classical

theorem refs_role (h : a.call t = r.call) : (a.role t r).refs = a.refs := by
  unfold Accounts.refs Accounts.Called
  rw [call_same h]
  rfl

/-- The list of an event stays. -/
theorem refs_putEvent (hsame : e.RegisteredWaits = (a.events event).RegisteredWaits) :
    (a.putEvent event e).refs = a.refs := by
  have hlist : ∀ x, ((a.putEvent event e).events x).RegisteredWaits =
      (a.events x).RegisteredWaits := by
    intro x
    rw [events_putEvent]
    split
    case isTrue heq => rw [heq, hsame]
    case isFalse => rfl
  unfold Accounts.refs Accounts.registrations
  simp only [hlist]
  rfl

theorem refs_mem (hI : Entries a) {i : neosmart_wfmo_info_t_}
    (hi : i ∈ (a.events event).RegisteredWaits) : a.refs i.Waiter ≠ 0 := by
  have hreg := (registrations_mem hI hi).2
  unfold Accounts.refs
  omega

theorem refs_called (h : a.Called wfmo) : a.refs wfmo ≠ 0 := by
  unfold Accounts.refs
  rw [if_pos h]
  omega

theorem refs_erase (hI : Entries a) {k : Nat} {i : neosmart_wfmo_info_t_}
    (hk : (a.events event).RegisteredWaits[k]? = some i)
    (he : e.RegisteredWaits = (a.events event).RegisteredWaits.eraseIdx k) :
    (a.putEvent event e).refs = Function.update a.refs i.Waiter (a.refs i.Waiter - 1) := by
  obtain ⟨hlt, hget⟩ := List.getElem?_eq_some_iff.mp hk
  have hmade := (registrations_mem hI (List.mem_of_getElem? hk)).1
  have hperm := List.getElem_cons_eraseIdx_perm hlt
  funext x
  have hcount := registrations_putEvent (e := e) hmade x
  rw [← hperm.countP_eq, hget, List.countP_cons, he] at hcount
  have hrefs : ∀ y, (a.putEvent event e).refs y =
      (a.putEvent event e).registrations y + if a.Called y then 1 else 0 := fun y => rfl
  rw [hrefs, Function.update_apply]
  unfold Accounts.refs
  by_cases hx : x = i.Waiter
  · subst hx
    rw [if_pos rfl]
    rw [if_pos (decide_eq_true rfl)] at hcount
    omega
  · rw [if_neg hx]
    rw [if_neg (by simpa using Ne.symm hx)] at hcount
    omega

theorem refs_push (hmade : event < a.created) {i : neosmart_wfmo_info_t_}
    (he : e.RegisteredWaits = (a.events event).RegisteredWaits ++ [i]) :
    (a.putEvent event e).refs = Function.update a.refs i.Waiter (a.refs i.Waiter + 1) := by
  funext x
  have hcount := registrations_putEvent (e := e) hmade x
  rw [he, List.countP_append, List.countP_singleton] at hcount
  have hrefs : ∀ y, (a.putEvent event e).refs y =
      (a.putEvent event e).registrations y + if a.Called y then 1 else 0 := fun y => rfl
  rw [hrefs, Function.update_apply]
  unfold Accounts.refs
  by_cases hx : x = i.Waiter
  · subst hx
    rw [if_pos rfl]
    rw [if_pos (decide_eq_true rfl)] at hcount
    omega
  · rw [if_neg hx]
    rw [if_neg (by simpa using Ne.symm hx)] at hcount
    omega

/-- A call that begins. -/
theorem refs_enter {c : Wait} (hout : a.call t = none) (hc : r.call = some c)
    (hnone : a.refs c.wfmo = 0) :
    (a.role t r).refs = Function.update a.refs c.wfmo 1 := by
  have hcalled : ∀ x, (a.role t r).Called x ↔ a.Called x ∨ x = c.wfmo := by
    intro x
    unfold Accounts.Called
    rw [call_role]
    constructor
    · rintro ⟨u, c', hu, heq⟩
      rw [Function.update_apply] at hu
      split at hu
      · cases hu.symm.trans hc
        exact Or.inr heq.symm
      · exact Or.inl ⟨u, c', hu, heq⟩
    · rintro (⟨u, c', hu, heq⟩ | rfl)
      · refine ⟨u, c', ?_, heq⟩
        rw [Function.update_of_ne, hu]
        rintro rfl
        cases hout.symm.trans hu
      · exact ⟨t, c, by rw [Function.update_self, hc], rfl⟩
  funext x
  rw [Function.update_apply]
  unfold Accounts.refs at hnone ⊢
  change a.registrations x + _ = _
  by_cases hx : x = c.wfmo
  · subst hx
    rw [if_pos rfl, if_pos ((hcalled _).mpr (Or.inr rfl))]
    omega
  · rw [if_neg hx, if_congr ((hcalled x).trans (or_iff_left hx)) rfl rfl]

/-- A call that ends. -/
theorem refs_finish (hI : Calls a) {c : Wait} (hc : a.call t = some c) (hout : r.call = none) :
    (a.role t r).refs = Function.update a.refs c.wfmo (a.refs c.wfmo - 1) := by
  have hcalled : ∀ x, (a.role t r).Called x ↔ a.Called x ∧ x ≠ c.wfmo := by
    intro x
    unfold Accounts.Called
    rw [call_role, hout]
    constructor
    · rintro ⟨u, c', hu, rfl⟩
      rw [Function.update_apply] at hu
      split at hu
      · cases hu
      case isFalse hne =>
        exact ⟨⟨u, c', hu, rfl⟩, fun heq => hne (hI.one_call u t c' c hu hc heq)⟩
    · rintro ⟨⟨u, c', hu, rfl⟩, hne⟩
      refine ⟨u, c', ?_, rfl⟩
      rw [Function.update_of_ne, hu]
      rintro rfl
      cases hu.symm.trans hc
      exact hne rfl
  funext x
  rw [Function.update_apply]
  unfold Accounts.refs
  change a.registrations x + _ = _
  by_cases hx : x = c.wfmo
  · subst hx
    rw [if_pos rfl, if_neg (fun h => ((hcalled _).mp h).2 rfl), if_pos ⟨t, c, hc, rfl⟩]
    omega
  · rw [if_neg hx, if_congr ((hcalled x).trans (and_iff_left hx)) rfl rfl]

end counts

theorem deleting_same (h : a.deleting t = r.deleting) : (a.role t r).deleting = a.deleting := by
  rw [deleting_role, update_same h]

/-- A thread that goes on in its call. -/
theorem Counts.role (h : Counts a) {r0 : Role} (h0 : a.roles t = r0) (hcall : r.call = r0.call)
    (hdel : r.deleting = r0.deleting) : Counts (a.role t r) := by
  unfold Counts
  rw [refs_role ((call_eq h0).trans hcall.symm), deleting_same ((deleting_eq h0).trans hdel.symm)]
  exact h

theorem Counts.putEvent (h : Counts a)
    (hsame : e.RegisteredWaits = (a.events event).RegisteredWaits) :
    Counts (a.putEvent event e) := by
  unfold Counts
  rw [refs_putEvent hsame]
  exact h

/-- A waiter that is used and not counted. -/
theorem Counts.putWaiter (h : Counts a) (hw : a.waiters wfmo = some w)
    (hsame : w'.RefCount = w.RefCount) : Counts (a.putWaiter wfmo (some w')) := by
  have hcounts : (a.putWaiter wfmo (some w')).counts = a.counts := by
    rw [counts_putWaiter]
    exact update_same ((counts_eq hw).trans (congrArg some hsame.symm))
  unfold Counts
  rw [hcounts]
  exact h

/-- An entry leaves its list. -/
theorem Counts.drop (h : Counts a) (hI : Entries a) {k : Nat} {i : neosmart_wfmo_info_t_}
    {r0 : Role} (hk : (a.events event).RegisteredWaits[k]? = some i)
    (he : e.RegisteredWaits = (a.events event).RegisteredWaits.eraseIdx k)
    (hw : a.waiters i.Waiter = some w) (hcount : w'.RefCount = w.RefCount - 1)
    (h0 : a.roles t = r0) (hcall : r.call = r0.call) (hfrom : r0.deleting = none)
    (hdel : r.deleting = if w.RefCount - 1 = 0 then some i.Waiter else none) :
    Counts (((a.putWaiter i.Waiter (some w')).putEvent event e).role t r) := by
  have hdrop := Counted.drop h (counts_eq hw) (refs_mem hI (List.mem_of_getElem? hk))
    ((deleting_eq h0).trans hfrom)
  have herase : ((a.putWaiter i.Waiter (some w')).putEvent event e).refs =
      Function.update a.refs i.Waiter (a.refs i.Waiter - 1) := refs_erase hI hk he
  unfold Counts
  rw [refs_role, herase, counts_role, counts_putEvent, counts_putWaiter, deleting_role,
    deleting_putEvent, deleting_putWaiter, hdel, Option.map_some, hcount]
  · exact hdrop
  · exact (call_eq h0 :).trans hcall.symm

/-- A thread deletes a waiter. -/
theorem Counts.delete (h : Counts a) {r0 : Role} (h0 : a.roles t = r0)
    (hfrom : r0.deleting = some wfmo) (hcall : r.call = r0.call) (hdel : r.deleting = none) :
    Counts ((a.putWaiter wfmo none).role t r) := by
  have hdelete := Counted.delete h ((deleting_eq h0).trans hfrom)
  unfold Counts
  rw [refs_role, counts_role, counts_putWaiter, deleting_role, deleting_putWaiter, hdel]
  · exact hdelete
  · exact (call_eq h0 :).trans hcall.symm

theorem Counts.enter (h : Counts a) {c : Wait} {fresh : Nat} (h0 : a.roles t = .outside)
    (hc : c.wfmo = a.fresh) (hfresh : a.waiters a.fresh = none) (hw : w.RefCount = 1) :
    Counts (({ a.putWaiter a.fresh (some w) with fresh := fresh }).role t (.looking c 0)) := by
  have hnone : a.counts c.wfmo = none := by
    unfold Accounts.counts
    rw [hc, hfresh]
    rfl
  have hmake := Counted.make h hnone
  have hdel : (a.role t (.looking c 0)).deleting = a.deleting :=
    deleting_same (deleting_eq h0 :)
  have hrefs : (a.role t (.looking c 0)).refs = Function.update a.refs c.wfmo 1 :=
    refs_enter (call_eq h0) rfl (Counted.gone h hnone)
  unfold Counts
  change Counted (a.role t (.looking c 0)).refs (a.putWaiter a.fresh (some w)).counts
    (a.role t (.looking c 0)).deleting
  rw [hrefs, hdel, counts_putWaiter, Option.map_some, hw, ← hc]
  exact hmake

/-- The waiter of a call goes into a list. -/
theorem Counts.register (h : Counts a) {c : Wait} {i : Nat} {r0 : Role}
    (hmade : event < a.created) (h0 : a.roles t = r0) (hc : r0.call = some c)
    (hcall : r.call = some c) (hdel : r.deleting = r0.deleting)
    (he : e.RegisteredWaits =
      (a.events event).RegisteredWaits ++ [{ Waiter := c.wfmo, WaitIndex := i }])
    (hw : a.waiters c.wfmo = some w) :
    Counts (((a.putWaiter c.wfmo (some w.registered)).putEvent event e).role t r) := by
  have hshare := Counted.share h (counts_eq hw) (refs_called ⟨t, c, (call_eq h0).trans hc, rfl⟩)
  have hpush : ((a.putWaiter c.wfmo (some w.registered)).putEvent event e).refs =
      Function.update a.refs c.wfmo (a.refs c.wfmo + 1) := refs_push hmade he
  unfold Counts
  rw [refs_role, hpush, counts_role, counts_putEvent, counts_putWaiter, deleting_same]
  · exact hshare
  · exact (deleting_eq h0 :).trans hdel.symm
  · exact ((call_eq h0 :).trans hc).trans hcall.symm

theorem Counts.finish (h : Counts a) (hI : Calls a) {c : Wait} {r0 : Role} (h0 : a.roles t = r0)
    (hc : r0.call = some c) (hfrom : r0.deleting = none) (hw : a.waiters c.wfmo = some w)
    (hout : r.call = none)
    (hdel : r.deleting = if w.RefCount - 1 = 0 then some c.wfmo else none) :
    Counts ((a.putWaiter c.wfmo (some w.finished)).role t r) := by
  have hcall := (call_eq h0).trans hc
  have hdrop := Counted.drop h (counts_eq hw) (refs_called ⟨t, c, hcall, rfl⟩)
    ((deleting_eq h0).trans hfrom)
  have hrefs : ((a.putWaiter c.wfmo (some w.finished)).role t r).refs =
      Function.update a.refs c.wfmo (a.refs c.wfmo - 1) := refs_finish hI hcall hout
  unfold Counts
  rw [hrefs, counts_role, counts_putWaiter, deleting_role, deleting_putWaiter, hdel]
  exact hdrop

theorem counts_next (h : Change a a') (hI : Counts a) (hcalls : Calls a) (hentries : Entries a) :
    Counts a' := by
  cases h with
  | quiet => exact hI
  | state hfree hb => exact hI.putEvent rfl
  | create manualReset initialState =>
    have hput : Counts (a.putEvent a.created (.new manualReset initialState)) :=
      hI.putEvent (hentries.unmade _ (Nat.le_refl _)).symm
    have hrefs : ({ a.putEvent a.created (.new manualReset initialState) with
        created := a.created + 1 } : Accounts).refs =
          (a.putEvent a.created (.new manualReset initialState)).refs := by
      funext x
      refine congrArg (· + _) ?_
      unfold Accounts.registrations
      rw [Finset.sum_range_succ, events_putEvent, if_pos rfl]
      rfl
    unfold Counts
    rw [hrefs]
    exact hput
  | enter h hc hevents => exact hI.enter h hc (hcalls.fresh _ (Nat.le_refl _)) rfl
  | setLock h hevent hfree => exact Counts.role (hI.putEvent rfl) h rfl rfl
  | @setExpired t event i rest w h hfront hw hexpired =>
    refine hI.drop hentries ?_ rfl hw rfl h rfl rfl ?_
    · rw [hfront]
      rfl
    · unfold SetPoint.afterDrop
      change _ = if w.dropped.RefCount = 0 then _ else _
      split <;> rfl
  | @setFired t event i rest w h hfront hw hwaits =>
    have hfirst : (a.events event).RegisteredWaits[0]? = some i := by
      rw [hfront]
      rfl
    refine hI.drop hentries hfirst rfl hw rfl h rfl rfl ?_
    -- the call has a reference, too
    have hcount := Counted.count_eq hI (counts_eq hw)
    have hreg := (registrations_mem hentries (List.mem_of_getElem? hfirst)).2
    have hcalled := hcalls.still i.Waiter w hw hwaits
    unfold Accounts.refs at hcount
    rw [if_pos hcalled] at hcount
    rw [if_neg (by omega)]
    rfl
  | setDestroy h => exact hI.delete h rfl rfl rfl
  | setNext h hmanual => exact hI.role h rfl rfl
  | @setUnlock t event point h hout =>
    refine Counts.role (hI.putEvent rfl) h rfl ?_
    rcases hout with ⟨rfl, -⟩ | ⟨wfmo, rfl, -⟩ <;> rfl
  | setThrough h hunset => exact hI.role h rfl rfl
  | multiLock h hi hfree => exact Counts.role (hI.putEvent rfl) h rfl rfl
  | multiDrop h hi hk hw hexpired => exact hI.drop hentries hk rfl hw rfl h rfl rfl rfl
  | multiExpired h => exact hI.delete h rfl rfl rfl
  | multiObtained h hi hset hw =>
    refine Counts.role (Counts.putEvent (Counts.putWaiter hI hw rfl) rfl) h ?_ ?_ <;> split <;> rfl
  | multiRegister h hi hunset hw =>
    have hmade := hcalls.valid _ _ (call_eq h) _ (List.mem_of_getElem? hi)
    exact hI.register hmade h rfl rfl rfl rfl hw
  | multiReady h => exact hI.role h rfl rfl
  | multiSleep h hw => exact Counts.role (Counts.putWaiter hI hw rfl) h rfl rfl
  | multiWoken h hw hfree => exact Counts.role (Counts.putWaiter hI hw rfl) h rfl rfl
  | @multiFinish t c w h hw =>
    refine hI.finish hcalls h rfl rfl hw ?_ ?_
    · split <;> rfl
    · change _ = if w.finished.RefCount = 0 then _ else _
      split <;> rfl
  | multiDestroy h => exact hI.delete h rfl rfl rfl

/-! ## All of it -/

/-- A thread holds the mutex of a waiter in the call of the waiter only. -/
theorem Role.waiter_call {r : Role} (h : r.waiter = some wfmo) :
    ∃ c, r.call = some c ∧ c.wfmo = wfmo := by
  cases r <;> simp_all

theorem Sound.made (h : Sound a) (hheld : a.heldEvent t = some event) : event < a.created := by
  unfold Accounts.heldEvent at hheld
  cases hr : a.roles t with
  | setting x point =>
    rw [hr] at hheld
    cases hheld
    exact h.states.made t event point hr
  | sweeping c i w =>
    rw [hr] at hheld
    exact h.calls.valid t c (call_eq hr) event (List.mem_of_getElem? hheld)
  | _ =>
    rw [hr] at hheld
    cases hheld

/-- The mutex of a waiter is held in its call. -/
theorem Sound.held_called (h : Sound a) (hheld : a.waiterOwner wfmo = some t) : a.Called wfmo := by
  obtain ⟨c, hc, heq⟩ := Role.waiter_call ((h.waiters_held wfmo t).mp hheld)
  exact ⟨t, c, hc, heq⟩

/-- A waiter that a thread is about to delete is in no call, in no list, and
its mutex is free. -/
theorem Sound.not_called (h : Sound a) (hdel : a.deleting t = some wfmo) : ¬ a.Called wfmo :=
  fun hcalled => refs_called hcalled (Counted.unreferenced h.counts hdel)

theorem Sound.free (h : Sound a) (hdel : a.deleting t = some wfmo) :
    a.waiterOwner wfmo = none := by
  cases ho : a.waiterOwner wfmo with
  | none => rfl
  | some u => exact absurd (h.held_called ho) (h.not_called hdel)

/-- What is in a list is not deleted. -/
theorem Sound.listed (h : Sound a) {i : neosmart_wfmo_info_t_}
    (hi : i ∈ (a.events event).RegisteredWaits) : ∃ w, a.waiters i.Waiter = some w := by
  obtain ⟨n, hn⟩ := Counted.alive h.counts (refs_mem h.entries hi)
  obtain ⟨w, hw, -⟩ := Option.map_eq_some_iff.mp hn
  exact ⟨w, hw⟩

theorem Sound.next (h : Sound a) (hchange : Change a a') : Sound a' := by
  have hcreated : a.eventOwner a.created = none := by
    cases ho : a.eventOwner a.created with
    | none => rfl
    | some u => exact absurd (h.made ((h.events_held _ u).mp ho)) (Nat.lt_irrefl _)
  have hfresh : a.waiterOwner a.fresh = none := by
    unfold Accounts.waiterOwner
    rw [h.calls.fresh _ (Nat.le_refl _)]
    rfl
  have hraised : ∀ t event, a.roles t = .setting event .loop → (a.events event).State = true :=
    fun t event ht => h.states.raised t event .loop ht
  refine ⟨events_held_next hchange h.events_held hcreated hraised,
    waiters_held_next hchange h.waiters_held hfresh (fun t wfmo => h.free) hraised,
    calls_next hchange h.calls (fun t wfmo => h.not_called),
    entries_next hchange h.entries h.calls ?_, states_next hchange h.states h.events_held ?_,
    counts_next hchange h.counts h.calls h.entries⟩
  · intro e i hi heq
    obtain ⟨w, hw⟩ := h.listed hi
    rw [heq, h.calls.fresh _ (Nat.le_refl _)] at hw
    cases hw
  · exact fun e he u point hu => absurd (h.states.made u e point hu) (Nat.not_lt.mpr he)

/-! ## In every run -/

/-- The event that the call of a thread names. -/
def Thread.named : Thread → Option neosmart_event_t
  | .idle => none
  | .ResetEvent event => some event
  | .SetEvent event _ => some event
  | .WaitForEvent event _ _ => some event
  | .WaitForMultipleEvents _ _ => none
  | .returned _ _ => none

theorem named_signal (th : Thread) : (th.signal wfmo).named = th.named := by
  unfold Thread.signal
  split <;> rfl

theorem named_broadcast (th : Thread) : (th.broadcast event).named = th.named := by
  unfold Thread.broadcast
  split <;> rfl

/-- Calls name events that were created. -/
def Process.Named (p : Process) : Prop :=
  ∀ t event, (p.threads t).named = some event → event < p.created

variable {p p' : Process} {act : Action} {th : Thread}

theorem Process.Named.move (h : p.Named)
    (hth : ∀ event, th.named = some event → event < p.created) : (p.move t th).Named := by
  intro u event hu
  change (Function.update p.threads t th u).named = some event at hu
  rw [Function.update_apply] at hu
  split at hu
  · exact hth event hu
  · exact h u event hu

theorem Process.Named.goes (h : p.Named) {th0 : Thread} (h0 : p.threads t = th0)
    (hsame : th.named = none ∨ th.named = th0.named) : (p.move t th).Named := by
  refine h.move (fun event hth => ?_)
  rcases hsame with hnone | hsame
  · cases hnone.symm.trans hth
  · exact h t event (by rw [h0, ← hsame, hth])

theorem named_next (h : Step p act p') (hI : p.Named) : p'.Named := by
  cases h with
  | CreateEvent => exact fun u event hu => Nat.lt_succ_of_lt (hI u event hu)
  | @call t c h hevents =>
    cases c with
    | WaitForMultipleEvents => exact Process.Named.move hI nofun
    | _ =>
      refine Process.Named.move hI (fun x hx => hevents x ?_)
      cases hx
      exact List.mem_cons_self
  | setLock h => exact Process.Named.goes hI h (Or.inr rfl)
  | setExpired h => exact Process.Named.goes hI h (Or.inr rfl)
  | setFired h => exact Process.Named.goes hI h (Or.inr rfl)
  | setDestroy h => exact Process.Named.goes hI h (Or.inr rfl)
  | @setSignalOne t event wfmo h =>
    have hsignal : (p.signal wfmo).Named :=
      fun u x hu => hI u x ((named_signal (p.threads u)).symm.trans hu)
    exact Process.Named.move hsignal nofun
  | @setSignalEach t event wfmo h =>
    have hsignal : (p.signal wfmo).Named :=
      fun u x hu => hI u x ((named_signal (p.threads u)).symm.trans hu)
    refine hsignal.move (fun x hx => hI t x ?_)
    rw [h]
    exact hx
  | setEmpty h => exact Process.Named.goes hI h (Or.inr rfl)
  | @setWakeOne t t' event milliseconds h hauto hasleep =>
    have hwoken : (p.move t' (.WaitForEvent event milliseconds (.woken 0))).Named :=
      Process.Named.goes hI hasleep (Or.inr rfl)
    exact hwoken.move nofun
  | @setWakeAll t event h =>
    have hwoken : (p.broadcast event).Named :=
      fun u x hu => hI u x ((named_broadcast (p.threads u)).symm.trans hu)
    exact hwoken.move nofun
  | waitSleep h => exact Process.Named.goes hI h (Or.inr rfl)
  | spuriousOne h => exact Process.Named.goes hI h (Or.inr rfl)
  | timedOutOne h => exact Process.Named.goes hI h (Or.inr rfl)
  | multiFinish h hw =>
    refine Process.Named.move hI ?_
    unfold Thread.afterFinish
    split <;> nofun
  | _ => exact Process.Named.move hI nofun

structure Process.Sound (p : Process) : Prop where
  accounts : pevents.Sound p.accounts
  named : p.Named

theorem sound_init : Process.init.Sound where
  named := nofun
  accounts := by
    have hroles : ∀ u, Process.init.accounts.roles u = .outside := fun _ => rfl
    refine ⟨fun l u => ⟨nofun, nofun⟩, fun l u => ⟨nofun, nofun⟩,
      ⟨nofun, fun _ _ => rfl, nofun, nofun, nofun⟩,
      ⟨fun _ _ => rfl, nofun, fun _ => List.nodup_nil⟩,
      ⟨nofun, nofun, nofun⟩, ⟨?_, nofun, nofun, nofun⟩⟩
    intro wfmo
    have hcalled : ¬ Process.init.accounts.Called wfmo := fun ⟨_, _, hc, _⟩ => nomatch hc
    unfold Accounts.refs
    rw [if_neg hcalled]
    rfl

theorem sound_next (hI : p.Sound) (h : Step p act p') : p'.Sound where
  named := named_next h hI.named
  accounts := hI.accounts.next (h.change (fun t event ht => hI.named t event (by rw [ht]; rfl)))

/-- Whatever the threads do, in whatever order. -/
theorem sound_reaches {acts : List Action} (h : Reaches Step Process.init acts p) : p.Sound :=
  h.invariant (fun _ p => p.Sound) sound_init (fun _ _ _ _ hI hs => sound_next hI hs)

end payloader.pevents
