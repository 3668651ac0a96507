-- What the steps of Pevents do to the mutexes, to the lists and to the counts.
-- A thread that holds no mutex and owns no waiter is outside, wherever it
-- stands, so many steps do nothing here.
import Payloader.Pevents

set_option autoImplicit false

namespace payloader.pevents

/-! ## Roles -/

/-- What a thread holds and owns: it is in the loop of `SetEvent`, or it is in
`WaitForMultipleEvents` and looks at event `i`, sweeps its list (and deletes a
waiter there), waits, ends, or deletes its own waiter. -/
inductive Role where
  | outside
  | setting (event : neosmart_event_t) (point : SetPoint)
  | looking (c : Wait) (i : Nat)
  | sweeping (c : Wait) (i : Nat) (Waiter : Option neosmart_wfmo_t)
  | waiting (c : Wait)
  | finishing (c : Wait)
  | destroying (Waiter : neosmart_wfmo_t)

namespace Role

/-- The event whose mutex the thread holds. -/
@[simp] def event : Role → Option neosmart_event_t
  | outside => none
  | setting event _ => some event
  | looking _ _ => none
  | sweeping c i _ => c.events[i]?
  | waiting _ => none
  | finishing _ => none
  | destroying _ => none

/-- The call whose waiter is counted for the thread. -/
@[simp] def call : Role → Option Wait
  | outside => none
  | setting _ _ => none
  | looking c _ => some c
  | sweeping c _ _ => some c
  | waiting c => some c
  | finishing c => some c
  | destroying _ => none

/-- How many events of the call were looked at. -/
@[simp] def looked : Role → Nat
  | outside => 0
  | setting _ _ => 0
  | looking _ i => i
  | sweeping _ i _ => i
  | waiting c => c.events.length
  | finishing c => c.events.length
  | destroying _ => 0

/-- The waiter whose mutex the thread holds. -/
@[simp] def waiter : Role → Option neosmart_wfmo_t
  | outside => none
  | setting _ _ => none
  | looking c _ => some c.wfmo
  | sweeping c _ _ => some c.wfmo
  | waiting _ => none
  | finishing c => some c.wfmo
  | destroying _ => none

/-- The waiter that the thread is about to delete. -/
@[simp] def deleting : Role → Option neosmart_wfmo_t
  | outside => none
  | setting _ (.destroy wfmo) => some wfmo
  | setting _ .lock => none
  | setting _ .loop => none
  | setting _ (.signal _) => none
  | setting _ .wake => none
  | looking _ _ => none
  | sweeping _ _ wfmo => wfmo
  | waiting _ => none
  | finishing _ => none
  | destroying wfmo => some wfmo

end Role

def SetPoint.role (event : neosmart_event_t) : SetPoint → Role
  | .lock => .outside
  | .loop => .setting event .loop
  | .destroy wfmo => .setting event (.destroy wfmo)
  | .signal wfmo => .setting event (.signal wfmo)
  | .wake => .outside

def MultiPoint.role (c : Wait) : MultiPoint → Role
  | .register i => .looking c i
  | .sweep i _ => .sweeping c i none
  | .expired i _ wfmo => .sweeping c i (some wfmo)
  | .asleep => .waiting c
  | .woken _ => .waiting c
  | .finish _ => .finishing c
  | .destroy _ _ => .destroying c.wfmo

def Thread.role : Thread → Role
  | .idle => .outside
  | .ResetEvent _ => .outside
  | .SetEvent event point => point.role event
  | .WaitForEvent _ _ _ => .outside
  | .WaitForMultipleEvents c point => point.role c
  | .returned _ _ => .outside

@[simp] theorem role_signal (wfmo : neosmart_wfmo_t) (th : Thread) :
    (th.signal wfmo).role = th.role := by
  unfold Thread.signal
  split
  · split <;> rfl
  · rfl

@[simp] theorem role_broadcast (event : neosmart_event_t) (th : Thread) :
    (th.broadcast event).role = th.role := by
  unfold Thread.broadcast
  split
  · split <;> rfl
  · rfl

/-! The points behind a section have the role that its result gives. -/

theorem role_setDrop (event : neosmart_event_t) (w : neosmart_wfmo_t_) (Waiter : neosmart_wfmo_t) :
    (Thread.SetEvent event (.afterDrop w Waiter)).role = .setting event (.afterDrop w Waiter) := by
  unfold SetPoint.afterDrop
  split <;> rfl

theorem role_multiDrop (c : Wait) (w : neosmart_wfmo_t_) (i k : Nat) (Waiter : neosmart_wfmo_t) :
    (Thread.WaitForMultipleEvents c (.afterDrop w i k Waiter)).role =
      .sweeping c i (if w.RefCount = 0 then some Waiter else none) := by
  unfold MultiPoint.afterDrop
  split <;> rfl

theorem role_obtained (c : Wait) (i : Nat) :
    (Thread.WaitForMultipleEvents c (.afterObtained c i)).role =
      if c.waitAll then .looking c (i + 1) else .finishing c := by
  unfold MultiPoint.afterObtained
  split <;> rfl

theorem role_finish (c : Wait) (w : neosmart_wfmo_t_) (result : Int) :
    (Thread.afterFinish c w result).role =
      if w.RefCount = 0 then .destroying c.wfmo else .outside := by
  unfold Thread.afterFinish
  split <;> rfl

/-! ## Accounts -/

structure Accounts where
  created : Nat
  events : neosmart_event_t → neosmart_event_t_
  fresh : Nat
  waiters : neosmart_wfmo_t → Option neosmart_wfmo_t_
  roles : Tid → Role

namespace Accounts

def role (a : Accounts) (t : Tid) (r : Role) : Accounts :=
  { a with roles := Function.update a.roles t r }

def putEvent (a : Accounts) (event : neosmart_event_t) (e : neosmart_event_t_) : Accounts :=
  { a with events := Function.update a.events event e }

def putWaiter (a : Accounts) (wfmo : neosmart_wfmo_t) (w : Option neosmart_wfmo_t_) : Accounts :=
  { a with waiters := Function.update a.waiters wfmo w }

end Accounts

def Process.accounts (p : Process) : Accounts where
  created := p.created
  events := p.events
  fresh := p.fresh
  waiters := p.waiters
  roles := fun t => (p.threads t).role

/-! ## Who holds what -/

def Accounts.eventOwner (a : Accounts) (event : neosmart_event_t) : Option Tid :=
  (a.events event).Mutex

def Accounts.waiterOwner (a : Accounts) (wfmo : neosmart_wfmo_t) : Option Tid :=
  (a.waiters wfmo).bind (fun w => w.Mutex)

def Accounts.heldEvent (a : Accounts) (t : Tid) : Option neosmart_event_t := (a.roles t).event

def Accounts.heldWaiter (a : Accounts) (t : Tid) : Option neosmart_wfmo_t := (a.roles t).waiter

/-- The calls of `WaitForMultipleEvents` whose waiters are counted for them. -/
def Accounts.call (a : Accounts) (t : Tid) : Option Wait := (a.roles t).call

/-- What the threads are about to delete. -/
def Accounts.deleting (a : Accounts) (t : Tid) : Option neosmart_wfmo_t := (a.roles t).deleting

/-- What the waiters count. -/
def Accounts.counts (a : Accounts) (wfmo : neosmart_wfmo_t) : Option Int :=
  (a.waiters wfmo).map neosmart_wfmo_t_.RefCount

section views

variable {a : Accounts} {t : Tid} {r : Role} {wfmo : neosmart_wfmo_t} {w : neosmart_wfmo_t_}

theorem heldEvent_eq (h : a.roles t = r) : a.heldEvent t = r.event := congrArg Role.event h

theorem heldWaiter_eq (h : a.roles t = r) : a.heldWaiter t = r.waiter := congrArg Role.waiter h

theorem call_eq (h : a.roles t = r) : a.call t = r.call := congrArg Role.call h

theorem deleting_eq (h : a.roles t = r) : a.deleting t = r.deleting := congrArg Role.deleting h

theorem waiterOwner_eq (hw : a.waiters wfmo = some w) : a.waiterOwner wfmo = w.Mutex := by
  unfold Accounts.waiterOwner
  rw [hw]
  rfl

theorem counts_eq (hw : a.waiters wfmo = some w) : a.counts wfmo = some w.RefCount := by
  unfold Accounts.counts
  rw [hw]
  rfl

end views

section updates

variable (a : Accounts) (t : Tid) (r : Role) (event : neosmart_event_t) (e : neosmart_event_t_)
variable (wfmo : neosmart_wfmo_t) (w : Option neosmart_wfmo_t_)

@[simp] theorem events_role : (a.role t r).events = a.events := rfl
@[simp] theorem waiters_role : (a.role t r).waiters = a.waiters := rfl
@[simp] theorem created_role : (a.role t r).created = a.created := rfl
@[simp] theorem fresh_role : (a.role t r).fresh = a.fresh := rfl
@[simp] theorem roles_putEvent : (a.putEvent event e).roles = a.roles := rfl
@[simp] theorem waiters_putEvent : (a.putEvent event e).waiters = a.waiters := rfl
@[simp] theorem created_putEvent : (a.putEvent event e).created = a.created := rfl
@[simp] theorem fresh_putEvent : (a.putEvent event e).fresh = a.fresh := rfl
@[simp] theorem roles_putWaiter : (a.putWaiter wfmo w).roles = a.roles := rfl
@[simp] theorem events_putWaiter : (a.putWaiter wfmo w).events = a.events := rfl
@[simp] theorem created_putWaiter : (a.putWaiter wfmo w).created = a.created := rfl
@[simp] theorem fresh_putWaiter : (a.putWaiter wfmo w).fresh = a.fresh := rfl

theorem roles_role (u : Tid) : (a.role t r).roles u = if u = t then r else a.roles u :=
  Function.update_apply _ _ _ _

theorem events_putEvent (x : neosmart_event_t) :
    (a.putEvent event e).events x = if x = event then e else a.events x :=
  Function.update_apply _ _ _ _

theorem waiters_putWaiter (x : neosmart_wfmo_t) :
    (a.putWaiter wfmo w).waiters x = if x = wfmo then w else a.waiters x :=
  Function.update_apply _ _ _ _

@[simp] theorem eventOwner_role : (a.role t r).eventOwner = a.eventOwner := rfl

@[simp] theorem eventOwner_putWaiter : (a.putWaiter wfmo w).eventOwner = a.eventOwner := rfl

@[simp] theorem eventOwner_putEvent :
    (a.putEvent event e).eventOwner = Function.update a.eventOwner event e.Mutex :=
  Function.comp_update neosmart_event_t_.Mutex a.events event e

@[simp] theorem waiterOwner_role : (a.role t r).waiterOwner = a.waiterOwner := rfl

@[simp] theorem waiterOwner_putEvent : (a.putEvent event e).waiterOwner = a.waiterOwner := rfl

@[simp] theorem waiterOwner_putWaiter :
    (a.putWaiter wfmo w).waiterOwner =
      Function.update a.waiterOwner wfmo (w.bind (fun w => w.Mutex)) :=
  Function.comp_update (fun w : Option neosmart_wfmo_t_ => w.bind (fun w => w.Mutex)) a.waiters
    wfmo w

@[simp] theorem heldEvent_role :
    (a.role t r).heldEvent = Function.update a.heldEvent t r.event :=
  Function.comp_update Role.event a.roles t r

@[simp] theorem heldEvent_putEvent : (a.putEvent event e).heldEvent = a.heldEvent := rfl

@[simp] theorem heldEvent_putWaiter : (a.putWaiter wfmo w).heldEvent = a.heldEvent := rfl

@[simp] theorem heldWaiter_role :
    (a.role t r).heldWaiter = Function.update a.heldWaiter t r.waiter :=
  Function.comp_update Role.waiter a.roles t r

@[simp] theorem heldWaiter_putEvent : (a.putEvent event e).heldWaiter = a.heldWaiter := rfl

@[simp] theorem heldWaiter_putWaiter : (a.putWaiter wfmo w).heldWaiter = a.heldWaiter := rfl

@[simp] theorem call_role : (a.role t r).call = Function.update a.call t r.call :=
  Function.comp_update Role.call a.roles t r

@[simp] theorem call_putEvent : (a.putEvent event e).call = a.call := rfl

@[simp] theorem call_putWaiter : (a.putWaiter wfmo w).call = a.call := rfl

@[simp] theorem deleting_role :
    (a.role t r).deleting = Function.update a.deleting t r.deleting :=
  Function.comp_update Role.deleting a.roles t r

@[simp] theorem deleting_putEvent : (a.putEvent event e).deleting = a.deleting := rfl

@[simp] theorem deleting_putWaiter : (a.putWaiter wfmo w).deleting = a.deleting := rfl

@[simp] theorem counts_role : (a.role t r).counts = a.counts := rfl

@[simp] theorem counts_putEvent : (a.putEvent event e).counts = a.counts := rfl

@[simp] theorem counts_putWaiter :
    (a.putWaiter wfmo w).counts =
      Function.update a.counts wfmo (w.map neosmart_wfmo_t_.RefCount) :=
  Function.comp_update (Option.map neosmart_wfmo_t_.RefCount) a.waiters wfmo w

end updates

/-! ## What a step changes -/

/-- What one step can do to the accounts. -/
inductive Change : Accounts → Accounts → Prop
  | quiet {a : Accounts} : Change a a
  /-- An event is reset, or obtained by one wait. -/
  | state {a : Accounts} {event : neosmart_event_t} {b : Bool}
      (hfree : (a.events event).Mutex = none) (hb : b = true → (a.events event).State = true) :
      Change a (a.putEvent event { a.events event with State := b })
  | create {a : Accounts} (manualReset initialState : Bool) :
      Change a { a.putEvent a.created (.new manualReset initialState) with
        created := a.created + 1 }
  | enter {a : Accounts} {t : Tid} {c : Wait} (h : a.roles t = .outside) (hc : c.wfmo = a.fresh)
      (hevents : ∀ e ∈ c.events, e < a.created) :
      Change a (({ a.putWaiter a.fresh (some (.new t c.events.length c.waitAll)) with
        fresh := a.fresh + 1 }).role t (.looking c 0))
  | setLock {a : Accounts} {t : Tid} {event : neosmart_event_t} (h : a.roles t = .outside)
      (hevent : event < a.created) (hfree : (a.events event).Mutex = none) :
      Change a ((a.putEvent event { (a.events event).lock t with State := true }).role t
        (.setting event .loop))
  | setExpired {a : Accounts} {t : Tid} {event : neosmart_event_t} {i : neosmart_wfmo_info_t_}
      {rest : List neosmart_wfmo_info_t_} {w : neosmart_wfmo_t_}
      (h : a.roles t = .setting event .loop)
      (hfront : (a.events event).RegisteredWaits = i :: rest)
      (hw : a.waiters i.Waiter = some w) (hexpired : w.StillWaiting = false) :
      Change a (((a.putWaiter i.Waiter (some w.dropped)).putEvent event
        ((a.events event).erase 0)).role t (.setting event (.afterDrop w.dropped i.Waiter)))
  | setFired {a : Accounts} {t : Tid} {event : neosmart_event_t} {i : neosmart_wfmo_info_t_}
      {rest : List neosmart_wfmo_info_t_} {w : neosmart_wfmo_t_}
      (h : a.roles t = .setting event .loop)
      (hfront : (a.events event).RegisteredWaits = i :: rest)
      (hw : a.waiters i.Waiter = some w) (hwaits : w.StillWaiting = true) :
      Change a (((a.putWaiter i.Waiter (some (w.fired i.WaitIndex))).putEvent event
        ((a.events event).obtained.erase 0)).role t (.setting event (.signal i.Waiter)))
  | setDestroy {a : Accounts} {t : Tid} {event : neosmart_event_t} {wfmo : neosmart_wfmo_t}
      (h : a.roles t = .setting event (.destroy wfmo)) :
      Change a ((a.putWaiter wfmo none).role t (.setting event .loop))
  | setNext {a : Accounts} {t : Tid} {event : neosmart_event_t} {wfmo : neosmart_wfmo_t}
      (h : a.roles t = .setting event (.signal wfmo))
      (hmanual : (a.events event).AutoReset = false) :
      Change a (a.role t (.setting event .loop))
  | setUnlock {a : Accounts} {t : Tid} {event : neosmart_event_t} {point : SetPoint}
      (h : a.roles t = .setting event point)
      (hout : (point = .loop ∧ (a.events event).RegisteredWaits = []) ∨
        ∃ wfmo, point = .signal wfmo ∧ (a.events event).AutoReset = true) :
      Change a ((a.putEvent event (a.events event).unlock).role t .outside)
  | setThrough {a : Accounts} {t : Tid} {event : neosmart_event_t}
      (h : a.roles t = .setting event .loop) (hunset : (a.events event).State = false) :
      Change a (a.role t .outside)
  | multiLock {a : Accounts} {t : Tid} {c : Wait} {i : Nat} {event : neosmart_event_t}
      (h : a.roles t = .looking c i) (hi : c.events[i]? = some event)
      (hfree : (a.events event).Mutex = none) :
      Change a ((a.putEvent event ((a.events event).lock t)).role t (.sweeping c i none))
  | multiDrop {a : Accounts} {t : Tid} {c : Wait} {i k : Nat} {event : neosmart_event_t}
      {wait : neosmart_wfmo_info_t_} {w : neosmart_wfmo_t_}
      (h : a.roles t = .sweeping c i none) (hi : c.events[i]? = some event)
      (hk : (a.events event).RegisteredWaits[k]? = some wait)
      (hw : a.waiters wait.Waiter = some w) (hexpired : w.StillWaiting = false) :
      Change a (((a.putWaiter wait.Waiter (some w.dropped)).putEvent event
        ((a.events event).erase k)).role t
          (.sweeping c i (if w.dropped.RefCount = 0 then some wait.Waiter else none)))
  | multiExpired {a : Accounts} {t : Tid} {c : Wait} {i : Nat} {wfmo : neosmart_wfmo_t}
      (h : a.roles t = .sweeping c i (some wfmo)) :
      Change a ((a.putWaiter wfmo none).role t (.sweeping c i none))
  | multiObtained {a : Accounts} {t : Tid} {c : Wait} {i : Nat} {event : neosmart_event_t}
      {w : neosmart_wfmo_t_} (h : a.roles t = .sweeping c i none)
      (hi : c.events[i]? = some event) (hset : (a.events event).State = true)
      (hw : a.waiters c.wfmo = some w) :
      Change a (((a.putWaiter c.wfmo (some (w.counted i))).putEvent event
        (a.events event).obtained.unlock).role t
          (if c.waitAll then .looking c (i + 1) else .finishing c))
  | multiRegister {a : Accounts} {t : Tid} {c : Wait} {i : Nat} {event : neosmart_event_t}
      {w : neosmart_wfmo_t_} (h : a.roles t = .sweeping c i none)
      (hi : c.events[i]? = some event) (hunset : (a.events event).State = false)
      (hw : a.waiters c.wfmo = some w) :
      Change a (((a.putWaiter c.wfmo (some w.registered)).putEvent event
        ((a.events event).push_back { Waiter := c.wfmo, WaitIndex := i }).unlock).role t
          (.looking c (i + 1)))
  | multiReady {a : Accounts} {t : Tid} {c : Wait} (h : a.roles t = .looking c c.events.length) :
      Change a (a.role t (.finishing c))
  | multiSleep {a : Accounts} {t : Tid} {c : Wait} {w : neosmart_wfmo_t_}
      (h : a.roles t = .looking c c.events.length) (hw : a.waiters c.wfmo = some w) :
      Change a ((a.putWaiter c.wfmo (some { w with Mutex := none })).role t (.waiting c))
  | multiWoken {a : Accounts} {t : Tid} {c : Wait} {w : neosmart_wfmo_t_}
      (h : a.roles t = .waiting c) (hw : a.waiters c.wfmo = some w) (hfree : w.Mutex = none) :
      Change a ((a.putWaiter c.wfmo (some { w with Mutex := some t })).role t (.finishing c))
  | multiFinish {a : Accounts} {t : Tid} {c : Wait} {w : neosmart_wfmo_t_}
      (h : a.roles t = .finishing c) (hw : a.waiters c.wfmo = some w) :
      Change a ((a.putWaiter c.wfmo (some w.finished)).role t
        (if w.finished.RefCount = 0 then .destroying c.wfmo else .outside))
  | multiDestroy {a : Accounts} {t : Tid} {wfmo : neosmart_wfmo_t}
      (h : a.roles t = .destroying wfmo) :
      Change a ((a.putWaiter wfmo none).role t .outside)

variable {p p' : Process} {act : Action} {t : Tid} {th : Thread}

@[simp] theorem accounts_move : (p.move t th).accounts = p.accounts.role t th.role := by
  unfold Process.move Process.accounts Accounts.role
  congr 1
  funext u
  simp only [Function.update_apply]
  split <;> rfl

@[simp] theorem accounts_putEvent (event : neosmart_event_t) (e : neosmart_event_t_) :
    (p.putEvent event e).accounts = p.accounts.putEvent event e := rfl

@[simp] theorem accounts_putWaiter (wfmo : neosmart_wfmo_t) (w : neosmart_wfmo_t_) :
    (p.putWaiter wfmo w).accounts = p.accounts.putWaiter wfmo (some w) := rfl

@[simp] theorem accounts_delete (wfmo : neosmart_wfmo_t) :
    (p.delete wfmo).accounts = p.accounts.putWaiter wfmo none := rfl

@[simp] theorem accounts_signal (wfmo : neosmart_wfmo_t) :
    (p.signal wfmo).accounts = p.accounts := by
  unfold Process.signal Process.accounts
  simp only [role_signal]

@[simp] theorem accounts_broadcast (event : neosmart_event_t) :
    (p.broadcast event).accounts = p.accounts := by
  unfold Process.broadcast Process.accounts
  simp only [role_broadcast]

@[simp] theorem accounts_roles : p.accounts.roles t = (p.threads t).role := rfl

/-- A thread keeps its role. -/
theorem role_self {a : Accounts} {r : Role} (h : a.roles t = r) : a.role t r = a := by
  unfold Accounts.role
  rw [← h, Function.update_eq_self]

/-- A step from one point outside to another. -/
theorem quiet_move (h : (p.threads t).role = th.role) :
    Change p.accounts (p.move t th).accounts := by
  rw [accounts_move, role_self h]
  exact .quiet

theorem pop_front_eq (e : neosmart_event_t_) : e.pop_front = e.erase 0 := by
  unfold neosmart_event_t_.pop_front neosmart_event_t_.erase
  rw [List.eraseIdx_zero]

/-- Each step makes one of the changes. -/
theorem Step.change (h : Step p act p')
    (hvalid : ∀ t event, p.threads t = .SetEvent event .lock → event < p.created) :
    Change p.accounts p'.accounts := by
  cases h with
  | CreateEvent => exact .create _ _
  | @call t c h hevents =>
    cases c with
    | WaitForMultipleEvents events waitAll milliseconds =>
      have hrole : p.accounts.roles t = .outside := congrArg Thread.role h
      have henter := Change.enter (c := ⟨p.fresh, events, waitAll, milliseconds⟩) hrole rfl hevents
      rwa [Process.enter, accounts_move]
    | _ => exact quiet_move (by rw [h]; rfl)
  | ret h => exact quiet_move (by rw [h]; rfl)
  | @reset t event h hfree =>
    rw [accounts_move, role_self (congrArg Thread.role h)]
    exact .state hfree nofun
  | setLock h hfree =>
    rw [accounts_move]
    exact .setLock (congrArg Thread.role h) (hvalid _ _ h) hfree
  | setExpired h hfront hw hfree hexpired =>
    rw [accounts_move, pop_front_eq, role_setDrop]
    exact .setExpired (congrArg Thread.role h) hfront hw hexpired
  | setFired h hfront hw hfree hwaits =>
    rw [accounts_move, pop_front_eq]
    exact .setFired (congrArg Thread.role h) hfront hw hwaits
  | setDestroy h =>
    rw [accounts_move]
    exact .setDestroy (congrArg Thread.role h)
  | setSignalOne h halive hauto =>
    rw [accounts_move, accounts_putEvent, accounts_signal]
    exact .setUnlock (congrArg Thread.role h) (Or.inr ⟨_, rfl, hauto⟩)
  | setSignalEach h halive hmanual =>
    rw [accounts_move, accounts_signal]
    exact .setNext (congrArg Thread.role h) hmanual
  | setEmpty h hempty hset =>
    rw [accounts_move]
    exact .setUnlock (congrArg Thread.role h) (Or.inl ⟨rfl, hempty⟩)
  | setThrough h hempty hauto hunset =>
    rw [accounts_move]
    exact .setThrough (congrArg Thread.role h) hunset
  | @setWakeOne t t' event milliseconds h hauto hasleep =>
    have hwoken : (p.move t' (.WaitForEvent event milliseconds (.woken 0))).accounts =
        p.accounts := by
      rw [accounts_move]
      exact role_self (r := .outside) (congrArg Thread.role hasleep)
    rw [accounts_move, hwoken, role_self (congrArg Thread.role h)]
    exact .quiet
  | setWakeNone h => exact quiet_move (by rw [h]; rfl)
  | setWakeAll h =>
    rw [accounts_move, accounts_broadcast, role_self (congrArg Thread.role h)]
    exact .quiet
  | waitBusy h => exact quiet_move (by rw [h]; rfl)
  | @waitObtained t event milliseconds point h hpoint hfree hset =>
    rw [accounts_move, role_self (congrArg Thread.role h)]
    exact .state hfree fun _ => hset
  | waitNoTime h => exact quiet_move (by rw [h]; rfl)
  | waitSleep h => exact quiet_move (by rw [h]; rfl)
  | waitTimedOut h => exact quiet_move (by rw [h]; rfl)
  | multiLock h hi hfree =>
    rw [accounts_move]
    exact .multiLock (congrArg Thread.role h) hi hfree
  | multiKeep h => exact quiet_move (by rw [h]; rfl)
  | multiDrop h hi hk hw hfree hexpired =>
    rw [accounts_move, role_multiDrop]
    exact .multiDrop (congrArg Thread.role h) hi hk hw hexpired
  | multiExpired h =>
    rw [accounts_move]
    exact .multiExpired (congrArg Thread.role h)
  | @multiObtained t c i event w k h hi hk hset hw =>
    rw [accounts_move, role_obtained]
    exact .multiObtained (congrArg Thread.role h) hi hset hw
  | multiRegister h hi hk hunset hw =>
    rw [accounts_move]
    exact .multiRegister (congrArg Thread.role h) hi hunset hw
  | multiNoTime h hno =>
    rw [accounts_move]
    exact .multiReady (congrArg Thread.role h)
  | multiDone h hsome hw hdone =>
    rw [accounts_move]
    exact .multiReady (congrArg Thread.role h)
  | multiSleep h hsome hw hdone =>
    rw [accounts_move]
    exact .multiSleep (congrArg Thread.role h) hw
  | multiWokenDone h hw hfree hdone =>
    rw [accounts_move]
    exact .multiWoken (congrArg Thread.role h) hw hfree
  | multiWokenSleep h => exact quiet_move (by rw [h]; rfl)
  | multiFinish h hw =>
    rw [accounts_move, role_finish]
    exact .multiFinish (congrArg Thread.role h) hw
  | multiDestroy h =>
    rw [accounts_move]
    exact .multiDestroy (congrArg Thread.role h)
  | spuriousOne h => exact quiet_move (by rw [h]; rfl)
  | spuriousMulti h => exact quiet_move (by rw [h]; rfl)
  | timedOutOne h => exact quiet_move (by rw [h]; rfl)
  | timedOutMulti h => exact quiet_move (by rw [h]; rfl)

end payloader.pevents
