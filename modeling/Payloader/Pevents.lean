-- The events of pevents.cpp. An event has a mutex, and so has the waiter that
-- each call of `WaitForMultipleEvents` makes and that the events it waits for
-- keep in their lists. A step takes or gives back one mutex. A section that
-- holds the mutex of a waiter and takes no other is one step. `SetEvent` takes
-- an entry off its list when it visits it. The code does so behind the signal,
-- or for all entries at the end, and holds the mutex of the event until then.
import Payloader.Machines
import Mathlib.Logic.Function.Basic

set_option autoImplicit false

namespace payloader.pevents

open payloader.machines

abbrev Tid := Nat

/-- The address of an event. -/
abbrev neosmart_event_t := Nat

/-- The address of a waiter. -/
abbrev neosmart_wfmo_t := Nat

def WAIT_TIMEOUT : Int := 110

/-- `(uint64_t) -1`: a wait with no end. -/
def INFINITE : BitVec 64 := -1

/-! ## The objects -/

/-- `Status` is the union of `FiredEvent` and `EventsLeft`. -/
structure neosmart_wfmo_t_ where
  Mutex : Option Tid
  RefCount : Int
  Status : Int
  WaitAll : Bool
  StillWaiting : Bool
  deriving DecidableEq

structure neosmart_wfmo_info_t_ where
  Waiter : neosmart_wfmo_t
  WaitIndex : Nat
  deriving DecidableEq

/-- `RegisteredWaits` holds the entries that are still to be visited. -/
structure neosmart_event_t_ where
  Mutex : Option Tid
  AutoReset : Bool
  State : Bool
  RegisteredWaits : List neosmart_wfmo_info_t_
  deriving DecidableEq

namespace neosmart_wfmo_t_

/-- A new waiter, with its mutex taken. -/
def new (t : Tid) (count : Nat) (waitAll : Bool) : neosmart_wfmo_t_ where
  Mutex := some t
  RefCount := 1
  Status := if waitAll then count else -1
  WaitAll := waitAll
  StillWaiting := true

/-- `--RefCount` for a list that drops the waiter. -/
def dropped (w : neosmart_wfmo_t_) : neosmart_wfmo_t_ := { w with RefCount := w.RefCount - 1 }

/-- `++RefCount` for a list that the waiter goes into. -/
def registered (w : neosmart_wfmo_t_) : neosmart_wfmo_t_ := { w with RefCount := w.RefCount + 1 }

/-- One of its events is there. -/
def counted (w : neosmart_wfmo_t_) (WaitIndex : Nat) : neosmart_wfmo_t_ :=
  { w with Status := if w.WaitAll then w.Status - 1 else WaitIndex }

/-- `SetEvent` finds a waiter that still waits. The flag of a waiter for all
events stays, as in the code. -/
def fired (w : neosmart_wfmo_t_) (WaitIndex : Nat) : neosmart_wfmo_t_ :=
  { w.dropped.counted WaitIndex with StillWaiting := w.StillWaiting && w.WaitAll }

/-- The test of the wait loop. -/
def done (w : neosmart_wfmo_t_) : Bool :=
  (w.WaitAll && w.Status == 0) || (!w.WaitAll && w.Status != -1)

/-- The end of the call that made the waiter. -/
def finished (w : neosmart_wfmo_t_) : neosmart_wfmo_t_ :=
  { w.dropped with StillWaiting := false, Mutex := none }

end neosmart_wfmo_t_

namespace neosmart_event_t_

def new (manualReset initialState : Bool) : neosmart_event_t_ where
  Mutex := none
  AutoReset := !manualReset
  State := initialState
  RegisteredWaits := []

/-- A wait obtains the event: no one else gets it when it is reset by that. -/
def obtained (e : neosmart_event_t_) : neosmart_event_t_ :=
  { e with State := e.State && !e.AutoReset }

def lock (e : neosmart_event_t_) (t : Tid) : neosmart_event_t_ := { e with Mutex := some t }

def unlock (e : neosmart_event_t_) : neosmart_event_t_ := { e with Mutex := none }

/-- The front of the list is dropped. -/
def pop_front (e : neosmart_event_t_) : neosmart_event_t_ :=
  { e with RegisteredWaits := e.RegisteredWaits.tail }

def push_back (e : neosmart_event_t_) (i : neosmart_wfmo_info_t_) : neosmart_event_t_ :=
  { e with RegisteredWaits := e.RegisteredWaits ++ [i] }

def erase (e : neosmart_event_t_) (k : Nat) : neosmart_event_t_ :=
  { e with RegisteredWaits := e.RegisteredWaits.eraseIdx k }

end neosmart_event_t_

/-! ## The threads -/

inductive Call where
  | ResetEvent (event : neosmart_event_t)
  | SetEvent (event : neosmart_event_t)
  | WaitForEvent (event : neosmart_event_t) (milliseconds : BitVec 64)
  | WaitForMultipleEvents (events : List neosmart_event_t) (waitAll : Bool)
      (milliseconds : BitVec 64)
  deriving DecidableEq

/-- The events that a call is about. -/
def Call.events : Call → List neosmart_event_t
  | .ResetEvent event => [event]
  | .SetEvent event => [event]
  | .WaitForEvent event _ => [event]
  | .WaitForMultipleEvents events _ _ => events

/-- Where `SetEvent` stands: before the mutex of the event, at its loop over
the list, at `delete` of an expired waiter, at the signal for a waiter (which
it has unlocked), or at the signal for the event itself. -/
inductive SetPoint where
  | lock
  | loop
  | destroy (Waiter : neosmart_wfmo_t)
  | signal (Waiter : neosmart_wfmo_t)
  | wake
  deriving DecidableEq

/-- Where `WaitForEvent` stands. `woken` has come out of the wait with a
result, and has not got the mutex back yet. -/
inductive WaitPoint where
  | lock
  | asleep
  | woken (result : Int)
  deriving DecidableEq

/-- A call of `WaitForMultipleEvents`, and its waiter. -/
structure Wait where
  wfmo : neosmart_wfmo_t
  events : List neosmart_event_t
  waitAll : Bool
  milliseconds : BitVec 64
  deriving DecidableEq

/-- Where `WaitForMultipleEvents` stands: before the mutex of event `i`, at
entry `k` of the list of event `i` in `std::remove_if`, at `delete` of an
expired waiter there, in its wait, behind its wait, at its last section, or at
`delete` of its own waiter. -/
inductive MultiPoint where
  | register (i : Nat)
  | sweep (i k : Nat)
  | expired (i k : Nat) (Waiter : neosmart_wfmo_t)
  | asleep
  | woken (result : Int)
  | finish (result : Int)
  | destroy (result waitIndex : Int)
  deriving DecidableEq

inductive Thread where
  | idle
  | ResetEvent (event : neosmart_event_t)
  | SetEvent (event : neosmart_event_t) (point : SetPoint)
  | WaitForEvent (event : neosmart_event_t) (milliseconds : BitVec 64) (point : WaitPoint)
  | WaitForMultipleEvents (c : Wait) (point : MultiPoint)
  | returned (result waitIndex : Int)
  deriving DecidableEq

/-- All events, all waiters that are not deleted, and all threads. The next
waiter gets the address `fresh`. -/
structure Process where
  created : Nat
  events : neosmart_event_t → neosmart_event_t_
  fresh : Nat
  waiters : neosmart_wfmo_t → Option neosmart_wfmo_t_
  threads : Tid → Thread

namespace Process

def init : Process where
  created := 0
  events := fun _ => .new false false
  fresh := 0
  waiters := fun _ => none
  threads := fun _ => .idle

def move (p : Process) (t : Tid) (th : Thread) : Process :=
  { p with threads := Function.update p.threads t th }

def putEvent (p : Process) (event : neosmart_event_t) (e : neosmart_event_t_) : Process :=
  { p with events := Function.update p.events event e }

def putWaiter (p : Process) (wfmo : neosmart_wfmo_t) (w : neosmart_wfmo_t_) : Process :=
  { p with waiters := Function.update p.waiters wfmo (some w) }

def delete (p : Process) (wfmo : neosmart_wfmo_t) : Process :=
  { p with waiters := Function.update p.waiters wfmo none }

/-- Nobody else has the pointer yet. -/
def CreateEvent (p : Process) (manualReset initialState : Bool) : Process :=
  { p.putEvent p.created (.new manualReset initialState) with created := p.created + 1 }

/-- A thread enters a call. -/
def enter (p : Process) (t : Tid) : Call → Process
  | .ResetEvent event => p.move t (.ResetEvent event)
  | .SetEvent event => p.move t (.SetEvent event .lock)
  | .WaitForEvent event milliseconds => p.move t (.WaitForEvent event milliseconds .lock)
  | .WaitForMultipleEvents events waitAll milliseconds =>
    ({ p.putWaiter p.fresh (.new t events.length waitAll) with fresh := p.fresh + 1 }).move t
      (.WaitForMultipleEvents { wfmo := p.fresh, events, waitAll, milliseconds } (.register 0))

end Process

/-- `pthread_cond_signal(&wfmo->CVariable)`. Only the thread that made the
waiter waits for it. -/
def Thread.signal (wfmo : neosmart_wfmo_t) : Thread → Thread
  | .WaitForMultipleEvents c .asleep =>
    .WaitForMultipleEvents c (if c.wfmo = wfmo then .woken 0 else .asleep)
  | th => th

/-- `pthread_cond_broadcast(&event->CVariable)`. -/
def Thread.broadcast (event : neosmart_event_t) : Thread → Thread
  | .WaitForEvent e milliseconds .asleep =>
    .WaitForEvent e milliseconds (if e = event then .woken 0 else .asleep)
  | th => th

/-- The thread waits for the condition of the event. -/
def Thread.SleepsOn (event : neosmart_event_t) (th : Thread) : Prop :=
  ∃ milliseconds, th = .WaitForEvent event milliseconds .asleep

def Process.signal (p : Process) (wfmo : neosmart_wfmo_t) : Process :=
  { p with threads := fun t => (p.threads t).signal wfmo }

def Process.broadcast (p : Process) (event : neosmart_event_t) : Process :=
  { p with threads := fun t => (p.threads t).broadcast event }

/-! ## The steps -/

/-- What a step shows: a call or its return. A wait may also wake up for no
reason, or at the end of its time. -/
inductive Action where
  | created (manualReset initialState : Bool)
  | call (t : Tid) (c : Call)
  | ret (t : Tid) (result waitIndex : Int)
  | step (t : Tid)
  | spurious (t : Tid)
  | timedOut (t : Tid)

/-- Where `SetEvent` goes on with a waiter that it has unlocked and dropped. -/
def SetPoint.afterDrop (w : neosmart_wfmo_t_) (Waiter : neosmart_wfmo_t) : SetPoint :=
  if w.RefCount = 0 then .destroy Waiter else .loop

def MultiPoint.afterDrop (w : neosmart_wfmo_t_) (i k : Nat) (Waiter : neosmart_wfmo_t) :
    MultiPoint :=
  if w.RefCount = 0 then .expired i k Waiter else .sweep i k

/-- Where `WaitForMultipleEvents` goes on after it has got event `i`. -/
def MultiPoint.afterObtained (c : Wait) (i : Nat) : MultiPoint :=
  if c.waitAll then .register (i + 1) else .finish 0

/-- The way out of `WaitForMultipleEvents`. -/
def Thread.afterFinish (c : Wait) (w : neosmart_wfmo_t_) (result : Int) : Thread :=
  if w.RefCount = 0 then .WaitForMultipleEvents c (.destroy result w.Status)
  else .returned result w.Status

/-- One step of one thread. -/
inductive Step : Process → Action → Process → Prop
  | CreateEvent {p : Process} (manualReset initialState : Bool) :
      Step p (.created manualReset initialState) (p.CreateEvent manualReset initialState)
  | call {p : Process} {t : Tid} (c : Call) (h : p.threads t = .idle)
      (hevents : ∀ e ∈ c.events, e < p.created) : Step p (.call t c) (p.enter t c)
  | ret {p : Process} {t : Tid} {result waitIndex : Int}
      (h : p.threads t = .returned result waitIndex) :
      Step p (.ret t result waitIndex) (p.move t .idle)
  /-- `ResetEvent`. -/
  | reset {p : Process} {t : Tid} {event : neosmart_event_t}
      (h : p.threads t = .ResetEvent event) (hfree : (p.events event).Mutex = none) :
      Step p (.step t)
        ((p.putEvent event { p.events event with State := false }).move t (.returned 0 0))
  /-- `SetEvent` takes the mutex. -/
  | setLock {p : Process} {t : Tid} {event : neosmart_event_t}
      (h : p.threads t = .SetEvent event .lock) (hfree : (p.events event).Mutex = none) :
      Step p (.step t) ((p.putEvent event { (p.events event).lock t with State := true }).move t
        (.SetEvent event .loop))
  /-- The waiter at the front does not wait any more. -/
  | setExpired {p : Process} {t : Tid} {event : neosmart_event_t} {i : neosmart_wfmo_info_t_}
      {rest : List neosmart_wfmo_info_t_} {w : neosmart_wfmo_t_}
      (h : p.threads t = .SetEvent event .loop)
      (hfront : (p.events event).RegisteredWaits = i :: rest)
      (hw : p.waiters i.Waiter = some w) (hfree : w.Mutex = none)
      (hexpired : w.StillWaiting = false) :
      Step p (.step t) (((p.putWaiter i.Waiter w.dropped).putEvent event
        (p.events event).pop_front).move t
          (.SetEvent event (.afterDrop w.dropped i.Waiter)))
  /-- The waiter at the front still waits. It gets an event that resets itself. -/
  | setFired {p : Process} {t : Tid} {event : neosmart_event_t} {i : neosmart_wfmo_info_t_}
      {rest : List neosmart_wfmo_info_t_} {w : neosmart_wfmo_t_}
      (h : p.threads t = .SetEvent event .loop)
      (hfront : (p.events event).RegisteredWaits = i :: rest)
      (hw : p.waiters i.Waiter = some w) (hfree : w.Mutex = none)
      (hwaits : w.StillWaiting = true) :
      Step p (.step t) (((p.putWaiter i.Waiter (w.fired i.WaitIndex)).putEvent event
        (p.events event).obtained.pop_front).move t (.SetEvent event (.signal i.Waiter)))
  | setDestroy {p : Process} {t : Tid} {event : neosmart_event_t} {wfmo : neosmart_wfmo_t}
      (h : p.threads t = .SetEvent event (.destroy wfmo)) :
      Step p (.step t) ((p.delete wfmo).move t (.SetEvent event .loop))
  /-- The signal goes to a waiter that is not deleted. After it the loop is over
  for an event that resets itself. -/
  | setSignalOne {p : Process} {t : Tid} {event : neosmart_event_t} {wfmo : neosmart_wfmo_t}
      (h : p.threads t = .SetEvent event (.signal wfmo)) (halive : p.waiters wfmo ≠ none)
      (hauto : (p.events event).AutoReset = true) :
      Step p (.step t)
        (((p.signal wfmo).putEvent event (p.events event).unlock).move t (.returned 0 0))
  | setSignalEach {p : Process} {t : Tid} {event : neosmart_event_t} {wfmo : neosmart_wfmo_t}
      (h : p.threads t = .SetEvent event (.signal wfmo)) (halive : p.waiters wfmo ≠ none)
      (hmanual : (p.events event).AutoReset = false) :
      Step p (.step t) ((p.signal wfmo).move t (.SetEvent event .loop))
  /-- The list is empty. -/
  | setEmpty {p : Process} {t : Tid} {event : neosmart_event_t}
      (h : p.threads t = .SetEvent event .loop)
      (hempty : (p.events event).RegisteredWaits = [])
      (hset : (p.events event).AutoReset = true → (p.events event).State = true) :
      Step p (.step t)
        ((p.putEvent event (p.events event).unlock).move t (.SetEvent event .wake))
  /-- The way out that gives no mutex back. -/
  | setThrough {p : Process} {t : Tid} {event : neosmart_event_t}
      (h : p.threads t = .SetEvent event .loop)
      (hempty : (p.events event).RegisteredWaits = [])
      (hauto : (p.events event).AutoReset = true) (hunset : (p.events event).State = false) :
      Step p (.step t) (p.move t (.returned 0 0))
  /-- `pthread_cond_signal` wakes a thread. -/
  | setWakeOne {p : Process} {t t' : Tid} {event : neosmart_event_t} {milliseconds : BitVec 64}
      (h : p.threads t = .SetEvent event .wake) (hauto : (p.events event).AutoReset = true)
      (hasleep : p.threads t' = .WaitForEvent event milliseconds .asleep) :
      Step p (.step t)
        ((p.move t' (.WaitForEvent event milliseconds (.woken 0))).move t (.returned 0 0))
  /-- It finds none. -/
  | setWakeNone {p : Process} {t : Tid} {event : neosmart_event_t}
      (h : p.threads t = .SetEvent event .wake) (hauto : (p.events event).AutoReset = true)
      (hnone : ∀ t', ¬ (p.threads t').SleepsOn event) :
      Step p (.step t) (p.move t (.returned 0 0))
  | setWakeAll {p : Process} {t : Tid} {event : neosmart_event_t}
      (h : p.threads t = .SetEvent event .wake) (hmanual : (p.events event).AutoReset = false) :
      Step p (.step t) ((p.broadcast event).move t (.returned 0 0))
  /-- `pthread_mutex_trylock` finds the mutex busy. It is held for a section that
  is one step here, too, so this can happen at any time. -/
  | waitBusy {p : Process} {t : Tid} {event : neosmart_event_t}
      (h : p.threads t = .WaitForEvent event 0 .lock) :
      Step p (.step t) (p.move t (.returned WAIT_TIMEOUT 0))
  /-- `UnlockedWaitForEvent` finds the event set. -/
  | waitObtained {p : Process} {t : Tid} {event : neosmart_event_t} {milliseconds : BitVec 64}
      {point : WaitPoint} (h : p.threads t = .WaitForEvent event milliseconds point)
      (hpoint : point = .lock ∨ point = .woken 0) (hfree : (p.events event).Mutex = none)
      (hset : (p.events event).State = true) :
      Step p (.step t)
        ((p.putEvent event (p.events event).obtained).move t (.returned 0 0))
  /-- It does not, and has no time. -/
  | waitNoTime {p : Process} {t : Tid} {event : neosmart_event_t}
      (h : p.threads t = .WaitForEvent event 0 .lock) (hfree : (p.events event).Mutex = none)
      (hunset : (p.events event).State = false) :
      Step p (.step t) (p.move t (.returned WAIT_TIMEOUT 0))
  /-- It does not, and waits. -/
  | waitSleep {p : Process} {t : Tid} {event : neosmart_event_t} {milliseconds : BitVec 64}
      {point : WaitPoint} (h : p.threads t = .WaitForEvent event milliseconds point)
      (hpoint : (point = .lock ∧ milliseconds ≠ 0) ∨ point = .woken 0)
      (hfree : (p.events event).Mutex = none) (hunset : (p.events event).State = false) :
      Step p (.step t) (p.move t (.WaitForEvent event milliseconds .asleep))
  | waitTimedOut {p : Process} {t : Tid} {event : neosmart_event_t} {milliseconds : BitVec 64}
      {result : Int} (h : p.threads t = .WaitForEvent event milliseconds (.woken result))
      (hresult : result ≠ 0) (hfree : (p.events event).Mutex = none) :
      Step p (.step t) (p.move t (.returned result 0))
  /-- `WaitForMultipleEvents` takes the mutex of event `i`. -/
  | multiLock {p : Process} {t : Tid} {c : Wait} {i : Nat} {event : neosmart_event_t}
      (h : p.threads t = .WaitForMultipleEvents c (.register i)) (hi : c.events[i]? = some event)
      (hfree : (p.events event).Mutex = none) :
      Step p (.step t) ((p.putEvent event ((p.events event).lock t)).move t
        (.WaitForMultipleEvents c (.sweep i 0)))
  /-- `RemoveExpiredWaitHelper` leaves an entry: its waiter waits, or the mutex of
  the waiter is busy. That mutex is held for sections that are one step here, too,
  so this can happen at any time. -/
  | multiKeep {p : Process} {t : Tid} {c : Wait} {i k : Nat} {event : neosmart_event_t}
      (h : p.threads t = .WaitForMultipleEvents c (.sweep i k)) (hi : c.events[i]? = some event)
      (hk : k < (p.events event).RegisteredWaits.length) :
      Step p (.step t) (p.move t (.WaitForMultipleEvents c (.sweep i (k + 1))))
  /-- It removes an entry. -/
  | multiDrop {p : Process} {t : Tid} {c : Wait} {i k : Nat} {event : neosmart_event_t}
      {wait : neosmart_wfmo_info_t_} {w : neosmart_wfmo_t_}
      (h : p.threads t = .WaitForMultipleEvents c (.sweep i k)) (hi : c.events[i]? = some event)
      (hk : (p.events event).RegisteredWaits[k]? = some wait)
      (hw : p.waiters wait.Waiter = some w) (hfree : w.Mutex = none)
      (hexpired : w.StillWaiting = false) :
      Step p (.step t) (((p.putWaiter wait.Waiter w.dropped).putEvent event
        ((p.events event).erase k)).move t
          (.WaitForMultipleEvents c (.afterDrop w.dropped i k wait.Waiter)))
  | multiExpired {p : Process} {t : Tid} {c : Wait} {i k : Nat} {wfmo : neosmart_wfmo_t}
      (h : p.threads t = .WaitForMultipleEvents c (.expired i k wfmo)) :
      Step p (.step t) ((p.delete wfmo).move t (.WaitForMultipleEvents c (.sweep i k)))
  /-- The list is swept, and the event is set. -/
  | multiObtained {p : Process} {t : Tid} {c : Wait} {i : Nat} {event : neosmart_event_t}
      {w : neosmart_wfmo_t_} {k : Nat}
      (h : p.threads t = .WaitForMultipleEvents c (.sweep i k)) (hi : c.events[i]? = some event)
      (hk : k = (p.events event).RegisteredWaits.length)
      (hset : (p.events event).State = true) (hw : p.waiters c.wfmo = some w) :
      Step p (.step t) (((p.putWaiter c.wfmo (w.counted i)).putEvent event
        (p.events event).obtained.unlock).move t
          (.WaitForMultipleEvents c (.afterObtained c i)))
  /-- The list is swept, and the waiter goes into it. -/
  | multiRegister {p : Process} {t : Tid} {c : Wait} {i : Nat} {event : neosmart_event_t}
      {w : neosmart_wfmo_t_} {k : Nat}
      (h : p.threads t = .WaitForMultipleEvents c (.sweep i k)) (hi : c.events[i]? = some event)
      (hk : k = (p.events event).RegisteredWaits.length)
      (hunset : (p.events event).State = false) (hw : p.waiters c.wfmo = some w) :
      Step p (.step t) (((p.putWaiter c.wfmo w.registered).putEvent event
        ((p.events event).push_back { Waiter := c.wfmo, WaitIndex := i }).unlock).move t
          (.WaitForMultipleEvents c (.register (i + 1))))
  /-- All events were looked at, and there is no time. -/
  | multiNoTime {p : Process} {t : Tid} {c : Wait}
      (h : p.threads t = .WaitForMultipleEvents c (.register c.events.length))
      (hno : c.milliseconds = 0) :
      Step p (.step t) (p.move t (.WaitForMultipleEvents c (.finish WAIT_TIMEOUT)))
  /-- The wait loop finds its events, when the mutex is taken ... -/
  | multiDone {p : Process} {t : Tid} {c : Wait} {w : neosmart_wfmo_t_}
      (h : p.threads t = .WaitForMultipleEvents c (.register c.events.length))
      (hsome : c.milliseconds ≠ 0) (hw : p.waiters c.wfmo = some w) (hdone : w.done = true) :
      Step p (.step t) (p.move t (.WaitForMultipleEvents c (.finish 0)))
  /-- ... or waits, and gives it back. -/
  | multiSleep {p : Process} {t : Tid} {c : Wait} {w : neosmart_wfmo_t_}
      (h : p.threads t = .WaitForMultipleEvents c (.register c.events.length))
      (hsome : c.milliseconds ≠ 0) (hw : p.waiters c.wfmo = some w) (hdone : w.done = false) :
      Step p (.step t) ((p.putWaiter c.wfmo { w with Mutex := none }).move t
        (.WaitForMultipleEvents c .asleep))
  /-- The same after a wait, which has to get the mutex back first. -/
  | multiWokenDone {p : Process} {t : Tid} {c : Wait} {w : neosmart_wfmo_t_} {result : Int}
      (h : p.threads t = .WaitForMultipleEvents c (.woken result))
      (hw : p.waiters c.wfmo = some w) (hfree : w.Mutex = none)
      (hdone : result ≠ 0 ∨ w.done = true) :
      Step p (.step t) ((p.putWaiter c.wfmo { w with Mutex := some t }).move t
        (.WaitForMultipleEvents c (.finish result)))
  | multiWokenSleep {p : Process} {t : Tid} {c : Wait} {w : neosmart_wfmo_t_}
      (h : p.threads t = .WaitForMultipleEvents c (.woken 0))
      (hw : p.waiters c.wfmo = some w) (hfree : w.Mutex = none) (hdone : w.done = false) :
      Step p (.step t) (p.move t (.WaitForMultipleEvents c .asleep))
  | multiFinish {p : Process} {t : Tid} {c : Wait} {w : neosmart_wfmo_t_} {result : Int}
      (h : p.threads t = .WaitForMultipleEvents c (.finish result))
      (hw : p.waiters c.wfmo = some w) :
      Step p (.step t)
        ((p.putWaiter c.wfmo w.finished).move t (.afterFinish c w.finished result))
  | multiDestroy {p : Process} {t : Tid} {c : Wait} {result waitIndex : Int}
      (h : p.threads t = .WaitForMultipleEvents c (.destroy result waitIndex)) :
      Step p (.step t) ((p.delete c.wfmo).move t (.returned result waitIndex))
  /-- A wait comes back though no one has signalled. -/
  | spuriousOne {p : Process} {t : Tid} {event : neosmart_event_t} {milliseconds : BitVec 64}
      (h : p.threads t = .WaitForEvent event milliseconds .asleep) :
      Step p (.spurious t) (p.move t (.WaitForEvent event milliseconds (.woken 0)))
  | spuriousMulti {p : Process} {t : Tid} {c : Wait}
      (h : p.threads t = .WaitForMultipleEvents c .asleep) :
      Step p (.spurious t) (p.move t (.WaitForMultipleEvents c (.woken 0)))
  /-- The time of a wait is over. -/
  | timedOutOne {p : Process} {t : Tid} {event : neosmart_event_t} {milliseconds : BitVec 64}
      (h : p.threads t = .WaitForEvent event milliseconds .asleep)
      (htime : milliseconds ≠ INFINITE) :
      Step p (.timedOut t) (p.move t (.WaitForEvent event milliseconds (.woken WAIT_TIMEOUT)))
  | timedOutMulti {p : Process} {t : Tid} {c : Wait}
      (h : p.threads t = .WaitForMultipleEvents c .asleep) (htime : c.milliseconds ≠ INFINITE) :
      Step p (.timedOut t) (p.move t (.WaitForMultipleEvents c (.woken WAIT_TIMEOUT)))

end payloader.pevents
