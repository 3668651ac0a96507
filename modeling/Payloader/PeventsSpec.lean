-- What the events of pevents.cpp are for. An event is set or not, and a call
-- acts on it in one step: it sets it, resets it, or takes it when it is set.
-- Mutexes, waiters and signals are not seen here.
import Payloader.Pevents
import Mathlib.Data.Finset.Card

set_option autoImplicit false

namespace payloader.pevents

open payloader.machines

/-- A thread, with the places of the events that its call has acted on. -/
inductive Party where
  | idle
  | calling (c : Call) (did : Finset Nat)

structure Signals where
  created : Nat
  auto : neosmart_event_t → Bool
  set : neosmart_event_t → Bool
  parties : Tid → Party

namespace Signals

def init : Signals where
  created := 0
  auto := fun _ => true
  set := fun _ => false
  parties := fun _ => .idle

def create (s : Signals) (manualReset initialState : Bool) : Signals :=
  { s with
    created := s.created + 1
    auto := Function.update s.auto s.created (!manualReset)
    set := Function.update s.set s.created initialState }

def party (s : Signals) (t : Tid) (x : Party) : Signals :=
  { s with parties := Function.update s.parties t x }

def put (s : Signals) (event : neosmart_event_t) (b : Bool) : Signals :=
  { s with set := Function.update s.set event b }

end Signals

/-- The call is a wait, for all of its events or for one. -/
def Call.waitsAll : Call → Option Bool
  | .ResetEvent _ => none
  | .SetEvent _ => none
  | .WaitForEvent _ _ => some false
  | .WaitForMultipleEvents _ waitAll _ => some waitAll

/-- What `Status` says of the events that a wait has got: how many are left, or
the place of the one that it got. -/
def Shows (waitAll : Bool) (count : Nat) (did : Finset Nat) (Status : Int) : Prop :=
  if waitAll then Status = count - did.card
  else (did = ∅ ∧ Status = -1) ∨ ∃ i : Nat, did = {i} ∧ Status = i

/-- The wait has what it waits for. -/
def Got (waitAll : Bool) (count : Nat) (did : Finset Nat) : Prop :=
  if waitAll then did = Finset.range count else did ≠ ∅

/-- What a call returns. A wait that comes to the end of its time can have got
events. A wait for all events that has no time never succeeds. -/
def Call.Returns : Call → Finset Nat → Int → Int → Prop
  | .ResetEvent _, did, result, waitIndex => did = {0} ∧ result = 0 ∧ waitIndex = 0
  | .SetEvent _, did, result, waitIndex => did = {0} ∧ result = 0 ∧ waitIndex = 0
  | .WaitForEvent _ milliseconds, did, result, waitIndex =>
    waitIndex = 0 ∧ ((did = {0} ∧ result = 0) ∨
      (did = ∅ ∧ result = WAIT_TIMEOUT ∧ milliseconds ≠ INFINITE))
  | .WaitForMultipleEvents events waitAll milliseconds, did, result, waitIndex =>
    Shows waitAll events.length did waitIndex ∧
      ((result = 0 ∧ Got waitAll events.length did ∧ (waitAll = true → milliseconds ≠ 0)) ∨
        (result = WAIT_TIMEOUT ∧ milliseconds ≠ INFINITE ∧
          (waitAll = false → did ≠ ∅ → milliseconds ≠ 0)))

/-- What a step is. The calls and their returns are seen. -/
inductive Op where
  | created (manualReset initialState : Bool)
  | call (t : Tid) (c : Call)
  | ret (t : Tid) (result waitIndex : Int)
  | reset (t : Tid) (event : neosmart_event_t)
  | set (t : Tid) (event : neosmart_event_t)
  | take (t : Tid) (i : Nat) (event : neosmart_event_t)

/-- A wait for one of its events takes the first of those that reset
themselves. -/
def Signals.First (s : Signals) (c : Call) (i : Nat) (event : neosmart_event_t) : Prop :=
  ∀ j x, j < i → c.events[j]? = some x → x ≠ event → s.auto x = true → s.set x = false

inductive Signals.Step : Signals → Op → Signals → Prop
  | CreateEvent {s : Signals} (manualReset initialState : Bool) :
      Step s (.created manualReset initialState) (s.create manualReset initialState)
  | call {s : Signals} {t : Tid} (c : Call) (h : s.parties t = .idle)
      (hevents : ∀ e ∈ c.events, e < s.created) : Step s (.call t c) (s.party t (.calling c ∅))
  | reset {s : Signals} {t : Tid} {event : neosmart_event_t}
      (h : s.parties t = .calling (.ResetEvent event) ∅) :
      Step s (.reset t event) ((s.put event false).party t (.calling (.ResetEvent event) {0}))
  | set {s : Signals} {t : Tid} {event : neosmart_event_t}
      (h : s.parties t = .calling (.SetEvent event) ∅) :
      Step s (.set t event) ((s.put event true).party t (.calling (.SetEvent event) {0}))
  | take {s : Signals} {t : Tid} {c : Call} {waitAll : Bool} {did : Finset Nat} {i : Nat}
      {event : neosmart_event_t} (h : s.parties t = .calling c did)
      (hwaits : c.waitsAll = some waitAll) (hi : c.events[i]? = some event) (hnew : i ∉ did)
      (hset : s.set event = true) (hone : waitAll = false → did = ∅ ∧ s.First c i event) :
      Step s (.take t i event)
        ((s.put event (!s.auto event)).party t (.calling c (insert i did)))
  | ret {s : Signals} {t : Tid} {c : Call} {did : Finset Nat} {result waitIndex : Int}
      (h : s.parties t = .calling c did) (hret : c.Returns did result waitIndex) :
      Step s (.ret t result waitIndex) (s.party t .idle)

/-! ## What is seen -/

def Action.shown : Action → Option Action
  | .created manualReset initialState => some (.created manualReset initialState)
  | .call t c => some (.call t c)
  | .ret t result waitIndex => some (.ret t result waitIndex)
  | .step _ => none
  | .spurious _ => none
  | .timedOut _ => none

def Op.shows : Op → Option Action
  | .created manualReset initialState => some (.created manualReset initialState)
  | .call t c => some (.call t c)
  | .ret t result waitIndex => some (.ret t result waitIndex)
  | .reset _ _ => none
  | .set _ _ => none
  | .take _ _ _ => none

end payloader.pevents
