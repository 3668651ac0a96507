-- The steps of Pevents as a function, to run a process. A thread takes its next
-- step where there is one to take. It finds every mutex of an entry free when
-- it sweeps a list, and it wakes nobody by an event that resets itself.
import Payloader.Pevents

set_option autoImplicit false

namespace payloader.pevents

open payloader.machines

/-- `SetEvent` at its loop. -/
def Process.setLoop (p : Process) (t : Tid) (event : neosmart_event_t) : Option Process :=
  match (p.events event).RegisteredWaits with
  | [] =>
    if (p.events event).AutoReset = true ∧ (p.events event).State = false then
      some (p.move t (.returned 0 0))
    else some ((p.putEvent event (p.events event).unlock).move t (.SetEvent event .wake))
  | i :: _ =>
    match p.waiters i.Waiter with
    | none => none
    | some w =>
      if w.Mutex ≠ none then none
      else if w.StillWaiting then
        some (((p.putWaiter i.Waiter (w.fired i.WaitIndex)).putEvent event
          (p.events event).obtained.pop_front).move t (.SetEvent event (.signal i.Waiter)))
      else
        some (((p.putWaiter i.Waiter w.dropped).putEvent event (p.events event).pop_front).move t
          (.SetEvent event (.afterDrop w.dropped i.Waiter)))

def Process.set (p : Process) (t : Tid) (event : neosmart_event_t) : SetPoint → Option Process
  | .lock =>
    if (p.events event).Mutex = none then
      some ((p.putEvent event { (p.events event).lock t with State := true }).move t
        (.SetEvent event .loop))
    else none
  | .loop => p.setLoop t event
  | .destroy wfmo => some ((p.delete wfmo).move t (.SetEvent event .loop))
  | .signal wfmo =>
    if p.waiters wfmo = none then none
    else if (p.events event).AutoReset then
      some (((p.signal wfmo).putEvent event (p.events event).unlock).move t (.returned 0 0))
    else some ((p.signal wfmo).move t (.SetEvent event .loop))
  | .wake =>
    if (p.events event).AutoReset then none
    else some ((p.broadcast event).move t (.returned 0 0))

def Process.wait (p : Process) (t : Tid) (event : neosmart_event_t) (milliseconds : BitVec 64) :
    WaitPoint → Option Process
  | .lock =>
    if (p.events event).Mutex ≠ none then none
    else if (p.events event).State then
      some ((p.putEvent event (p.events event).obtained).move t (.returned 0 0))
    else if milliseconds = 0 then some (p.move t (.returned WAIT_TIMEOUT 0))
    else some (p.move t (.WaitForEvent event milliseconds .asleep))
  | .asleep => none
  | .woken result =>
    if (p.events event).Mutex ≠ none then none
    else if result ≠ 0 then some (p.move t (.returned result 0))
    else if (p.events event).State then
      some ((p.putEvent event (p.events event).obtained).move t (.returned 0 0))
    else some (p.move t (.WaitForEvent event milliseconds .asleep))

/-- `WaitForMultipleEvents` looks at event `i`, and has swept `k` entries. -/
def Process.sweep (p : Process) (t : Tid) (c : Wait) (i k : Nat) (event : neosmart_event_t)
    (w : neosmart_wfmo_t_) : Option Process :=
  match (p.events event).RegisteredWaits[k]? with
  | some wait =>
    match p.waiters wait.Waiter with
    | none => none
    | some x =>
      if x.Mutex = none ∧ x.StillWaiting = false then
        some (((p.putWaiter wait.Waiter x.dropped).putEvent event
          ((p.events event).erase k)).move t
            (.WaitForMultipleEvents c (.afterDrop x.dropped i k wait.Waiter)))
      else some (p.move t (.WaitForMultipleEvents c (.sweep i (k + 1))))
  | none =>
    if k ≠ (p.events event).RegisteredWaits.length then none
    else if (p.events event).State then
      some (((p.putWaiter c.wfmo (w.counted i)).putEvent event
        (p.events event).obtained.unlock).move t
          (.WaitForMultipleEvents c (.afterObtained c i)))
    else
      some (((p.putWaiter c.wfmo w.registered).putEvent event
        ((p.events event).push_back { Waiter := c.wfmo, WaitIndex := i }).unlock).move t
          (.WaitForMultipleEvents c (.register (i + 1))))

def Process.waits (p : Process) (t : Tid) (c : Wait) (w : neosmart_wfmo_t_) :
    MultiPoint → Option Process
  | .register i =>
    match c.events[i]? with
    | some event =>
      if (p.events event).Mutex = none then
        some ((p.putEvent event ((p.events event).lock t)).move t
          (.WaitForMultipleEvents c (.sweep i 0)))
      else none
    | none =>
      if i ≠ c.events.length then none
      else if c.milliseconds = 0 then
        some (p.move t (.WaitForMultipleEvents c (.finish WAIT_TIMEOUT)))
      else if w.done then some (p.move t (.WaitForMultipleEvents c (.finish 0)))
      else
        some ((p.putWaiter c.wfmo { w with Mutex := none }).move t
          (.WaitForMultipleEvents c .asleep))
  | .sweep i k =>
    match c.events[i]? with
    | some event => p.sweep t c i k event w
    | none => none
  | .expired i k wfmo => some ((p.delete wfmo).move t (.WaitForMultipleEvents c (.sweep i k)))
  | .asleep => none
  | .woken result =>
    if w.Mutex ≠ none then none
    else if result ≠ 0 ∨ w.done = true then
      some ((p.putWaiter c.wfmo { w with Mutex := some t }).move t
        (.WaitForMultipleEvents c (.finish result)))
    else some (p.move t (.WaitForMultipleEvents c .asleep))
  | .finish result =>
    some ((p.putWaiter c.wfmo w.finished).move t (.afterFinish c w.finished result))
  | .destroy result waitIndex => some ((p.delete c.wfmo).move t (.returned result waitIndex))

def Process.next (p : Process) (t : Tid) : Option Process :=
  match p.threads t with
  | .idle => none
  | .ResetEvent event =>
    if (p.events event).Mutex = none then
      some ((p.putEvent event { p.events event with State := false }).move t (.returned 0 0))
    else none
  | .SetEvent event point => p.set t event point
  | .WaitForEvent event milliseconds point => p.wait t event milliseconds point
  | .WaitForMultipleEvents c point => (p.waiters c.wfmo).bind (fun w => p.waits t c w point)
  | .returned _ _ => none

def Process.step (p : Process) : Action → Option Process
  | .created manualReset initialState => some (p.CreateEvent manualReset initialState)
  | .call t c =>
    if p.threads t = .idle ∧ ∀ e ∈ c.events, e < p.created then some (p.enter t c) else none
  | .ret t result waitIndex =>
    if p.threads t = .returned result waitIndex then some (p.move t .idle) else none
  | .step t => p.next t
  | .spurious t =>
    match p.threads t with
    | .WaitForEvent event milliseconds .asleep =>
      some (p.move t (.WaitForEvent event milliseconds (.woken 0)))
    | .WaitForMultipleEvents c .asleep => some (p.move t (.WaitForMultipleEvents c (.woken 0)))
    | _ => none
  | .timedOut t =>
    match p.threads t with
    | .WaitForEvent event milliseconds .asleep =>
      if milliseconds ≠ INFINITE then
        some (p.move t (.WaitForEvent event milliseconds (.woken WAIT_TIMEOUT)))
      else none
    | .WaitForMultipleEvents c .asleep =>
      if c.milliseconds ≠ INFINITE then
        some (p.move t (.WaitForMultipleEvents c (.woken WAIT_TIMEOUT)))
      else none
    | _ => none

variable {p p' : Process} {t : Tid} {event : neosmart_event_t}

theorem setLoop_step (hth : p.threads t = .SetEvent event .loop)
    (h : p.setLoop t event = some p') : Step p (.step t) p' := by
  unfold Process.setLoop at h
  split at h
  case h_1 hempty =>
    split at h
    case isTrue hboth =>
      cases h
      exact .setThrough hth hempty hboth.1 hboth.2
    case isFalse hnot =>
      cases h
      refine .setEmpty hth hempty (fun hauto => ?_)
      rw [← Bool.not_eq_false]
      exact fun hunset => hnot ⟨hauto, hunset⟩
  case h_2 i rest hfront =>
    split at h
    · cases h
    case h_2 w hw =>
      split at h
      · cases h
      case isFalse hfree =>
        split at h
        case isTrue hwaits =>
          cases h
          exact .setFired hth hfront hw (not_not.mp hfree) hwaits
        case isFalse hexpired =>
          cases h
          exact .setExpired hth hfront hw (not_not.mp hfree) (Bool.not_eq_true _ ▸ hexpired)

theorem set_step {point : SetPoint} (hth : p.threads t = .SetEvent event point)
    (h : p.set t event point = some p') : Step p (.step t) p' := by
  cases point with
  | lock =>
    obtain ⟨hfree, heq⟩ := Option.ite_none_right_eq_some.mp h
    cases heq
    exact .setLock hth hfree
  | loop => exact setLoop_step hth h
  | destroy wfmo =>
    cases h
    exact .setDestroy hth
  | signal wfmo =>
    obtain ⟨halive, h⟩ := Option.ite_none_left_eq_some.mp h
    split at h
    case isTrue hauto =>
      cases h
      exact .setSignalOne hth halive hauto
    case isFalse hmanual =>
      cases h
      exact .setSignalEach hth halive (Bool.not_eq_true _ ▸ hmanual)
  | wake =>
    obtain ⟨hmanual, heq⟩ := Option.ite_none_left_eq_some.mp h
    cases heq
    exact .setWakeAll hth (Bool.not_eq_true _ ▸ hmanual)

theorem wait_step {milliseconds : BitVec 64} {point : WaitPoint}
    (hth : p.threads t = .WaitForEvent event milliseconds point)
    (h : p.wait t event milliseconds point = some p') : Step p (.step t) p' := by
  cases point with
  | lock =>
    obtain ⟨hfree, h⟩ := Option.ite_none_left_eq_some.mp h
    split at h
    case isTrue hset =>
      cases h
      exact .waitObtained hth (Or.inl rfl) (not_not.mp hfree) hset
    case isFalse hunset =>
      have hunset := Bool.not_eq_true _ ▸ hunset
      split at h
      case isTrue hno =>
        cases h
        subst hno
        exact .waitNoTime hth (not_not.mp hfree) hunset
      case isFalse hsome =>
        cases h
        exact .waitSleep hth (Or.inl ⟨rfl, hsome⟩) (not_not.mp hfree) hunset
  | asleep => cases h
  | woken result =>
    obtain ⟨hfree, hrest⟩ := Option.ite_none_left_eq_some.mp h
    split at hrest
    case isTrue hresult =>
      cases hrest
      exact .waitTimedOut hth hresult (not_not.mp hfree)
    case isFalse hresult =>
      rw [not_not.mp hresult] at hth
      split at hrest
      case isTrue hset =>
        cases hrest
        exact .waitObtained hth (Or.inr rfl) (not_not.mp hfree) hset
      case isFalse hunset =>
        cases hrest
        exact .waitSleep hth (Or.inr rfl) (not_not.mp hfree) (Bool.not_eq_true _ ▸ hunset)

theorem sweep_step {c : Wait} {i k : Nat} {w : neosmart_wfmo_t_}
    (hth : p.threads t = .WaitForMultipleEvents c (.sweep i k)) (hi : c.events[i]? = some event)
    (hw : p.waiters c.wfmo = some w) (h : p.sweep t c i k event w = some p') :
    Step p (.step t) p' := by
  unfold Process.sweep at h
  split at h
  case h_1 wait hk =>
    split at h
    · cases h
    case h_2 x hx =>
      split at h
      case isTrue hboth =>
        cases h
        exact .multiDrop hth hi hk hx hboth.1 hboth.2
      case isFalse =>
        cases h
        exact .multiKeep hth hi (List.getElem?_eq_some_iff.mp hk).1
  case h_2 =>
    obtain ⟨hk, h⟩ := Option.ite_none_left_eq_some.mp h
    split at h
    case isTrue hset =>
      cases h
      exact .multiObtained hth hi (not_not.mp hk) hset hw
    case isFalse hunset =>
      cases h
      exact .multiRegister hth hi (not_not.mp hk) (Bool.not_eq_true _ ▸ hunset) hw

theorem waits_step {c : Wait} {point : MultiPoint} {w : neosmart_wfmo_t_}
    (hth : p.threads t = .WaitForMultipleEvents c point) (hw : p.waiters c.wfmo = some w)
    (h : p.waits t c w point = some p') : Step p (.step t) p' := by
  cases point with
  | register i =>
    simp only [Process.waits] at h
    split at h
    case h_1 event hi =>
      obtain ⟨hfree, heq⟩ := Option.ite_none_right_eq_some.mp h
      cases heq
      exact .multiLock hth hi hfree
    case h_2 =>
      obtain ⟨hi, h⟩ := Option.ite_none_left_eq_some.mp h
      rw [not_not.mp hi] at hth
      split at h
      case isTrue hno =>
        cases h
        exact .multiNoTime hth hno
      case isFalse hsome =>
        split at h
        case isTrue hdone =>
          cases h
          exact .multiDone hth hsome hw hdone
        case isFalse hdone =>
          cases h
          exact .multiSleep hth hsome hw (Bool.not_eq_true _ ▸ hdone)
  | sweep i k =>
    simp only [Process.waits] at h
    split at h
    case h_1 event hi => exact sweep_step hth hi hw h
    case h_2 => cases h
  | expired i k wfmo =>
    cases h
    exact .multiExpired hth
  | asleep => cases h
  | woken result =>
    obtain ⟨hfree, h⟩ := Option.ite_none_left_eq_some.mp h
    split at h
    case isTrue hdone =>
      cases h
      exact .multiWokenDone hth hw (not_not.mp hfree) hdone
    case isFalse hnot =>
      cases h
      obtain ⟨hresult, hdone⟩ := not_or.mp hnot
      rw [not_not.mp hresult] at hth
      exact .multiWokenSleep hth hw (not_not.mp hfree) (Bool.not_eq_true _ ▸ hdone)
  | finish result =>
    cases h
    exact .multiFinish hth hw
  | destroy result waitIndex =>
    cases h
    exact .multiDestroy hth

theorem next_step (h : p.next t = some p') : Step p (.step t) p' := by
  unfold Process.next at h
  split at h
  · cases h
  case h_2 event hth =>
    obtain ⟨hfree, heq⟩ := Option.ite_none_right_eq_some.mp h
    cases heq
    exact .reset hth hfree
  case h_3 event point hth => exact set_step hth h
  case h_4 event milliseconds point hth => exact wait_step hth h
  case h_5 c point hth =>
    obtain ⟨w, hw, h⟩ := Option.bind_eq_some_iff.mp h
    exact waits_step hth hw h
  · cases h

/-- What the function runs is a step of the process. -/
theorem step_step (p : Process) (act : Action) (p' : Process) (h : p.step act = some p') :
    Step p act p' := by
  cases act with
  | created manualReset initialState =>
    cases h
    exact .CreateEvent manualReset initialState
  | call t c =>
    obtain ⟨⟨hidle, hevents⟩, heq⟩ := Option.ite_none_right_eq_some.mp h
    cases heq
    exact .call c hidle hevents
  | ret t result waitIndex =>
    obtain ⟨hth, heq⟩ := Option.ite_none_right_eq_some.mp h
    cases heq
    exact .ret hth
  | step t => exact next_step h
  | spurious t =>
    simp only [Process.step] at h
    split at h
    case h_1 hth =>
      cases h
      exact .spuriousOne hth
    case h_2 hth =>
      cases h
      exact .spuriousMulti hth
    · cases h
  | timedOut t =>
    simp only [Process.step] at h
    split at h
    case h_1 hth =>
      obtain ⟨htime, heq⟩ := Option.ite_none_right_eq_some.mp h
      cases heq
      exact .timedOutOne hth htime
    case h_2 hth =>
      obtain ⟨htime, heq⟩ := Option.ite_none_right_eq_some.mp h
      cases heq
      exact .timedOutMulti hth htime
    · cases h

end payloader.pevents
