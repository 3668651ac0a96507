-- When the threads of pevents.cpp go on. A thread waits for the mutex of an
-- event or of a waiter. When all calls name their events in one order, a thread
-- that waits for a mutex waits, through others, for a thread that goes on.
import Mathlib.Order.Lattice.Nat
import Payloader.PeventsSafety

set_option autoImplicit false

namespace payloader.pevents

open payloader.machines payloader.locks

variable {p p' : Process} {t u : Tid} {event : neosmart_event_t} {wfmo : neosmart_wfmo_t}
variable {w : neosmart_wfmo_t_} {c : Wait} {point : MultiPoint} {act : Action}
variable {acts : List Action} {th : Thread}

/-! ## What threads wait for -/

inductive Lock where
  | event (event : neosmart_event_t)
  | waiter (wfmo : neosmart_wfmo_t)
  deriving DecidableEq

def Process.owner (p : Process) : Lock → Option Tid
  | .event event => p.accounts.eventOwner event
  | .waiter wfmo => p.accounts.waiterOwner wfmo

/-- `SetEvent` wants the mutex of the waiter at the front. -/
def SetPoint.wants (p : Process) (event : neosmart_event_t) : SetPoint → Option Lock
  | .lock => some (.event event)
  | .loop => (p.events event).RegisteredWaits.head?.map (fun i => .waiter i.Waiter)
  | .destroy _ => none
  | .signal _ => none
  | .wake => none

/-- A wait without time does not wait for the mutex, either. -/
def WaitPoint.wants (event : neosmart_event_t) (milliseconds : BitVec 64) : WaitPoint → Option Lock
  | .lock => if milliseconds = 0 then none else some (.event event)
  | .asleep => none
  | .woken _ => some (.event event)

def MultiPoint.wants (c : Wait) : MultiPoint → Option Lock
  | .register i => c.events[i]?.map .event
  | .sweep _ _ => none
  | .expired _ _ _ => none
  | .asleep => none
  | .woken _ => some (.waiter c.wfmo)
  | .finish _ => none
  | .destroy _ _ => none

def Thread.wants (p : Process) : Thread → Option Lock
  | .idle => none
  | .ResetEvent event => some (.event event)
  | .SetEvent event point => point.wants p event
  | .WaitForEvent event milliseconds point => point.wants event milliseconds
  | .WaitForMultipleEvents c point => point.wants c
  | .returned _ _ => none

def Process.wants (p : Process) (t : Tid) : Option Lock := (p.threads t).wants p

/-- The thread is in a call, and not in a wait of it. -/
def Thread.Busy : Thread → Prop
  | .idle => False
  | .ResetEvent _ => True
  | .SetEvent _ _ => True
  | .WaitForEvent _ _ point => point ≠ .asleep
  | .WaitForMultipleEvents _ point => point ≠ .asleep
  | .returned _ _ => False

/-- The thread can take a step of its call. -/
def Process.Steps (p : Process) (t : Tid) : Prop := ∃ p', Step p (.step t) p'

theorem wants_eq (h : p.threads t = th) : p.wants t = th.wants p := congrArg (Thread.wants p) h

theorem ready_of {l : Lock} (hw : p.wants t = some l) (hfree : p.owner l = none) :
    Ready p.owner p.wants t := by
  intro l' hl'
  cases hw.symm.trans hl'
  exact hfree

theorem ready_none (hw : p.wants t = none) : Ready p.owner p.wants t := by
  intro l hl
  cases hw.symm.trans hl

/-- Who takes a step has not waited for a mutex. -/
theorem Step.ready (h : Step p (.step t) p') : (p.threads t).Busy ∧ Ready p.owner p.wants t := by
  have hbusy : ∀ {th}, p.threads t = th → th.Busy → (p.threads t).Busy := fun h hb => h ▸ hb
  cases h with
  | reset h hfree => exact ⟨hbusy h trivial, ready_of (wants_eq h) hfree⟩
  | setLock h hfree => exact ⟨hbusy h trivial, ready_of (wants_eq h) hfree⟩
  | @setExpired _ event i rest w h hfront hw hfree =>
    refine ⟨hbusy h trivial, ready_of (l := .waiter i.Waiter) ?_ ?_⟩
    · rw [wants_eq h, Thread.wants, SetPoint.wants, hfront]
      rfl
    · exact (waiterOwner_eq (a := p.accounts) hw).trans hfree
  | @setFired _ event i rest w h hfront hw hfree =>
    refine ⟨hbusy h trivial, ready_of (l := .waiter i.Waiter) ?_ ?_⟩
    · rw [wants_eq h, Thread.wants, SetPoint.wants, hfront]
      rfl
    · exact (waiterOwner_eq (a := p.accounts) hw).trans hfree
  | setDestroy h => exact ⟨hbusy h trivial, ready_none (wants_eq h)⟩
  | setSignalOne h => exact ⟨hbusy h trivial, ready_none (wants_eq h)⟩
  | setSignalEach h => exact ⟨hbusy h trivial, ready_none (wants_eq h)⟩
  | setEmpty h hempty =>
    refine ⟨hbusy h trivial, ready_none ?_⟩
    rw [wants_eq h, Thread.wants, SetPoint.wants, hempty]
    rfl
  | setThrough h hempty =>
    refine ⟨hbusy h trivial, ready_none ?_⟩
    rw [wants_eq h, Thread.wants, SetPoint.wants, hempty]
    rfl
  | setWakeOne h => exact ⟨hbusy h trivial, ready_none (wants_eq h)⟩
  | setWakeNone h => exact ⟨hbusy h trivial, ready_none (wants_eq h)⟩
  | setWakeAll h => exact ⟨hbusy h trivial, ready_none (wants_eq h)⟩
  | waitBusy h => exact ⟨hbusy h nofun, ready_none (wants_eq h)⟩
  | @waitObtained _ event milliseconds point h hpoint hfree =>
    rcases hpoint with rfl | rfl
    · refine ⟨hbusy h nofun, fun l hl => ?_⟩
      rw [wants_eq h] at hl
      obtain ⟨-, hl⟩ := Option.ite_none_left_eq_some.mp hl
      cases hl
      exact hfree
    · exact ⟨hbusy h nofun, ready_of (wants_eq h) hfree⟩
  | waitNoTime h => exact ⟨hbusy h nofun, ready_none (wants_eq h)⟩
  | @waitSleep _ event milliseconds point h hpoint hfree =>
    rcases hpoint with ⟨rfl, hsome⟩ | rfl
    · exact ⟨hbusy h nofun, ready_of ((wants_eq h).trans (if_neg hsome)) hfree⟩
    · exact ⟨hbusy h nofun, ready_of (wants_eq h) hfree⟩
  | waitTimedOut h hresult hfree => exact ⟨hbusy h nofun, ready_of (wants_eq h) hfree⟩
  | @multiLock _ c i event h hi hfree =>
    refine ⟨hbusy h nofun, ready_of (l := .event event) ?_ hfree⟩
    rw [wants_eq h, Thread.wants, MultiPoint.wants, hi]
    rfl
  | multiKeep h => exact ⟨hbusy h nofun, ready_none (wants_eq h)⟩
  | multiDrop h => exact ⟨hbusy h nofun, ready_none (wants_eq h)⟩
  | multiExpired h => exact ⟨hbusy h nofun, ready_none (wants_eq h)⟩
  | multiObtained h => exact ⟨hbusy h nofun, ready_none (wants_eq h)⟩
  | multiRegister h => exact ⟨hbusy h nofun, ready_none (wants_eq h)⟩
  | multiNoTime h =>
    refine ⟨hbusy h nofun, ready_none ?_⟩
    rw [wants_eq h, Thread.wants, MultiPoint.wants, List.getElem?_length]
    rfl
  | multiDone h =>
    refine ⟨hbusy h nofun, ready_none ?_⟩
    rw [wants_eq h, Thread.wants, MultiPoint.wants, List.getElem?_length]
    rfl
  | multiSleep h =>
    refine ⟨hbusy h nofun, ready_none ?_⟩
    rw [wants_eq h, Thread.wants, MultiPoint.wants, List.getElem?_length]
    rfl
  | multiWokenDone h hw hfree =>
    exact ⟨hbusy h nofun,
      ready_of (wants_eq h) ((waiterOwner_eq (a := p.accounts) hw).trans hfree)⟩
  | multiWokenSleep h hw hfree =>
    exact ⟨hbusy h nofun,
      ready_of (wants_eq h) ((waiterOwner_eq (a := p.accounts) hw).trans hfree)⟩
  | multiFinish h => exact ⟨hbusy h nofun, ready_none (wants_eq h)⟩
  | multiDestroy h => exact ⟨hbusy h nofun, ready_none (wants_eq h)⟩

/-! ## Where calls stand -/

/-- The place of a call lies in its events, and in the list that it sweeps. -/
def MultiPoint.Inside (events : neosmart_event_t → neosmart_event_t_) (c : Wait) : MultiPoint → Prop
  | .register i => i ≤ c.events.length
  | .sweep i k => ∃ e, c.events[i]? = some e ∧ k ≤ (events e).RegisteredWaits.length
  | .expired i k _ => ∃ e, c.events[i]? = some e ∧ k ≤ (events e).RegisteredWaits.length
  | .asleep => True
  | .woken _ => True
  | .finish _ => True
  | .destroy _ _ => True

def Process.Inside (p : Process) : Prop :=
  ∀ t c point, p.threads t = .WaitForMultipleEvents c point → point.Inside p.events c

/-- What a thread does to lists whose mutex another thread holds. -/
def Process.Grows (p p1 : Process) (t : Tid) : Prop :=
  ∀ u e, u ≠ t → p.accounts.heldEvent u = some e →
    (p.events e).RegisteredWaits.length ≤ (p1.events e).RegisteredWaits.length

theorem MultiPoint.Inside.grows {p1 : Process} (hu : p.threads u = .WaitForMultipleEvents c point)
    (h : point.Inside p.events c) (hgrows : ∀ e, p.accounts.heldEvent u = some e →
      (p.events e).RegisteredWaits.length ≤ (p1.events e).RegisteredWaits.length) :
    point.Inside p1.events c := by
  cases point with
  | register i => exact h
  | sweep i k =>
    obtain ⟨e, hi, hk⟩ := h
    have hheld : p.accounts.heldEvent u = some e := (heldEvent_eq (multi_role hu)).trans hi
    exact ⟨e, hi, Nat.le_trans hk (hgrows e hheld)⟩
  | expired i k wfmo =>
    obtain ⟨e, hi, hk⟩ := h
    have hheld : p.accounts.heldEvent u = some e := (heldEvent_eq (multi_role hu)).trans hi
    exact ⟨e, hi, Nat.le_trans hk (hgrows e hheld)⟩
  | _ => trivial

theorem Process.Inside.move (h : p.Inside) {p1 : Process} (hthreads : p1.threads = p.threads)
    (hgrows : p.Grows p1 t)
    (hnew : ∀ c point, th = .WaitForMultipleEvents c point → point.Inside p1.events c) :
    (p1.move t th).Inside := by
  intro u c point hu
  change Function.update p1.threads t th u = _ at hu
  rw [Function.update_apply, hthreads] at hu
  split at hu
  case isTrue => exact hnew c point hu
  case isFalse hut => exact (h u c point hu).grows hu (fun e => hgrows u e hut)

theorem Process.Grows.same {p1 : Process} (h : p1.events = p.events) : p.Grows p1 t := by
  intro u e _ _
  rw [h]

/-- The list of an event that the thread holds the mutex of, or that keeps its
entries. -/
theorem Process.Grows.put (hS : p.Sound) {e : neosmart_event_t_} {p1 : Process}
    (hp1 : p1.events = Function.update p.events event e)
    (h : p.accounts.heldEvent t = some event ∨
      (p.events event).RegisteredWaits.length ≤ e.RegisteredWaits.length) : p.Grows p1 t := by
  intro u x hut hheld
  rw [hp1, Function.update_apply]
  split
  case isTrue heq =>
    subst heq
    rcases h with hown | hle
    · exact absurd (hS.accounts.events_held.unique hheld hown) hut
    · exact hle
  case isFalse => exact Nat.le_refl _

theorem Process.Inside.signal (h : p.Inside) (wfmo : neosmart_wfmo_t) : (p.signal wfmo).Inside := by
  intro u c point hu
  have hsignal : (p.threads u).signal wfmo = .WaitForMultipleEvents c point := hu
  unfold Thread.signal at hsignal
  split at hsignal
  · cases hsignal
    split <;> trivial
  · exact h u c point hsignal

theorem Process.Inside.broadcast (h : p.Inside) (event : neosmart_event_t) :
    (p.broadcast event).Inside := by
  intro u c point hu
  have hbroadcast : (p.threads u).broadcast event = .WaitForMultipleEvents c point := hu
  unfold Thread.broadcast at hbroadcast
  split at hbroadcast
  · cases hbroadcast
  · exact h u c point hbroadcast

theorem inside_next (hS : p.Sound) (hI : p.Inside) (h : Step p act p') : p'.Inside := by
  -- a thread of another call
  have hquiet : ∀ {t th}, (∀ c point, th ≠ Thread.WaitForMultipleEvents c point) →
      (p.move t th).Inside := fun hth => hI.move rfl (.same rfl) (fun c q hq => absurd hq (hth c q))
  have hheld : ∀ {t r e}, p.accounts.roles t = r → r.event = some e →
      p.accounts.heldEvent t = some e := fun h he => (heldEvent_eq h).trans he
  cases h with
  | CreateEvent manualReset initialState =>
    intro u c point hu
    have hold : p.threads u = .WaitForMultipleEvents c point := hu
    refine (hI u c point hold).grows hold (fun e he => ?_)
    have hne : e ≠ p.created := Nat.ne_of_lt (hS.accounts.made he)
    change _ ≤ (Function.update p.events p.created _ e).RegisteredWaits.length
    rw [Function.update_of_ne hne]
  | @call t c h hevents =>
    cases c with
    | WaitForMultipleEvents events waitAll milliseconds =>
      refine hI.move rfl (.same rfl) (fun c q hq => ?_)
      cases hq
      exact Nat.zero_le _
    | _ => exact hquiet nofun
  | ret h => exact hquiet nofun
  | reset h => exact hI.move rfl (.put hS rfl (Or.inr (Nat.le_refl _))) nofun
  | setLock h => exact hI.move rfl (.put hS rfl (Or.inr (Nat.le_refl _))) nofun
  | setExpired h => exact hI.move rfl (.put hS rfl (Or.inl (hheld (set_role h rfl) rfl))) nofun
  | setFired h => exact hI.move rfl (.put hS rfl (Or.inl (hheld (set_role h rfl) rfl))) nofun
  | setDestroy h => exact hI.move rfl (.same rfl) nofun
  | @setSignalOne t event wfmo h =>
    have hS' : (p.signal wfmo).Sound := by
      refine ⟨by rw [accounts_signal]; exact hS.accounts, fun u x hu => hS.named u x ?_⟩
      exact (named_signal (p.threads u)).symm.trans hu
    exact (hI.signal wfmo).move rfl (.put hS' rfl (Or.inr (Nat.le_refl _))) nofun
  | setSignalEach h => exact (hI.signal _).move rfl (.same rfl) nofun
  | setEmpty h => exact hI.move rfl (.put hS rfl (Or.inr (Nat.le_refl _))) nofun
  | setThrough h => exact hquiet nofun
  | @setWakeOne t t' event milliseconds h hauto hasleep =>
    have hwoken : (p.move t' (.WaitForEvent event milliseconds (.woken 0))).Inside := hquiet nofun
    exact hwoken.move rfl (.same rfl) nofun
  | setWakeNone h => exact hquiet nofun
  | setWakeAll h => exact (hI.broadcast _).move rfl (.same rfl) nofun
  | waitBusy h => exact hquiet nofun
  | waitObtained h => exact hI.move rfl (.put hS rfl (Or.inr (Nat.le_refl _))) nofun
  | waitNoTime h => exact hquiet nofun
  | waitSleep h => exact hquiet nofun
  | waitTimedOut h => exact hquiet nofun
  | @multiLock t c i event h hi =>
    refine hI.move rfl (.put hS rfl (Or.inr (Nat.le_refl _))) (fun c' q hq => ?_)
    cases hq
    exact ⟨event, hi, Nat.zero_le _⟩
  | @multiKeep t c i k event h hi hk =>
    refine hI.move rfl (.same rfl) (fun c' q hq => ?_)
    cases hq
    exact ⟨event, hi, hk⟩
  | @multiDrop t c i k event wait w h hi hk hw =>
    refine hI.move rfl (.put hS rfl (Or.inl (hheld (multi_role h) hi))) (fun c' q hq => ?_)
    have hlen : k ≤ ((p.events event).RegisteredWaits.eraseIdx k).length := by
      have hlt := (List.getElem?_eq_some_iff.mp hk).1
      rw [List.length_eraseIdx_of_lt hlt]
      omega
    have hlist : ((p.putWaiter wait.Waiter w.dropped).putEvent event
        ((p.events event).erase k)).events event = (p.events event).erase k :=
      Function.update_self _ _ _
    cases hq
    unfold MultiPoint.afterDrop
    split <;> exact ⟨event, hi, by rw [hlist]; exact hlen⟩
  | @multiExpired t c i k wfmo h =>
    refine hI.move rfl (.same rfl) (fun c' q hq => ?_)
    cases hq
    exact (hI t c _ h : (MultiPoint.expired i k wfmo).Inside p.events c)
  | @multiObtained t c i event w k h hi =>
    refine hI.move rfl (.put hS rfl (Or.inr (Nat.le_refl _))) (fun c' q hq => ?_)
    cases hq
    unfold MultiPoint.afterObtained
    split
    · exact (List.getElem?_eq_some_iff.mp hi).1
    · trivial
  | @multiRegister t c i event w k h hi =>
    refine hI.move rfl (.put hS rfl (Or.inl (hheld (multi_role h) hi))) (fun c' q hq => ?_)
    cases hq
    exact (List.getElem?_eq_some_iff.mp hi).1
  | multiFinish h =>
    refine hI.move rfl (.same rfl) (fun c' q hq => ?_)
    unfold Thread.afterFinish at hq
    split at hq <;> cases hq
    trivial
  | spuriousOne h => exact hquiet nofun
  | timedOutOne h => exact hquiet nofun
  | multiDestroy h => exact hI.move rfl (.same rfl) nofun
  | _ =>
    refine hI.move rfl (.same rfl) (fun c' q hq => ?_)
    cases hq
    trivial

theorem inside_reaches (h : Reaches Step Process.init acts p) : p.Inside := by
  have hI := h.invariant (fun _ p => p.Sound ∧ p.Inside) ⟨sound_init, nofun⟩
    (fun _ _ _ _ hI hs => ⟨sound_next hI.1 hs, inside_next hI.1 hI.2 hs⟩)
  exact hI.2

/-! ## Who has what it wants goes on -/

/-- No thread is about to signal a waiter that is deleted. -/
def Process.Signalling (p : Process) : Prop :=
  ∀ t event wfmo, p.threads t = .SetEvent event (.signal wfmo) → p.waiters wfmo ≠ none

theorem setLoop_steps (hS : p.Sound) (h : p.threads t = .SetEvent event .loop)
    (hready : Ready p.owner p.wants t) : p.Steps t := by
  cases hlist : (p.events event).RegisteredWaits with
  | nil =>
    by_cases hset : (p.events event).AutoReset = true → (p.events event).State = true
    · exact ⟨_, .setEmpty h hlist hset⟩
    · obtain ⟨hauto, hunset⟩ := Classical.not_imp.mp hset
      exact ⟨_, .setThrough h hlist hauto (Bool.not_eq_true _ ▸ hunset)⟩
  | cons i rest =>
    have hmem : i ∈ (p.accounts.events event).RegisteredWaits := by
      change i ∈ (p.events event).RegisteredWaits
      rw [hlist]
      exact List.mem_cons_self
    obtain ⟨w, hw⟩ := hS.accounts.listed hmem
    have hwants : p.wants t = some (.waiter i.Waiter) := by
      rw [wants_eq h, Thread.wants, SetPoint.wants, hlist]
      rfl
    have hfree : w.Mutex = none := (waiterOwner_eq hw).symm.trans (hready _ hwants)
    cases hwaits : w.StillWaiting with
    | true => exact ⟨_, .setFired h hlist hw hfree hwaits⟩
    | false => exact ⟨_, .setExpired h hlist hw hfree hwaits⟩

theorem set_steps (hS : p.Sound) (halive : p.Signalling) {point : SetPoint}
    (h : p.threads t = .SetEvent event point) (hready : Ready p.owner p.wants t) : p.Steps t := by
  cases point with
  | lock => exact ⟨_, .setLock h (hready (.event event) (wants_eq h))⟩
  | loop => exact setLoop_steps hS h hready
  | destroy wfmo => exact ⟨_, .setDestroy h⟩
  | signal wfmo =>
    cases hauto : (p.events event).AutoReset with
    | true => exact ⟨_, .setSignalOne h (halive t event wfmo h) hauto⟩
    | false => exact ⟨_, .setSignalEach h (halive t event wfmo h) hauto⟩
  | wake =>
    cases hauto : (p.events event).AutoReset with
    | true =>
      by_cases hasleep : ∃ t', (p.threads t').SleepsOn event
      · obtain ⟨t', milliseconds, ht'⟩ := hasleep
        exact ⟨_, .setWakeOne h hauto ht'⟩
      · exact ⟨_, .setWakeNone h hauto (fun t' ht' => hasleep ⟨t', ht'⟩)⟩
    | false => exact ⟨_, .setWakeAll h hauto⟩

theorem wait_steps {milliseconds : BitVec 64} {point : WaitPoint}
    (h : p.threads t = .WaitForEvent event milliseconds point) (hawake : point ≠ .asleep)
    (hready : Ready p.owner p.wants t) : p.Steps t := by
  cases point with
  | lock =>
    by_cases hno : milliseconds = 0
    · subst hno
      exact ⟨_, .waitBusy h⟩
    · have hfree := hready (.event event) ((wants_eq h).trans (if_neg hno))
      cases hset : (p.events event).State with
      | true => exact ⟨_, .waitObtained h (Or.inl rfl) hfree hset⟩
      | false => exact ⟨_, .waitSleep h (Or.inl ⟨rfl, hno⟩) hfree hset⟩
  | asleep => exact absurd rfl hawake
  | woken result =>
    have hfree := hready (.event event) (wants_eq h)
    by_cases hresult : result = 0
    · subst hresult
      cases hset : (p.events event).State with
      | true => exact ⟨_, .waitObtained h (Or.inr rfl) hfree hset⟩
      | false => exact ⟨_, .waitSleep h (Or.inr rfl) hfree hset⟩
    · exact ⟨_, .waitTimedOut h hresult hfree⟩

theorem register_steps (hw : p.waiters c.wfmo = some w) {i : Nat} (hi : i ≤ c.events.length)
    (h : p.threads t = .WaitForMultipleEvents c (.register i))
    (hready : Ready p.owner p.wants t) : p.Steps t := by
  cases he : c.events[i]? with
  | some event =>
    have hwants : p.wants t = some (.event event) := by
      rw [wants_eq h, Thread.wants, MultiPoint.wants, he]
      rfl
    exact ⟨_, .multiLock h he (hready _ hwants)⟩
  | none =>
    have hend : i = c.events.length := Nat.le_antisymm hi (List.getElem?_eq_none_iff.mp he)
    subst hend
    by_cases hno : c.milliseconds = 0
    · exact ⟨_, .multiNoTime h hno⟩
    · cases hdone : w.done with
      | true => exact ⟨_, .multiDone h hno hw hdone⟩
      | false => exact ⟨_, .multiSleep h hno hw hdone⟩

theorem sweep_steps (hw : p.waiters c.wfmo = some w) {i k : Nat}
    (hI : (MultiPoint.sweep i k).Inside p.events c)
    (h : p.threads t = .WaitForMultipleEvents c (.sweep i k)) : p.Steps t := by
  obtain ⟨event, hi, hk⟩ := hI
  rcases Nat.lt_or_eq_of_le hk with hlt | heq
  · exact ⟨_, .multiKeep h hi hlt⟩
  · cases hset : (p.events event).State with
    | true => exact ⟨_, .multiObtained h hi heq hset hw⟩
    | false => exact ⟨_, .multiRegister h hi heq hset hw⟩

theorem multi_steps (hS : p.Sound) (hI : p.Inside)
    (h : p.threads t = .WaitForMultipleEvents c point) (hawake : point ≠ .asleep)
    (hready : Ready p.owner p.wants t) : p.Steps t := by
  have halive : p.waiters c.wfmo ≠ none := hS.safe.called t c point h
  obtain ⟨w, hw⟩ := Option.ne_none_iff_exists'.mp halive
  cases point with
  | register i => exact register_steps hw (hI t c _ h) h hready
  | sweep i k => exact sweep_steps hw (hI t c _ h) h
  | expired i k wfmo => exact ⟨_, .multiExpired h⟩
  | asleep => exact absurd rfl hawake
  | woken result =>
    have hfree : w.Mutex = none :=
      (waiterOwner_eq (a := p.accounts) hw).symm.trans (hready (.waiter c.wfmo) (wants_eq h))
    by_cases hdone : result ≠ 0 ∨ w.done = true
    · exact ⟨_, .multiWokenDone h hw hfree hdone⟩
    · obtain ⟨hresult, hnot⟩ := not_or.mp hdone
      rw [not_not.mp hresult] at h
      exact ⟨_, .multiWokenSleep h hw hfree (Bool.not_eq_true _ ▸ hnot)⟩
  | finish result => exact ⟨_, .multiFinish h hw⟩
  | destroy result waitIndex => exact ⟨_, .multiDestroy h⟩

theorem ready_steps (hS : p.Sound) (hI : p.Inside) (halive : p.Signalling)
    (hbusy : (p.threads t).Busy) (hready : Ready p.owner p.wants t) : p.Steps t := by
  cases h : p.threads t with
  | idle =>
    rw [h] at hbusy
    exact hbusy.elim
  | ResetEvent event => exact ⟨_, .reset h (hready (.event event) (wants_eq h))⟩
  | SetEvent event point => exact set_steps hS halive h hready
  | WaitForEvent event milliseconds point =>
    rw [h] at hbusy
    exact wait_steps h hbusy hready
  | WaitForMultipleEvents c point =>
    rw [h] at hbusy
    exact multi_steps hS hI h hbusy hready
  | returned result waitIndex =>
    rw [h] at hbusy
    exact hbusy.elim

/-! ## The order of the mutexes -/

variable {order : neosmart_event_t → Nat}

/-- The calls in progress name their events in one order. -/
def Process.Ordered (order : neosmart_event_t → Nat) (p : Process) : Prop :=
  ∀ t c point, p.threads t = .WaitForMultipleEvents c point →
    c.events.Pairwise (fun e e' => order e < order e')

/-- A waiter comes behind the events that it is registered with. -/
def Process.behind (order : neosmart_event_t → Nat) (p : Process) (wfmo : neosmart_wfmo_t) : Nat :=
  (Finset.range p.created).sup fun e =>
    if ∃ i ∈ (p.events e).RegisteredWaits, i.Waiter = wfmo then order e + 1 else 0

/-- An event comes right behind the waiters that go to it next. -/
def Lock.rank (order : neosmart_event_t → Nat) (p : Process) : Lock → Nat
  | .event event => 2 * order event + 2
  | .waiter wfmo => 2 * p.behind order wfmo + 1

theorem behind_listed (hS : p.Sound) {i : neosmart_wfmo_info_t_}
    (hi : i ∈ (p.events event).RegisteredWaits) : order event + 1 ≤ p.behind order i.Waiter := by
  have hmade := (registrations_mem (a := p.accounts) hS.accounts.entries hi).1
  have hle := Finset.le_sup (f := fun e =>
    if ∃ j ∈ (p.events e).RegisteredWaits, j.Waiter = i.Waiter then order e + 1 else 0)
    (Finset.mem_range.mpr hmade)
  rwa [if_pos ⟨i, hi, rfl⟩] at hle

/-- A call looks at its next event, and its waiter is registered with events
before that one only. -/
theorem behind_looking (hS : p.Sound) (horder : p.Ordered order) {i : Nat}
    (h : p.threads t = .WaitForMultipleEvents c (.register i)) (hi : c.events[i]? = some event) :
    p.behind order c.wfmo ≤ order event := by
  refine Finset.sup_le (fun e _ => ?_)
  split
  case isTrue hlisted =>
    obtain ⟨j, hj, heq⟩ := hlisted
    have hrole := multi_role h
    obtain ⟨hplace, hbefore⟩ := hS.accounts.entries.placed e j t c hj (call_eq hrole) heq
    rw [hrole] at hbefore
    obtain ⟨hlt, hget⟩ := List.getElem?_eq_some_iff.mp hi
    obtain ⟨hlt', hget'⟩ := List.getElem?_eq_some_iff.mp hplace
    have hrank := List.pairwise_iff_getElem.mp (horder t c _ h) _ _ hlt' hlt hbefore
    rwa [hget, hget'] at hrank
  case isFalse => exact Nat.zero_le _

/-- The locks that a thread wants come behind the one it holds. -/
theorem wants_behind (hS : p.Sound) (horder : p.Ordered order) {l l' : Lock}
    (hheld : p.owner l = some t) (hwants : p.wants t = some l') :
    l.rank order p < l'.rank order p := by
  cases l with
  | event e =>
    have hrole : (p.threads t).role.event = some e := (hS.accounts.events_held e t).mp hheld
    unfold Process.wants at hwants
    cases hth : p.threads t with
    | SetEvent x point =>
      rw [hth] at hrole hwants
      cases point with
      | loop =>
        cases hrole
        obtain ⟨i, hhead, rfl⟩ := Option.map_eq_some_iff.mp hwants
        have hle : order e + 1 ≤ p.behind order i.Waiter :=
          behind_listed hS (List.mem_of_head? hhead)
        change 2 * order e + 2 < 2 * p.behind order i.Waiter + 1
        omega
      | lock => cases hrole
      | _ => cases hwants
    | WaitForMultipleEvents c point =>
      rw [hth] at hrole hwants
      cases point with
      | sweep i k => cases hwants
      | expired i k wfmo => cases hwants
      | _ => cases hrole
    | _ =>
      rw [hth] at hrole
      cases hrole
  | waiter wfmo =>
    have hrole : (p.threads t).role.waiter = some wfmo := (hS.accounts.waiters_held wfmo t).mp hheld
    unfold Process.wants at hwants
    cases hth : p.threads t with
    | SetEvent x point =>
      rw [hth] at hrole
      cases point <;> cases hrole
    | WaitForMultipleEvents c point =>
      rw [hth] at hrole hwants
      cases point with
      | register i =>
        cases hrole
        obtain ⟨e, hi, rfl⟩ := Option.map_eq_some_iff.mp hwants
        have hle := behind_looking hS horder hth hi
        change 2 * p.behind order c.wfmo + 1 < 2 * order e + 2
        omega
      | woken result => cases hrole
      | _ => cases hwants
    | _ =>
      rw [hth] at hrole
      cases hrole

/-- Threads want locks of events that were created. -/
theorem wants_made (hS : p.Sound) (hwants : p.wants t = some (.event event)) :
    event < p.created := by
  unfold Process.wants at hwants
  have hnamed : (p.threads t).named = some event → event < p.created := hS.named t event
  cases hth : p.threads t with
  | ResetEvent x =>
    rw [hth] at hwants hnamed
    cases hwants
    exact hnamed rfl
  | SetEvent x point =>
    rw [hth] at hwants hnamed
    cases point with
    | lock =>
      cases hwants
      exact hnamed rfl
    | loop =>
      obtain ⟨i, -, hi⟩ := Option.map_eq_some_iff.mp hwants
      cases hi
    | _ => cases hwants
  | WaitForEvent x milliseconds point =>
    rw [hth] at hwants hnamed
    cases point with
    | lock =>
      obtain ⟨-, hwants⟩ := Option.ite_none_left_eq_some.mp hwants
      cases hwants
      exact hnamed rfl
    | asleep => cases hwants
    | woken result =>
      cases hwants
      exact hnamed rfl
  | WaitForMultipleEvents c point =>
    rw [hth] at hwants
    cases point with
    | register i =>
      obtain ⟨e, hi, he⟩ := Option.map_eq_some_iff.mp hwants
      cases he
      exact hS.accounts.calls.valid t c (call_eq (multi_role hth)) event (List.mem_of_getElem? hi)
    | _ => cases hwants
  | _ =>
    rw [hth] at hwants
    cases hwants

theorem rank_bounded (hS : p.Sound) {l : Lock} (hwants : p.wants t = some l) :
    l.rank order p ≤ 2 * (Finset.range p.created).sup (fun e => order e + 1) + 2 := by
  cases l with
  | event e =>
    have hle : order e + 1 ≤ (Finset.range p.created).sup (fun e => order e + 1) :=
      Finset.le_sup (f := fun e => order e + 1) (Finset.mem_range.mpr (wants_made hS hwants))
    change 2 * order e + 2 ≤ _
    omega
  | waiter wfmo =>
    have hle : p.behind order wfmo ≤ (Finset.range p.created).sup (fun e => order e + 1) := by
      refine Finset.sup_mono_fun (fun e _ => ?_)
      split
      · exact Nat.le_refl _
      · exact Nat.zero_le _
    change 2 * p.behind order wfmo + 1 ≤ _
    omega

/-- Who holds a mutex is in a call, and does not sleep. -/
theorem owner_busy (hS : p.Sound) {l : Lock} (hheld : p.owner l = some t) :
    (p.threads t).Busy := by
  have hrole : (p.threads t).role.event ≠ none ∨ (p.threads t).role.waiter ≠ none := by
    cases l with
    | event e =>
      have heq : (p.threads t).role.event = some e := (hS.accounts.events_held e t).mp hheld
      exact Or.inl (by rw [heq]; nofun)
    | waiter wfmo =>
      have heq : (p.threads t).role.waiter = some wfmo := (hS.accounts.waiters_held wfmo t).mp hheld
      exact Or.inr (by rw [heq]; nofun)
  cases hth : p.threads t with
  | SetEvent x point => trivial
  | WaitForMultipleEvents c point =>
    rintro rfl
    rw [hth] at hrole
    rcases hrole with h | h <;> exact h rfl
  | _ =>
    rw [hth] at hrole
    rcases hrole with h | h <;> exact absurd rfl h

theorem someone_steps (h : Reaches Step Process.init acts p) (halive : p.Signalling)
    (horder : p.Ordered order) (hbusy : (p.threads t).Busy) : ∃ u, p.Steps u := by
  have hS := sound_reaches h
  have hI := inside_reaches h
  rcases ready_or_waits p.owner p.wants t with hready | ⟨l, u, -, hu⟩
  · exact ⟨t, ready_steps hS hI halive hbusy hready⟩
  · obtain ⟨l', u', hu', hready⟩ := someone_is_ready (Lock.rank order p) _
      (fun _ _ hwants => rank_bounded hS hwants)
      (fun _ _ _ hheld hwants => wants_behind hS horder hheld hwants) hu
    exact ⟨u', ready_steps hS hI halive (owner_busy hS hu') hready⟩

/-- While the calls in progress name their events in one order, and no thread
signals a deleted waiter, some thread goes on as long as one is in a call and not
asleep. -/
theorem no_deadlock (h : Reaches Step Process.init acts p) (halive : p.Signalling)
    (horder : p.Ordered order) (hbusy : (p.threads t).Busy) : ∃ u, p.Steps u :=
  someone_steps h halive horder hbusy

theorem hand_over_goes_on : ∃ p, Reaches Step Process.init (handOver.take 8) p ∧
    p.owner (.event 0) = some 1 ∧ ∃ u, p.Steps u := by
  have hrun : Reaches Step Process.init (handOver.take 8) _ :=
    Reaches.start.steps step_step (handOver.take 8) rfl
  have hbusy : (Thread.SetEvent 0 (.signal 0)).Busy := trivial
  refine ⟨_, hrun, rfl, no_deadlock hrun (t := 1) ?_ (?_ : Process.Ordered id _) hbusy⟩
  · intro t event wfmo ht
    rcases t with _ | _ | t <;> cases ht
    nofun
  · intro t c point ht
    rcases t with _ | _ | t <;> cases ht
    exact List.pairwise_singleton _ _

/-- A thread that waits for a mutex that is taken takes no step. -/
theorem not_steps {l : Lock} (hwants : p.wants t = some l) (hheld : p.owner l = some u) :
    ¬ p.Steps t := by
  rintro ⟨p', hstep⟩
  cases hheld.symm.trans (hstep.ready.2 l hwants)

theorem idle_not_steps (h : p.threads t = .idle) : ¬ p.Steps t := by
  rintro ⟨p', hstep⟩
  have hbusy := hstep.ready.1
  rwa [h] at hbusy

/-- Two calls name two events in opposite orders, and both events are set. -/
def opposite : List Action :=
  [.created false false, .created false false,
    .call 0 (.WaitForMultipleEvents [0, 1] false INFINITE), .step 0, .step 0,
    .call 1 (.WaitForMultipleEvents [1, 0] false INFINITE), .step 1, .step 1,
    .call 2 (.SetEvent 0), .step 2, .call 3 (.SetEvent 1), .step 3]

theorem opposite_orders_deadlock : ∃ p, Reaches Step Process.init opposite p ∧ p.Signalling ∧
    (p.threads 0).Busy ∧ ∀ t, ¬ p.Steps t := by
  refine ⟨_, Reaches.start.steps step_step opposite rfl, ?_, nofun, ?_⟩
  · intro t event wfmo ht
    rcases t with _ | _ | _ | _ | t <;> cases ht
  · intro t
    rcases t with _ | _ | _ | _ | t
    · exact not_steps (l := .event 1) (u := 3) rfl rfl
    · exact not_steps (l := .event 0) (u := 2) rfl rfl
    · exact not_steps (l := .waiter 0) (u := 0) rfl rfl
    · exact not_steps (l := .waiter 1) (u := 1) rfl rfl
    · exact idle_not_steps rfl

/-- One call names an event twice, and the event is set. -/
def twice : List Action :=
  [.created false false, .call 0 (.WaitForMultipleEvents [0, 0] false INFINITE), .step 0, .step 0,
    .call 1 (.SetEvent 0), .step 1]

theorem an_event_twice_deadlocks : ∃ p, Reaches Step Process.init twice p ∧ p.Signalling ∧
    (p.threads 0).Busy ∧ ∀ t, ¬ p.Steps t := by
  refine ⟨_, Reaches.start.steps step_step twice rfl, ?_, nofun, ?_⟩
  · intro t event wfmo ht
    rcases t with _ | _ | t <;> cases ht
  · intro t
    rcases t with _ | _ | t
    · exact not_steps (l := .event 0) (u := 1) rfl rfl
    · exact not_steps (l := .waiter 0) (u := 0) rfl rfl
    · exact idle_not_steps rfl

end payloader.pevents
