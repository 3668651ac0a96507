-- What the specification of the events knows of their threads and waiters. An
-- event that resets itself is set when `SetEvent` has gone through its list, or
-- hands it to a waiter: the waiter takes it right then.
import Payloader.Simulations
import Payloader.PeventsSpec
import Payloader.PeventsSound

set_option autoImplicit false

namespace payloader.pevents

open payloader.machines payloader.simulations payloader.locks payloader.references

/-! ## The threads -/

def Wait.toCall (c : Wait) : Call := .WaitForMultipleEvents c.events c.waitAll c.milliseconds

/-- What `SetEvent` has done at a point. -/
def SetPoint.did (AutoReset : Bool) : SetPoint → Finset Nat
  | .lock => ∅
  | .loop => if AutoReset then ∅ else {0}
  | .destroy _ => if AutoReset then ∅ else {0}
  | .signal _ => {0}
  | .wake => {0}

/-- The waiter of a call that has got the events at some places. It is in the
list of each other event that the call has looked at, as long as it waits. -/
structure Going (events : neosmart_event_t → neosmart_event_t_) (w : neosmart_wfmo_t_) (c : Wait)
    (looked : Nat) (got : Finset Nat) : Prop where
  status : Shows c.waitAll c.events.length got w.Status
  within : ∀ i ∈ got, i < looked
  unlisted : ∀ e i, { Waiter := c.wfmo, WaitIndex := i } ∈ (events e).RegisteredWaits → i ∉ got
  waits : c.waitAll = true ∨ got = ∅ → w.StillWaiting = true
  listed : c.waitAll = true ∨ got = ∅ → ∀ i e, i < looked → c.events[i]? = some e → i ∉ got →
    { Waiter := c.wfmo, WaitIndex := i } ∈ (events e).RegisteredWaits
  first : c.waitAll = false → w.StillWaiting = true → w.Mutex = none → got = ∅

/-- What holds of a call at its point. -/
def MultiPoint.Fits (c : Wait) (got : Finset Nat) : MultiPoint → Prop
  | .register _ => c.waitAll = false → got = ∅
  | .sweep _ _ => c.waitAll = false → got = ∅
  | .expired _ _ _ => c.waitAll = false → got = ∅
  | .asleep => c.milliseconds ≠ 0
  | .woken result => c.milliseconds ≠ 0 ∧
      (result = 0 ∨ (result = WAIT_TIMEOUT ∧ c.milliseconds ≠ INFINITE))
  | .finish result =>
      (result = 0 ∧ Got c.waitAll c.events.length got ∧
          (c.waitAll = true → c.milliseconds ≠ 0)) ∨
        (result = WAIT_TIMEOUT ∧ c.milliseconds ≠ INFINITE ∧
          (c.waitAll = false → got ≠ ∅ → c.milliseconds ≠ 0))
  | .destroy _ _ => False

/-- A thread and what the specification knows of it. -/
inductive Plays (events : neosmart_event_t → neosmart_event_t_)
    (waiters : neosmart_wfmo_t → Option neosmart_wfmo_t_) : Thread → Party → Prop
  | idle : Plays events waiters .idle .idle
  | ResetEvent (event : neosmart_event_t) :
      Plays events waiters (.ResetEvent event) (.calling (.ResetEvent event) ∅)
  | SetEvent (event : neosmart_event_t) (point : SetPoint) :
      Plays events waiters (.SetEvent event point)
        (.calling (.SetEvent event) (point.did (events event).AutoReset))
  | WaitForEvent {event : neosmart_event_t} {milliseconds : BitVec 64} {point : WaitPoint}
      (hwoken : ∀ result, point = .woken result →
        result = 0 ∨ (result = WAIT_TIMEOUT ∧ milliseconds ≠ INFINITE)) :
      Plays events waiters (.WaitForEvent event milliseconds point)
        (.calling (.WaitForEvent event milliseconds) ∅)
  | going {c : Wait} {point : MultiPoint} {got : Finset Nat} {w : neosmart_wfmo_t_}
      (hw : waiters c.wfmo = some w) (hgoing : Going events w c (point.role c).looked got)
      (hpoint : point.Fits c got) :
      Plays events waiters (.WaitForMultipleEvents c point) (.calling c.toCall got)
  | destroying {c : Wait} {did : Finset Nat} {result waitIndex : Int}
      (hret : c.toCall.Returns did result waitIndex) :
      Plays events waiters (.WaitForMultipleEvents c (.destroy result waitIndex))
        (.calling c.toCall did)
  | returned {c : Call} {did : Finset Nat} {result waitIndex : Int}
      (hret : c.Returns did result waitIndex) :
      Plays events waiters (.returned result waitIndex) (.calling c did)

/-! ## What a step leaves to other calls -/

/-- A waiter goes on in its call, whatever else has happened. -/
structure Keeps (events events' : neosmart_event_t → neosmart_event_t_)
    (waiters waiters' : neosmart_wfmo_t → Option neosmart_wfmo_t_) (wfmo : neosmart_wfmo_t) :
    Prop where
  waiter : ∀ w, waiters wfmo = some w → ∃ w', waiters' wfmo = some w' ∧ w'.Status = w.Status ∧
    w'.StillWaiting = w.StillWaiting ∧ w'.Mutex = w.Mutex
  listed : ∀ w, waiters wfmo = some w → w.StillWaiting = true → ∀ e i, i.Waiter = wfmo →
    i ∈ (events e).RegisteredWaits → i ∈ (events' e).RegisteredWaits
  unlisted : ∀ e i, i.Waiter = wfmo → i ∈ (events' e).RegisteredWaits →
    i ∈ (events e).RegisteredWaits

section frames

variable {events events' events'' : neosmart_event_t → neosmart_event_t_}
variable {waiters waiters' waiters'' : neosmart_wfmo_t → Option neosmart_wfmo_t_}
variable {wfmo x : neosmart_wfmo_t} {event : neosmart_event_t} {e : neosmart_event_t_}
variable {w w' : neosmart_wfmo_t_} {c : Wait} {looked : Nat} {got : Finset Nat}

theorem Keeps.trans (h : Keeps events events' waiters waiters' wfmo)
    (h' : Keeps events' events'' waiters' waiters'' wfmo) :
    Keeps events events'' waiters waiters'' wfmo := by
  constructor
  case waiter =>
    intro w hw
    obtain ⟨w1, hw1, hstatus1, hstill1, hmutex1⟩ := h.waiter w hw
    obtain ⟨w2, hw2, hstatus2, hstill2, hmutex2⟩ := h'.waiter w1 hw1
    exact ⟨w2, hw2, hstatus2.trans hstatus1, hstill2.trans hstill1, hmutex2.trans hmutex1⟩
  case listed =>
    intro w hw hs e i hi hmem
    obtain ⟨w1, hw1, -, hstill1, -⟩ := h.waiter w hw
    exact h'.listed w1 hw1 (hstill1.trans hs) e i hi (h.listed w hw hs e i hi hmem)
  case unlisted => exact fun e i hi hmem => h.unlisted e i hi (h'.unlisted e i hi hmem)

/-- Another waiter changes, or is deleted. -/
theorem Keeps.other (hne : wfmo ≠ x) {w : Option neosmart_wfmo_t_} :
    Keeps events events waiters (Function.update waiters x w) wfmo := by
  refine ⟨?_, fun _ _ _ _ _ _ hi => hi, fun _ _ _ hi => hi⟩
  intro w0 hw0
  rw [Function.update_of_ne hne]
  exact ⟨w0, hw0, rfl, rfl, rfl⟩

/-- A waiter that is only counted. -/
theorem Keeps.counted (hw : waiters x = some w) (hstatus : w'.Status = w.Status)
    (hstill : w'.StillWaiting = w.StillWaiting) (hmutex : w'.Mutex = w.Mutex) :
    Keeps events events waiters (Function.update waiters x (some w')) wfmo := by
  by_cases hne : wfmo = x
  · subst hne
    refine ⟨?_, fun _ _ _ _ _ _ hi => hi, fun _ _ _ hi => hi⟩
    intro w0 hw0
    cases hw.symm.trans hw0
    exact ⟨w', Function.update_self _ _ _, hstatus, hstill, hmutex⟩
  · exact .other hne

/-- The entries of the waiter in one list stay, and there are no new ones. -/
theorem Keeps.entries
    (hkept : ∀ w, waiters wfmo = some w → w.StillWaiting = true → ∀ i, i.Waiter = wfmo →
      i ∈ (events event).RegisteredWaits → i ∈ e.RegisteredWaits)
    (hsub : ∀ i, i.Waiter = wfmo → i ∈ e.RegisteredWaits → i ∈ (events event).RegisteredWaits) :
    Keeps events (Function.update events event e) waiters waiters wfmo := by
  refine ⟨fun w hw => ⟨w, hw, rfl, rfl, rfl⟩, ?_, ?_⟩
  · intro w hw hs y i hi hmem
    rw [Function.update_apply]
    split
    case isTrue heq =>
      subst heq
      exact hkept w hw hs i hi hmem
    case isFalse => exact hmem
  · intro y i hi hmem
    rw [Function.update_apply] at hmem
    split at hmem
    case isTrue heq =>
      subst heq
      exact hsub i hi hmem
    case isFalse => exact hmem

theorem Keeps.list (hsame : e.RegisteredWaits = (events event).RegisteredWaits) :
    Keeps events (Function.update events event e) waiters waiters wfmo := by
  apply Keeps.entries
  · rw [hsame]
    exact fun _ _ _ _ _ hi => hi
  · rw [hsame]
    exact fun _ _ hi => hi

/-- An entry of another waiter, or of one that does not wait, leaves its list. -/
theorem Keeps.erase {k : Nat} {i : neosmart_wfmo_info_t_}
    (hk : (events event).RegisteredWaits[k]? = some i)
    (he : e.RegisteredWaits = (events event).RegisteredWaits.eraseIdx k)
    (hout : i.Waiter = wfmo → ∀ w, waiters wfmo = some w → w.StillWaiting = false) :
    Keeps events (Function.update events event e) waiters waiters wfmo := by
  apply Keeps.entries
  · intro w hw hs j hj hmem
    have hne : j ≠ i := by
      rintro rfl
      cases hs.symm.trans (hout hj w hw)
    obtain ⟨n, hn, hget⟩ := List.mem_iff_getElem.mp hmem
    rw [he, List.mem_eraseIdx_iff_getElem]
    refine ⟨n, hn, ?_, hget⟩
    rintro rfl
    rw [List.getElem?_eq_getElem hn, hget] at hk
    exact hne (Option.some.inj hk)
  · intro j _ hmem
    rw [he] at hmem
    exact List.mem_of_mem_eraseIdx hmem

/-- The list of an event drops a waiter that does not wait. -/
theorem Keeps.drop {k : Nat} {i : neosmart_wfmo_info_t_}
    (hk : (events event).RegisteredWaits[k]? = some i)
    (he : e.RegisteredWaits = (events event).RegisteredWaits.eraseIdx k)
    (hw : waiters i.Waiter = some w) (hexpired : w.StillWaiting = false) :
    Keeps events (Function.update events event e) waiters
      (Function.update waiters i.Waiter (some w.dropped)) wfmo := by
  have hcounted : Keeps events events waiters (Function.update waiters i.Waiter (some w.dropped))
      wfmo := Keeps.counted hw rfl rfl rfl
  refine hcounted.trans (Keeps.erase hk he ?_)
  intro heq w' hw'
  rw [← heq, Function.update_self] at hw'
  cases hw'
  exact hexpired

theorem Keeps.push {i : neosmart_wfmo_info_t_}
    (he : e.RegisteredWaits = (events event).RegisteredWaits ++ [i]) (hne : i.Waiter ≠ wfmo) :
    Keeps events (Function.update events event e) waiters waiters wfmo := by
  apply Keeps.entries
  · intro _ _ _ j _ hmem
    rw [he]
    exact List.mem_append_left _ hmem
  · intro j hj hmem
    rw [he] at hmem
    rcases List.mem_append.mp hmem with hold | hnew
    · exact hold
    · rw [List.mem_singleton.mp hnew] at hj
      exact absurd hj hne

/-! ## The places that a wait gets -/

theorem shows_counted {i : Nat} (h : Shows c.waitAll c.events.length got w.Status)
    (hall : w.WaitAll = c.waitAll) (hnot : i ∉ got) (hany : c.waitAll = false → got = ∅) :
    Shows c.waitAll c.events.length (insert i got) (w.counted i).Status := by
  have hcounted : (w.counted i).Status = if w.WaitAll then w.Status - 1 else i := rfl
  unfold Shows at h ⊢
  rw [hcounted, hall]
  cases hc : c.waitAll with
  | true =>
    rw [hc, if_pos rfl] at h
    rw [if_pos rfl, if_pos rfl, h, Finset.card_insert_of_notMem hnot]
    omega
  | false =>
    rw [hany hc]
    exact Or.inr ⟨i, rfl, rfl⟩

/-- A wait gets the event at place `i`. It is not in the list of that event, or
not any more. -/
theorem Going.gets {looked' i : Nat} (h : Going events w c looked got)
    (hall : w.WaitAll = c.waitAll) (hnot : i ∉ got) (hany : c.waitAll = false → got = ∅)
    (hstatus : w'.Status = (w.counted i).Status) (hstill : c.waitAll = true →
      w'.StillWaiting = w.StillWaiting) (hlt : i < looked') (hle : looked ≤ looked')
    (hmore : c.waitAll = true → ∀ j, j < looked' → j ≠ i → j < looked)
    (hgone : ∀ e j, { Waiter := c.wfmo, WaitIndex := j } ∈ (events' e).RegisteredWaits →
      j ≠ i ∧ { Waiter := c.wfmo, WaitIndex := j } ∈ (events e).RegisteredWaits)
    (hkept : ∀ e j, j ≠ i → { Waiter := c.wfmo, WaitIndex := j } ∈ (events e).RegisteredWaits →
      { Waiter := c.wfmo, WaitIndex := j } ∈ (events' e).RegisteredWaits)
    (hquiet : c.waitAll = false → w'.StillWaiting = true → w'.Mutex ≠ none) :
    Going events' w' c looked' (insert i got) := by
  constructor
  case status =>
    rw [hstatus]
    exact shows_counted h.status hall hnot hany
  case within =>
    intro j hj
    rcases Finset.mem_insert.mp hj with rfl | hj
    · exact hlt
    · exact Nat.lt_of_lt_of_le (h.within j hj) hle
  case unlisted =>
    intro e j hmem hj
    obtain ⟨hne, hold⟩ := hgone e j hmem
    exact h.unlisted e j hold ((Finset.mem_insert.mp hj).resolve_left hne)
  case waits =>
    intro hwhich
    have hwait : c.waitAll = true := hwhich.resolve_right (Finset.insert_ne_empty i got)
    exact (hstill hwait).trans (h.waits (Or.inl hwait))
  case listed =>
    intro hwhich j e hj hi hj'
    have hwait : c.waitAll = true := hwhich.resolve_right (Finset.insert_ne_empty i got)
    rw [Finset.mem_insert, not_or] at hj'
    exact hkept e j hj'.1
      (h.listed (Or.inl hwait) j e (hmore hwait j hj hj'.1) hi hj'.2)
  case first => exact fun hc hs hnone => absurd hnone (hquiet hc hs)

theorem done_got (h : Shows c.waitAll c.events.length got w.Status)
    (hwithin : ∀ i ∈ got, i < c.events.length) (hall : w.WaitAll = c.waitAll) :
    w.done = true ↔ Got c.waitAll c.events.length got := by
  unfold Shows at h
  unfold neosmart_wfmo_t_.done Got
  rw [hall]
  cases hc : c.waitAll with
  | true =>
    rw [hc, if_pos rfl] at h
    simp only [Bool.true_and, Bool.not_true, Bool.false_and, Bool.or_false, beq_iff_eq, if_true]
    have hsub : got ⊆ Finset.range c.events.length :=
      fun i hi => Finset.mem_range.mpr (hwithin i hi)
    rw [h]
    constructor
    · intro hzero
      refine Finset.eq_of_subset_of_card_le hsub ?_
      rw [Finset.card_range]
      omega
    · rintro rfl
      rw [Finset.card_range]
      omega
  | false =>
    rw [hc] at h
    simp only [Bool.false_and, Bool.not_false, Bool.true_and, Bool.false_or, bne_iff_ne]
    rcases h with ⟨rfl, hs⟩ | ⟨i, rfl, hs⟩
    · rw [hs]
      simp
    · rw [hs]
      simp

/-! ## The other calls -/

theorem Going.keep (h : Going events w c looked got) (hw : waiters c.wfmo = some w)
    (hkeeps : Keeps events events' waiters waiters' c.wfmo) :
    ∃ w', waiters' c.wfmo = some w' ∧ Going events' w' c looked got := by
  obtain ⟨w', hw', hstatus, hstill, hmutex⟩ := hkeeps.waiter w hw
  refine ⟨w', hw', ⟨hstatus ▸ h.status, h.within,
    fun e i hi => h.unlisted e i (hkeeps.unlisted e _ rfl hi),
    fun hwhich => hstill.trans (h.waits hwhich), ?_, ?_⟩⟩
  · intro hwhich i e hlt hi hnot
    exact hkeeps.listed w hw (h.waits hwhich) e _ rfl (h.listed hwhich i e hlt hi hnot)
  · rw [hstill, hmutex]
    exact h.first

theorem Plays.keep {th : Thread} {x : Party} (h : Plays events waiters th x)
    (hauto : ∀ event point, th = .SetEvent event point →
      (events' event).AutoReset = (events event).AutoReset)
    (hkeeps : ∀ c point, th = .WaitForMultipleEvents c point → (point.role c).call = some c →
      Keeps events events' waiters waiters' c.wfmo) : Plays events' waiters' th x := by
  cases h with
  | idle => exact .idle
  | ResetEvent event => exact .ResetEvent event
  | SetEvent event point =>
    rw [← hauto event point rfl]
    exact .SetEvent event point
  | WaitForEvent hwoken => exact .WaitForEvent hwoken
  | @going c point got w hw hgoing hpoint =>
    have hcall : (point.role c).call = some c := by
      cases point with
      | destroy result waitIndex => cases hpoint
      | _ => rfl
    obtain ⟨w', hw', hgoing'⟩ := hgoing.keep hw (hkeeps c point rfl hcall)
    exact .going hw' hgoing' hpoint
  | destroying hret => exact .destroying hret
  | returned hret => exact .returned hret

/-- A thread that is signalled wakes up. -/
theorem Plays.woken {x : Party} {result : Int}
    (h : Plays events waiters (.WaitForMultipleEvents c .asleep) x)
    (hresult : result = 0 ∨ (result = WAIT_TIMEOUT ∧ c.milliseconds ≠ INFINITE)) :
    Plays events waiters (.WaitForMultipleEvents c (.woken result)) x := by
  cases h with
  | going hw hgoing hpoint => exact .going hw hgoing ⟨hpoint, hresult⟩

theorem Plays.signal {th : Thread} {x : Party} (h : Plays events waiters th x) :
    Plays events waiters (th.signal wfmo) x := by
  unfold Thread.signal
  split
  · split
    · exact h.woken (Or.inl rfl)
    · exact h
  · exact h

theorem Plays.wake {milliseconds : BitVec 64} {x : Party} {result : Int} {point : WaitPoint}
    (h : Plays events waiters (.WaitForEvent event milliseconds point) x)
    (hresult : result = 0 ∨ (result = WAIT_TIMEOUT ∧ milliseconds ≠ INFINITE)) :
    Plays events waiters (.WaitForEvent event milliseconds (.woken result)) x := by
  cases h with
  | WaitForEvent _ =>
    refine .WaitForEvent ?_
    rintro _ ⟨⟩
    exact hresult

theorem Plays.broadcast {th : Thread} {x : Party} (h : Plays events waiters th x) :
    Plays events waiters (th.broadcast event) x := by
  unfold Thread.broadcast
  split
  · split
    · exact h.wake (Or.inl rfl)
    · exact h
  · exact h

end frames

/-! ## What is set -/

/-- A thread sets an event that resets itself, and nobody has seen it yet. -/
def Accounts.Raising (a : Accounts) (event : neosmart_event_t) : Prop :=
  ∃ t point, a.roles t = .setting event point ∧ point.did (a.events event).AutoReset = ∅

structure Lit (a : Accounts) (set : neosmart_event_t → Bool) : Prop where
  shown : ∀ e, ¬ a.Raising e → set e = (a.events e).State
  raising : ∀ e, a.Raising e → set e = true → (a.events e).RegisteredWaits = []

section lit

variable {a : Accounts} {t : Tid} {r : Role} {event : neosmart_event_t} {e : neosmart_event_t_}
variable {set : neosmart_event_t → Bool} {b : Bool}

/-- A step of a thread that sets no event. -/
theorem Lit.role (h : Lit a set) (h0 : ∀ x point, a.roles t ≠ .setting x point)
    (hr : ∀ x point, r ≠ .setting x point) : Lit (a.role t r) set := by
  have hraising : ∀ x, (a.role t r).Raising x ↔ a.Raising x := by
    intro x
    constructor
    · rintro ⟨u, point, hu, hdid⟩
      rw [roles_role] at hu
      split at hu
      · exact absurd hu (hr x point)
      · exact ⟨u, point, hu, hdid⟩
    · rintro ⟨u, point, hu, hdid⟩
      refine ⟨u, point, ?_, hdid⟩
      have hne : u ≠ t := by
        rintro rfl
        exact h0 x point hu
      rw [roles_role, if_neg hne, hu]
  exact ⟨fun x hx => h.shown x (fun hold => hx ((hraising x).mpr hold)),
    fun x hx => h.raising x ((hraising x).mp hx)⟩

/-- A step of a thread on an event that no other thread sets. -/
theorem Lit.next (h : Lit a set) (hnone : ∀ u point, u ≠ t → a.roles u ≠ .setting event point)
    (h0 : ∀ x point, a.roles t = .setting x point → x = event)
    (hr : ∀ x point, r = .setting x point → x = event)
    (hshown : (∀ point, r = .setting event point → point.did e.AutoReset ≠ ∅) → b = e.State)
    (hraising : ∀ point, r = .setting event point → point.did e.AutoReset = ∅ → b = true →
      e.RegisteredWaits = []) :
    Lit ((a.putEvent event e).role t r) (Function.update set event b) := by
  have hself : ∀ point, r = .setting event point → point.did e.AutoReset = ∅ →
      ((a.putEvent event e).role t r).Raising event := by
    intro point hpoint hdid
    refine ⟨t, point, ?_, ?_⟩
    · rw [roles_role, if_pos rfl, hpoint]
    · rw [events_role, events_putEvent, if_pos rfl, hdid]
  have hother : ∀ x, x ≠ event → (((a.putEvent event e).role t r).Raising x ↔ a.Raising x) := by
    intro x hx
    unfold Accounts.Raising
    rw [events_role, events_putEvent, if_neg hx]
    refine exists_congr (fun u => exists_congr (fun point => and_congr_left' ?_))
    rw [roles_role]
    split
    case isTrue heq =>
      subst heq
      exact ⟨fun hp => absurd (hr x point hp) hx, fun hp => absurd (h0 x point hp) hx⟩
    case isFalse => exact Iff.rfl
  constructor
  · intro x hx
    rw [events_role, events_putEvent, Function.update_apply]
    split
    case isTrue heq =>
      subst heq
      exact hshown (fun point hpoint hdid => hx (hself point hpoint hdid))
    case isFalse hne => exact h.shown x (fun hold => hx ((hother x hne).mpr hold))
  · intro x hx
    rw [events_role, events_putEvent, Function.update_apply]
    split
    case isTrue heq =>
      subst heq
      obtain ⟨u, point, hu, hdid⟩ := hx
      rw [events_role, events_putEvent, if_pos rfl] at hdid
      rw [roles_role] at hu
      split at hu
      case isTrue => exact hraising point hu hdid
      case isFalse hne => exact absurd hu (hnone u point hne)
    case isFalse hne => exact h.raising x ((hother x hne).mp hx)

/-- What the specification knows of the event does not change. -/
theorem Lit.stay (h : Lit a set) (hnone : ∀ u point, u ≠ t → a.roles u ≠ .setting event point)
    (h0 : ∀ x point, a.roles t = .setting x point → x = event)
    (hr : ∀ x point, r = .setting x point → x = event)
    (hshown : (∀ point, r = .setting event point → point.did e.AutoReset ≠ ∅) →
      set event = e.State)
    (hraising : ∀ point, r = .setting event point → point.did e.AutoReset = ∅ → set event = true →
      e.RegisteredWaits = []) : Lit ((a.putEvent event e).role t r) set := by
  have hnext := h.next hnone h0 hr hshown hraising
  rwa [Function.update_eq_self] at hnext

end lit

/-! ## The coupling -/

structure Coupled (p : Process) (s : Signals) : Prop where
  created : s.created = p.created
  auto : ∀ e, s.auto e = (p.events e).AutoReset
  lit : Lit p.accounts s.set
  plays : ∀ t, Plays p.events p.waiters (p.threads t) (s.parties t)

/-- A step is a run of the specification that shows the same. -/
def Follows (s : Signals) (act : Action) (p' : Process) : Prop :=
  ∃ ops s', Reaches Signals.Step s ops s' ∧ ops.filterMap Op.shows = act.shown.toList ∧
    Coupled p' s'

section coupled

variable {p p1 : Process} {s s1 : Signals} {t : Tid} {th : Thread} {x : Party} {act : Action}
variable {events : neosmart_event_t → neosmart_event_t_}
variable {waiters : neosmart_wfmo_t → Option neosmart_wfmo_t_}
variable {event : neosmart_event_t} {e : neosmart_event_t_}

theorem Follows.silent (hact : act.shown = none) (h : Coupled p s) : Follows s act p :=
  ⟨[], s, .start, by rw [hact]; rfl, h⟩

theorem Follows.op {op : Op} (hs : Signals.Step s op s1) (hop : op.shows = act.shown)
    (h : Coupled p s1) : Follows s act p := by
  refine ⟨[op], s1, Reaches.start.next hs, ?_, h⟩
  rw [← hop]
  cases op <;> rfl

/-- The other threads do not see a step that keeps their waiters. -/
theorem Coupled.others (h : Coupled p s)
    (hauto : ∀ e, (events e).AutoReset = (p.events e).AutoReset)
    (hkeeps : ∀ u c, u ≠ t → p.accounts.call u = some c →
      Keeps p.events events p.waiters waiters c.wfmo) :
    ∀ u, u ≠ t → Plays events waiters (p.threads u) (s.parties u) := by
  intro u hu
  refine (h.plays u).keep (fun e _ _ => hauto e) (fun c point hth hcall => hkeeps u c hu ?_)
  change (p.threads u).role.call = some c
  rw [hth]
  exact hcall

theorem Coupled.move (hcreated : s1.created = p1.created)
    (hauto : ∀ e, s1.auto e = (p1.events e).AutoReset) (hlit : Lit (p1.move t th).accounts s1.set)
    (hothers : ∀ u, u ≠ t → Plays p1.events p1.waiters (p1.threads u) (s1.parties u))
    (hplays : Plays p1.events p1.waiters th x) : Coupled (p1.move t th) (s1.party t x) := by
  refine ⟨hcreated, hauto, hlit, ?_⟩
  intro u
  change Plays p1.events p1.waiters (Function.update p1.threads t th u)
    (Function.update s1.parties t x u)
  rw [Function.update_apply, Function.update_apply]
  split
  case isTrue => exact hplays
  case isFalse hne => exact hothers u hne

/-- The specification does not see the step. -/
theorem Coupled.stay (hcreated : s.created = p1.created)
    (hauto : ∀ e, s.auto e = (p1.events e).AutoReset) (hlit : Lit (p1.move t th).accounts s.set)
    (hothers : ∀ u, u ≠ t → Plays p1.events p1.waiters (p1.threads u) (s.parties u))
    (hplays : Plays p1.events p1.waiters th (s.parties t)) : Coupled (p1.move t th) s := by
  have hsame : s.party t (s.parties t) = s := by
    unfold Signals.party
    rw [Function.update_eq_self]
  have hmove := Coupled.move hcreated hauto hlit hothers hplays
  rwa [hsame] at hmove

/-- Nothing changes but where a thread stands. -/
theorem Coupled.goes (h : Coupled p s) (hrole : ∀ y point, (p.threads t).role ≠ .setting y point)
    (hr : ∀ y point, th.role ≠ .setting y point)
    (hplays : Plays p.events p.waiters th (s.parties t)) :
    Coupled (p.move t th) s := by
  refine Coupled.stay h.created h.auto ?_ (fun u _ => h.plays u) hplays
  rw [accounts_move]
  exact h.lit.role hrole hr

theorem update_AutoReset (he : e.AutoReset = (events event).AutoReset) (y : neosmart_event_t) :
    (Function.update events event e y).AutoReset = (events y).AutoReset := by
  rw [Function.update_apply]
  split
  case isTrue heq => rw [heq, he]
  case isFalse => rfl

theorem Coupled.auto_update (h : Coupled p s) (he : e.AutoReset = (p.events event).AutoReset)
    (y : neosmart_event_t) : s.auto y = (Function.update p.events event e y).AutoReset :=
  (h.auto y).trans (update_AutoReset he y).symm

/-! What the specification knows of a thread. -/

theorem Plays.set {point : SetPoint} {did : Finset Nat} (hdid : point.did e.AutoReset = did) :
    Plays (Function.update events event e) waiters (.SetEvent event point)
      (.calling (.SetEvent event) did) := by
  have hsame : point.did (Function.update events event e event).AutoReset = did := by
    rw [Function.update_self, hdid]
  rw [← hsame]
  exact .SetEvent event point

theorem Plays.setting {point : SetPoint} (h : Plays events waiters (.SetEvent event point) x) :
    x = .calling (.SetEvent event) (point.did (events event).AutoReset) := by
  cases h with
  | SetEvent => rfl

theorem Plays.resetting (h : Plays events waiters (.ResetEvent event) x) :
    x = .calling (.ResetEvent event) ∅ := by
  cases h with
  | ResetEvent => rfl

theorem Plays.waiting {milliseconds : BitVec 64} {point : WaitPoint}
    (h : Plays events waiters (.WaitForEvent event milliseconds point) x) :
    x = .calling (.WaitForEvent event milliseconds) ∅ ∧ ∀ result, point = .woken result →
      result = 0 ∨ (result = WAIT_TIMEOUT ∧ milliseconds ≠ INFINITE) := by
  cases h with
  | WaitForEvent hwoken => exact ⟨rfl, hwoken⟩

theorem Plays.multi {c : Wait} {point : MultiPoint}
    (h : Plays events waiters (.WaitForMultipleEvents c point) x)
    (hpoint : ∀ result waitIndex, point ≠ .destroy result waitIndex) :
    ∃ got w, x = .calling c.toCall got ∧ waiters c.wfmo = some w ∧
      Going events w c (point.role c).looked got ∧ point.Fits c got := by
  cases h with
  | going hw hgoing hfits => exact ⟨_, _, rfl, hw, hgoing, hfits⟩
  | destroying hret => exact absurd rfl (hpoint _ _)

end coupled

end payloader.pevents
