-- Who is woken by the waiters of pevents.cpp. A wait that has its events is
-- signalled, or it will be. The signal is sent with the mutex of the event held
-- and the one of the waiter free, and it finds its waiter as long as nothing else
-- wakes the thread up.
import Payloader.PeventsRefinement

set_option autoImplicit false

namespace payloader.pevents

open payloader.machines payloader.locks

/-! ## Naps -/

/-- A thread that is about to signal a waiter, or waits for that. -/
inductive Nap where
  | awake
  | signals (wfmo : neosmart_wfmo_t)
  | asleep (c : Wait)
  | woken (c : Wait)

def SetPoint.nap : SetPoint → Nap
  | .lock => .awake
  | .loop => .awake
  | .destroy _ => .awake
  | .signal wfmo => .signals wfmo
  | .wake => .awake

def MultiPoint.nap (c : Wait) : MultiPoint → Nap
  | .register _ => .awake
  | .sweep _ _ => .awake
  | .expired _ _ _ => .awake
  | .asleep => .asleep c
  | .woken _ => .woken c
  | .finish _ => .awake
  | .destroy _ _ => .awake

def Thread.nap : Thread → Nap
  | .idle => .awake
  | .ResetEvent _ => .awake
  | .SetEvent _ point => point.nap
  | .WaitForEvent _ _ _ => .awake
  | .WaitForMultipleEvents c point => point.nap c
  | .returned _ _ => .awake

/-- What the signal for a waiter does. -/
def Nap.signal (wfmo : neosmart_wfmo_t) : Nap → Nap
  | .awake => .awake
  | .signals x => .signals x
  | .asleep c => if c.wfmo = wfmo then .woken c else .asleep c
  | .woken c => .woken c

/-- The thread is in the wait of its call. -/
def Nap.Of (c : Wait) (n : Nap) : Prop := n = .asleep c ∨ n = .woken c

def Process.nap (p : Process) (t : Tid) : Nap := (p.threads t).nap

variable {p p' p1 : Process} {t u : Tid} {c : Wait} {act : Action} {th th0 : Thread}
variable {wfmo x : neosmart_wfmo_t} {w w' : neosmart_wfmo_t_}

theorem nap_signal (th : Thread) : (th.signal wfmo).nap = th.nap.signal wfmo := by
  cases th with
  | SetEvent event point => cases point <;> rfl
  | WaitForMultipleEvents c point =>
    cases point with
    | asleep =>
      unfold Thread.signal
      change MultiPoint.nap c (if c.wfmo = wfmo then .woken 0 else .asleep) =
        if c.wfmo = wfmo then .woken c else .asleep c
      split <;> rfl
    | _ => rfl
  | _ => rfl

/-- Who sleeps after a signal, the signal was not for. -/
theorem signal_asleep {n : Nap} (h : n.signal wfmo = .asleep c) :
    n = .asleep c ∧ c.wfmo ≠ wfmo := by
  cases n with
  | asleep c' =>
    change (if c'.wfmo = wfmo then Nap.woken c' else Nap.asleep c') = _ at h
    split at h
    · cases h
    case isFalse hne =>
      cases h
      exact ⟨rfl, hne⟩
  | _ => cases h

/-- Who is woken after a signal was so before, or the signal was for it. -/
theorem signal_woken {n : Nap} (h : n.signal wfmo = .woken c) :
    n = .woken c ∨ (n = .asleep c ∧ c.wfmo = wfmo) := by
  cases n with
  | asleep c' =>
    change (if c'.wfmo = wfmo then Nap.woken c' else Nap.asleep c') = _ at h
    split at h
    case isTrue heq =>
      cases h
      exact Or.inr ⟨rfl, heq⟩
    · cases h
  | woken c' => exact Or.inl h
  | _ => cases h

theorem nap_broadcast (event : neosmart_event_t) (th : Thread) :
    (th.broadcast event).nap = th.nap := by
  unfold Thread.broadcast
  split <;> rfl

theorem nap_call (h : (p.nap u).Of c) : p.accounts.call u = some c := by
  unfold Process.nap at h
  change (p.threads u).role.call = some c
  cases hth : p.threads u with
  | SetEvent event point =>
    rw [hth] at h
    cases point <;> rcases h with h | h <;> cases h
  | WaitForMultipleEvents c' point =>
    rw [hth] at h
    cases point <;> rcases h with h | h <;> cases h <;> rfl
  | _ =>
    rw [hth] at h
    rcases h with h | h <;> cases h

theorem nap_of (h : p.threads t = th) : p.nap t = th.nap := congrArg Thread.nap h

/-- Threads that nap in calls of their own. -/
theorem nap_own (hS : p.Sound) {c' : Wait} (hu : p.accounts.call u = some c) (hne : t ≠ u)
    (ht : (p.nap t).Of c') : c'.wfmo ≠ c.wfmo :=
  fun heq => hne (hS.accounts.calls.one_call t u c' c (nap_call ht) hu heq)

theorem nap_move (p : Process) (t : Tid) (th : Thread) (v : Tid) :
    (p.move t th).nap v = if v = t then th.nap else p.nap v := by
  change (Function.update p.threads t th v).nap = _
  rw [Function.update_apply]
  split <;> rfl

/-- What a waiter shows to the thread that waits for it. -/
def Steady (p p' : Process) (wfmo : neosmart_wfmo_t) : Prop :=
  ∀ w, p.waiters wfmo = some w →
    ∃ w', p'.waiters wfmo = some w' ∧ w'.StillWaiting = w.StillWaiting ∧ w'.done = w.done

theorem Steady.same (h : p'.waiters = p.waiters) : Steady p p' wfmo :=
  fun w hw => ⟨w, h ▸ hw, rfl, rfl⟩

theorem Steady.other {w : Option neosmart_wfmo_t_} (hne : wfmo ≠ x)
    (h : p'.waiters = Function.update p.waiters x w) : Steady p p' wfmo := by
  intro w0 hw0
  refine ⟨w0, ?_, rfl, rfl⟩
  rw [h, Function.update_of_ne hne, hw0]

theorem Steady.put (hw : p.waiters x = some w)
    (h : p'.waiters = Function.update p.waiters x (some w'))
    (hstill : w'.StillWaiting = w.StillWaiting) (hdone : w'.done = w.done) :
    Steady p p' wfmo := by
  by_cases hne : wfmo = x
  · subst hne
    intro w0 hw0
    cases hw.symm.trans hw0
    exact ⟨w', by rw [h, Function.update_self], hstill, hdone⟩
  · exact .other hne h

/-! ## What a step does to naps -/

inductive Doze (p : Process) (act : Action) (p' : Process) : Prop
  | quiet (hnaps : ∀ v, p'.nap v = p.nap v) (hsteady : ∀ v c, (p.nap v).Of c → Steady p p' c.wfmo)
  /-- `SetEvent` reaches a waiter. -/
  | fires {t u : Tid} {c : Wait} {w : neosmart_wfmo_t_} {i : Nat} (ht : p.nap t = .awake)
      (hu : (p.nap u).Of c) (hw : p.waiters c.wfmo = some w) (hwaits : w.StillWaiting = true)
      (hnaps : ∀ v, p'.nap v = if v = t then .signals c.wfmo else p.nap v)
      (hfired : p'.waiters c.wfmo = some (w.fired i))
      (hsteady : ∀ v c', v ≠ u → (p.nap v).Of c' → Steady p p' c'.wfmo)
  | signals {t : Tid} {wfmo : neosmart_wfmo_t} (ht : p.nap t = .signals wfmo)
      (hnaps : ∀ v, p'.nap v = if v = t then .awake else (p.nap v).signal wfmo)
      (hsame : p'.waiters = p.waiters)
  /-- A thread falls asleep, or asleep again. -/
  | sleeps {t : Tid} {c : Wait} {w : neosmart_wfmo_t_} (ht : p.nap t = .awake ∨ p.nap t = .woken c)
      (hnaps : ∀ v, p'.nap v = if v = t then .asleep c else p.nap v)
      (hw : p'.waiters c.wfmo = some w) (hdone : w.done = false)
      (hsteady : ∀ v c', v ≠ t → (p.nap v).Of c' → Steady p p' c'.wfmo)
  /-- A thread leaves its wait. -/
  | leaves {t : Tid} {c : Wait} (ht : p.nap t = .woken c)
      (hnaps : ∀ v, p'.nap v = if v = t then .awake else p.nap v)
      (hsteady : ∀ v c', v ≠ t → (p.nap v).Of c' → Steady p p' c'.wfmo)
  /-- A thread wakes up that no one has signalled. -/
  | wakes {t : Tid} {c : Wait} (hact : act = .spurious t ∨ act = .timedOut t)
      (ht : p.nap t = .asleep c) (hnaps : ∀ v, p'.nap v = if v = t then .woken c else p.nap v)
      (hsame : p'.waiters = p.waiters)

/-- A thread that does not nap moves on. -/
theorem Doze.move (hth : p.threads t = th0) (h0 : th0.nap = .awake) (h1 : th.nap = .awake)
    (hthreads : p1.threads = p.threads)
    (hsteady : ∀ v c, v ≠ t → p.accounts.call v = some c → Steady p p1 c.wfmo) :
    Doze p act (p1.move t th) := by
  have ht : p.nap t = .awake := by
    unfold Process.nap
    rw [hth, h0]
  refine .quiet (fun v => ?_) (fun v c hv => ?_)
  · rw [nap_move]
    split
    case isTrue heq => rw [heq, ht, h1]
    case isFalse =>
      unfold Process.nap
      rw [hthreads]
  · refine hsteady v c ?_ (nap_call hv)
    rintro rfl
    rw [ht] at hv
    rcases hv with hv | hv <;> cases hv

theorem Doze.goes (hth : p.threads t = th0) (h0 : th0.nap = .awake) (h1 : th.nap = .awake) :
    Doze p act (p.move t th) :=
  .move hth h0 h1 rfl (fun _ _ _ _ => Steady.same rfl)

theorem nap_afterDrop (event : neosmart_event_t) (w : neosmart_wfmo_t_) (wfmo : neosmart_wfmo_t) :
    (Thread.SetEvent event (.afterDrop w wfmo)).nap = .awake := by
  unfold SetPoint.afterDrop
  split <;> rfl

theorem nap_multiDrop (c : Wait) (w : neosmart_wfmo_t_) (i k : Nat) (wfmo : neosmart_wfmo_t) :
    (Thread.WaitForMultipleEvents c (.afterDrop w i k wfmo)).nap = .awake := by
  unfold MultiPoint.afterDrop
  split <;> rfl

theorem nap_obtained (c : Wait) (i : Nat) :
    (Thread.WaitForMultipleEvents c (.afterObtained c i)).nap = .awake := by
  unfold MultiPoint.afterObtained
  split <;> rfl

theorem nap_finish (c : Wait) (w : neosmart_wfmo_t_) (result : Int) :
    (Thread.afterFinish c w result).nap = .awake := by
  unfold Thread.afterFinish
  split <;> rfl

theorem Step.doze (hS : p.Sound) (h : Step p act p') : Doze p act p' := by
  -- the waiter that a thread deletes is in no call
  have hdeleted : ∀ {t wfmo}, p.accounts.deleting t = some wfmo → ∀ {p1 : Process},
      p1.waiters = Function.update p.waiters wfmo none → ∀ v c, v ≠ t →
        p.accounts.call v = some c → Steady p p1 c.wfmo := by
    intro t wfmo hdel p1 hp1 v c _ hc
    exact .other (fun heq => hS.accounts.not_called hdel ⟨v, c, hc, heq⟩) hp1
  cases h with
  | CreateEvent => exact .quiet (fun _ => rfl) (fun _ _ _ => Steady.same rfl)
  | @call t c h hevents =>
    cases c with
    | WaitForMultipleEvents events waitAll milliseconds =>
      refine .move h rfl rfl rfl (fun v c _ hc => ?_)
      exact .other (fun heq => hS.accounts.calls.not_fresh ⟨v, c, hc, heq⟩) rfl
    | _ => exact .goes h rfl rfl
  | ret h => exact .goes h rfl rfl
  | reset h => exact .move h rfl rfl rfl (fun _ _ _ _ => Steady.same rfl)
  | setLock h => exact .move h rfl rfl rfl (fun _ _ _ _ => Steady.same rfl)
  | setExpired h hfront hw =>
    exact .move h rfl (nap_afterDrop _ _ _) rfl (fun _ _ _ _ => Steady.put hw rfl rfl rfl)
  | @setFired t event i rest w h hfront hw hfree hwaits =>
    obtain ⟨u, c, point, hu, hc, hpoint, -⟩ := hS.owner hw hfree hwaits
    have hnap : (p.nap u).Of c := by
      rw [nap_of hu]
      cases point with
      | asleep => exact Or.inl rfl
      | woken => exact Or.inr rfl
      | _ => cases hpoint
    rw [← hc] at hw ⊢
    refine .fires (nap_of h) hnap hw hwaits (fun v => ?_) (Function.update_self _ _ _) ?_
    · exact nap_move ((p.putWaiter c.wfmo _).putEvent event _) t _ v
    · exact fun v c' hv hv' => .other (nap_own hS (nap_call hnap) hv hv') rfl
  | @setDestroy t event wfmo h =>
    have hdel : p.accounts.deleting t = some wfmo :=
      deleting_eq (set_role h (r := .setting event (.destroy wfmo)) rfl)
    exact .move h rfl rfl rfl (hdeleted hdel rfl)
  | @setSignalOne t event wfmo h halive hauto =>
    refine .signals (nap_of h) (fun v => ?_) rfl
    rw [nap_move]
    exact if_congr Iff.rfl rfl (nap_signal _)
  | @setSignalEach t event wfmo h halive hmanual =>
    refine .signals (nap_of h) (fun v => ?_) rfl
    rw [nap_move]
    exact if_congr Iff.rfl rfl (nap_signal _)
  | setEmpty h => exact .move h rfl rfl rfl (fun _ _ _ _ => Steady.same rfl)
  | setThrough h => exact .goes h rfl rfl
  | @setWakeOne t t' event milliseconds h hauto hasleep =>
    refine .quiet (fun v => ?_) (fun _ _ _ => Steady.same rfl)
    rw [nap_move, nap_move]
    split
    case isTrue heq => rw [heq, nap_of h]; rfl
    case isFalse =>
      split
      case isTrue heq => rw [heq, nap_of hasleep]; rfl
      case isFalse => rfl
  | setWakeNone h => exact .goes h rfl rfl
  | @setWakeAll t event h =>
    refine .quiet (fun v => ?_) (fun _ _ _ => Steady.same rfl)
    rw [nap_move]
    split
    case isTrue heq => rw [heq, nap_of h]; rfl
    case isFalse => exact nap_broadcast event _
  | waitBusy h => exact .goes h rfl rfl
  | waitObtained h => exact .move h rfl rfl rfl (fun _ _ _ _ => Steady.same rfl)
  | waitNoTime h => exact .goes h rfl rfl
  | waitSleep h => exact .goes h rfl rfl
  | waitTimedOut h => exact .goes h rfl rfl
  | multiLock h => exact .move h rfl rfl rfl (fun _ _ _ _ => Steady.same rfl)
  | multiKeep h => exact .goes h rfl rfl
  | multiDrop h hi hk hw =>
    exact .move h rfl (nap_multiDrop _ _ _ _ _) rfl (fun _ _ _ _ => Steady.put hw rfl rfl rfl)
  | multiExpired h =>
    exact .move h rfl rfl rfl (hdeleted (deleting_eq (multi_role h) :) rfl)
  | multiObtained h =>
    refine .move h rfl (nap_obtained _ _) rfl (fun v c hv hc => ?_)
    exact .other (own_waiter hS h rfl v c hv hc) rfl
  | multiRegister h =>
    refine .move h rfl rfl rfl (fun v c hv hc => ?_)
    exact .other (own_waiter hS h rfl v c hv hc) rfl
  | multiNoTime h => exact .goes h rfl rfl
  | multiDone h => exact .goes h rfl rfl
  | @multiSleep t c w h hsome hw hdone =>
    refine .sleeps (Or.inl (nap_of h)) (nap_move (p.putWaiter c.wfmo _) t _)
      (Function.update_self _ _ _) hdone (fun v c' hv hv' => ?_)
    exact .other (own_waiter hS h rfl v c' hv (nap_call hv')) rfl
  | @multiWokenDone t c w result h hw =>
    refine .leaves (nap_of h) (nap_move (p.putWaiter c.wfmo _) t _) (fun v c' hv hv' => ?_)
    exact .other (own_waiter hS h rfl v c' hv (nap_call hv')) rfl
  | multiWokenSleep h hw hfree hdone =>
    exact .sleeps (Or.inr (nap_of h)) (nap_move p _ _) hw hdone (fun _ _ _ _ => Steady.same rfl)
  | multiFinish h =>
    refine .move h rfl (nap_finish _ _ _) rfl (fun v c hv hc => ?_)
    exact .other (own_waiter hS h rfl v c hv hc) rfl
  | multiDestroy h =>
    exact .move h rfl rfl rfl (hdeleted (deleting_eq (multi_role h) :) rfl)
  | spuriousOne h => exact .goes h rfl rfl
  | spuriousMulti h => exact .wakes (Or.inl rfl) (nap_of h) (nap_move p _ _) rfl
  | timedOutOne h => exact .goes h rfl rfl
  | timedOutMulti h => exact .wakes (Or.inr rfl) (nap_of h) (nap_move p _ _) rfl

/-- A thread that did not take the step naps as before. -/
theorem nap_kept {n n0 : Nap} (hnaps : ∀ v, p'.nap v = if v = t then n else p.nap v)
    (hu : p.nap u = n0) (ht : p.nap t ≠ n0) : p'.nap u = n0 := by
  rw [hnaps, if_neg, hu]
  rintro rfl
  exact ht hu

/-! ## No wait misses its events -/

/-- A wait that has its events and is asleep is about to be signalled. -/
def Alerted (p : Process) : Prop :=
  ∀ u c w, p.nap u = .asleep c → p.waiters c.wfmo = some w → w.done = true →
    ∃ t, p.nap t = .signals c.wfmo

theorem Steady.before (hS : p.Sound) (h : Steady p p' c.wfmo) (hu : (p.nap u).Of c)
    (hw : p'.waiters c.wfmo = some w') :
    ∃ w, p.waiters c.wfmo = some w ∧ w.StillWaiting = w'.StillWaiting ∧ w.done = w'.done := by
  obtain ⟨w, hw0, -⟩ := hS.accounts.calls.alive u c (nap_call hu)
  obtain ⟨w1, hw1, hstill, hdone⟩ := h w hw0
  cases hw.symm.trans hw1
  exact ⟨w, hw0, hstill.symm, hdone.symm⟩

theorem Alerted.next (hS : p.Sound) (h : Alerted p) (hdoze : Doze p act p') : Alerted p' := by
  intro u c w hu hw hdone
  cases hdoze with
  | quiet hnaps hsteady =>
    rw [hnaps] at hu
    obtain ⟨w0, hw0, -, hdone0⟩ := (hsteady u c (Or.inl hu)).before hS (Or.inl hu) hw
    obtain ⟨t, ht⟩ := h u c w0 hu hw0 (hdone0.trans hdone)
    exact ⟨t, (hnaps t).trans ht⟩
  | @fires t' u' c' w' i ht hu' hw' hwaits hnaps hfired hsteady =>
    rw [hnaps] at hu
    split at hu
    · cases hu
    by_cases huu : u = u'
    · subst huu
      have hcc : c' = c := by
        rw [hu] at hu'
        rcases hu' with he | he <;> cases he
        rfl
      exact ⟨t', by rw [hnaps, if_pos rfl, hcc]⟩
    · obtain ⟨w0, hw0, -, hdone0⟩ := (hsteady u c huu (Or.inl hu)).before hS (Or.inl hu) hw
      obtain ⟨v, hv⟩ := h u c w0 hu hw0 (hdone0.trans hdone)
      exact ⟨v, nap_kept hnaps hv (by rw [ht]; nofun)⟩
  | @signals t' wfmo ht hnaps hsame =>
    rw [hnaps] at hu
    split at hu
    · cases hu
    -- the thread is still asleep, so the signal was for another one
    obtain ⟨hold, hne⟩ := signal_asleep hu
    rw [hsame] at hw
    obtain ⟨v, hv⟩ := h u c w hold hw hdone
    refine ⟨v, ?_⟩
    rw [hnaps, if_neg, hv]
    · rfl
    · rintro rfl
      cases ht.symm.trans hv
      exact hne rfl
  | @sleeps t' c' w' ht hnaps hw' hdone' hsteady =>
    rw [hnaps] at hu
    split at hu
    · cases hu
      cases hw.symm.trans hw'
      cases hdone.symm.trans hdone'
    case isFalse hut =>
      obtain ⟨w0, hw0, -, hdone0⟩ := (hsteady u c hut (Or.inl hu)).before hS (Or.inl hu) hw
      obtain ⟨v, hv⟩ := h u c w0 hu hw0 (hdone0.trans hdone)
      exact ⟨v, nap_kept hnaps hv (by rcases ht with ht | ht <;> rw [ht] <;> nofun)⟩
  | @leaves t' c' ht hnaps hsteady =>
    rw [hnaps] at hu
    split at hu
    · cases hu
    case isFalse hut =>
      obtain ⟨w0, hw0, -, hdone0⟩ := (hsteady u c hut (Or.inl hu)).before hS (Or.inl hu) hw
      obtain ⟨v, hv⟩ := h u c w0 hu hw0 (hdone0.trans hdone)
      exact ⟨v, nap_kept hnaps hv (by rw [ht]; nofun)⟩
  | @wakes t' c' hact ht hnaps hsame =>
    rw [hnaps] at hu
    split at hu
    · cases hu
    · rw [hsame] at hw
      obtain ⟨v, hv⟩ := h u c w hu hw hdone
      exact ⟨v, nap_kept hnaps hv (by rw [ht]; nofun)⟩

theorem alerted_reaches {acts : List Action} (h : Reaches Step Process.init acts p) :
    Alerted p := by
  have hI := h.invariant (fun _ p => p.Sound ∧ Alerted p) ⟨sound_init, nofun⟩
    (fun _ _ _ _ hI hs => ⟨sound_next hI.1 hs, hI.2.next hI.1 (hs.doze hI.1)⟩)
  exact hI.2

theorem signals_thread (h : p.nap t = .signals wfmo) :
    ∃ event, p.threads t = .SetEvent event (.signal wfmo) := by
  unfold Process.nap at h
  cases hth : p.threads t with
  | SetEvent event point =>
    rw [hth] at h
    cases point <;> cases h
    exact ⟨event, rfl⟩
  | WaitForMultipleEvents c point =>
    rw [hth] at h
    cases point <;> cases h
  | _ =>
    rw [hth] at h
    cases h

/-- Whatever the threads do, a wait for several events is never left asleep with
its events there: a thread is about to signal it. -/
theorem waits_are_alerted {acts : List Action} (h : Reaches Step Process.init acts p)
    (hasleep : p.threads u = .WaitForMultipleEvents c .asleep) (hw : p.waiters c.wfmo = some w)
    (hdone : w.done = true) : ∃ t event, p.threads t = .SetEvent event (.signal c.wfmo) := by
  obtain ⟨t, ht⟩ := alerted_reaches h u c w (nap_of hasleep) hw hdone
  exact ⟨t, signals_thread ht⟩

/-- `SetEvent` has fired the waiter of a thread that is asleep. -/
theorem a_sleeping_wait_is_alerted : ∃ p, Reaches Step Process.init (handOver.take 8) p ∧
    ∃ c, p.threads 0 = .WaitForMultipleEvents c .asleep ∧
      ∃ t event, p.threads t = .SetEvent event (.signal c.wfmo) := by
  let c : Wait := { wfmo := 0, events := [0], waitAll := false, milliseconds := INFINITE }
  have hrun : Reaches Step Process.init (handOver.take 8) _ :=
    Reaches.start.steps step_step (handOver.take 8) rfl
  have hasleep : _ = Thread.WaitForMultipleEvents c .asleep := rfl
  exact ⟨_, hrun, c, hasleep, waits_are_alerted hrun (u := 0) hasleep rfl rfl⟩

/-! ## The signal finds its waiter -/

/-- No thread wakes up by itself, and each wait is for one of its events. -/
def Action.Plain : Action → Prop
  | .created _ _ => True
  | .call _ (.ResetEvent _) => True
  | .call _ (.SetEvent _) => True
  | .call _ (.WaitForEvent _ _) => True
  | .call _ (.WaitForMultipleEvents _ waitAll _) => waitAll = false
  | .ret _ _ _ => True
  | .step _ => True
  | .spurious _ => False
  | .timedOut _ => False

/-- A waiter that `SetEvent` has reached, and that is not deleted. -/
def Process.Reached (p : Process) (wfmo : neosmart_wfmo_t) : Prop :=
  ∃ w, p.waiters wfmo = some w ∧ w.StillWaiting = false

/-- Who is about to signal a waiter finds its thread asleep. -/
structure Dozes (p : Process) : Prop where
  one : ∀ t c, p.accounts.call t = some c → c.waitAll = false
  asleep : ∀ t wfmo, p.nap t = .signals wfmo →
    ∃ u c, p.nap u = .asleep c ∧ c.wfmo = wfmo ∧ p.Reached wfmo
  once : ∀ t t' wfmo, p.nap t = .signals wfmo → p.nap t' = .signals wfmo → t = t'
  woken : ∀ u c, p.nap u = .woken c → p.Reached c.wfmo

theorem Steady.reached (h : Steady p p' wfmo) (hreached : p.Reached wfmo) : p'.Reached wfmo := by
  obtain ⟨w, hw, hs⟩ := hreached
  obtain ⟨w', hw', hstill, -⟩ := h w hw
  exact ⟨w', hw', hstill.trans hs⟩

theorem call_goes {a : Accounts} {r : Role} (hc : (a.role t r).call u = some c)
    (h : r.call = none ∨ r.call = a.call t) : a.call u = some c := by
  rw [call_role, Function.update_apply] at hc
  split at hc
  case isTrue heq =>
    rcases h with hnone | hsame
    · cases hnone.symm.trans hc
    · rw [heq, ← hsame, hc]
  case isFalse => exact hc

/-- A call was there before, or it has a new waiter. -/
theorem Change.old_calls {a a' : Accounts} (h : Change a a') (hc : a'.call u = some c) :
    a.call u = some c ∨ a'.fresh ≠ a.fresh := by
  cases h with
  | quiet => exact Or.inl hc
  | state => exact Or.inl hc
  | create => exact Or.inl hc
  | enter => exact Or.inr (Nat.succ_ne_self _)
  | setLock h => exact Or.inl (call_goes hc (Or.inl rfl))
  | setExpired h => exact Or.inl (call_goes hc (Or.inl rfl))
  | setFired h => exact Or.inl (call_goes hc (Or.inl rfl))
  | setDestroy h => exact Or.inl (call_goes hc (Or.inl rfl))
  | setNext h => exact Or.inl (call_goes hc (Or.inl rfl))
  | setUnlock h => exact Or.inl (call_goes hc (Or.inl rfl))
  | setThrough h => exact Or.inl (call_goes hc (Or.inl rfl))
  | multiLock h => exact Or.inl (call_goes hc (Or.inr (call_eq h :).symm))
  | multiDrop h => exact Or.inl (call_goes hc (Or.inr (call_eq h :).symm))
  | multiExpired h => exact Or.inl (call_goes hc (Or.inr (call_eq h :).symm))
  | multiObtained h =>
    refine Or.inl (call_goes hc (Or.inr ?_))
    split <;> exact (call_eq h :).symm
  | multiRegister h => exact Or.inl (call_goes hc (Or.inr (call_eq h :).symm))
  | multiReady h => exact Or.inl (call_goes hc (Or.inr (call_eq h :).symm))
  | multiSleep h => exact Or.inl (call_goes hc (Or.inr (call_eq h :).symm))
  | multiWoken h => exact Or.inl (call_goes hc (Or.inr (call_eq h :).symm))
  | multiFinish h =>
    refine Or.inl (call_goes hc (Or.inl ?_))
    split <;> rfl
  | multiDestroy h => exact Or.inl (call_goes hc (Or.inl rfl))

/-- New waiters come with calls. -/
theorem Step.fresh (h : Step p act p') (hcall : ∀ t c, act ≠ .call t c) : p'.fresh = p.fresh := by
  cases h with
  | call c => exact absurd rfl (hcall _ _)
  | _ => rfl

/-- Calls begin by calls. -/
theorem one_next (hS : p.Sound) (h : Step p act p') (hplain : act.Plain)
    (hone : ∀ t c, p.accounts.call t = some c → c.waitAll = false) (t : Tid) (c : Wait)
    (hc : p'.accounts.call t = some c) : c.waitAll = false := by
  have hchange := h.change (fun t event ht => hS.named t event (by rw [ht]; rfl))
  rcases hchange.old_calls hc with hold | hfresh
  · exact hone t c hold
  · have hcall : ∃ u c', act = .call u c' := by
      by_contra hnone
      exact hfresh (h.fresh (fun u c' heq => hnone ⟨u, c', heq⟩))
    obtain ⟨u, c', rfl⟩ := hcall
    cases h with
    | call =>
      cases c' with
      | WaitForMultipleEvents events waitAll milliseconds =>
        change ((Function.update p.threads u _) t).role.call = some c at hc
        rw [Function.update_apply] at hc
        split at hc
        · cases hc
          exact hplain
        · exact hone t c hc
      | _ => exact absurd rfl hfresh

/-- A thread goes to sleep, or leaves its wait. -/
theorem Dozes.stays (h : Dozes p) {n : Nap}
    (hone : ∀ t c, p'.accounts.call t = some c → c.waitAll = false)
    (hnaps : ∀ v, p'.nap v = if v = t then n else p.nap v) (hnot : ∀ x, p.nap t ≠ .signals x)
    (hawake : ∀ c, p.nap t ≠ .asleep c) (hn : ∀ x, n ≠ .signals x) (hn' : ∀ c, n ≠ .woken c)
    (hsteady : ∀ v c', v ≠ t → (p.nap v).Of c' → Steady p p' c'.wfmo) : Dozes p' := by
  have hold : ∀ v x, p'.nap v = .signals x → p.nap v = .signals x := by
    intro v x hsig
    rw [hnaps] at hsig
    split at hsig
    · exact absurd hsig (hn x)
    · exact hsig
  refine ⟨hone, ?_, ?_, ?_⟩
  · intro v x hsig
    obtain ⟨u, c, hu, rfl, hr⟩ := h.asleep v x (hold v x hsig)
    have hut : u ≠ t := by
      rintro rfl
      exact hawake c hu
    exact ⟨u, c, nap_kept hnaps hu (hawake c), rfl, (hsteady u c hut (Or.inl hu)).reached hr⟩
  · exact fun v v' x hsig hsig' => h.once v v' x (hold v x hsig) (hold v' x hsig')
  · intro v c hv
    rw [hnaps] at hv
    split at hv
    · exact absurd hv (hn' c)
    case isFalse hvt => exact (hsteady v c hvt (Or.inr hv)).reached (h.woken v c hv)

theorem Dozes.next (hS : p.Sound) (h : Dozes p) (hstep : Step p act p') (hplain : act.Plain) :
    Dozes p' := by
  have hone := one_next hS hstep hplain h.one
  cases hstep.doze hS with
  | quiet hnaps hsteady =>
    refine ⟨hone, ?_, ?_, ?_⟩
    · intro t wfmo ht
      rw [hnaps] at ht
      obtain ⟨u, c, hu, rfl, hreached⟩ := h.asleep t wfmo ht
      exact ⟨u, c, (hnaps u).trans hu, rfl, (hsteady u c (Or.inl hu)).reached hreached⟩
    · intro t t' wfmo ht ht'
      rw [hnaps] at ht ht'
      exact h.once t t' wfmo ht ht'
    · intro u c hu
      rw [hnaps] at hu
      exact (hsteady u c (Or.inr hu)).reached (h.woken u c hu)
  | @fires t u c w i ht hu hw hwaits hnaps hfired hsteady =>
    have hfresh : ¬ p.Reached c.wfmo := by
      rintro ⟨w', hw', hs⟩
      cases hw.symm.trans hw'
      cases hwaits.symm.trans hs
    have hut : u ≠ t := by
      rintro rfl
      rw [ht] at hu
      rcases hu with he | he <;> cases he
    have hasleep : p.nap u = .asleep c :=
      hu.resolve_right (fun hwoken => hfresh (h.woken u c hwoken))
    have hreached : p'.Reached c.wfmo := by
      refine ⟨_, hfired, ?_⟩
      obtain ⟨w', hw', hall⟩ := hS.accounts.calls.alive u c (nap_call hu)
      cases hw.symm.trans hw'
      change (w.StillWaiting && w.WaitAll) = false
      rw [hall, h.one u c (nap_call hu), Bool.and_false]
    -- another signal is for a waiter that was reached before
    have hold : ∀ v wfmo, v ≠ t → p'.nap v = .signals wfmo →
        p.nap v = .signals wfmo ∧ wfmo ≠ c.wfmo := by
      intro v wfmo hv hsig
      rw [hnaps, if_neg hv] at hsig
      refine ⟨hsig, ?_⟩
      rintro rfl
      obtain ⟨-, -, -, -, hbad⟩ := h.asleep v _ hsig
      exact hfresh hbad
    refine ⟨hone, ?_, ?_, ?_⟩
    · intro v wfmo hsig
      by_cases hv : v = t
      · rw [hnaps, if_pos hv] at hsig
        cases hsig
        exact ⟨u, c, nap_kept hnaps hasleep (by rw [ht]; nofun), rfl, hreached⟩
      · obtain ⟨hsig', hne⟩ := hold v wfmo hv hsig
        obtain ⟨u', c', hu', rfl, hr⟩ := h.asleep v wfmo hsig'
        have huu : u' ≠ u := by
          rintro rfl
          cases hu'.symm.trans hasleep
          exact hne rfl
        exact ⟨u', c', nap_kept hnaps hu' (by rw [ht]; nofun), rfl,
          (hsteady u' c' huu (Or.inl hu')).reached hr⟩
    · intro v v' wfmo hsig hsig'
      by_cases hv : v = t <;> by_cases hv' : v' = t
      · exact hv.trans hv'.symm
      · rw [hnaps, if_pos hv] at hsig
        cases hsig
        exact absurd rfl (hold v' _ hv' hsig').2
      · rw [hnaps, if_pos hv'] at hsig'
        cases hsig'
        exact absurd rfl (hold v _ hv hsig).2
      · exact h.once v v' wfmo (hold v wfmo hv hsig).1 (hold v' wfmo hv' hsig').1
    · intro v c' hv
      rw [hnaps] at hv
      split at hv
      · cases hv
      have hvu : v ≠ u := by
        rintro rfl
        cases hv.symm.trans hasleep
      exact (hsteady v c' hvu (Or.inr hv)).reached (h.woken v c' hv)
  | @signals t wfmo ht hnaps hsame =>
    have hreached : ∀ x, p.Reached x → p'.Reached x := fun x => (Steady.same hsame).reached
    have hold : ∀ v x, p'.nap v = .signals x → v ≠ t ∧ p.nap v = .signals x := by
      intro v x hsig
      rw [hnaps] at hsig
      split at hsig
      · cases hsig
      case isFalse hv =>
        refine ⟨hv, ?_⟩
        cases hnap : p.nap v with
        | asleep c =>
          rw [hnap] at hsig
          change (if c.wfmo = wfmo then Nap.woken c else Nap.asleep c) = _ at hsig
          split at hsig <;> cases hsig
        | _ =>
          rw [hnap] at hsig
          cases hsig <;> rfl
    refine ⟨hone, ?_, ?_, ?_⟩
    · intro v x hsig
      obtain ⟨hv, hsig'⟩ := hold v x hsig
      obtain ⟨u, c, hu, rfl, hr⟩ := h.asleep v x hsig'
      have hne : c.wfmo ≠ wfmo := by
        rintro rfl
        exact hv (h.once v t _ hsig' ht)
      refine ⟨u, c, ?_, rfl, hreached _ hr⟩
      rw [hnaps, if_neg, hu]
      · exact if_neg hne
      · rintro rfl
        cases ht.symm.trans hu
    · exact fun v v' x hsig hsig' => h.once v v' x (hold v x hsig).2 (hold v' x hsig').2
    · intro v c hv
      rw [hnaps] at hv
      split at hv
      · cases hv
      rcases signal_woken hv with hwoken | ⟨-, heq⟩
      · exact hreached _ (h.woken v c hwoken)
      · obtain ⟨-, -, -, -, hr⟩ := h.asleep t wfmo ht
        rw [heq]
        exact hreached _ hr
  | @sleeps t c w ht hnaps hw hdone hsteady =>
    have hnot : ∀ x, p.nap t ≠ .signals x := by
      rcases ht with ht | ht <;> rw [ht] <;> nofun
    exact h.stays hone hnaps hnot (by rcases ht with ht | ht <;> rw [ht] <;> nofun) nofun nofun
      hsteady
  | @leaves t c ht hnaps hsteady =>
    exact h.stays hone hnaps (by rw [ht]; nofun) (by rw [ht]; nofun) nofun nofun hsteady
  | wakes hact => rcases hact with rfl | rfl <;> cases hplain

def PlainStep (p : Process) (act : Action) (p' : Process) : Prop := Step p act p' ∧ act.Plain

instance (act : Action) : Decidable act.Plain := by
  unfold Action.Plain
  split <;> infer_instance

def Process.plainStep (p : Process) (act : Action) : Option Process :=
  if act.Plain then p.step act else none

theorem plainStep_step (p : Process) (act : Action) (p' : Process) (h : p.plainStep act = some p') :
    PlainStep p act p' := by
  obtain ⟨hplain, hstep⟩ := Option.ite_none_right_eq_some.mp h
  exact ⟨step_step p act p' hstep, hplain⟩

theorem dozes_reaches {acts : List Action} (h : Reaches PlainStep Process.init acts p) :
    Dozes p := by
  have hI := h.invariant (fun _ p => p.Sound ∧ Dozes p)
    ⟨sound_init, nofun, nofun, nofun, nofun⟩
    (fun _ _ _ _ hI hs => ⟨sound_next hI.1 hs.1, hI.2.next hI.1 hs.1 hs.2⟩)
  exact hI.2

theorem signalled_is_alive {acts : List Action} {event : neosmart_event_t}
    (h : Reaches PlainStep Process.init acts p)
    (ht : p.threads t = .SetEvent event (.signal wfmo)) : p.waiters wfmo ≠ none := by
  obtain ⟨-, -, -, -, w, hw, -⟩ := (dozes_reaches h).asleep t wfmo (nap_of ht)
  rw [hw]
  nofun

/-- While threads are woken by signals only, and wait for one event each, a
thread that is about to signal a waiter finds it: the waiter is not deleted, and
its thread is asleep. -/
theorem signals_find_their_waiters {acts : List Action} {event : neosmart_event_t}
    (h : Reaches PlainStep Process.init acts p)
    (ht : p.threads t = .SetEvent event (.signal wfmo)) :
    p.waiters wfmo ≠ none ∧
      ∃ u c, p.threads u = .WaitForMultipleEvents c .asleep ∧ c.wfmo = wfmo := by
  obtain ⟨u, c, hu, hc, -⟩ := (dozes_reaches h).asleep t wfmo (nap_of ht)
  refine ⟨signalled_is_alive h ht, u, c, ?_, hc⟩
  unfold Process.nap at hu
  cases hth : p.threads u with
  | SetEvent x point =>
    rw [hth] at hu
    cases point <;> cases hu
  | WaitForMultipleEvents c' point =>
    rw [hth] at hu
    cases point <;> cases hu
    rfl
  | _ =>
    rw [hth] at hu
    cases hu

theorem a_signal_finds_its_waiter : ∃ p, Reaches PlainStep Process.init (handOver.take 8) p ∧
    p.waiters 0 ≠ none ∧ ∃ u c, p.threads u = .WaitForMultipleEvents c .asleep ∧ c.wfmo = 0 := by
  have hrun : Reaches PlainStep Process.init (handOver.take 8) _ :=
    Reaches.start.steps plainStep_step (handOver.take 8) rfl
  have hpoint : _ = Thread.SetEvent 0 (.signal 0) := rfl
  exact ⟨_, hrun, signals_find_their_waiters hrun (t := 1) hpoint⟩

/-- A thread that wakes up by itself may be gone before it is signalled ... -/
theorem a_spurious_wake_frees_the_waiter : ∃ acts p, Reaches Step Process.init acts p ∧
    p.threads 1 = .SetEvent 0 (.signal 0) ∧ p.waiters 0 = none :=
  ⟨_, _, Reaches.start.steps step_step
    (handOver.take 8 ++ [.spurious 0, .step 0, .step 0, .step 0]) rfl, rfl, rfl⟩

/-- ... and so may a thread that waits for two events, by the signal for the
second. -/
theorem a_second_signal_frees_the_waiter : ∃ acts p, Reaches Step Process.init acts p ∧
    p.threads 1 = .SetEvent 0 (.signal 0) ∧ p.waiters 0 = none :=
  ⟨_, _, Reaches.start.steps step_step
    [.created false false, .created false false,
      .call 0 (.WaitForMultipleEvents [0, 1] true INFINITE), .step 0, .step 0, .step 0, .step 0,
      .step 0, .call 1 (.SetEvent 0), .step 1, .step 1, .call 2 (.SetEvent 1), .step 2, .step 2,
      .step 2, .step 0, .step 0, .step 0] rfl, rfl, rfl⟩

end payloader.pevents
