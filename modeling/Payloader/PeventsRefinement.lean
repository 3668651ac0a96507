-- The events of pevents.cpp do what the specification says: each step of a
-- thread is a run of the specification that shows the same calls and returns.
import Payloader.PeventsCoupling
import Payloader.PeventsRuns

set_option autoImplicit false

namespace payloader.pevents

open payloader.machines payloader.simulations payloader.locks payloader.references

variable {p : Process} {s : Signals} {t : Tid} {event : neosmart_event_t}

/-! ## What a thread that sets an event knows -/

section setting

variable {point : SetPoint} {r : Role}

theorem set_role (h : p.threads t = .SetEvent event point) (hr : point.role event = r) :
    p.accounts.roles t = r := by
  rw [accounts_roles, h]
  exact hr

theorem role_setting (h : r = .setting event point) : ∀ x q, r = .setting x q → x = event := by
  intro x q hq
  cases h.symm.trans hq
  rfl

theorem role_outside (h : r = .outside) : ∀ x q, r = .setting x q → x = event := by
  intro x q hq
  cases h.symm.trans hq

/-- A thread is not in the loop before it has the mutex, or when it has given it
back. -/
theorem role_inside (th : Thread) (h : th.role = .setting event point) :
    point ≠ .lock ∧ point ≠ .wake := by
  cases th with
  | SetEvent x q =>
    cases q <;> cases h <;> exact ⟨nofun, nofun⟩
  | WaitForMultipleEvents c q => cases q <;> cases h
  | _ => cases h

theorem did_afterDrop (b : Bool) (w : neosmart_wfmo_t_) (wfmo : neosmart_wfmo_t) :
    (SetPoint.afterDrop w wfmo).did b = SetPoint.did b .loop := by
  unfold SetPoint.afterDrop
  split <;> rfl

/-- What others see of the event, once `SetEvent` has done its work. -/
theorem Coupled.seen (hS : p.Sound) (h : Coupled p s)
    (hrole : p.accounts.roles t = .setting event point)
    (hdid : point.did (p.events event).AutoReset ≠ ∅) : s.set event = (p.events event).State := by
  refine h.lit.shown event ?_
  rintro ⟨u, q, hu, hq⟩
  have hut := hS.accounts.events_held.unique (heldEvent_eq hu) (heldEvent_eq hrole)
  rw [hut, hrole] at hu
  cases hu
  exact hdid hq

theorem Coupled.set_empty (hS : p.Sound) (h : Coupled p s)
    (hnone : ∀ u q, p.accounts.roles u ≠ .setting event q) (hset : s.set event = true) :
    (p.events event).RegisteredWaits = [] := by
  have hshown := h.lit.shown event (fun ⟨u, q, hu, _⟩ => hnone u q hu)
  exact hS.accounts.states.empty (hshown.symm.trans hset) hnone

/-- An event that resets itself is not set while a waiter is in its list. -/
theorem Coupled.listed_unset (hS : p.Sound) (h : Coupled p s)
    (hauto : (p.events event).AutoReset = true) (hlist : (p.events event).RegisteredWaits ≠ []) :
    s.set event = false := by
  rw [← Bool.not_eq_true]
  intro hset
  by_cases hraising : p.accounts.Raising event
  · exact hlist (h.lit.raising event hraising hset)
  · have hstate := (h.lit.shown event hraising).symm.trans hset
    rcases hS.accounts.states.settled event hstate with hnil | ⟨u, q, hu⟩
    · exact hlist hnil
    · have hraised := hS.accounts.states.raised u event q hu
      obtain ⟨hlock, hwake⟩ := role_inside (p.threads u) hu
      have hauto' : (p.accounts.events event).AutoReset = true := hauto
      cases q with
      | lock => exact hlock rfl
      | wake => exact hwake rfl
      | signal wfmo =>
        rw [hstate, SetPoint.state, hauto'] at hraised
        cases hraised
      | loop =>
        refine hraising ⟨u, _, hu, ?_⟩
        rw [hauto']
        rfl
      | destroy wfmo =>
        refine hraising ⟨u, _, hu, ?_⟩
        rw [hauto']
        rfl

/-- The event is set for all to see, if it is not yet. -/
theorem Coupled.set_now (hS : p.Sound) (h : Coupled p s)
    (hth : p.threads t = .SetEvent event .loop) :
    ∃ ops, Reaches Signals.Step s ops
      ((s.put event true).party t (.calling (.SetEvent event) {0})) ∧
        ops.filterMap Op.shows = [] := by
  have hrole := set_role hth (r := .setting event .loop) rfl
  have hx := Plays.setting (hth ▸ h.plays t)
  cases hauto : (p.events event).AutoReset with
  | true =>
    rw [hauto] at hx
    exact ⟨[.set t event], Reaches.start.next (.set hx), rfl⟩
  | false =>
    have hseen := h.seen hS hrole (by rw [hauto]; exact Finset.singleton_ne_empty 0)
    have hraised : s.set event = true := hseen.trans (hS.accounts.states.raised t event .loop hrole)
    rw [hauto] at hx
    have hparty : s.parties t = .calling (.SetEvent event) {0} := hx
    have hsame : (s.put event true).party t (.calling (.SetEvent event) {0}) = s := by
      unfold Signals.party Signals.put
      rw [update_same hraised]
      change { s with parties := Function.update s.parties t _ } = s
      rw [update_same hparty]
    rw [hsame]
    exact ⟨[], .start, rfl⟩

theorem Coupled.multi (h : Coupled p s) {c : Wait} {point : MultiPoint}
    (hth : p.threads t = .WaitForMultipleEvents c point)
    (hpoint : ∀ result waitIndex, point ≠ .destroy result waitIndex) :
    ∃ got w, s.parties t = .calling c.toCall got ∧ p.waiters c.wfmo = some w ∧
      Going p.events w c (point.role c).looked got ∧ point.Fits c got := by
  have hplays := h.plays t
  rw [hth] at hplays
  exact hplays.multi hpoint

/-! ## The steps of `SetEvent` -/

theorem follows_setLock (hS : p.Sound) (h : Coupled p s) (hth : p.threads t = .SetEvent event .lock)
    (hfree : (p.events event).Mutex = none) :
    Follows s (.step t) ((p.putEvent event { (p.events event).lock t with State := true }).move t
      (.SetEvent event .loop)) := by
  have hrole : p.accounts.roles t = .outside := set_role hth rfl
  have hnone := not_setting_of_free hS.accounts.events_held hfree
  have hx := Plays.setting (hth ▸ h.plays t)
  cases hauto : (p.events event).AutoReset with
  | true =>
    have hdid : SetPoint.did (p.events event).AutoReset .loop = ∅ := by
      rw [hauto]
      rfl
    refine .silent rfl (Coupled.stay h.created (h.auto_update rfl) ?_ ?_ ?_)
    · rw [accounts_move]
      refine h.lit.stay (fun u q _ => hnone u q) (role_outside hrole) (role_setting rfl) ?_ ?_
      · exact fun hsome => absurd hdid (hsome .loop rfl)
      · exact fun _ _ _ hset => h.set_empty hS hnone hset
    · exact h.others (update_AutoReset rfl) (fun _ _ _ _ => Keeps.list rfl)
    · rw [hx]
      exact Plays.set hdid
  | false =>
    have hdid : SetPoint.did (p.events event).AutoReset .loop = {0} := by
      rw [hauto]
      rfl
    refine .op (.set hx) rfl (Coupled.move h.created (h.auto_update rfl) ?_ ?_ ?_)
    · rw [accounts_move]
      refine h.lit.next (fun u q _ => hnone u q) (role_outside hrole) (role_setting rfl)
        (fun _ => rfl) ?_
      intro q hq hnil
      cases hq
      exact absurd (hdid.symm.trans hnil) (Finset.singleton_ne_empty 0)
    · exact h.others (update_AutoReset rfl) (fun _ _ _ _ => Keeps.list rfl)
    · exact Plays.set hdid

/-- The thread goes on in its loop, and others see the event as before. -/
theorem Coupled.set_stay (hS : p.Sound) (h : Coupled p s) {point' : SetPoint}
    {e : neosmart_event_t_} {waiters : neosmart_wfmo_t → Option neosmart_wfmo_t_}
    (hth : p.threads t = .SetEvent event point) (hrole : point.role event = .setting event point)
    (hrole' : point'.role event = .setting event point')
    (hdid : point'.did (p.events event).AutoReset = point.did (p.events event).AutoReset)
    (hauto : e.AutoReset = (p.events event).AutoReset) (hstate : e.State = (p.events event).State)
    (hlist : (p.events event).RegisteredWaits = [] → e.RegisteredWaits = [])
    (hkeeps : ∀ u c, u ≠ t → p.accounts.call u = some c →
      Keeps p.events (Function.update p.events event e) p.waiters waiters c.wfmo) :
    Coupled (({ p with waiters := waiters }.putEvent event e).move t
      (.SetEvent event point')) s := by
  have hr := set_role hth hrole
  have hx := Plays.setting (hth ▸ h.plays t)
  refine Coupled.stay h.created (h.auto_update hauto) ?_ (h.others (update_AutoReset hauto) hkeeps)
    ?_
  · rw [accounts_move]
    have hlit : Lit ({ p with waiters := waiters } : Process).accounts s.set :=
      ⟨h.lit.shown, h.lit.raising⟩
    change Lit (({ p with waiters := waiters } : Process).accounts.putEvent event e |>.role t
      (point'.role event)) s.set
    rw [hrole']
    refine hlit.stay (fun u q hu => not_setting_of_held hS.accounts.events_held
      (heldEvent_eq hr) u q hu) (role_setting hr) (role_setting rfl) ?_ ?_
    · intro hsome
      have hsome' := hsome point' rfl
      rw [hauto, hdid] at hsome'
      exact (h.seen hS hr hsome').trans hstate.symm
    · intro q hq hnil hset
      cases hq
      rw [hauto, hdid] at hnil
      exact hlist (h.lit.raising event ⟨t, point, hr, hnil⟩ hset)
  · rw [hx]
    exact Plays.set (by rw [hauto, hdid])

theorem follows_setExpired (hS : p.Sound) (h : Coupled p s) {i : neosmart_wfmo_info_t_}
    {rest : List neosmart_wfmo_info_t_} {w : neosmart_wfmo_t_}
    (hth : p.threads t = .SetEvent event .loop)
    (hfront : (p.events event).RegisteredWaits = i :: rest) (hw : p.waiters i.Waiter = some w)
    (hexpired : w.StillWaiting = false) :
    Follows s (.step t) (((p.putWaiter i.Waiter w.dropped).putEvent event
      (p.events event).pop_front).move t (.SetEvent event (.afterDrop w.dropped i.Waiter))) := by
  refine .silent rfl (h.set_stay hS hth rfl (role_setDrop event w.dropped i.Waiter)
    (did_afterDrop _ _ _) rfl rfl ?_ ?_)
  · intro hnil
    cases hfront.symm.trans hnil
  · intro u c _ _
    refine Keeps.drop (k := 0) ?_ List.eraseIdx_zero.symm hw hexpired
    rw [hfront]
    rfl

theorem follows_setDestroy (hS : p.Sound) (h : Coupled p s) {wfmo : neosmart_wfmo_t}
    (hth : p.threads t = .SetEvent event (.destroy wfmo)) :
    Follows s (.step t) ((p.delete wfmo).move t (.SetEvent event .loop)) := by
  have hr := set_role hth (r := .setting event (.destroy wfmo)) rfl
  have hstay : Coupled (({ p with waiters := Function.update p.waiters wfmo none }.putEvent event
      (p.events event)).move t (.SetEvent event .loop)) s := by
    refine h.set_stay hS hth rfl rfl rfl rfl rfl id ?_
    intro u c _ hc
    rw [Function.update_eq_self]
    exact Keeps.other (fun heq => hS.accounts.not_called (deleting_eq hr :) ⟨u, c, hc, heq⟩)
  refine .silent rfl ?_
  unfold Process.putEvent at hstay
  rw [Function.update_eq_self] at hstay
  exact hstay

/-- The thread that owns a waiter which still waits, with its mutex free. -/
theorem Process.Sound.owner (hS : p.Sound) {wfmo : neosmart_wfmo_t} {w : neosmart_wfmo_t_}
    (hw : p.waiters wfmo = some w) (hfree : w.Mutex = none) (hwaits : w.StillWaiting = true) :
    ∃ u c point, p.threads u = .WaitForMultipleEvents c point ∧ c.wfmo = wfmo ∧
      point.role c = .waiting c ∧ w.WaitAll = c.waitAll := by
  obtain ⟨u, c, hc, rfl⟩ := hS.accounts.calls.still wfmo w hw hwaits
  obtain ⟨w', hw', hall⟩ := hS.accounts.calls.alive u c hc
  cases hw.symm.trans hw'
  -- it does not hold the mutex, so it is in its wait
  have hout : p.accounts.heldWaiter u ≠ some c.wfmo := by
    refine hS.accounts.waiters_held.free ?_ u
    rw [waiterOwner_eq hw, hfree]
  unfold Accounts.call at hc
  unfold Accounts.heldWaiter at hout
  rw [accounts_roles] at hc hout
  cases hth : p.threads u with
  | SetEvent x q =>
    rw [hth] at hc
    cases q <;> cases hc
  | WaitForMultipleEvents c' point =>
    rw [hth] at hc hout
    cases point with
    | asleep =>
      cases hc
      exact ⟨u, c, _, hth, rfl, rfl, hall⟩
    | woken result =>
      cases hc
      exact ⟨u, c, _, hth, rfl, rfl, hall⟩
    | destroy => cases hc
    | _ =>
      cases hc
      exact absurd rfl hout
  | _ =>
    rw [hth] at hc
    cases hc

/-- A waiter gets the event at the front of the list that it is in. -/
theorem Going.fired (hS : p.Sound) {i : neosmart_wfmo_info_t_} {rest : List neosmart_wfmo_info_t_}
    {w : neosmart_wfmo_t_} {c : Wait} {got : Finset Nat} {e : neosmart_event_t_}
    (h : Going p.events w c c.events.length got) (hrole : p.accounts.roles t = .waiting c)
    (hfront : (p.events event).RegisteredWaits = i :: rest) (hi : i.Waiter = c.wfmo)
    (he : e.RegisteredWaits = rest) (hall : w.WaitAll = c.waitAll) (hfree : w.Mutex = none)
    (hwaits : w.StillWaiting = true) :
    Going (Function.update p.events event e) (w.fired i.WaitIndex) c c.events.length
      (insert i.WaitIndex got) := by
  have hplace : ∀ x j, { Waiter := c.wfmo, WaitIndex := j } ∈ (p.events x).RegisteredWaits →
      c.events[j]? = some x ∧ j < c.events.length := by
    intro x j hj
    have hplaced := hS.accounts.entries.placed x _ t c hj (call_eq hrole) rfl
    rwa [hrole] at hplaced
  have hself : { Waiter := c.wfmo, WaitIndex := i.WaitIndex } = i := by
    rw [← hi]
  have hmem : { Waiter := c.wfmo, WaitIndex := i.WaitIndex } ∈
      (p.events event).RegisteredWaits := by
    rw [hself, hfront]
    exact List.mem_cons_self
  have hnodup := hS.accounts.entries.nodup event
  change (p.events event).RegisteredWaits.Nodup at hnodup
  rw [hfront, List.nodup_cons] at hnodup
  refine h.gets hall (h.unlisted event _ hmem) (fun hc => h.first hc hwaits hfree) rfl
    (fun hwait => ?_) (hplace event _ hmem).2 (Nat.le_refl _) (fun _ _ hj _ => hj) ?_ ?_ ?_
  · change (w.StillWaiting && w.WaitAll) = w.StillWaiting
    rw [hall, hwait, Bool.and_true]
  · intro x j hj
    rw [Function.update_apply] at hj
    split at hj
    case isTrue heq =>
      subst heq
      rw [he] at hj
      refine ⟨?_, ?_⟩
      · rintro rfl
        rw [hself] at hj
        exact hnodup.1 hj
      · rw [hfront]
        exact List.mem_cons_of_mem _ hj
    case isFalse hne =>
      refine ⟨?_, hj⟩
      rintro rfl
      have hx := (hplace x _ hj).1
      rw [(hplace event _ hmem).1] at hx
      exact hne (Option.some.inj hx).symm
  · intro x j hj hold
    rw [Function.update_apply]
    split
    case isTrue heq =>
      subst heq
      rw [hfront] at hold
      rw [he]
      refine (List.mem_cons.mp hold).resolve_left ?_
      intro heq
      rw [← heq] at hj
      exact hj rfl
    case isFalse => exact hold
  · intro hc hs
    have hboth : (w.StillWaiting && w.WaitAll) = true := hs
    rw [hall, hc, Bool.and_false] at hboth
    cases hboth

/-- A wait for one event takes the first that resets itself: the waiter is in
the lists of those before. -/
theorem Going.takes_first (hS : p.Sound) (h : Coupled p s) {w : neosmart_wfmo_t_} {c : Wait}
    {looked i : Nat} {got : Finset Nat} (hgoing : Going p.events w c looked got) (hgot : got = ∅)
    (hi : i ≤ looked) :
    s.First c.toCall i event := by
  intro j x hj hcx _ hauto
  have hauto' : (p.events x).AutoReset = true := (h.auto x).symm.trans hauto
  have hnot : j ∉ got := by
    rw [hgot]
    exact Finset.notMem_empty j
  have hmem := hgoing.listed (Or.inr hgot) j x (Nat.lt_of_lt_of_le hj hi) hcx hnot
  exact h.listed_unset hS hauto' (List.ne_nil_of_mem hmem)

theorem fits_waiting {c : Wait} {point : MultiPoint} {got got' : Finset Nat}
    (hpoint : point.role c = .waiting c) (h : point.Fits c got) : point.Fits c got' := by
  cases point with
  | asleep => exact h
  | woken result => exact h
  | _ => cases hpoint

theorem follows_setFired (hS : p.Sound) (h : Coupled p s) {i : neosmart_wfmo_info_t_}
    {rest : List neosmart_wfmo_info_t_} {w : neosmart_wfmo_t_}
    (hth : p.threads t = .SetEvent event .loop)
    (hfront : (p.events event).RegisteredWaits = i :: rest) (hw : p.waiters i.Waiter = some w)
    (hfree : w.Mutex = none) (hwaits : w.StillWaiting = true) :
    Follows s (.step t) (((p.putWaiter i.Waiter (w.fired i.WaitIndex)).putEvent event
      (p.events event).obtained.pop_front).move t (.SetEvent event (.signal i.Waiter))) := by
  have hr := set_role hth (r := .setting event .loop) rfl
  obtain ⟨u, c, point, hu, hc, hpoint, hall⟩ := hS.owner hw hfree hwaits
  obtain ⟨got, w', hx, hw', hgoing, hfits⟩ := h.multi hu (by rintro _ _ rfl; cases hpoint)
  rw [hc] at hw'
  cases hw.symm.trans hw'
  rw [hpoint] at hgoing
  have hur : p.accounts.roles u = .waiting c := by
    rw [accounts_roles, hu]
    exact hpoint
  have hut : u ≠ t := by
    rintro rfl
    cases hu.symm.trans hth
  have hmem : { Waiter := c.wfmo, WaitIndex := i.WaitIndex } ∈
      (p.events event).RegisteredWaits := by
    rw [hc, hfront]
    exact List.mem_cons_self
  obtain ⟨hplaced, hlt⟩ := hS.accounts.entries.placed event _ u c hmem (call_eq hur) rfl
  rw [hur] at hlt
  -- the specification sets the event, and the waiter takes it
  obtain ⟨ops, hops, hshow⟩ := h.set_now hS hth
  have htake : Signals.Step ((s.put event true).party t (.calling (.SetEvent event) {0}))
      (.take u i.WaitIndex event)
      ((((s.put event true).party t (.calling (.SetEvent event) {0})).put event
        (!s.auto event)).party u (.calling c.toCall (insert i.WaitIndex got))) := by
    refine .take ?_ (rfl : c.toCall.waitsAll = some c.waitAll) hplaced
      (hgoing.unlisted event _ hmem) (Function.update_self _ _ _) ?_
    · change Function.update s.parties t _ u = _
      rw [Function.update_of_ne hut, hx]
    · intro hany
      have hgot := hgoing.first hany hwaits hfree
      refine ⟨hgot, ?_⟩
      intro j x hj hcx hne hauto
      change Function.update s.set event true x = false
      rw [Function.update_of_ne hne]
      have hfirst : s.First c.toCall i.WaitIndex event :=
        hgoing.takes_first hS h hgot (Nat.le_of_lt hlt)
      exact hfirst j x hj hcx hne hauto
  have hrun := hops.next htake
  refine ⟨_, _, hrun, ?_, h.created, h.auto_update rfl, ?_, ?_⟩
  · rw [filterMap_snoc, hshow]
    rfl
  · have hlit := Lit.next (b := !s.auto event) (e := (p.events event).obtained.pop_front)
      (r := .setting event (.signal i.Waiter)) h.lit
      (fun v q hv => not_setting_of_held hS.accounts.events_held (heldEvent_eq hr) v q hv)
      (role_setting hr) (role_setting rfl) ?_ ?_
    · rw [accounts_move]
      change Lit _ (Function.update (Function.update s.set event true) event _)
      rw [Function.update_idem]
      exact ⟨hlit.shown, hlit.raising⟩
    · intro _
      change _ = ((p.events event).State && !(p.events event).AutoReset)
      have hraised : (p.events event).State = true := hS.accounts.states.raised t event .loop hr
      rw [h.auto event, hraised, Bool.true_and]
    · intro q hq hnil
      cases hq
      exact absurd hnil (Finset.singleton_ne_empty 0)
  · intro v
    change Plays (Function.update p.events event _) (Function.update p.waiters i.Waiter _)
      (Function.update p.threads t _ v)
      (Function.update (Function.update s.parties t _) u _ v)
    by_cases hvt : v = t
    · subst hvt
      rw [Function.update_self, Function.update_of_ne (Ne.symm hut), Function.update_self]
      exact Plays.set rfl
    · rw [Function.update_of_ne hvt]
      by_cases hvu : v = u
      · subst hvu
        rw [Function.update_self, hu]
        refine .going (w := w.fired i.WaitIndex) ?_ ?_ (fits_waiting hpoint hfits)
        · rw [hc, Function.update_self]
        · rw [hpoint]
          refine hgoing.fired hS hur hfront hc.symm ?_ hall hfree hwaits
          change (p.events event).RegisteredWaits.tail = rest
          rw [hfront, List.tail_cons]
      · rw [Function.update_of_ne hvu, Function.update_of_ne hvt]
        refine (h.plays v).keep
          (fun y _ _ => update_AutoReset (e := (p.events event).obtained.pop_front) rfl y) ?_
        intro c' q hv hcall
        have hvc : p.accounts.call v = some c' := by
          change (p.threads v).role.call = some c'
          rw [hv]
          exact hcall
        have hne : i.Waiter ≠ c'.wfmo := by
          intro heq
          exact hvu (hS.accounts.calls.one_call v u c' c hvc (call_eq hur)
            (heq.symm.trans hc.symm))
        have hother : Keeps p.events p.events p.waiters
            (Function.update p.waiters i.Waiter (some (w.fired i.WaitIndex))) c'.wfmo :=
          Keeps.other hne.symm
        refine hother.trans (Keeps.erase (k := 0) (i := i) ?_ List.eraseIdx_zero.symm
          (fun heq => absurd heq hne))
        rw [hfront]
        rfl

/-- The thread leaves `SetEvent`. -/
theorem set_returns : (Call.SetEvent event).Returns {0} 0 0 := ⟨rfl, rfl, rfl⟩

/-- A thread outside the loop moves on. -/
theorem Coupled.set_wake (h : Coupled p s) (hth : p.threads t = .SetEvent event .wake) :
    Coupled (p.move t (.returned 0 0)) s := by
  have hx := Plays.setting (hth ▸ h.plays t)
  refine h.goes (hth ▸ nofun) nofun ?_
  rw [hx]
  exact .returned set_returns

theorem signal_plays (h : Coupled p s) (wfmo : neosmart_wfmo_t) (u : Tid) :
    Plays p.events p.waiters ((p.signal wfmo).threads u) (s.parties u) :=
  (h.plays u).signal

theorem follows_setSignalOne (hS : p.Sound) (h : Coupled p s) {wfmo : neosmart_wfmo_t}
    (hth : p.threads t = .SetEvent event (.signal wfmo)) :
    Follows s (.step t)
      (((p.signal wfmo).putEvent event (p.events event).unlock).move t (.returned 0 0)) := by
  have hr := set_role hth (r := .setting event (.signal wfmo)) rfl
  have hx := Plays.setting (hth ▸ h.plays t)
  have hsignal : Coupled (p.signal wfmo) s := by
    refine ⟨h.created, h.auto, ?_, signal_plays h wfmo⟩
    rw [accounts_signal]
    exact h.lit
  refine .silent rfl (Coupled.stay h.created (h.auto_update rfl) ?_ ?_ ?_)
  · rw [accounts_move, accounts_putEvent, accounts_signal]
    refine h.lit.stay (fun u q hu => not_setting_of_held hS.accounts.events_held
      (heldEvent_eq hr) u q hu) (role_setting hr) nofun ?_ nofun
    exact fun _ => h.seen hS hr (Finset.singleton_ne_empty 0)
  · exact hsignal.others (update_AutoReset rfl) (fun _ _ _ _ => Keeps.list rfl)
  · rw [hx]
    exact .returned set_returns

theorem follows_setSignalEach (hS : p.Sound) (h : Coupled p s) {wfmo : neosmart_wfmo_t}
    (hth : p.threads t = .SetEvent event (.signal wfmo))
    (hmanual : (p.events event).AutoReset = false) :
    Follows s (.step t) ((p.signal wfmo).move t (.SetEvent event .loop)) := by
  have hr := set_role hth (r := .setting event (.signal wfmo)) rfl
  have hx := Plays.setting (hth ▸ h.plays t)
  have hdid : SetPoint.did (p.events event).AutoReset .loop = {0} := by
    rw [hmanual]
    rfl
  refine .silent rfl (Coupled.stay h.created h.auto ?_ (fun u _ => signal_plays h wfmo u) ?_)
  · rw [accounts_move, accounts_signal]
    have hlit := Lit.stay (e := p.events event) (r := .setting event .loop) h.lit
      (fun u q hu => not_setting_of_held hS.accounts.events_held (heldEvent_eq hr) u q hu)
      (role_setting hr) (role_setting rfl)
      (fun _ => h.seen hS hr (Finset.singleton_ne_empty 0)) ?_
    · rw [show p.events = p.accounts.events from rfl, putEvent_self] at hlit
      exact hlit
    · intro q hq hnil
      cases hq
      exact absurd (hdid.symm.trans hnil) (Finset.singleton_ne_empty 0)
  · rw [hx]
    have hplays : Plays p.events p.waiters (.SetEvent event .loop)
      (.calling (.SetEvent event) (SetPoint.did (p.events event).AutoReset .loop)) :=
        .SetEvent event .loop
    rwa [hdid] at hplays

theorem follows_setEmpty (hS : p.Sound) (h : Coupled p s)
    (hth : p.threads t = .SetEvent event .loop) :
    Follows s (.step t)
      ((p.putEvent event (p.events event).unlock).move t (.SetEvent event .wake)) := by
  have hr := set_role hth (r := .setting event .loop) rfl
  obtain ⟨ops, hops, hshow⟩ := h.set_now hS hth
  refine ⟨ops, _, hops, hshow, Coupled.move h.created (h.auto_update rfl) ?_ ?_ (Plays.set rfl)⟩
  · rw [accounts_move]
    refine h.lit.next (fun u q hu => not_setting_of_held hS.accounts.events_held
      (heldEvent_eq hr) u q hu) (role_setting hr) nofun ?_ nofun
    exact fun _ => (hS.accounts.states.raised t event .loop hr).symm
  · exact h.others (update_AutoReset rfl) (fun _ _ _ _ => Keeps.list rfl)

theorem follows_setWakeOne (h : Coupled p s) {t' : Tid} {milliseconds : BitVec 64}
    (hth : p.threads t = .SetEvent event .wake)
    (hasleep : p.threads t' = .WaitForEvent event milliseconds .asleep) :
    Follows s (.step t)
      ((p.move t' (.WaitForEvent event milliseconds (.woken 0))).move t (.returned 0 0)) := by
  have hne : t ≠ t' := by
    rintro rfl
    cases hth.symm.trans hasleep
  have hwoken : Coupled (p.move t' (.WaitForEvent event milliseconds (.woken 0))) s := by
    refine h.goes (hasleep ▸ nofun) nofun (Plays.wake (hasleep ▸ h.plays t') (Or.inl rfl))
  have hstill : (p.move t' (.WaitForEvent event milliseconds (.woken 0))).threads t =
      .SetEvent event .wake := (Function.update_of_ne hne _ _).trans hth
  exact .silent rfl (hwoken.set_wake hstill)

theorem follows_setWakeAll (h : Coupled p s) (hth : p.threads t = .SetEvent event .wake) :
    Follows s (.step t) ((p.broadcast event).move t (.returned 0 0)) := by
  have hwoken : Coupled (p.broadcast event) s := by
    refine ⟨h.created, h.auto, ?_, fun u => (h.plays u).broadcast⟩
    rw [accounts_broadcast]
    exact h.lit
  have hstill : (p.broadcast event).threads t = .SetEvent event .wake := by
    change (p.threads t).broadcast event = _
    rw [hth]
    rfl
  exact .silent rfl (hwoken.set_wake hstill)

end setting

/-! ## Calls, returns, and waits for one event -/

theorem unseen_thread {th : Thread} (hth : p.threads t = th) (hout : th.role = .outside) :
    ∀ x q, p.accounts.roles t ≠ .setting x q := by
  intro x q hq
  rw [accounts_roles, hth, hout] at hq
  cases hq

theorem follows_CreateEvent (hS : p.Sound) (h : Coupled p s) (manualReset initialState : Bool) :
    Follows s (.created manualReset initialState) (p.CreateEvent manualReset initialState) := by
  have hnil := hS.accounts.entries.unmade p.created (Nat.le_refl _)
  have hnone : ∀ u q, p.accounts.roles u ≠ .setting p.created q := fun u q hu =>
    Nat.lt_irrefl _ (hS.accounts.states.made u _ q hu)
  refine .op (.CreateEvent manualReset initialState) rfl ⟨?_, ?_, ?_, ?_⟩
  · exact congrArg (· + 1) h.created
  · intro e
    change Function.update s.auto s.created _ e = (Function.update p.events p.created _ e).AutoReset
    rw [h.created, Function.update_apply, Function.update_apply, h.auto e]
    split <;> rfl
  · have hraising : ∀ x, (p.CreateEvent manualReset initialState).accounts.Raising x →
        x ≠ p.created ∧ p.accounts.Raising x := by
      rintro x ⟨u, q, hu, hdid⟩
      have hne : x ≠ p.created := by
        rintro rfl
        exact hnone u q hu
      change q.did (Function.update p.events p.created _ x).AutoReset = ∅ at hdid
      rw [Function.update_of_ne hne] at hdid
      exact ⟨hne, u, q, hu, hdid⟩
    constructor
    · intro x hx
      change Function.update s.set s.created _ x = (Function.update p.events p.created _ x).State
      rw [h.created, Function.update_apply, Function.update_apply]
      split
      case isTrue => rfl
      case isFalse hne =>
        refine h.lit.shown x (fun ⟨u, q, hu, hdid⟩ => hx ⟨u, q, hu, ?_⟩)
        change q.did (Function.update p.events p.created _ x).AutoReset = ∅
        rw [Function.update_of_ne hne]
        exact hdid
    · intro x hx hset
      obtain ⟨hne, hold⟩ := hraising x hx
      change Function.update s.set s.created _ x = true at hset
      change (Function.update p.events p.created _ x).RegisteredWaits = []
      rw [h.created, Function.update_of_ne hne] at hset
      rw [Function.update_of_ne hne]
      exact h.lit.raising x hold hset
  · intro u
    refine (h.plays u).keep ?_ (fun _ _ _ _ => Keeps.list hnil.symm)
    intro event point hu
    have hlt : event < p.created := hS.named u event (by rw [hu]; rfl)
    exact congrArg neosmart_event_t_.AutoReset (Function.update_of_ne (Nat.ne_of_lt hlt) _ _)

theorem follows_call (hS : p.Sound) (h : Coupled p s) (c : Call) (hth : p.threads t = .idle)
    (hevents : ∀ e ∈ c.events, e < p.created) : Follows s (.call t c) (p.enter t c) := by
  have hx : s.parties t = .idle := by
    have hplays := h.plays t
    rw [hth] at hplays
    generalize s.parties t = x at hplays
    cases hplays
    rfl
  have hcall := Signals.Step.call (s := s) (t := t) c hx (by rwa [h.created])
  have hout := unseen_thread hth rfl
  refine .op hcall rfl ?_
  cases c with
  | ResetEvent event =>
    refine Coupled.move h.created h.auto ?_ (fun u _ => h.plays u) (.ResetEvent event)
    rw [accounts_move]
    exact h.lit.role hout nofun
  | SetEvent event =>
    refine Coupled.move h.created h.auto ?_ (fun u _ => h.plays u) (.SetEvent event .lock)
    rw [accounts_move]
    exact h.lit.role hout nofun
  | WaitForEvent event milliseconds =>
    refine Coupled.move h.created h.auto ?_ (fun u _ => h.plays u) (.WaitForEvent nofun)
    rw [accounts_move]
    exact h.lit.role hout nofun
  | WaitForMultipleEvents events waitAll milliseconds =>
    have hfresh := hS.accounts.calls.fresh p.fresh (Nat.le_refl _)
    refine Coupled.move h.created h.auto ?_ ?_ ?_
    · rw [accounts_move]
      have hlit : Lit ({ p.putWaiter p.fresh (.new t events.length waitAll) with
        fresh := p.fresh + 1 } : Process).accounts s.set := ⟨h.lit.shown, h.lit.raising⟩
      exact hlit.role hout nofun
    · refine h.others (fun _ => rfl) (fun u c _ hc => Keeps.other ?_)
      intro heq
      exact hS.accounts.calls.not_fresh ⟨u, c, hc, heq⟩
    · refine Plays.going (Function.update_self _ _ _) ?_ (fun _ => rfl)
      refine ⟨?_, fun _ hi => absurd hi (Finset.notMem_empty _), fun _ _ _ => Finset.notMem_empty _,
        fun _ => rfl, fun _ _ _ hlt => absurd hlt (Nat.not_lt_zero _), fun _ _ _ => rfl⟩
      unfold Shows neosmart_wfmo_t_.new
      cases waitAll with
      | true => rfl
      | false => exact Or.inl ⟨rfl, rfl⟩

theorem follows_ret (h : Coupled p s) {result waitIndex : Int}
    (hth : p.threads t = .returned result waitIndex) :
    Follows s (.ret t result waitIndex) (p.move t .idle) := by
  have hplays := h.plays t
  rw [hth] at hplays
  generalize hx : s.parties t = x at hplays
  cases hplays with
  | returned hret =>
    refine .op (.ret hx hret) rfl (Coupled.move h.created h.auto ?_ (fun u _ => h.plays u) .idle)
    rw [accounts_move]
    exact h.lit.role (unseen_thread hth rfl) nofun

/-- A thread acts on an event that no thread sets, and maybe on waiters. -/
theorem Coupled.act (h : Coupled p s) {th th' : Thread} {x : Party} {e : neosmart_event_t_}
    {waiters : neosmart_wfmo_t → Option neosmart_wfmo_t_} (hth : p.threads t = th)
    (hout : ∀ y q, th.role ≠ .setting y q) (hout' : ∀ y q, th'.role ≠ .setting y q)
    (hnone : ∀ u q, p.accounts.roles u ≠ .setting event q)
    (hauto : e.AutoReset = (p.events event).AutoReset)
    (hkeeps : ∀ u c, u ≠ t → p.accounts.call u = some c →
      Keeps p.events (Function.update p.events event e) p.waiters waiters c.wfmo)
    (hplays : Plays (Function.update p.events event e) waiters th' x) :
    Coupled (({ p with waiters := waiters }.putEvent event e).move t th')
      ((s.put event e.State).party t x) := by
  refine Coupled.move h.created (h.auto_update hauto) ?_ (h.others (update_AutoReset hauto) hkeeps)
    hplays
  rw [accounts_move]
  have hlit : Lit ({ p with waiters := waiters } : Process).accounts s.set :=
    ⟨h.lit.shown, h.lit.raising⟩
  refine hlit.next (fun u q _ => hnone u q) ?_ (fun y q hq => absurd hq (hout' y q))
    (fun _ => rfl) (fun q hq => absurd hq (hout' event q))
  intro y q hq
  change (p.threads t).role = _ at hq
  rw [hth] at hq
  exact absurd hq (hout y q)

/-- The event looks as before. -/
theorem Coupled.act_unseen (h : Coupled p s) {th th' : Thread} {e : neosmart_event_t_}
    {waiters : neosmart_wfmo_t → Option neosmart_wfmo_t_} (hth : p.threads t = th)
    (hout : ∀ y q, th.role ≠ .setting y q) (hout' : ∀ y q, th'.role ≠ .setting y q)
    (hnone : ∀ u q, p.accounts.roles u ≠ .setting event q)
    (hauto : e.AutoReset = (p.events event).AutoReset) (hstate : e.State = (p.events event).State)
    (hkeeps : ∀ u c, u ≠ t → p.accounts.call u = some c →
      Keeps p.events (Function.update p.events event e) p.waiters waiters c.wfmo)
    (hplays : Plays (Function.update p.events event e) waiters th' (s.parties t)) :
    Coupled (({ p with waiters := waiters }.putEvent event e).move t th') s := by
  have hshown : s.set event = e.State :=
    (h.lit.shown event (fun ⟨u, q, hu, _⟩ => hnone u q hu)).trans hstate.symm
  have hsame : (s.put event e.State).party t (s.parties t) = s := by
    unfold Signals.party Signals.put
    rw [update_same hshown]
    change { s with parties := Function.update s.parties t (s.parties t) } = s
    rw [Function.update_eq_self]
  have hact := h.act hth hout hout' hnone hauto hkeeps hplays
  rwa [hsame] at hact

/-- Only waiters change. -/
theorem Coupled.count (h : Coupled p s) {th th' : Thread}
    {waiters : neosmart_wfmo_t → Option neosmart_wfmo_t_} (hth : p.threads t = th)
    (hout : ∀ y q, th.role ≠ .setting y q) (hout' : ∀ y q, th'.role ≠ .setting y q)
    (hkeeps : ∀ u c, u ≠ t → p.accounts.call u = some c →
      Keeps p.events p.events p.waiters waiters c.wfmo)
    (hplays : Plays p.events waiters th' (s.parties t)) :
    Coupled ({ p with waiters := waiters }.move t th') s := by
  refine Coupled.stay h.created h.auto ?_ (h.others (fun _ => rfl) hkeeps) hplays
  rw [accounts_move]
  have hlit : Lit ({ p with waiters := waiters } : Process).accounts s.set :=
    ⟨h.lit.shown, h.lit.raising⟩
  refine hlit.role ?_ hout'
  change ∀ y q, (p.threads t).role ≠ _
  rwa [hth]

theorem follows_reset (hS : p.Sound) (h : Coupled p s) (hth : p.threads t = .ResetEvent event)
    (hfree : (p.events event).Mutex = none) :
    Follows s (.step t)
      ((p.putEvent event { p.events event with State := false }).move t (.returned 0 0)) := by
  have hx := Plays.resetting (hth ▸ h.plays t)
  have hret : (Call.ResetEvent event).Returns {0} 0 0 := ⟨rfl, rfl, rfl⟩
  have hnone := not_setting_of_free hS.accounts.events_held hfree
  exact .op (.reset hx) rfl (h.act hth nofun nofun hnone rfl (fun _ _ _ _ => Keeps.list rfl)
    (.returned hret))

theorem follows_waitObtained (hS : p.Sound) (h : Coupled p s) {milliseconds : BitVec 64}
    {point : WaitPoint} (hth : p.threads t = .WaitForEvent event milliseconds point)
    (hfree : (p.events event).Mutex = none) (hset : (p.events event).State = true) :
    Follows s (.step t)
      ((p.putEvent event (p.events event).obtained).move t (.returned 0 0)) := by
  obtain ⟨hx, -⟩ := Plays.waiting (hth ▸ h.plays t)
  have hnone := not_setting_of_free hS.accounts.events_held hfree
  have hshown : s.set event = true :=
    (h.lit.shown event (fun ⟨u, q, hu, _⟩ => hnone u q hu)).trans hset
  have hret : (Call.WaitForEvent event milliseconds).Returns (insert 0 ∅) 0 0 :=
    ⟨rfl, Or.inl ⟨rfl, rfl⟩⟩
  have hstate : (p.events event).obtained.State = !s.auto event := by
    change ((p.events event).State && !(p.events event).AutoReset) = _
    rw [hset, h.auto event, Bool.true_and]
  have hact : Coupled ((p.putEvent event (p.events event).obtained).move t (.returned 0 0))
      ((s.put event (p.events event).obtained.State).party t
        (.calling (.WaitForEvent event milliseconds) (insert 0 ∅))) :=
    h.act hth nofun nofun hnone rfl (fun _ _ _ _ => Keeps.list rfl) (.returned hret)
  rw [hstate] at hact
  refine .op (.take hx rfl rfl (Finset.notMem_empty 0) hshown ?_) rfl hact
  exact fun _ => ⟨rfl, fun j y hj => absurd hj (Nat.not_lt_zero j)⟩

/-- A wait comes back with nothing. -/
theorem follows_waitTimeout (h : Coupled p s) {milliseconds : BitVec 64} {point : WaitPoint}
    (hth : p.threads t = .WaitForEvent event milliseconds point)
    (htime : milliseconds ≠ INFINITE) :
    Follows s (.step t) (p.move t (.returned WAIT_TIMEOUT 0)) := by
  obtain ⟨hx, -⟩ := Plays.waiting (hth ▸ h.plays t)
  have hret : (Call.WaitForEvent event milliseconds).Returns ∅ WAIT_TIMEOUT 0 :=
    ⟨rfl, Or.inr ⟨rfl, rfl, htime⟩⟩
  refine .silent rfl (h.goes (unseen_thread hth rfl) nofun ?_)
  rw [hx]
  exact .returned hret

theorem follows_waitTimedOut (h : Coupled p s) {milliseconds : BitVec 64} {result : Int}
    (hth : p.threads t = .WaitForEvent event milliseconds (.woken result)) (hresult : result ≠ 0) :
    Follows s (.step t) (p.move t (.returned result 0)) := by
  obtain ⟨-, hwoken⟩ := Plays.waiting (hth ▸ h.plays t)
  obtain ⟨rfl, htime⟩ := (hwoken result rfl).resolve_left hresult
  exact follows_waitTimeout h hth htime

/-- A wait falls asleep or wakes up. -/
theorem follows_waitMoves (h : Coupled p s) {milliseconds : BitVec 64} {point point' : WaitPoint}
    {act : Action} (hact : act.shown = none)
    (hth : p.threads t = .WaitForEvent event milliseconds point)
    (hresult : ∀ result, point' = .woken result →
      result = 0 ∨ (result = WAIT_TIMEOUT ∧ milliseconds ≠ INFINITE)) :
    Follows s act (p.move t (.WaitForEvent event milliseconds point')) := by
  obtain ⟨hx, -⟩ := Plays.waiting (hth ▸ h.plays t)
  refine .silent hact (h.goes (unseen_thread hth rfl) nofun ?_)
  rw [hx]
  exact .WaitForEvent hresult

/-! ## Waits for several events -/

section waits

variable {c : Wait} {point point' : MultiPoint}

theorem multi_not_setting (c : Wait) (point : MultiPoint) :
    ∀ y q, (Thread.WaitForMultipleEvents c point).role ≠ .setting y q := by
  intro y q
  cases point <;> nofun

theorem multi_role (hth : p.threads t = .WaitForMultipleEvents c point) :
    p.accounts.roles t = point.role c := by
  rw [accounts_roles, hth]
  rfl

/-- Nobody else sets the event that the thread looks at. -/
theorem swept_not_set (hS : p.Sound) {i k : Nat}
    (hth : p.threads t = .WaitForMultipleEvents c (.sweep i k)) (hi : c.events[i]? = some event) :
    ∀ u q, p.accounts.roles u ≠ .setting event q := by
  intro u q hu
  have hr := multi_role hth
  have hheld : p.accounts.heldEvent t = some event := (heldEvent_eq hr).trans hi
  have hut := hS.accounts.events_held.unique (heldEvent_eq hu) hheld
  rw [hut, hr] at hu
  cases hu

/-- The waiter of the call is nobody else's. -/
theorem own_waiter (hS : p.Sound) (hth : p.threads t = .WaitForMultipleEvents c point)
    (hcall : (point.role c).call = some c) (u : Tid) (c' : Wait) (hu : u ≠ t)
    (hc' : p.accounts.call u = some c') : c'.wfmo ≠ c.wfmo := by
  intro heq
  have hc : p.accounts.call t = some c := (call_eq (multi_role hth)).trans hcall
  exact hu (hS.accounts.calls.one_call u t c' c hc' hc heq)

theorem own_WaitAll (hS : p.Sound) {w : neosmart_wfmo_t_}
    (hth : p.threads t = .WaitForMultipleEvents c point) (hcall : (point.role c).call = some c)
    (hw : p.waiters c.wfmo = some w) : w.WaitAll = c.waitAll := by
  obtain ⟨w', hw', hall⟩ := hS.accounts.calls.alive t c ((call_eq (multi_role hth)).trans hcall)
  cases hw.symm.trans hw'
  exact hall

/-- The call goes on at another point, and nothing else changes. -/
theorem follows_multiMoves (h : Coupled p s) {act : Action} (hact : act.shown = none)
    (hth : p.threads t = .WaitForMultipleEvents c point)
    (hpoint : ∀ result waitIndex, point ≠ .destroy result waitIndex)
    (hlooked : (point'.role c).looked = (point.role c).looked)
    (hfits : ∀ got w, p.waiters c.wfmo = some w →
      Going p.events w c (point.role c).looked got → point.Fits c got → point'.Fits c got) :
    Follows s act (p.move t (.WaitForMultipleEvents c point')) := by
  obtain ⟨got, w, hx, hw, hgoing, hfits'⟩ := h.multi hth hpoint
  refine .silent hact (h.goes (hth ▸ multi_not_setting c point) (multi_not_setting c point') ?_)
  rw [hx]
  exact .going hw (hlooked ▸ hgoing) (hfits got w hw hgoing hfits')

theorem follows_multiLock (hS : p.Sound) (h : Coupled p s) {i : Nat}
    (hth : p.threads t = .WaitForMultipleEvents c (.register i))
    (hfree : (p.events event).Mutex = none) :
    Follows s (.step t) ((p.putEvent event ((p.events event).lock t)).move t
      (.WaitForMultipleEvents c (.sweep i 0))) := by
  have hnone := not_setting_of_free hS.accounts.events_held hfree
  obtain ⟨got, w, hx, hw, hgoing, hfits⟩ := h.multi hth nofun
  refine .silent rfl (h.act_unseen hth (multi_not_setting c _) (multi_not_setting c _) hnone rfl rfl
    (fun _ _ _ _ => Keeps.list rfl) ?_)
  have hkeeps : Keeps p.events (Function.update p.events event ((p.events event).lock t)) p.waiters
      p.waiters c.wfmo := Keeps.list rfl
  obtain ⟨w', hw', hgoing'⟩ := hgoing.keep hw hkeeps
  rw [hx]
  exact .going hw' hgoing' hfits

theorem follows_multiDrop (hS : p.Sound) (h : Coupled p s) {i k : Nat}
    {wait : neosmart_wfmo_info_t_} {w : neosmart_wfmo_t_}
    (hth : p.threads t = .WaitForMultipleEvents c (.sweep i k)) (hi : c.events[i]? = some event)
    (hk : (p.events event).RegisteredWaits[k]? = some wait) (hw : p.waiters wait.Waiter = some w)
    (hexpired : w.StillWaiting = false) :
    Follows s (.step t) (((p.putWaiter wait.Waiter w.dropped).putEvent event
      ((p.events event).erase k)).move t
        (.WaitForMultipleEvents c (.afterDrop w.dropped i k wait.Waiter))) := by
  have hkeeps : ∀ wfmo, Keeps p.events (Function.update p.events event ((p.events event).erase k))
      p.waiters (Function.update p.waiters wait.Waiter (some w.dropped)) wfmo :=
    fun wfmo => Keeps.drop hk rfl hw hexpired
  obtain ⟨got, w', hx, hw', hgoing, hfits⟩ := h.multi hth nofun
  refine .silent rfl (h.act_unseen hth (multi_not_setting c _) (multi_not_setting c _)
    (swept_not_set hS hth hi) rfl rfl (fun _ c' _ _ => hkeeps c'.wfmo) ?_)
  obtain ⟨w'', hw'', hgoing'⟩ := hgoing.keep hw' (hkeeps c.wfmo)
  rw [hx]
  unfold MultiPoint.afterDrop
  split
  · exact .going hw'' hgoing' hfits
  · exact .going hw'' hgoing' hfits

theorem follows_multiExpired (hS : p.Sound) (h : Coupled p s) {i k : Nat} {wfmo : neosmart_wfmo_t}
    (hth : p.threads t = .WaitForMultipleEvents c (.expired i k wfmo)) :
    Follows s (.step t) ((p.delete wfmo).move t (.WaitForMultipleEvents c (.sweep i k))) := by
  have hkeeps : ∀ u c', p.accounts.call u = some c' →
      Keeps p.events p.events p.waiters (Function.update p.waiters wfmo none) c'.wfmo := by
    intro u c' hc'
    refine Keeps.other (fun heq => ?_)
    exact hS.accounts.not_called (deleting_eq (multi_role hth) :) ⟨u, c', hc', heq⟩
  obtain ⟨got, w, hx, hw, hgoing, hfits⟩ := h.multi hth nofun
  refine .silent rfl (h.count hth (multi_not_setting c _) (multi_not_setting c _)
    (fun u c' _ hc' => hkeeps u c' hc') ?_)
  obtain ⟨w', hw', hgoing'⟩ := hgoing.keep hw (hkeeps t c (call_eq (multi_role hth) :))
  rw [hx]
  exact .going hw' hgoing' hfits

theorem follows_multiNoTime (h : Coupled p s)
    (hth : p.threads t = .WaitForMultipleEvents c (.register c.events.length))
    (hno : c.milliseconds = 0) :
    Follows s (.step t) (p.move t (.WaitForMultipleEvents c (.finish WAIT_TIMEOUT))) := by
  refine follows_multiMoves h rfl hth nofun rfl ?_
  intro got w _ _ hfits
  refine Or.inr ⟨rfl, ?_, fun hany hsome => absurd (hfits hany) hsome⟩
  rw [hno]
  decide

theorem follows_multiDone (hS : p.Sound) (h : Coupled p s) {w : neosmart_wfmo_t_}
    (hth : p.threads t = .WaitForMultipleEvents c (.register c.events.length))
    (hsome : c.milliseconds ≠ 0) (hw : p.waiters c.wfmo = some w) (hdone : w.done = true) :
    Follows s (.step t) (p.move t (.WaitForMultipleEvents c (.finish 0))) := by
  refine follows_multiMoves h rfl hth nofun rfl ?_
  intro got w' hw' hgoing _
  cases hw.symm.trans hw'
  have hgot := (done_got hgoing.status hgoing.within (own_WaitAll hS hth rfl hw)).mp hdone
  exact Or.inl ⟨rfl, hgot, fun _ => hsome⟩

/-- The thread gives the mutex of its waiter back, or takes it. -/
theorem follows_multiMutex (hS : p.Sound) (h : Coupled p s) {w : neosmart_wfmo_t_}
    {Mutex : Option Tid} (hth : p.threads t = .WaitForMultipleEvents c point)
    (hcall : (point.role c).call = some c) (hw : p.waiters c.wfmo = some w)
    (hpoint : ∀ result waitIndex, point ≠ .destroy result waitIndex)
    (hlooked : (point'.role c).looked = (point.role c).looked)
    (hfits : ∀ got, Going p.events w c (point.role c).looked got → point.Fits c got →
      point'.Fits c got ∧ (Mutex = none → c.waitAll = false → got = ∅)) :
    Follows s (.step t) ((p.putWaiter c.wfmo { w with Mutex := Mutex }).move t
      (.WaitForMultipleEvents c point')) := by
  obtain ⟨got, w', hx, hw', hgoing, hfits'⟩ := h.multi hth hpoint
  cases hw.symm.trans hw'
  obtain ⟨hnew, hnone⟩ := hfits got hgoing hfits'
  refine .silent rfl (h.count hth (multi_not_setting c _) (multi_not_setting c _)
    (fun u c' hu hc' => Keeps.other (own_waiter hS hth hcall u c' hu hc')) ?_)
  rw [hx]
  refine .going (Function.update_self _ _ _) ?_ hnew
  rw [hlooked]
  exact ⟨hgoing.status, hgoing.within, hgoing.unlisted, hgoing.waits, hgoing.listed,
    fun hany _ hfree => hnone hfree hany⟩

theorem follows_multiFinish (hS : p.Sound) (h : Coupled p s) {w : neosmart_wfmo_t_} {result : Int}
    (hth : p.threads t = .WaitForMultipleEvents c (.finish result))
    (hw : p.waiters c.wfmo = some w) :
    Follows s (.step t)
      ((p.putWaiter c.wfmo w.finished).move t (.afterFinish c w.finished result)) := by
  obtain ⟨got, w', hx, hw', hgoing, hfits⟩ := h.multi hth nofun
  cases hw.symm.trans hw'
  have hret : c.toCall.Returns got result w.finished.Status := ⟨hgoing.status, hfits⟩
  have hout : ∀ y q, (Thread.afterFinish c w.finished result).role ≠ .setting y q := by
    intro y q
    rw [role_finish]
    split <;> nofun
  refine .silent rfl (h.count hth (multi_not_setting c _) hout
    (fun u c' hu hc' => Keeps.other (own_waiter hS hth rfl u c' hu hc')) ?_)
  rw [hx]
  unfold Thread.afterFinish
  split
  · exact .destroying hret
  · exact .returned hret

theorem follows_multiDestroy (hS : p.Sound) (h : Coupled p s) {result waitIndex : Int}
    (hth : p.threads t = .WaitForMultipleEvents c (.destroy result waitIndex)) :
    Follows s (.step t) ((p.delete c.wfmo).move t (.returned result waitIndex)) := by
  have hplays := h.plays t
  rw [hth] at hplays
  generalize hx : s.parties t = x at hplays
  refine .silent rfl (h.count hth (multi_not_setting c _) nofun ?_ ?_)
  · intro u c' _ hc'
    refine Keeps.other (fun heq => ?_)
    exact hS.accounts.not_called (deleting_eq (multi_role hth) :) ⟨u, c', hc', heq⟩
  · rw [hx]
    cases hplays with
    | going hw hgoing hfits => cases hfits
    | destroying hret => exact .returned hret

/-- The entries of the call are for places before the one that it looks at. -/
theorem swept_unlisted (hS : p.Sound) {i k : Nat}
    (hth : p.threads t = .WaitForMultipleEvents c (.sweep i k)) (e : neosmart_event_t) :
    { Waiter := c.wfmo, WaitIndex := i } ∉ (p.events e).RegisteredWaits := by
  intro hmem
  have hplaced := hS.accounts.entries.placed e _ t c hmem (call_eq (multi_role hth)) rfl
  rw [multi_role hth] at hplaced
  exact Nat.lt_irrefl i hplaced.2

theorem swept_mutex (hS : p.Sound) {i k : Nat} {w : neosmart_wfmo_t_}
    (hth : p.threads t = .WaitForMultipleEvents c (.sweep i k)) (hw : p.waiters c.wfmo = some w) :
    w.Mutex = some t := by
  have howner := (hS.accounts.waiters_held c.wfmo t).mpr (heldWaiter_eq (multi_role hth) :)
  exact (waiterOwner_eq hw).symm.trans howner

theorem follows_multiObtained (hS : p.Sound) (h : Coupled p s) {i k : Nat} {w : neosmart_wfmo_t_}
    (hth : p.threads t = .WaitForMultipleEvents c (.sweep i k)) (hi : c.events[i]? = some event)
    (hset : (p.events event).State = true) (hw : p.waiters c.wfmo = some w) :
    Follows s (.step t) (((p.putWaiter c.wfmo (w.counted i)).putEvent event
      (p.events event).obtained.unlock).move t
        (.WaitForMultipleEvents c (.afterObtained c i))) := by
  have hnone := swept_not_set hS hth hi
  have hmutex := swept_mutex hS hth hw
  have hall := own_WaitAll hS hth rfl hw
  have hlt : i < c.events.length := (List.getElem?_eq_some_iff.mp hi).1
  obtain ⟨got, w', hx, hw', hgoing, hfits⟩ := h.multi hth nofun
  cases hw.symm.trans hw'
  have hnot : i ∉ got := fun hmem => Nat.lt_irrefl i (hgoing.within i hmem)
  have hshown : s.set event = true :=
    (h.lit.shown event (fun ⟨u, q, hu, _⟩ => hnone u q hu)).trans hset
  have hstate : (p.events event).obtained.unlock.State = !s.auto event := by
    change ((p.events event).State && !(p.events event).AutoReset) = _
    rw [hset, h.auto event, Bool.true_and]
  have hmem : ∀ e j, { Waiter := c.wfmo, WaitIndex := j } ∈ (Function.update p.events event
      (p.events event).obtained.unlock e).RegisteredWaits ↔
        { Waiter := c.wfmo, WaitIndex := j } ∈ (p.events e).RegisteredWaits := by
    intro e j
    rw [Function.update_apply]
    split
    case isTrue heq =>
      rw [heq]
      rfl
    case isFalse => exact Iff.rfl
  -- the call goes on, or it has its event
  have hgets : ∀ looked', i < looked' → i ≤ looked' → (c.waitAll = true → looked' = i + 1) →
      Going (Function.update p.events event (p.events event).obtained.unlock) (w.counted i) c
        looked' (insert i got) := by
    intro looked' hlt' hle hmore
    refine hgoing.gets hall hnot hfits rfl (fun _ => rfl) hlt' hle ?_ ?_ ?_ ?_
    · intro hwait j hj hne
      rw [hmore hwait] at hj
      change j < i
      omega
    · intro e j hj
      rw [hmem] at hj
      refine ⟨?_, hj⟩
      rintro rfl
      exact swept_unlisted hS hth e hj
    · exact fun e j _ hj => (hmem e j).mpr hj
    · intro _ _ hfree
      cases hmutex.symm.trans hfree
  have hact : Coupled (((p.putWaiter c.wfmo (w.counted i)).putEvent event
      (p.events event).obtained.unlock).move t (.WaitForMultipleEvents c (.afterObtained c i)))
        ((s.put event (p.events event).obtained.unlock.State).party t
          (.calling c.toCall (insert i got))) := by
    refine h.act hth (multi_not_setting c _) (multi_not_setting c _) hnone rfl ?_ ?_
    · intro u c' hu hc'
      have hother : Keeps p.events p.events p.waiters
          (Function.update p.waiters c.wfmo (some (w.counted i))) c'.wfmo :=
        Keeps.other (own_waiter hS hth rfl u c' hu hc')
      exact hother.trans (Keeps.list rfl)
    · unfold MultiPoint.afterObtained
      cases hc : c.waitAll with
      | true =>
        refine .going (Function.update_self _ _ _)
          (hgets (i + 1) (Nat.lt_succ_self i) (Nat.le_succ i) (fun _ => rfl)) ?_
        exact fun hany => absurd (hany.symm.trans hc) nofun
      | false =>
        refine .going (Function.update_self _ _ _)
          (hgets c.events.length hlt (Nat.le_of_lt hlt)
            (fun hwait => nomatch hc.symm.trans hwait)) ?_
        refine Or.inl ⟨rfl, ?_, fun hwait => nomatch hc.symm.trans hwait⟩
        unfold Got
        rw [hc]
        exact Finset.insert_ne_empty i got
  rw [hstate] at hact
  refine .op (.take hx (rfl : c.toCall.waitsAll = some c.waitAll) hi hnot hshown ?_) rfl hact
  intro hany
  have hgot := hfits hany
  exact ⟨hgot, hgoing.takes_first hS h hgot (Nat.le_refl i)⟩

theorem follows_multiRegister (hS : p.Sound) (h : Coupled p s) {i k : Nat} {w : neosmart_wfmo_t_}
    (hth : p.threads t = .WaitForMultipleEvents c (.sweep i k)) (hi : c.events[i]? = some event)
    (hunset : (p.events event).State = false) (hw : p.waiters c.wfmo = some w) :
    Follows s (.step t) (((p.putWaiter c.wfmo w.registered).putEvent event
      ((p.events event).push_back { Waiter := c.wfmo, WaitIndex := i }).unlock).move t
        (.WaitForMultipleEvents c (.register (i + 1)))) := by
  obtain ⟨got, w', hx, hw', hgoing, hfits⟩ := h.multi hth nofun
  cases hw.symm.trans hw'
  have hnot : i ∉ got := fun hmem => Nat.lt_irrefl i (hgoing.within i hmem)
  have hlist : ∀ e j, { Waiter := c.wfmo, WaitIndex := j } ∈ (Function.update p.events event
      ((p.events event).push_back { Waiter := c.wfmo, WaitIndex := i }).unlock e).RegisteredWaits ↔
        { Waiter := c.wfmo, WaitIndex := j } ∈ (p.events e).RegisteredWaits ∨
          (e = event ∧ j = i) := by
    intro e j
    rw [Function.update_apply]
    split
    case isTrue heq =>
      subst heq
      change _ ∈ (p.events e).RegisteredWaits ++ [_] ↔ _
      simp
    case isFalse hne => simp [hne]
  refine .silent rfl (h.act_unseen hth (multi_not_setting c _) (multi_not_setting c _)
    (swept_not_set hS hth hi) rfl rfl ?_ ?_)
  · intro u c' hu hc'
    have hne := own_waiter hS hth rfl u c' hu hc'
    have hother : Keeps p.events p.events p.waiters
        (Function.update p.waiters c.wfmo (some w.registered)) c'.wfmo := Keeps.other hne
    exact hother.trans (Keeps.push rfl hne.symm)
  · rw [hx]
    refine .going (Function.update_self _ _ _) ?_ hfits
    refine ⟨hgoing.status, fun j hj => Nat.lt_succ_of_lt (hgoing.within j hj), ?_, hgoing.waits, ?_,
      hgoing.first⟩
    · intro e j hmem
      rcases (hlist e j).mp hmem with hold | ⟨-, rfl⟩
      · exact hgoing.unlisted e j hold
      · exact hnot
    · intro hwhich j e hj hje hout
      rw [hlist]
      by_cases hji : j = i
      · subst hji
        exact Or.inr ⟨Option.some.inj (hje.symm.trans hi), rfl⟩
      · refine Or.inl (hgoing.listed hwhich j e ?_ hje hout)
        exact Nat.lt_of_le_of_ne (Nat.lt_succ_iff.mp hj) hji

end waits

/-! ## The refinement -/

/-- Each step of a thread is followed by the specification. -/
theorem follows_next {p' : Process} {act : Action} (hS : p.Sound) (h : Coupled p s)
    (hstep : Step p act p') : Follows s act p' := by
  cases hstep with
  | CreateEvent manualReset initialState => exact follows_CreateEvent hS h manualReset initialState
  | call c hth hevents => exact follows_call hS h c hth hevents
  | ret hth => exact follows_ret h hth
  | reset hth hfree => exact follows_reset hS h hth hfree
  | setLock hth hfree => exact follows_setLock hS h hth hfree
  | setExpired hth hfront hw hfree hexpired => exact follows_setExpired hS h hth hfront hw hexpired
  | setFired hth hfront hw hfree hwaits => exact follows_setFired hS h hth hfront hw hfree hwaits
  | setDestroy hth => exact follows_setDestroy hS h hth
  | setSignalOne hth halive hauto => exact follows_setSignalOne hS h hth
  | setSignalEach hth halive hmanual => exact follows_setSignalEach hS h hth hmanual
  | setEmpty hth hempty hset => exact follows_setEmpty hS h hth
  | @setThrough t event hth hempty hauto hunset =>
    have hraised := hS.accounts.states.raised t event .loop (set_role hth rfl)
    exact absurd (hunset.symm.trans hraised) nofun
  | setWakeOne hth hauto hasleep => exact follows_setWakeOne h hth hasleep
  | setWakeNone hth => exact .silent rfl (h.set_wake hth)
  | setWakeAll hth => exact follows_setWakeAll h hth
  | waitBusy hth => exact follows_waitTimeout h hth (by decide)
  | waitObtained hth hpoint hfree hset => exact follows_waitObtained hS h hth hfree hset
  | waitNoTime hth => exact follows_waitTimeout h hth (by decide)
  | waitSleep hth => exact follows_waitMoves h rfl hth nofun
  | waitTimedOut hth hresult => exact follows_waitTimedOut h hth hresult
  | multiLock hth hi hfree => exact follows_multiLock hS h hth hfree
  | multiKeep hth => exact follows_multiMoves h rfl hth nofun rfl (fun _ _ _ _ hfits => hfits)
  | multiDrop hth hi hk hw hfree hexpired => exact follows_multiDrop hS h hth hi hk hw hexpired
  | multiExpired hth => exact follows_multiExpired hS h hth
  | multiObtained hth hi hk hset hw => exact follows_multiObtained hS h hth hi hset hw
  | multiRegister hth hi hk hunset hw => exact follows_multiRegister hS h hth hi hunset hw
  | multiNoTime hth hno => exact follows_multiNoTime h hth hno
  | multiDone hth hsome hw hdone => exact follows_multiDone hS h hth hsome hw hdone
  | multiSleep hth hsome hw hdone =>
    refine follows_multiMutex hS h hth rfl hw nofun rfl ?_
    exact fun got _ hfits => ⟨hsome, fun _ => hfits⟩
  | multiWokenDone hth hw hfree hdone =>
    refine follows_multiMutex hS h hth rfl hw nofun rfl ?_
    intro got hgoing ⟨hsome, hresult⟩
    refine ⟨?_, nofun⟩
    rcases hresult with rfl | ⟨rfl, htime⟩
    · have hgot := hdone.resolve_left (not_not.mpr rfl)
      rw [done_got hgoing.status hgoing.within (own_WaitAll hS hth rfl hw)] at hgot
      exact Or.inl ⟨rfl, hgot, fun _ => hsome⟩
    · exact Or.inr ⟨rfl, htime, fun _ _ => hsome⟩
  | multiWokenSleep hth hw hfree hdone =>
    exact follows_multiMoves h rfl hth nofun rfl (fun _ _ _ _ hfits => hfits.1)
  | multiFinish hth hw => exact follows_multiFinish hS h hth hw
  | multiDestroy hth => exact follows_multiDestroy hS h hth
  | spuriousOne hth =>
    refine follows_waitMoves h rfl hth ?_
    rintro _ ⟨⟩
    exact Or.inl rfl
  | spuriousMulti hth =>
    exact follows_multiMoves h rfl hth nofun rfl (fun _ _ _ _ hfits => ⟨hfits, Or.inl rfl⟩)
  | timedOutOne hth htime =>
    refine follows_waitMoves h rfl hth ?_
    rintro _ ⟨⟩
    exact Or.inr ⟨rfl, htime⟩
  | timedOutMulti hth htime =>
    exact follows_multiMoves h rfl hth nofun rfl
      (fun _ _ _ _ hfits => ⟨hfits, Or.inr ⟨rfl, htime⟩⟩)

theorem coupled_init : Coupled Process.init Signals.init where
  created := rfl
  auto _ := rfl
  lit := ⟨fun _ _ => rfl, fun _ _ hset => nomatch hset⟩
  plays _ := .idle

theorem events_simulate : Simulates Step Action.shown Signals.Step Op.shows
    (fun p s => p.Sound ∧ Coupled p s) := by
  rintro p s act p' ⟨hS, h⟩ hstep
  obtain ⟨ops, s', hops, hshow, h'⟩ := follows_next hS h hstep
  exact ⟨ops, s', hops, hshow, sound_next hS hstep, h'⟩

theorem coupled_reaches {acts : List Action} (h : Reaches Step Process.init acts p) :
    ∃ ops s, Reaches Signals.Step Signals.init ops s ∧
      ops.filterMap Op.shows = acts.filterMap Action.shown ∧ Coupled p s := by
  obtain ⟨ops, s, hops, hshow, -, hcoupled⟩ :=
    events_simulate.run ⟨sound_init, coupled_init⟩ h
  exact ⟨ops, s, hops, hshow, hcoupled⟩

/-- Whatever threads do with events, the calls and returns are those of events
that are set, reset and taken in one step each. -/
theorem events_do_as_specified {acts : List Action} (h : Reaches Step Process.init acts p) :
    ∃ ops s, Reaches Signals.Step Signals.init ops s ∧
      ops.filterMap Op.shows = acts.filterMap Action.shown ∧ Coupled p s :=
  coupled_reaches h

/-- One thread waits for an event, and another sets it. -/
def handOver : List Action :=
  [.created false false, .call 0 (.WaitForMultipleEvents [0] false INFINITE), .step 0, .step 0,
    .step 0, .call 1 (.SetEvent 0), .step 1, .step 1, .step 1, .ret 1 0 0, .step 0, .step 0,
    .step 0, .ret 0 0 0]

theorem a_wait_gets_the_event_as_specified : ∃ p ops s, Reaches Step Process.init handOver p ∧
    Reaches Signals.Step Signals.init ops s ∧
      ops.filterMap Op.shows = handOver.filterMap Action.shown ∧ Coupled p s := by
  have hrun : Reaches Step Process.init handOver _ := Reaches.start.steps step_step handOver rfl
  obtain ⟨ops, s, hops⟩ := events_do_as_specified hrun
  exact ⟨_, ops, s, hrun, hops⟩

end payloader.pevents
