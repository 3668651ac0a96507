-- The threads of a session, in TcpServer.cpp, over the events of pevents.cpp:
-- the one that serves the client, the one that waits in `select`, and the one
-- of the timer. What they do with the events, with all their mutexes and
-- waiters, they can do with calls of one step each.
import Payloader.SessionEvents
import Payloader.PeventsRest

set_option autoImplicit false

namespace payloader.session_program

open payloader.machines payloader.simulations

/-! ## The program -/

/-- `thread_function02`: in `select`, before `SetEvent`, or in it. -/
inductive Watching where
  | select
  | SetEvent
  | setting
  deriving DecidableEq

/-- The thread of `timer_start`: before `SetEvent`, in it, or in its sleep. -/
inductive Timing where
  | do_something
  | setting
  | sleep_for
  deriving DecidableEq

/-- `thread_function01`: before a call on its events, in it, or elsewhere. -/
inductive Serving where
  | CreateEvent (i : Nat)
  | WaitForMultipleEvents
  | waiting
  | ResetEvent
  | resetting
  | recv
  | handling
  | ticking
  | stopped
  deriving DecidableEq

structure Program where
  unread : Nat
  closed : Bool
  session : Serving
  watcher : Watching
  timer : Timing
  deriving DecidableEq

def Program.init : Program where
  unread := 0
  closed := false
  session := .CreateEvent 0
  watcher := .select
  timer := .do_something

/-- The other threads are made when the events are there. -/
def Program.started (g : Program) : Bool :=
  match g.session with
  | .CreateEvent _ => false
  | _ => true

/-- There is something to read, or the end of the stream. -/
def Program.Readable (g : Program) : Prop := 0 < g.unread ∨ g.closed = true

instance (g : Program) : Decidable g.Readable := inferInstanceAs (Decidable (_ ∨ _))

/-- What the program and its client do: a call on an event or its return, and
the rest. -/
inductive Doing where
  | pevents (act : pevents.Action)
  | send (n : Nat)
  | close
  | select
  | sleep_for
  | recv (n : Nat)
  | handled (Stop : Bool)
  | ticked

/-- The wait of `thread_function01`. -/
def theWait : pevents.Call := .WaitForMultipleEvents [0, 1] false pevents.INFINITE

/-- `switch (index)`. -/
def Serving.switch (index : Int) : Serving :=
  if index = 1 then .ResetEvent else if index = 0 then .ticking else .WaitForMultipleEvents

/-- The threads that make calls: `thread_function01` is thread 0,
`thread_function02` thread 1, and the timer thread 2. -/
def Program.call (g : Program) (t : pevents.Tid) (c : pevents.Call) : Option Program :=
  if t = 0 ∧ g.session = .WaitForMultipleEvents ∧ c = theWait then
    some { g with session := .waiting }
  else if t = 0 ∧ g.session = .ResetEvent ∧ c = .ResetEvent 1 then
    some { g with session := .resetting }
  else if t = 1 ∧ g.watcher = .SetEvent ∧ c = .SetEvent 1 then some { g with watcher := .setting }
  else if t = 2 ∧ g.started = true ∧ g.timer = .do_something ∧ c = .SetEvent 0 then
    some { g with timer := .setting }
  else none

def Program.ret (g : Program) (t : pevents.Tid) (waitIndex : Int) : Option Program :=
  if t = 0 ∧ g.session = .waiting then some { g with session := .switch waitIndex }
  else if t = 0 ∧ g.session = .resetting then some { g with session := .recv }
  else if t = 1 ∧ g.watcher = .setting then some { g with watcher := .select }
  else if t = 2 ∧ g.timer = .setting then some { g with timer := .sleep_for }
  else none

def Program.create (g : Program) : Option Program :=
  if g.session = .CreateEvent 0 then some { g with session := .CreateEvent 1 }
  else if g.session = .CreateEvent 1 then some { g with session := .WaitForMultipleEvents }
  else none

def Program.step (g : Program) : Doing → Option Program
  | .pevents (.created manualReset initialState) =>
    if manualReset = false ∧ initialState = false then g.create else none
  | .pevents (.call t c) => g.call t c
  | .pevents (.ret t _ waitIndex) => g.ret t waitIndex
  | .pevents (.step _) => none
  | .pevents (.spurious _) => none
  | .pevents (.timedOut _) => none
  | .send n => if g.closed = false then some { g with unread := g.unread + n } else none
  | .close => some { g with closed := true }
  | .select =>
    if g.started = true ∧ g.watcher = .select ∧ g.Readable then some { g with watcher := .SetEvent }
    else none
  | .sleep_for => if g.timer = .sleep_for then some { g with timer := .do_something } else none
  | .recv n =>
    if g.session = .recv ∧ n ≤ g.unread ∧ n ≤ session_events.RECV_SIZE ∧
        (0 < n ∨ g.unread = 0 ∧ g.closed = true) then
      some { g with unread := g.unread - n, session := .handling }
    else none
  | .handled Stop =>
    if g.session = .handling then
      some { g with session := if Stop then .stopped else .WaitForMultipleEvents }
    else none
  | .ticked =>
    if g.session = .ticking then some { g with session := .WaitForMultipleEvents } else none

def Program.Step (g : Program) (d : Doing) (g' : Program) : Prop := g.step d = some g'

def Doing.calls : Doing → Option pevents.Action
  | .pevents act => some act
  | .send _ => none
  | .close => none
  | .select => none
  | .sleep_for => none
  | .recv _ => none
  | .handled _ => none
  | .ticked => none

/-- The program over all that pevents.cpp does. -/
def Locked : Program × pevents.Process → Option Doing × Option pevents.Action →
    Program × pevents.Process → Prop :=
  Joint Program.Step Doing.calls pevents.Step pevents.Action.shown

/-- The program over events that are set, reset and taken in one step. -/
def Served : Program × pevents.Signals → Option Doing × Option pevents.Op →
    Program × pevents.Signals → Prop :=
  Joint Program.Step Doing.calls pevents.Signals.Step pevents.Op.shows

/-! ## What is seen of it -/

/-- What both the program and the model of its calls do. -/
def Doing.seen : Doing → Option session_events.Call
  | .pevents _ => none
  | .send n => some (.send n)
  | .close => some .close
  | .select => some .select
  | .sleep_for => none
  | .recv n => some (.recv n)
  | .handled Stop => some (.handled Stop)
  | .ticked => some .ticked

/-- The calls on events are not seen. -/
def seen : session_events.Call → Option session_events.Call
  | .send n => some (.send n)
  | .close => some .close
  | .do_something => none
  | .select => some .select
  | .SetEvent => none
  | .WaitForMultipleEvents => none
  | .ResetEvent => none
  | .recv n => some (.recv n)
  | .handled Stop => some (.handled Stop)
  | .ticked => some .ticked

/-! ## Who stands where -/

open pevents (Party)

/-- `thread_function02` has set its event before its call returns. -/
inductive Watches : Watching → Party → session_events.Watcher → Prop
  | select : Watches .select .idle .select
  | before : Watches .SetEvent .idle .SetEvent
  | setting : Watches .setting (.calling (.SetEvent 1) ∅) .SetEvent
  | set : Watches .setting (.calling (.SetEvent 1) {0}) .select

inductive Ticks : Timing → Party → Prop
  | before : Ticks .do_something .idle
  | setting (did : Finset Nat) : Ticks .setting (.calling (.SetEvent 0) did)
  | sleeps : Ticks .sleep_for .idle

/-- `thread_function01` has taken an event before its wait returns. -/
inductive Serves : Serving → Party → session_events.Loop → Prop
  | creating (i : Nat) : Serves (.CreateEvent i) .idle .WaitForMultipleEvents
  | before : Serves .WaitForMultipleEvents .idle .WaitForMultipleEvents
  | waiting : Serves .waiting (.calling theWait ∅) .WaitForMultipleEvents
  | ticked : Serves .waiting (.calling theWait {0}) .ticking
  | told : Serves .waiting (.calling theWait {1}) .ResetEvent
  | resets : Serves .ResetEvent .idle .ResetEvent
  | resetting : Serves .resetting (.calling (.ResetEvent 1) ∅) .ResetEvent
  | reset : Serves .resetting (.calling (.ResetEvent 1) {0}) .recv
  | recv : Serves .recv .idle .recv
  | handling : Serves .handling .idle .handling
  | ticking : Serves .ticking .idle .ticking
  | stopped : Serves .stopped .idle .stopped

/-- The session makes its events. -/
structure Making (x : Program × pevents.Signals) (i : Nat) : Prop where
  created : x.2.created = i
  unset : x.2.set 0 = false ∧ x.2.set 1 = false
  watcher : x.1.watcher = .select
  timer : x.1.timer = .do_something

/-- The program and its events, and the model of its calls. -/
structure Matches (x : Program × pevents.Signals) (y : session_events.Threads) : Prop where
  unread : y.unread = x.1.unread
  closed : y.closed = x.1.closed
  event0 : y.event0 = x.2.set 0
  event1 : y.event1 = x.2.set 1
  auto : ∀ e, x.2.auto e = true
  making : ∀ i, x.1.session = .CreateEvent i → Making x i
  session : Serves x.1.session (x.2.parties 0) y.session
  watcher : Watches x.1.watcher (x.2.parties 1) y.watcher
  timer : Ticks x.1.timer (x.2.parties 2)
  others : ∀ t, 3 ≤ t → x.2.parties t = .idle

variable {g g' : Program} {s s' : pevents.Signals} {y : session_events.Threads} {d : Doing}
variable {t : pevents.Tid} {event : pevents.neosmart_event_t}

/-- The model follows with calls that show the same. -/
def Follows (y : session_events.Threads) (d : Option Doing) (x : Program × pevents.Signals) :
    Prop :=
  ∃ calls y', Reaches session_events.Step y calls y' ∧
    calls.filterMap seen = (d.bind Doing.seen).toList ∧ Matches x y'

theorem Follows.silent {d : Option Doing} (hd : d.bind Doing.seen = none) (h : Matches (g, s) y) :
    Follows y d (g, s) :=
  ⟨[], y, .start, by rw [hd]; rfl, h⟩

theorem Follows.call {d : Option Doing} {a : session_events.Call} {y' : session_events.Threads}
    (hs : session_events.Step y a y') (ha : seen a = d.bind Doing.seen) (h : Matches (g, s) y') :
    Follows y d (g, s) := by
  refine ⟨[a], y', Reaches.start.next hs, ?_, h⟩
  rw [← ha]
  cases hseen : seen a with
  | none => rw [List.filterMap_cons_none hseen]; rfl
  | some b => rw [List.filterMap_cons_some hseen]; rfl

/-! ## The steps of the program -/

theorem Matches.readable (h : Matches (g, s) y) (hread : g.Readable) : session_events.Readable y :=
  hread.imp (fun hu => h.unread ▸ hu) (fun hc => h.closed.trans hc)

theorem started_made (h : g.started = true) (i : Nat) : g.session ≠ .CreateEvent i := by
  intro hc
  unfold Program.started at h
  rw [hc] at h
  cases h

/-- Where `thread_function01` is in no call on its events. -/
def Serving.place : Serving → Option session_events.Loop
  | .CreateEvent _ => some .WaitForMultipleEvents
  | .WaitForMultipleEvents => some .WaitForMultipleEvents
  | .waiting => none
  | .ResetEvent => some .ResetEvent
  | .resetting => none
  | .recv => some .recv
  | .handling => some .handling
  | .ticking => some .ticking
  | .stopped => some .stopped

theorem Serves.outside {a : Serving} {x : Party} {z z' : session_events.Loop} (h : Serves a x z)
    (ha : a.place = some z') : x = .idle ∧ z = z' := by
  cases h <;> cases ha <;> exact ⟨rfl, rfl⟩

theorem Matches.outside (h : Matches (g, s) y) {a : Serving} {z : session_events.Loop}
    (hg : g.session = a) (ha : a.place = some z) : s.parties 0 = .idle ∧ y.session = z :=
  h.session.outside (by rw [hg]; exact ha)

/-- `thread_function01` goes on outside of its calls. -/
theorem Matches.serve (h : Matches (g, s) y) (hidle : s.parties 0 = .idle) {a : Serving}
    {z : session_events.Loop} (hserves : Serves a .idle z) (hmade : ∀ i, a ≠ .CreateEvent i) :
    Matches ({ g with session := a }, s) { y with session := z } := by
  refine { h with making := fun i hi => absurd hi (hmade i), session := ?_ }
  change Serves a (s.parties 0) z
  rwa [hidle]

/-- A step of a thread alone. -/
theorem follows_client (h : Matches (g, s) y) (hs : g.step d = some g') (hown : d.calls = none) :
    Follows y (some d) (g', s) := by
  cases d with
  | pevents act => cases hown
  | send n =>
    obtain ⟨hopen, heq⟩ := Option.ite_none_right_eq_some.mp hs
    cases heq
    refine .call (a := .send n) (if_pos (h.closed.trans hopen)) rfl ?_
    exact { h with
      unread := congrArg (· + n) h.unread
      making := fun i hi => { h.making i hi with } }
  | close =>
    cases hs
    exact .call (a := .close) rfl rfl
      { h with closed := rfl, making := fun i hi => { h.making i hi with } }
  | select =>
    obtain ⟨⟨hstarted, hplace, hread⟩, heq⟩ := Option.ite_none_right_eq_some.mp hs
    cases heq
    obtain ⟨hidle, hselect⟩ : s.parties 1 = .idle ∧ y.watcher = .select := by
      have hwatch := h.watcher
      rw [hplace] at hwatch
      generalize s.parties 1 = x at hwatch ⊢
      generalize y.watcher = z at hwatch ⊢
      cases hwatch
      exact ⟨rfl, rfl⟩
    refine .call (a := .select) (if_pos ⟨hselect, h.readable hread⟩) rfl ?_
    refine { h with making := fun i hi => absurd hi (started_made hstarted i), watcher := ?_ }
    change Watches .SetEvent (s.parties 1) .SetEvent
    rw [hidle]
    exact .before
  | sleep_for =>
    obtain ⟨hplace, heq⟩ := Option.ite_none_right_eq_some.mp hs
    cases heq
    have hidle : s.parties 2 = .idle := by
      have htimer := h.timer
      rw [hplace] at htimer
      generalize s.parties 2 = x at htimer ⊢
      cases htimer
      rfl
    have hmade : ∀ i, g.session ≠ .CreateEvent i :=
      fun i hi => nomatch hplace.symm.trans (h.making i hi).timer
    refine .silent rfl { h with making := fun i hi => absurd hi (hmade i), timer := ?_ }
    change Ticks .do_something (s.parties 2)
    rw [hidle]
    exact .before
  | recv n =>
    obtain ⟨⟨hplace, hle, hsize, hsome⟩, heq⟩ := Option.ite_none_right_eq_some.mp hs
    cases heq
    obtain ⟨hidle, hy⟩ := h.outside hplace rfl
    have hread : 0 < n ∨ y.unread = 0 ∧ y.closed = true :=
      hsome.imp_right (fun hend => ⟨h.unread.trans hend.1, h.closed.trans hend.2⟩)
    refine .call (a := .recv n) (if_pos ⟨hy, h.unread ▸ hle, hsize, hread⟩) rfl ?_
    have hserve := h.serve hidle .handling nofun
    exact { hserve with unread := congrArg (· - n) h.unread, making := nofun }
  | handled Stop =>
    obtain ⟨hplace, heq⟩ := Option.ite_none_right_eq_some.mp hs
    cases heq
    obtain ⟨hidle, hy⟩ := h.outside hplace rfl
    refine .call (a := .handled Stop) (if_pos hy) rfl ?_
    cases Stop with
    | true => exact h.serve hidle .stopped nofun
    | false => exact h.serve hidle .before nofun
  | ticked =>
    obtain ⟨hplace, heq⟩ := Option.ite_none_right_eq_some.mp hs
    cases heq
    obtain ⟨hidle, hy⟩ := h.outside hplace rfl
    exact .call (a := .ticked) (if_pos hy) rfl (h.serve hidle .before nofun)

/-! ## What the calls do to events -/

/-- A thread in a call, and what it has done there. -/
inductive Caller (g : Program) (y : session_events.Threads) (did : Finset Nat) :
    pevents.Tid → pevents.Call → Prop
  | waiting (hg : g.session = .waiting) (hdid : (did = ∅ ∧ y.session = .WaitForMultipleEvents) ∨
      (did = {0} ∧ y.session = .ticking) ∨ (did = {1} ∧ y.session = .ResetEvent)) :
      Caller g y did 0 theWait
  | resetting (hg : g.session = .resetting) (hdid : (did = ∅ ∧ y.session = .ResetEvent) ∨
      (did = {0} ∧ y.session = .recv)) : Caller g y did 0 (.ResetEvent 1)
  | setting (hg : g.watcher = .setting) (hdid : (did = ∅ ∧ y.watcher = .SetEvent) ∨
      (did = {0} ∧ y.watcher = .select)) : Caller g y did 1 (.SetEvent 1)
  | ticks (hg : g.timer = .setting) : Caller g y did 2 (.SetEvent 0)

theorem Matches.caller (h : Matches (g, s) y) {c : pevents.Call} {did : Finset Nat}
    (hp : s.parties t = .calling c did) : Caller g y did t c := by
  rcases t with _ | _ | _ | t
  · have hserve := h.session
    rw [show (g, s).2.parties 0 = _ from hp] at hserve
    generalize ha : (g, s).1.session = a at hserve
    generalize hz : y.session = z at hserve
    cases hserve with
    | waiting => exact .waiting ha (Or.inl ⟨rfl, hz⟩)
    | ticked => exact .waiting ha (Or.inr (Or.inl ⟨rfl, hz⟩))
    | told => exact .waiting ha (Or.inr (Or.inr ⟨rfl, hz⟩))
    | resetting => exact .resetting ha (Or.inl ⟨rfl, hz⟩)
    | reset => exact .resetting ha (Or.inr ⟨rfl, hz⟩)
  · have hwatch := h.watcher
    rw [show (g, s).2.parties 1 = _ from hp] at hwatch
    generalize ha : (g, s).1.watcher = a at hwatch
    generalize hz : y.watcher = z at hwatch
    cases hwatch with
    | setting => exact .setting ha (Or.inl ⟨rfl, hz⟩)
    | set => exact .setting ha (Or.inr ⟨rfl, hz⟩)
  · have htimer := h.timer
    rw [show (g, s).2.parties 2 = _ from hp] at htimer
    generalize ha : (g, s).1.timer = a at htimer
    cases htimer with
    | setting => exact .ticks ha
  · cases hp.symm.trans (h.others (t + 3) (Nat.le_add_left 3 t))

theorem parties_party (s : pevents.Signals) (x : Party) (u : pevents.Tid) :
    (s.party t x).parties u = if u = t then x else s.parties u :=
  Function.update_apply _ _ _ _

/-- A thread acts on an event in its call, or comes to its call or out of it. -/
theorem Matches.acts (h : Matches (g, s) y) (ht : t < 3) {x : Party} {y' : session_events.Threads}
    (hset : s'.set 0 = y'.event0 ∧ s'.set 1 = y'.event1) (hauto : s'.auto = s.auto)
    (hparties : s'.parties = s.parties) (hread : y'.unread = g'.unread ∧ y'.closed = g'.closed)
    (hmade : ∀ i, g'.session ≠ .CreateEvent i)
    (hsession : Serves g'.session (if 0 = t then x else s.parties 0) y'.session)
    (hwatcher : Watches g'.watcher (if 1 = t then x else s.parties 1) y'.watcher)
    (htimer : Ticks g'.timer (if 2 = t then x else s.parties 2)) :
    Matches (g', s'.party t x) y' where
  unread := hread.1
  closed := hread.2
  event0 := hset.1.symm
  event1 := hset.2.symm
  auto e := by
    change s'.auto e = true
    rw [hauto]
    exact h.auto e
  making i hi := absurd hi (hmade i)
  session := by
    change Serves g'.session ((s'.party t x).parties 0) y'.session
    rwa [parties_party, hparties]
  watcher := by
    change Watches g'.watcher ((s'.party t x).parties 1) y'.watcher
    rwa [parties_party, hparties]
  timer := by
    change Ticks g'.timer ((s'.party t x).parties 2)
    rwa [parties_party, hparties]
  others u hu := by
    change (s'.party t x).parties u = .idle
    rw [parties_party, hparties, if_neg (Nat.ne_of_gt (Nat.lt_of_lt_of_le ht hu))]
    exact h.others u hu

/-- The events are there before a thread sets them. -/
theorem Matches.made (h : Matches (g, s) y) (hg : g.watcher = .setting ∨ g.timer = .setting)
    (i : Nat) : g.session ≠ .CreateEvent i := by
  intro hi
  have hmaking := h.making i hi
  rcases hg with hg | hg
  · cases hg.symm.trans hmaking.watcher
  · cases hg.symm.trans hmaking.timer

/-- What the wait of `thread_function01` takes, the model takes, too: the event of
the timer first. -/
theorem follows_take (h : Matches (g, s) y) {i : Nat} (hg : g.session = .waiting)
    (hy : y.session = .WaitForMultipleEvents) (hi : [0, 1][i]? = some event)
    (hset : s.set event = true) (hfirst : s.First theWait i event) :
    Follows y none (g, (s.put event (!s.auto event)).party 0 (.calling theWait (insert i ∅))) := by
  have hauto : s.auto event = true := h.auto event
  have hmade : ∀ i, g.session ≠ .CreateEvent i := by
    rw [hg]
    nofun
  rw [hauto]
  match i, hi with
  | 0, hi =>
    cases hi
    have hstep : session_events.Step y .WaitForMultipleEvents
        { y with event0 := false, session := .ticking } := by
      refine (if_pos hy).trans (if_pos ?_)
      exact h.event0.trans hset
    refine .call hstep rfl
      (h.acts (by decide) ⟨rfl, h.event1.symm⟩ rfl rfl ⟨h.unread, h.closed⟩ hmade ?_
      h.watcher h.timer)
    rw [hg]
    exact .ticked
  | 1, hi =>
    cases hi
    have hstep : session_events.Step y .WaitForMultipleEvents
        { y with event1 := false, session := .ResetEvent } := by
      refine (if_pos hy).trans ((if_neg ?_).trans (if_pos ?_))
      · rw [h.event0, hfirst 0 0 Nat.zero_lt_one rfl nofun (h.auto 0)]
        nofun
      · exact h.event1.trans hset
    refine .call hstep rfl
      (h.acts (by decide) ⟨h.event0.symm, rfl⟩ rfl rfl ⟨h.unread, h.closed⟩ hmade ?_
      h.watcher h.timer)
    rw [hg]
    exact .told

/-- An event is set, reset or taken. -/
theorem follows_op (h : Matches (g, s) y) {op : pevents.Op} (hs : pevents.Signals.Step s op s')
    (hown : op.shows = none) : Follows y none (g, s') := by
  cases hs with
  | CreateEvent => cases hown
  | call => cases hown
  | ret => cases hown
  | reset hp =>
    cases h.caller hp with
    | resetting hg hdid =>
      obtain ⟨-, hy⟩ := hdid.resolve_right (fun hbad => Finset.singleton_ne_empty 0 hbad.1.symm)
      refine .call (a := .ResetEvent) (if_pos hy) rfl
        (h.acts (by decide) ⟨h.event0.symm, rfl⟩ rfl rfl
        ⟨h.unread, h.closed⟩ (by rw [hg]; nofun) ?_ h.watcher h.timer)
      rw [hg]
      exact .reset
  | set hp =>
    cases h.caller hp with
    | setting hg hdid =>
      obtain ⟨-, hy⟩ := hdid.resolve_right (fun hbad => Finset.singleton_ne_empty 0 hbad.1.symm)
      refine .call (a := .SetEvent) (if_pos hy) rfl (h.acts (by decide) ⟨h.event0.symm, rfl⟩ rfl rfl
        ⟨h.unread, h.closed⟩ (h.made (Or.inl hg)) h.session ?_ h.timer)
      rw [hg]
      exact .set
    | ticks hg =>
      refine .call (a := .do_something) rfl rfl (h.acts (by decide) ⟨rfl, h.event1.symm⟩ rfl rfl
        ⟨h.unread, h.closed⟩ (h.made (Or.inr hg)) h.session h.watcher ?_)
      rw [hg]
      exact .setting _
  | @take t c waitAll did i event hp hwaits hi hnew hset hone =>
    cases h.caller hp with
    | waiting hg hdid =>
      cases hwaits
      obtain ⟨rfl, hfirst⟩ := hone rfl
      have hy : y.session = .WaitForMultipleEvents := by
        rcases hdid with ⟨-, hy⟩ | ⟨hbad, -⟩ | ⟨hbad, -⟩
        · exact hy
        · exact absurd hbad.symm (Finset.singleton_ne_empty 0)
        · exact absurd hbad.symm (Finset.singleton_ne_empty 1)
      exact follows_take h hg hy hi hset hfirst
    | resetting => cases hwaits
    | setting => cases hwaits
    | ticks => cases hwaits

/-! ## Calls and their returns -/

theorem follows_create (h : Matches (g, s) y) (hc : g.create = some g') :
    Matches (g', s.create false false) y := by
  have hset : ∀ e, s.set e = false → (s.create false false).set e = s.set e := by
    intro e he
    change Function.update s.set s.created false e = _
    rw [Function.update_apply, he]
    exact ite_self _
  have hauto : ∀ e, (s.create false false).auto e = true := by
    intro e
    change Function.update s.auto s.created true e = true
    rw [Function.update_apply]
    split
    · rfl
    · exact h.auto e
  have hserve : ∀ {i a}, g.session = .CreateEvent i → Serves a .idle .WaitForMultipleEvents →
      Serves a (s.parties 0) y.session := by
    intro i a hg ha
    obtain ⟨hidle, hy⟩ := h.outside hg rfl
    rwa [hidle, hy]
  unfold Program.create at hc
  split at hc
  case isTrue hg =>
    cases hc
    obtain ⟨hcreated, ⟨h0, h1⟩, hwatcher, htimer⟩ := h.making 0 hg
    have hmaking : ∀ i, Serving.CreateEvent 1 = .CreateEvent i →
        Making ({ g with session := .CreateEvent 1 }, s.create false false) i := by
      intro i hi
      cases hi
      have hunset := And.intro ((hset 0 h0).trans h0) ((hset 1 h1).trans h1)
      exact ⟨congrArg (· + 1) hcreated, hunset, hwatcher, htimer⟩
    exact { h with
      event0 := h.event0.trans (hset 0 h0).symm
      event1 := h.event1.trans (hset 1 h1).symm
      auto := hauto
      making := hmaking
      session := hserve hg (.creating 1) }
  case isFalse =>
    obtain ⟨hg, heq⟩ := Option.ite_none_right_eq_some.mp hc
    cases heq
    obtain ⟨-, ⟨h0, h1⟩, -, -⟩ := h.making 1 hg
    exact { h with
      event0 := h.event0.trans (hset 0 h0).symm
      event1 := h.event1.trans (hset 1 h1).symm
      auto := hauto
      making := nofun
      session := hserve hg .before }

theorem follows_call (h : Matches (g, s) y) {c : pevents.Call} (hidle : s.parties t = .idle)
    (hc : g.call t c = some g') : Matches (g', s.party t (.calling c ∅)) y := by
  unfold Program.call at hc
  split at hc
  case isTrue hwait =>
    obtain ⟨rfl, hg, rfl⟩ := hwait
    cases hc
    obtain ⟨-, hy⟩ := h.outside hg rfl
    refine h.acts (by decide) ⟨h.event0.symm, h.event1.symm⟩ rfl rfl ⟨h.unread, h.closed⟩ nofun ?_
      h.watcher h.timer
    rw [hy]
    exact .waiting
  split at hc
  case isTrue hreset =>
    obtain ⟨rfl, hg, rfl⟩ := hreset
    cases hc
    obtain ⟨-, hy⟩ := h.outside hg rfl
    refine h.acts (by decide) ⟨h.event0.symm, h.event1.symm⟩ rfl rfl ⟨h.unread, h.closed⟩ nofun ?_
      h.watcher h.timer
    rw [hy]
    exact .resetting
  split at hc
  case isTrue hset =>
    obtain ⟨rfl, hg, rfl⟩ := hset
    cases hc
    have hwatch := h.watcher
    rw [show (g, s).1.watcher = _ from hg, show (g, s).2.parties 1 = _ from hidle] at hwatch
    have hmade : ∀ i, g.session ≠ .CreateEvent i :=
      fun i hi => nomatch hg.symm.trans (h.making i hi).watcher
    refine h.acts (by decide) ⟨h.event0.symm, h.event1.symm⟩ rfl rfl ⟨h.unread, h.closed⟩ hmade
      h.session ?_ h.timer
    generalize y.watcher = z at hwatch ⊢
    cases hwatch
    exact .setting
  obtain ⟨⟨rfl, hstarted, hg, rfl⟩, heq⟩ := Option.ite_none_right_eq_some.mp hc
  cases heq
  exact h.acts (by decide) ⟨h.event0.symm, h.event1.symm⟩ rfl rfl ⟨h.unread, h.closed⟩
    (started_made hstarted) h.session h.watcher (.setting ∅)

/-- The wait says which event it took. -/
theorem wait_returns {did : Finset Nat} {result waitIndex : Int}
    (h : theWait.Returns did result waitIndex) : ∃ i : Nat, did = {i} ∧ waitIndex = i := by
  obtain ⟨hshows, hresult⟩ := h
  have hgot : did ≠ ∅ := by
    rcases hresult with ⟨-, hgot, -⟩ | ⟨-, htime, -⟩
    · exact hgot
    · exact absurd rfl htime
  rcases (hshows : (did = ∅ ∧ waitIndex = -1) ∨ _) with ⟨hempty, -⟩ | hone
  · exact absurd hempty hgot
  · exact hone

theorem follows_ret (h : Matches (g, s) y) {c : pevents.Call} {did : Finset Nat}
    {result waitIndex : Int} (hp : s.parties t = .calling c did)
    (hreturns : c.Returns did result waitIndex) (hr : g.ret t waitIndex = some g') :
    Matches (g', s.party t .idle) y := by
  unfold Program.ret at hr
  cases h.caller hp with
  | waiting hg hdid =>
    rw [if_pos ⟨rfl, hg⟩] at hr
    cases hr
    obtain ⟨i, rfl, rfl⟩ := wait_returns hreturns
    rcases hdid with ⟨hbad, -⟩ | ⟨hone, hy⟩ | ⟨hone, hy⟩
    · exact absurd hbad (Finset.singleton_ne_empty i)
    · cases Finset.singleton_injective hone
      refine h.acts (by decide) ⟨h.event0.symm, h.event1.symm⟩ rfl rfl ⟨h.unread, h.closed⟩ nofun ?_
        h.watcher h.timer
      rw [hy]
      exact .ticking
    · cases Finset.singleton_injective hone
      refine h.acts (by decide) ⟨h.event0.symm, h.event1.symm⟩ rfl rfl ⟨h.unread, h.closed⟩ nofun ?_
        h.watcher h.timer
      rw [hy]
      exact .resets
  | resetting hg hdid =>
    have hnot : g.session ≠ .waiting := by
      rw [hg]
      nofun
    rw [if_neg (fun hbad => hnot hbad.2), if_pos ⟨rfl, hg⟩] at hr
    cases hr
    have hdone : did = {0} := hreturns.1
    rcases hdid with ⟨hbad, -⟩ | ⟨-, hy⟩
    · exact absurd (hdone.symm.trans hbad) (Finset.singleton_ne_empty 0)
    · refine h.acts (by decide) ⟨h.event0.symm, h.event1.symm⟩ rfl rfl ⟨h.unread, h.closed⟩ nofun ?_
        h.watcher h.timer
      rw [hy]
      exact .recv
  | setting hg hdid =>
    rw [if_neg (fun hbad => nomatch hbad.1), if_neg (fun hbad => nomatch hbad.1),
      if_pos ⟨rfl, hg⟩] at hr
    cases hr
    have hdone : did = {0} := hreturns.1
    rcases hdid with ⟨hbad, -⟩ | ⟨-, hy⟩
    · exact absurd (hdone.symm.trans hbad) (Finset.singleton_ne_empty 0)
    · refine h.acts (by decide) ⟨h.event0.symm, h.event1.symm⟩ rfl rfl ⟨h.unread, h.closed⟩
        (h.made (Or.inl hg)) h.session ?_ h.timer
      rw [hy]
      exact .select
  | ticks hg =>
    rw [if_neg (fun hbad => nomatch hbad.1), if_neg (fun hbad => nomatch hbad.1),
      if_neg (fun hbad => nomatch hbad.1), if_pos ⟨rfl, hg⟩] at hr
    cases hr
    exact h.acts (by decide) ⟨h.event0.symm, h.event1.symm⟩ rfl rfl ⟨h.unread, h.closed⟩
      (h.made (Or.inr hg)) h.session h.watcher .sleeps

theorem follows_both (h : Matches (g, s) y) {op : pevents.Op} {act : pevents.Action}
    (hc : g.step d = some g') (hs : pevents.Signals.Step s op s') (ha : d.calls = some act)
    (hi : op.shows = some act) : Follows y (some d) (g', s') := by
  obtain rfl : d = .pevents act := by
    cases d <;> cases ha
    rfl
  refine .silent rfl ?_
  cases hs with
  | CreateEvent manualReset initialState =>
    cases hi
    obtain ⟨⟨rfl, rfl⟩, hcreate⟩ := Option.ite_none_right_eq_some.mp hc
    exact follows_create h hcreate
  | call c hidle =>
    cases hi
    exact follows_call h hidle hc
  | ret hp hreturns =>
    cases hi
    exact follows_ret h hp hreturns hc
  | _ => cases hi

/-! ## Runs -/

theorem served_simulate : Simulates Served (fun j => j.1.bind Doing.seen) session_events.Step seen
    Matches := by
  rintro ⟨g, s⟩ y j x h hstep
  cases hstep with
  | client hc hown => exact follows_client h hc hown
  | system hs hown => exact follows_op h hs hown
  | both hc hs ha hi => exact follows_both h hc hs ha hi

theorem matches_init :
    Matches (Program.init, pevents.Signals.init) session_events.Threads.init where
  unread := rfl
  closed := rfl
  event0 := rfl
  event1 := rfl
  auto _ := rfl
  making i hi := by
    cases hi
    exact ⟨rfl, ⟨rfl, rfl⟩, rfl, rfl⟩
  session := .creating 0
  watcher := .select
  timer := .before
  others _ _ := rfl

theorem modelled_reaches {p : pevents.Process}
    {js : List (Option Doing × Option pevents.Action)}
    (h : Reaches Locked (Program.init, pevents.Process.init) js (g, p)) :
    ∃ calls s y, Reaches session_events.Step session_events.Threads.init calls y ∧
      calls.filterMap seen = (js.filterMap Prod.fst).filterMap Doing.seen ∧
        pevents.Coupled p s ∧ Matches (g, s) y := by
  obtain ⟨ks, s, hks, hfst, -, hcoupled⟩ :=
    pevents.events_simulate.joint ⟨pevents.sound_init, pevents.coupled_init⟩ h
  obtain ⟨calls, y, hcalls, hseen, hmatches⟩ := served_simulate.run matches_init hks
  refine ⟨calls, s, y, hcalls, ?_, hcoupled, hmatches⟩
  rw [hseen, ← hfst, List.filterMap_filterMap]

/-- Whatever the mutexes, waiters and signals of its events do, the threads of a
session and its client do what they can do with events that each call acts on in
one step. -/
theorem session_does_as_modelled {p : pevents.Process}
    {js : List (Option Doing × Option pevents.Action)}
    (h : Reaches Locked (Program.init, pevents.Process.init) js (g, p)) :
    ∃ calls s y, Reaches session_events.Step session_events.Threads.init calls y ∧
      calls.filterMap seen = (js.filterMap Prod.fst).filterMap Doing.seen ∧
        pevents.Coupled p s ∧ Matches (g, s) y :=
  modelled_reaches h

deriving instance DecidableEq for pevents.Action

def locked : Program × pevents.Process → Option Doing × Option pevents.Action →
    Option (Program × pevents.Process) :=
  joint Program.step Doing.calls pevents.Process.step pevents.Action.shown

theorem locked_step (x : Program × pevents.Process) (j : Option Doing × Option pevents.Action)
    (x' : Program × pevents.Process) (h : locked x j = some x') : Locked x j x' :=
  joint_step (fun _ _ _ hs => hs) pevents.step_step x j x' h

/-- A call on the events, or its return. -/
def both (act : pevents.Action) : Option Doing × Option pevents.Action :=
  (some (.pevents act), some act)

def alone (d : Doing) : Option Doing × Option pevents.Action := (some d, none)

def inside (act : pevents.Action) : Option Doing × Option pevents.Action := (none, some act)

/-- The session waits for its events, and one byte comes. -/
def oneByte : List (Option Doing × Option pevents.Action) :=
  [both (.created false false), both (.created false false), both (.call 0 theWait),
    inside (.step 0), inside (.step 0), inside (.step 0), inside (.step 0), inside (.step 0),
    alone (.send 1), alone .select, both (.call 1 (.SetEvent 1)), inside (.step 1),
    inside (.step 1), inside (.step 1), inside (.step 0), inside (.step 0), both (.ret 1 0 0),
    both (.ret 0 0 1), both (.call 0 (.ResetEvent 1)), inside (.step 0), both (.ret 0 0 0),
    alone (.recv 1)]

theorem one_byte_is_read_as_modelled : ∃ g p calls s y,
    Reaches Locked (Program.init, pevents.Process.init) oneByte (g, p) ∧ g.unread = 0 ∧
      Reaches session_events.Step session_events.Threads.init calls y ∧
        calls.filterMap seen = (oneByte.filterMap Prod.fst).filterMap Doing.seen ∧
          pevents.Coupled p s ∧ Matches (g, s) y := by
  have hrun : Reaches Locked (Program.init, pevents.Process.init) oneByte _ :=
    Reaches.start.steps locked_step oneByte rfl
  obtain ⟨calls, s, y, hmodel⟩ := session_does_as_modelled hrun
  exact ⟨_, _, calls, s, y, hrun, rfl, hmodel⟩

/-- The watcher sets the event again before the byte is read, and wakes nobody
by it ... -/
def setAgain : List (Option Doing × Option pevents.Action) :=
  oneByte.take 18 ++
    [alone .select, both (.call 0 (.ResetEvent 1)), inside (.step 0), both (.ret 0 0 0),
      both (.call 1 (.SetEvent 1)), inside (.step 1), inside (.step 1)]

/-- ... so the session reads the byte, and calls `recv` once more. -/
def readAgain : List (Option Doing × Option pevents.Action) :=
  [both (.ret 1 0 0), alone (.recv 1), alone (.handled false), both (.call 0 theWait),
    inside (.step 0), inside (.step 0), inside (.step 0), inside (.step 0), inside (.step 0),
    inside (.step 0), inside (.step 0), both (.ret 0 0 1), both (.call 0 (.ResetEvent 1)),
    inside (.step 0), both (.ret 0 0 0)]

theorem a_stale_event_blocks_recv : ∃ js g p,
    Reaches Locked (Program.init, pevents.Process.init) js (g, p) ∧ g.session = .recv ∧
      ¬ g.Readable := by
  have hset : Reaches Locked (Program.init, pevents.Process.init) setAgain _ :=
    Reaches.start.steps locked_step setAgain rfl
  have hpoint : _ = pevents.Thread.SetEvent 1 .wake := rfl
  have hwake := hset.next (.system (.setWakeNone (t := 1) hpoint rfl ?_) rfl)
  · have hread := hwake.steps locked_step readAgain rfl
    exact ⟨_, _, _, hread, rfl, nofun⟩
  · rintro t' ⟨milliseconds, h⟩
    rcases t' with _ | _ | t' <;> cases h

/-! ## No deadlock, and no use of a deleted waiter -/

variable {p : pevents.Process} {js : List (Option Doing × Option pevents.Action)}

/-- The one wait for several events is the one of `thread_function01`. -/
theorem waits_of_session (h : Reaches Locked (Program.init, pevents.Process.init) js (g, p))
    {c : pevents.Wait} {point : pevents.MultiPoint}
    (hth : p.threads t = .WaitForMultipleEvents c point) : c.toCall = theWait := by
  obtain ⟨calls, s, y, -, -, hcoupled, hmatches⟩ := modelled_reaches h
  have hparty : ∃ did, s.parties t = .calling c.toCall did := by
    have hplays := hcoupled.plays t
    rw [hth] at hplays
    generalize s.parties t = x at hplays ⊢
    cases hplays <;> exact ⟨_, rfl⟩
  obtain ⟨did, hp⟩ := hparty
  have hcaller := hmatches.caller hp
  generalize hc : c.toCall = call at hcaller ⊢
  cases hcaller with
  | waiting => rfl
  | _ => cases hc

/-- No thread waits for one event. -/
theorem no_single_wait (h : Reaches Locked (Program.init, pevents.Process.init) js (g, p))
    {milliseconds : BitVec 64} {point : pevents.WaitPoint} :
    p.threads t ≠ .WaitForEvent event milliseconds point := by
  intro hth
  obtain ⟨calls, s, y, -, -, hcoupled, hmatches⟩ := modelled_reaches h
  have hplays := hcoupled.plays t
  rw [hth] at hplays
  generalize hp : s.parties t = x at hplays
  cases hplays with
  | WaitForEvent => cases hmatches.caller hp

/-- The calls of the session wait for one of their events. -/
theorem calls_plain {c : pevents.Call} (h : g.call t c = some g') :
    (pevents.Action.call t c).Plain := by
  unfold Program.call at h
  split at h
  case isTrue hwait =>
    obtain ⟨-, -, rfl⟩ := hwait
    rfl
  split at h
  case isTrue hreset =>
    obtain ⟨-, -, rfl⟩ := hreset
    trivial
  split at h
  case isTrue hset =>
    obtain ⟨-, -, rfl⟩ := hset
    trivial
  obtain ⟨⟨-, -, -, rfl⟩, -⟩ := Option.ite_none_right_eq_some.mp h
  trivial

/-- No thread wakes up by itself. -/
def calm : Option Doing × Option pevents.Action → Bool
  | (_, some (.spurious _)) => false
  | _ => true

/-- While no thread wakes up by itself, they are woken by signals only: the wait
of the session has no end. -/
theorem session_plain {x : Program × pevents.Process}
    (h : Reaches Locked (Program.init, pevents.Process.init) js x)
    (hcalm : ∀ j ∈ js, calm j = true) :
    Reaches pevents.PlainStep pevents.Process.init (js.filterMap Prod.snd) x.2 := by
  induction h with
  | start => exact .start
  | @next js x x' j hprev hs ih =>
    have hrun := ih (fun j hj => hcalm j (List.mem_append_left _ hj))
    have hlast := hcalm j (List.mem_append_right _ (List.mem_singleton_self j))
    rw [filterMap_snoc]
    cases hs with
    | client hc hown =>
      rw [Option.toList_none, List.append_nil]
      exact hrun
    | @system g s s' i hs hown =>
      refine hrun.next ⟨hs, ?_⟩
      cases hs with
      | spuriousOne => cases hlast
      | spuriousMulti => cases hlast
      | timedOutOne hth => exact absurd hth (no_single_wait hprev)
      | @timedOutMulti t c hth htime =>
        have hwait := waits_of_session hprev hth
        cases c
        cases hwait
        exact absurd rfl htime
      | _ => trivial
    | @both g g' s s' a i o hc hs ha hi =>
      refine hrun.next ⟨hs, ?_⟩
      obtain rfl : a = .pevents o := by
        cases a <;> cases ha
        rfl
      cases hs with
      | CreateEvent => trivial
      | call c =>
        cases hi
        exact calls_plain hc
      | ret => trivial
      | _ => cases hi

/-- While no thread wakes up by itself, `SetEvent` signals waiters that are not
deleted, and when the threads have done what they can, those left in a call sleep
for events that are not set. -/
theorem session_rests (h : Reaches Locked (Program.init, pevents.Process.init) js (g, p))
    (hcalm : ∀ j ∈ js, calm j = true) :
    p.Signalling ∧
      ((∀ u, ¬ p.Steps u) → ∀ t, (p.threads t).Rests p.events) := by
  have hplain := session_plain h hcalm
  have hrun := hplain.mono (fun _ _ _ hs => hs.1)
  have halive : p.Signalling :=
    fun t event wfmo ht => pevents.signalled_is_alive hplain ht
  have horder : p.Ordered id := by
    intro t c point hth
    have hwait := waits_of_session h hth
    have hpair : [0, 1].Pairwise (fun e e' : Nat => id e < id e') := by decide
    cases c
    cases hwait
    exact hpair
  exact ⟨halive, fun hrest => pevents.rests_reaches hrun halive horder hrest⟩

/-- The session has read the byte and waits again. -/
def waitsAgain : List (Option Doing × Option pevents.Action) :=
  oneByte ++ [alone (.handled false), both (.call 0 theWait)] ++
    List.replicate 7 (inside (.step 0))

/-- The watcher signals the waiter of the session, which is there. The session
reads the byte and comes to rest in its next wait. -/
theorem one_byte_is_signalled_and_read :
    ∃ g p g' p', Reaches Locked (Program.init, pevents.Process.init) (oneByte.take 13) (g, p) ∧
      p.threads 1 = .SetEvent 1 (.signal 0) ∧ p.waiters 0 ≠ none ∧
        Reaches Locked (Program.init, pevents.Process.init) waitsAgain (g', p') ∧
          g'.session = .waiting ∧ g'.unread = 0 ∧ (p'.threads 0).Rests p'.events := by
  have hsignal : Reaches Locked (Program.init, pevents.Process.init) (oneByte.take 13) _ :=
    Reaches.start.steps locked_step (oneByte.take 13) rfl
  have hagain : Reaches Locked (Program.init, pevents.Process.init) waitsAgain _ :=
    Reaches.start.steps locked_step waitsAgain rfl
  have halive := (session_rests hsignal (by decide)).1
  have hrests := (session_rests hagain (by decide)).2
  refine ⟨_, _, _, _, hsignal, rfl, halive 1 1 0 rfl, hagain, rfl, rfl, hrests ?_ 0⟩
  rintro t ⟨p', hstep⟩
  have hbusy := hstep.ready.1
  rcases t with _ | _ | t
  · exact hbusy rfl
  · exact hbusy
  · exact hbusy

end payloader.session_program
