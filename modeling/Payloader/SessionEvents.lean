-- The two threads of a session and their events, in TcpServer.cpp: one thread
-- waits in `select` and sets an event, and the other waits for the event,
-- resets it and calls `recv`. Each call is one step, in any order of the two.
import Payloader.Machines

set_option autoImplicit false

namespace payloader.session_events

open payloader.machines

/-! ## The calls -/

/-- The next call of `thread_function02`. -/
inductive Watcher where
  | select
  | SetEvent
  deriving DecidableEq

/-- The next call of `thread_function01`. In `handling` and in `ticking` it
works on a request or on a tick, and then it waits again or stops. -/
inductive Loop where
  | WaitForMultipleEvents
  | ResetEvent
  | recv
  | handling
  | ticking
  | stopped
  deriving DecidableEq

/-- The socket of the client, the two events, and the two threads. `events[0]`
is the one of the timer. -/
structure Threads where
  unread : Nat
  closed : Bool
  event0 : Bool
  event1 : Bool
  watcher : Watcher
  session : Loop
  deriving DecidableEq

def Threads.init : Threads where
  unread := 0
  closed := false
  event0 := false
  event1 := false
  watcher := .select
  session := .WaitForMultipleEvents

/-- There is something to read, or the end of the stream. -/
def Readable (s : Threads) : Prop := 0 < s.unread ∨ s.closed = true

instance (s : Threads) : Decidable (Readable s) := inferInstanceAs (Decidable (_ ∨ _))

/-- One call. The client sends or closes, and the timer sets its event. -/
inductive Call where
  | send (n : Nat)
  | close
  | do_something
  | select
  | SetEvent
  | WaitForMultipleEvents
  | ResetEvent
  | recv (n : Nat)
  | handled (Stop : Bool)
  | ticked

/-- The size of `RecvBuf`. -/
def RECV_SIZE : Nat := 10000

/-- What a call does, when it returns. A wait that succeeds clears its event,
and the event of the timer is looked at first. `recv` gives some of the bytes,
or none at the end of the stream. -/
def step (s : Threads) : Call → Option Threads
  | .send n => if s.closed = false then some { s with unread := s.unread + n } else none
  | .close => some { s with closed := true }
  | .do_something => some { s with event0 := true }
  | .select =>
    if s.watcher = .select ∧ Readable s then some { s with watcher := .SetEvent } else none
  | .SetEvent =>
    if s.watcher = .SetEvent then some { s with event1 := true, watcher := .select } else none
  | .WaitForMultipleEvents =>
    if s.session = .WaitForMultipleEvents then
      if s.event0 then some { s with event0 := false, session := .ticking }
      else if s.event1 then some { s with event1 := false, session := .ResetEvent }
      else none
    else none
  | .ResetEvent =>
    if s.session = .ResetEvent then some { s with event1 := false, session := .recv } else none
  | .recv n =>
    if s.session = .recv ∧ n ≤ s.unread ∧ n ≤ RECV_SIZE ∧
        (0 < n ∨ s.unread = 0 ∧ s.closed = true) then
      some { s with unread := s.unread - n, session := .handling }
    else none
  | .handled Stop =>
    if s.session = .handling then
      some { s with session := if Stop then .stopped else .WaitForMultipleEvents }
    else none
  | .ticked =>
    if s.session = .ticking then some { s with session := .WaitForMultipleEvents } else none

def Step (s : Threads) (a : Call) (s' : Threads) : Prop := step s a = some s'

/-- `recv` would not block. -/
def NeverBlocks (s : Threads) : Prop := s.session = .recv → Readable s

/-! ## Fresh events -/

/-- The event is set only while the socket is readable, and a `recv` leaves
something to read while it is set. -/
def Fresh (s : Threads) : Call → Prop
  | .SetEvent => Readable s
  | .recv n => s.event1 = true → n < s.unread ∨ s.closed = true
  | _ => True

def FreshStep (s : Threads) (a : Call) (s' : Threads) : Prop := Step s a s' ∧ Fresh s a

instance (s : Threads) : (a : Call) → Decidable (Fresh s a)
  | .SetEvent => inferInstanceAs (Decidable (Readable s))
  | .recv n => inferInstanceAs (Decidable (s.event1 = true → n < s.unread ∨ s.closed = true))
  | .send _ | .close | .do_something | .select | .WaitForMultipleEvents | .ResetEvent
  | .handled _ | .ticked => isTrue trivial

/-- A step that is checked to be fresh. -/
def freshStep (s : Threads) (a : Call) : Option Threads := if Fresh s a then step s a else none

/-- The session has been told, or it will be, that there is something to read. -/
def Told (s : Threads) : Prop := s.event1 = true ∨ s.session = .ResetEvent ∨ s.session = .recv

variable {s s' : Threads} {a : Call}

theorem freshStep_step (s : Threads) (a : Call) (s' : Threads) (h : freshStep s a = some s') :
    FreshStep s a s' := by
  simp only [freshStep, Option.ite_none_right_eq_some] at h
  exact ⟨h.2, h.1⟩

/-- Only the calls that read, and those that set the event, need care. -/
theorem Told.next (hI : Told s → Readable s) (h : FreshStep s a s') : Told s' → Readable s' := by
  obtain ⟨h, hfresh⟩ := h
  unfold Step at h
  cases a with
  | send n =>
    simp only [step, Option.ite_none_right_eq_some, Option.some.injEq] at h
    obtain ⟨-, rfl⟩ := h
    exact fun htold => (hI htold).imp_left (fun hlt => Nat.lt_add_right n hlt)
  | close =>
    cases h
    exact fun _ => Or.inr rfl
  | do_something =>
    cases h
    exact hI
  | select =>
    simp only [step, Option.ite_none_right_eq_some, Option.some.injEq] at h
    obtain ⟨-, rfl⟩ := h
    exact hI
  | SetEvent =>
    simp only [step, Option.ite_none_right_eq_some, Option.some.injEq] at h
    obtain ⟨-, rfl⟩ := h
    exact fun _ => hfresh
  | WaitForMultipleEvents =>
    simp only [step, Option.ite_none_right_eq_some] at h
    obtain ⟨-, h⟩ := h
    split at h
    · cases h
      rintro (hset | hplace | hplace)
      · exact hI (Or.inl hset)
      · cases hplace
      · cases hplace
    · simp only [Option.ite_none_right_eq_some, Option.some.injEq] at h
      obtain ⟨hset, rfl⟩ := h
      exact fun _ => hI (Or.inl hset)
  | ResetEvent =>
    simp only [step, Option.ite_none_right_eq_some, Option.some.injEq] at h
    obtain ⟨hplace, rfl⟩ := h
    exact fun _ => hI (Or.inr (Or.inl hplace))
  | recv n =>
    simp only [step, Option.ite_none_right_eq_some, Option.some.injEq] at h
    obtain ⟨-, rfl⟩ := h
    rintro (hset | hplace | hplace)
    · exact (hfresh hset).imp_left Nat.sub_pos_of_lt
    · cases hplace
    · cases hplace
  | handled Stop =>
    simp only [step, Option.ite_none_right_eq_some, Option.some.injEq] at h
    obtain ⟨-, rfl⟩ := h
    rintro (hset | hplace | hplace)
    · exact hI (Or.inl hset)
    · cases Stop <;> cases hplace
    · cases Stop <;> cases hplace
  | ticked =>
    simp only [step, Option.ite_none_right_eq_some, Option.some.injEq] at h
    obtain ⟨-, rfl⟩ := h
    rintro (hset | hplace | hplace)
    · exact hI (Or.inl hset)
    · cases hplace
    · cases hplace

/-- While every event is fresh, the session does not block in `recv`. -/
theorem fresh_events_never_block {calls : List Call}
    (h : Reaches FreshStep Threads.init calls s) : NeverBlocks s := by
  have hstart : Told Threads.init → Readable Threads.init := by
    rintro (hset | hplace | hplace)
    · cases hset
    · cases hplace
    · cases hplace
  have hI := h.invariant (fun _ s => Told s → Readable s) hstart
    (fun _ _ _ _ hI hstep => Told.next hI hstep)
  exact fun hplace => hI (Or.inr (Or.inr hplace))

/-- One byte of a client is read. -/
theorem one_byte_is_read :
    ∃ calls s, Reaches FreshStep Threads.init calls s ∧ s.session = .recv ∧ NeverBlocks s := by
  have hrun : Reaches FreshStep Threads.init _ _ := Reaches.start.steps freshStep_step
    [.send 1, .select, .SetEvent, .WaitForMultipleEvents, .ResetEvent] rfl
  exact ⟨_, _, hrun, rfl, fresh_events_never_block hrun⟩

/-! ## Stale events -/

/-- A call that is not fresh leaves the event set over a socket with nothing to
read. -/
theorem stale_event (h : Step s a s') (hstale : ¬ Fresh s a) :
    s'.event1 = true ∧ ¬ Readable s' := by
  unfold Step at h
  cases a with
  | SetEvent =>
    simp only [step, Option.ite_none_right_eq_some, Option.some.injEq] at h
    obtain ⟨-, rfl⟩ := h
    exact ⟨rfl, hstale⟩
  | recv n =>
    simp only [step, Option.ite_none_right_eq_some, Option.some.injEq] at h
    obtain ⟨⟨-, hle, -⟩, rfl⟩ := h
    obtain ⟨hset, hlast⟩ := Classical.not_imp.mp hstale
    obtain ⟨hall, hopen⟩ := not_or.mp hlast
    refine ⟨hset, not_or.mpr ⟨?_, hopen⟩⟩
    exact fun hpos => hall (Nat.lt_of_sub_pos hpos)
  | _ => exact absurd trivial hstale

/-- From there, with no more bytes, a session that waits comes to a `recv` that
blocks. -/
theorem waiting_blocks (hset : s.event1 = true) (hempty : ¬ Readable s)
    (hplace : s.session = .WaitForMultipleEvents) :
    ∃ calls s', Reaches Step s calls s' ∧ ¬ NeverBlocks s' := by
  obtain ⟨unread, closed, event0, event1, watcher, session⟩ := s
  simp only at hset hplace
  subst hset hplace
  cases event0 with
  | false =>
    have hrun : Reaches Step ⟨unread, closed, false, true, watcher, .WaitForMultipleEvents⟩ _ _ :=
      Reaches.start.steps (fun _ _ _ hs => hs) [.WaitForMultipleEvents, .ResetEvent] rfl
    exact ⟨_, _, hrun, fun hread => hempty (hread rfl)⟩
  | true =>
    have hrun : Reaches Step ⟨unread, closed, true, true, watcher, .WaitForMultipleEvents⟩ _ _ :=
      Reaches.start.steps (fun _ _ _ hs => hs)
        [.WaitForMultipleEvents, .ticked, .WaitForMultipleEvents, .ResetEvent] rfl
    exact ⟨_, _, hrun, fun hread => hempty (hread rfl)⟩

/-- So only calls that can end in a `recv` that blocks are not fresh, in a
session that goes on. -/
theorem stale_call_blocks (h : Step s a s') (hstale : ¬ Fresh s a)
    (hgoes : s'.session ≠ .stopped) :
    ∃ calls s'', Reaches Step s' calls s'' ∧ ¬ NeverBlocks s'' := by
  obtain ⟨hset, hempty⟩ := stale_event h hstale
  -- the session goes back to its wait first
  have hback : ∀ a, Step s' a { s' with session := .WaitForMultipleEvents } →
      ∃ calls s'', Reaches Step s' calls s'' ∧ ¬ NeverBlocks s'' := by
    intro a ha
    obtain ⟨calls, s'', hrun, hblocks⟩ :=
      waiting_blocks (s := { s' with session := .WaitForMultipleEvents }) hset hempty rfl
    exact ⟨_, s'', (Reaches.start.next ha).trans hrun, hblocks⟩
  cases hplace : s'.session with
  | WaitForMultipleEvents => exact waiting_blocks hset hempty hplace
  | ResetEvent =>
    have hreset : Step s' .ResetEvent { s' with event1 := false, session := .recv } := if_pos hplace
    exact ⟨_, _, Reaches.start.next hreset, fun hread => hempty (hread rfl)⟩
  | recv => exact ⟨_, s', .start, fun hread => hempty (hread hplace)⟩
  | handling => exact hback (.handled false) (if_pos hplace)
  | ticking => exact hback .ticked (if_pos hplace)
  | stopped => exact absurd hplace hgoes

/-- The watcher sets the event for bytes that are then read, and the session
calls `recv` for it with nothing left. -/
theorem a_stale_event_blocks_the_session :
    ¬ ∀ (calls : List Call) (s : Threads), Reaches Step Threads.init calls s → NeverBlocks s := by
  intro h
  have hrun : Reaches Step Threads.init _ _ := Reaches.start.steps (fun _ _ _ hs => hs)
    [.send 1, .select, .SetEvent, .WaitForMultipleEvents, .select, .ResetEvent, .SetEvent, .recv 1,
      .handled false, .WaitForMultipleEvents, .ResetEvent] rfl
  have hblocks := h _ _ hrun rfl
  revert hblocks
  decide

end payloader.session_events
