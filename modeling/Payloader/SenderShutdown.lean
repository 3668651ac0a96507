-- The end of a sender. `~Sender` clears the flag without the mutex and does not
-- notify, and then it joins the thread of `sendLoop`.
import Payloader.Sender

set_option autoImplicit false

namespace payloader.sender_shutdown

open payloader.memory payloader.machines payloader.interfaces payloader.sender

/-- A sender and the one that destroys it: whether the destructor has begun, so
that it waits in `join`, and whether `join` is over. -/
structure Shutdown where
  sender : Sender
  destroying : Bool
  joined : Bool

/-- The first statement of `~Sender`. -/
def Shutdown.destroy (d : Shutdown) : Shutdown :=
  { d with sender := { d.sender with sending_ := false }, destroying := true }

/-- After `init`. -/
def start : Shutdown := { sender := Sender.init, destroying := false, joined := false }

inductive Action
  | sender (e : Event)
  | destroyed
  | joined

/-- One step of a caller of `receiveRtpPacket`, of the thread of `sendLoop`, or
of the destructor. No call begins after the destructor, and there are no
spurious wake-ups. -/
inductive Step : Shutdown → Action → Shutdown → Prop
  | receive {d : Shutdown} {s' : Sender} {accepted : Bool} (p_ : Block 1500 UInt8) (a : Arrival)
      (hint : a.buffSize < 2 ^ 31) (hbefore : d.destroying = false)
      (h : d.sender.receiveRtpPacket p_ a.inBuff a.buffSize = .ok (s', accepted)) :
      Step d (.sender (.arrived (a.inBuff.slice 0 a.buffSize) d.sender.sending_
        d.sender.sendQueue_.length accepted)) { d with sender := s' }
  | test {d : Shutdown} (h : d.sender.send_Thread_ = .test) :
      Step d (.sender .quiet) { d with sender := d.sender.testSending }
  | serve {d : Shutdown} {s' : Sender} {e : Event} (h : d.sender.send_Thread_ = .lock)
      (hs : d.sender.serve = .ok (s', e)) : Step d (.sender e) { d with sender := s' }
  | wake {d : Shutdown} {s' : Sender} {e : Event} (h : d.sender.send_Thread_ = .woken)
      (hs : d.sender.afterWait = .ok (s', e)) : Step d (.sender e) { d with sender := s' }
  | destroy {d : Shutdown} (h : d.destroying = false) : Step d .destroyed d.destroy
  | join {d : Shutdown} (h : d.destroying = true) (hended : d.sender.send_Thread_ = .ended) :
      Step d .joined { d with joined := true }

/-- The destructor waits in `join`, and the thread waits on `cond_`. -/
structure Deadlock (d : Shutdown) : Prop where
  destroying : d.destroying = true
  joined : d.joined = false
  waiting : d.sender.send_Thread_ = .waiting

/-- A step that is not the beginning of the destructor. -/
def OtherStep (d : Shutdown) (a : Action) (d' : Shutdown) : Prop := Step d a d' ∧ a ≠ .destroyed

/-- There is no deadlock, and without the destructor none is ahead. -/
def NeverDeadlocked (d : Shutdown) : Prop :=
  ∀ more d', Reaches OtherStep d more d' → ¬ Deadlock d'

/-- The thread looks at the flag again before it waits: it does not wait, and is
not about to wait. -/
structure Awake (s : Sender) : Prop where
  waiting : s.send_Thread_ ≠ .waiting
  lock : s.send_Thread_ = .lock → s.sendQueue_ ≠ []

variable {log more before after : List Action} {a : Action} {d d' d1 d2 : Shutdown}
variable {s s' : Sender} {e : Event}

/-- Nobody can notify the thread any more. -/
theorem no_step_in_a_deadlock (h : Deadlock d) : ¬ Step d a d' := by
  have hwaiting := h.waiting
  intro hstep
  cases hstep with
  | receive _ _ _ hbefore => exact absurd (h.destroying.symm.trans hbefore) (by decide)
  | test ht => exact absurd (hwaiting.symm.trans ht) (by decide)
  | serve ht => exact absurd (hwaiting.symm.trans ht) (by decide)
  | wake ht => exact absurd (hwaiting.symm.trans ht) (by decide)
  | destroy hbefore => exact absurd (h.destroying.symm.trans hbefore) (by decide)
  | join _ hended => exact absurd (hwaiting.symm.trans hended) (by decide)

/-! ## The thread after the destructor has begun -/

theorem serve_empty (h : s.sendQueue_ = []) :
    s.serve = .ok ({ s with send_Thread_ := .waiting }, .quiet) := by
  unfold Sender.serve
  split
  · rfl
  · rename_i hqueue
    rw [h] at hqueue
    cases hqueue

/-- An empty queue makes the thread wait, and else it goes back to the test. -/
theorem serve_cases (h : s.serve = .ok (s', e)) :
    s'.sending_ = s.sending_ ∧ ((s.sendQueue_ = [] ∧ s'.send_Thread_ = .waiting) ∨
      (s.sendQueue_ ≠ [] ∧ s'.send_Thread_ = .test)) := by
  unfold Sender.serve at h
  split at h
  · rename_i hqueue
    cases h
    exact ⟨rfl, Or.inl ⟨hqueue, rfl⟩⟩
  · rename_i front rest hqueue
    obtain ⟨packet, -, hout⟩ := bind_eq_ok h
    cases hout
    refine ⟨rfl, Or.inr ⟨?_, rfl⟩⟩
    rw [hqueue]
    exact List.cons_ne_nil front rest

theorem testSending_down (hflag : s.sending_ = false) :
    s.testSending = { s with send_Thread_ := .ended } := by
  unfold Sender.testSending
  rw [if_neg (ne_true_of_eq_false hflag)]

theorem afterWait_down (hflag : s.sending_ = false) (h : s.afterWait = .ok (s', e)) :
    s' = { s with send_Thread_ := .ended } := by
  unfold Sender.afterWait at h
  rw [if_pos hflag] at h
  cases h
  rfl

/-- The destructor has begun, and the thread was awake. -/
structure Ending (d : Shutdown) : Prop where
  destroying : d.destroying = true
  flag : d.sender.sending_ = false
  awake : Awake d.sender

/-- A thread that was awake ends. -/
theorem Ending.next (hI : Ending d) (h : Step d a d') : Ending d' := by
  have hflag := hI.flag
  cases h with
  | receive _ _ _ hbefore => exact absurd (hI.destroying.symm.trans hbefore) (by decide)
  | test ht =>
    rw [testSending_down hflag]
    exact ⟨hI.destroying, hflag, SendThread.noConfusion, SendThread.noConfusion⟩
  | serve ht hs =>
    obtain ⟨hkept, hcase⟩ := serve_cases hs
    rcases hcase with ⟨hempty, -⟩ | ⟨-, htest⟩
    · exact absurd hempty (hI.awake.lock ht)
    · refine ⟨hI.destroying, hkept.trans hflag, ?_, ?_⟩
      · rw [htest]
        exact SendThread.noConfusion
      · rw [htest]
        exact SendThread.noConfusion
  | wake ht hs =>
    rw [afterWait_down hflag hs]
    exact ⟨hI.destroying, hflag, SendThread.noConfusion, SendThread.noConfusion⟩
  | destroy hbefore => exact absurd (hI.destroying.symm.trans hbefore) (by decide)
  | join => exact ⟨hI.destroying, hflag, hI.awake⟩

/-- The destructor has begun while the thread waits, or is about to wait. -/
structure Stuck (d : Shutdown) : Prop where
  destroying : d.destroying = true
  joined : d.joined = false
  asleep : d.sender.send_Thread_ = .waiting ∨
    (d.sender.send_Thread_ = .lock ∧ d.sender.sendQueue_ = [])

theorem Stuck.next (hI : Stuck d) (h : Step d a d') : Stuck d' := by
  rcases hI.asleep with hwaiting | ⟨hlock, hempty⟩
  · exact absurd h (no_step_in_a_deadlock ⟨hI.destroying, hI.joined, hwaiting⟩)
  · cases h with
    | receive _ _ _ hbefore => exact absurd (hI.destroying.symm.trans hbefore) (by decide)
    | test ht => exact absurd (hlock.symm.trans ht) (by decide)
    | serve ht hs =>
      rcases (serve_cases hs).2 with ⟨-, hwaiting⟩ | ⟨hne, -⟩
      · exact ⟨hI.destroying, hI.joined, Or.inl hwaiting⟩
      · exact absurd hempty hne
    | wake ht => exact absurd (hlock.symm.trans ht) (by decide)
    | destroy hbefore => exact absurd (hI.destroying.symm.trans hbefore) (by decide)
    | join _ hended => exact absurd (hlock.symm.trans hended) (by decide)

/-- A deadlock is there, or one step ahead. -/
theorem Stuck.deadlocks (h : Stuck d) : ¬ NeverDeadlocked d := by
  intro hnever
  rcases h.asleep with hwaiting | ⟨hlock, hempty⟩
  · exact hnever [] d .start ⟨h.destroying, h.joined, hwaiting⟩
  · exact hnever _ _ (Reaches.start.next ⟨.serve hlock (serve_empty hempty), Action.noConfusion⟩)
      ⟨h.destroying, h.joined, rfl⟩

/-! ## A whole run -/

/-- A run where the destructor has begun has a step where it began. -/
theorem destroyed_at (h : Reaches Step start log d) (hdestroying : d.destroying = true) :
    ∃ before after d1, log = before ++ .destroyed :: after ∧ Reaches Step start before d1 ∧
      d1.destroying = false ∧ Reaches Step d1.destroy after d := by
  induction h with
  | start => cases hdestroying
  | @next log d d' a h hstep ih =>
    by_cases hbefore : d.destroying = true
    · obtain ⟨before, after, d1, rfl, h1, hd1, hafter⟩ := ih hbefore
      exact ⟨before, after ++ [a], d1, List.append_assoc _ _ _, h1, hd1, hafter.next hstep⟩
    · cases hstep with
      | destroy hno => exact ⟨log, [], d, rfl, h, hno, .start⟩
      | receive => exact absurd hdestroying hbefore
      | test => exact absurd hdestroying hbefore
      | serve => exact absurd hdestroying hbefore
      | wake => exact absurd hdestroying hbefore
      | join hyes => exact absurd hyes hbefore

theorem joined_late (h : Reaches Step start log d) (hjoined : d.joined = true) :
    d.destroying = true := by
  refine h.invariant (fun _ d => d.joined = true → d.destroying = true)
    (fun hyes => absurd hyes Bool.false_ne_true) ?_ hjoined
  intro _ d a d' hI hstep
  cases hstep with
  | destroy => exact fun _ => rfl
  | receive => exact hI
  | test => exact hI
  | serve => exact hI
  | wake => exact hI
  | join hyes => exact fun _ => hyes

/-- Without the destructor there is no deadlock. -/
theorem not_destroying (h : Reaches OtherStep d more d') (hno : d.destroying = false) :
    d'.destroying = false := by
  refine h.invariant (fun _ d => d.destroying = false) hno ?_
  rintro _ d a d' hI ⟨hstep, hother⟩
  cases hstep with
  | destroy => exact absurd rfl hother
  | receive => exact hI
  | test => exact hI
  | serve => exact hI
  | wake => exact hI
  | join => exact hI

/-- In every run, no deadlock is there or ahead exactly when the destructor found
the thread awake. -/
theorem a_sender_ends_when_its_thread_is_awake (h : Reaches Step start log d) :
    NeverDeadlocked d ↔ ∀ before after d1, log = before ++ .destroyed :: after →
      Reaches Step start before d1 → d1.destroying = false → Reaches Step d1.destroy after d →
        Awake d1.sender := by
  constructor
  · intro hnever before after d1 _ hbefore hno hafter
    have hjoined : d1.joined = false := by
      apply eq_false_of_ne_true
      intro hyes
      exact absurd ((joined_late hbefore hyes).symm.trans hno) (by decide)
    by_contra hasleep
    have hstuck : Stuck d1.destroy := by
      refine ⟨rfl, hjoined, ?_⟩
      by_contra hneither
      rw [not_or, not_and] at hneither
      exact hasleep ⟨hneither.1, hneither.2⟩
    exact (hafter.invariant (fun _ d => Stuck d) hstuck (fun _ _ _ _ hI hs => hI.next hs)).deadlocks
      hnever
  · intro hawake more d' hmore hdeadlock
    by_cases hdestroying : d.destroying = true
    · obtain ⟨before, after, d1, hlog, hbefore, hno, hafter⟩ := destroyed_at h hdestroying
      have hending : Ending d1.destroy :=
        ⟨rfl, rfl, (hawake before after d1 hlog hbefore hno hafter).waiting,
          (hawake before after d1 hlog hbefore hno hafter).lock⟩
      have hall := hafter.trans (hmore.mono (fun _ _ _ hs => hs.1))
      exact (hall.invariant (fun _ d => Ending d) hending
        (fun _ _ _ _ hI hs => hI.next hs)).awake.waiting hdeadlock.waiting
    · have hno := not_destroying hmore (eq_false_of_ne_true hdestroying)
      exact absurd (hdeadlock.destroying.symm.trans hno) (by decide)

/-- A sender that is destroyed at once. -/
theorem a_new_sender_ends :
    ∃ log d, Reaches Step start log d ∧ d.destroying = true ∧ NeverDeadlocked d := by
  have hrun := Reaches.start.next (Step.destroy (d := start) rfl)
  refine ⟨_, _, hrun, rfl, (a_sender_ends_when_its_thread_is_awake hrun).mpr ?_⟩
  intro before after d1 hlog hbefore _ _
  rcases before with _ | ⟨a, before⟩
  · obtain rfl := hbefore.no_steps rfl
    exact ⟨SendThread.noConfusion, SendThread.noConfusion⟩
  · have hlength := congrArg List.length hlog
    simp only [List.nil_append, List.length_cons, List.length_nil, List.cons_append,
      List.length_append] at hlength
    omega

/-- A sender that is destroyed while its thread waits for the first packet. -/
theorem an_idle_sender_never_ends :
    ¬ ∀ (log : List Action) (d : Shutdown), Reaches Step start log d → ¬ Deadlock d := by
  intro h
  have htest := Reaches.start.next (Step.test (d := start) rfl)
  have hwait := htest.next (Step.serve rfl (serve_empty rfl))
  exact h _ _ (hwait.next (Step.destroy rfl)) ⟨rfl, rfl, rfl⟩

end payloader.sender_shutdown
