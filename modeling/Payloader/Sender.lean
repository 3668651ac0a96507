-- The sender of Sender.cpp: any number of threads put packets in a queue, and
-- the thread of `sendLoop` takes them out. Each section under the mutex is one
-- step. A wait gives the mutex back, so a section ends there.
import Payloader.Interfaces
import Payloader.Machines

set_option autoImplicit false

namespace payloader.sender

open payloader.memory payloader.machines payloader.interfaces

structure dataPacket where
  data : Block 1500 UInt8
  length : Int

/-- Where the thread of `sendLoop` stands: at the test of `sending_`, before
the lock, inside `cond_.wait`, after a wake-up that has not got the mutex
back yet, or at its end. -/
inductive SendThread
  | test
  | lock
  | waiting
  | woken
  | ended
  deriving DecidableEq, Repr

structure Sender where
  sending_ : Bool
  sendQueue_ : List dataPacket
  send_Thread_ : SendThread

/-- What a step shows: a packet came in, with the flag and the size of the
queue at that point, or a datagram went to `sendData`. -/
inductive Event
  | arrived (packet : List UInt8) (sending : Bool) (queued : Nat) (accepted : Bool)
  | sent (packet : List UInt8)
  | quiet

namespace Sender

def init : Sender := { sending_ := true, sendQueue_ := [], send_Thread_ := .test }

/-- `cond_.notify_one()`: it wakes the thread when it waits, and is lost when
it does not. -/
def notify_one (s : Sender) : Sender :=
  match s.send_Thread_ with
  | .waiting => { s with send_Thread_ := .woken }
  | _ => s

/-- `p_` is the local packet, with what the stack held. Gives whether the
packet went into the queue. -/
def receiveRtpPacket {size : Nat} (s : Sender) (p_ : Block 1500 UInt8) (inBuff : Block size UInt8)
    (buffSize : Int) : Except Fault (Sender × Bool) :=
  if s.sending_ = false then .ok (s, false)
  else if s.sendQueue_.length < 1000 then do
    let data ← p_.memcpy 0 inBuff 0 buffSize
    let p_ : dataPacket := { data, length := buffSize }
    let s := { s with sendQueue_ := s.sendQueue_ ++ [p_] }
    .ok (s.notify_one, true)
  else .ok (s.notify_one, false)

/-- `sendto` reads `len` bytes from `buffer`. -/
def sendData (buffer : Block 1500 UInt8) (len : Int) : Except Fault (List UInt8) :=
  if 0 ≤ len ∧ len ≤ 1500 then .ok (buffer.slice 0 len.toNat) else .error .read

/-- The test of the outer loop. It reads the flag with no lock. -/
def testSending (s : Sender) : Sender :=
  { s with send_Thread_ := if s.sending_ then .lock else .ended }

/-- The section from the test of the inner loop on: an empty queue makes the
thread wait, and else the front is sent and then popped. -/
def serve (s : Sender) : Except Fault (Sender × Event) :=
  match s.sendQueue_ with
  | [] => .ok ({ s with send_Thread_ := .waiting }, .quiet)
  | front :: rest => do
    let packet ← sendData front.data front.length
    .ok ({ s with sendQueue_ := rest, send_Thread_ := .test }, .sent packet)

/-- The section after a wait. -/
def afterWait (s : Sender) : Except Fault (Sender × Event) :=
  if s.sending_ = false then .ok ({ s with send_Thread_ := .ended }, .quiet) else s.serve

end Sender

/-- One step of one party: a caller of `receiveRtpPacket`, the thread of
`sendLoop`, a spurious wake-up, or the flag store of the destructor. -/
inductive Step : Sender → Event → Sender → Prop
  | receive {s s' : Sender} {accepted : Bool} (p_ : Block 1500 UInt8) (a : Arrival)
      (hint : a.buffSize < 2 ^ 31)
      (h : s.receiveRtpPacket p_ a.inBuff a.buffSize = .ok (s', accepted)) :
      Step s (.arrived (a.inBuff.slice 0 a.buffSize) s.sending_ s.sendQueue_.length accepted) s'
  | test {s : Sender} (h : s.send_Thread_ = .test) : Step s .quiet s.testSending
  | serve {s s' : Sender} {e : Event} (h : s.send_Thread_ = .lock) (hs : s.serve = .ok (s', e)) :
      Step s e s'
  | spurious {s : Sender} (h : s.send_Thread_ = .waiting) :
      Step s .quiet { s with send_Thread_ := .woken }
  | wake {s s' : Sender} {e : Event} (h : s.send_Thread_ = .woken)
      (hs : s.afterWait = .ok (s', e)) : Step s e s'
  | stop {s : Sender} : Step s .quiet { s with sending_ := false }

/-! ## What a run did -/

/-- The packets that went into the queue, in the order they came. -/
def accepted : List Event → List (List UInt8)
  | [] => []
  | .arrived packet _ _ true :: es => packet :: accepted es
  | _ :: es => accepted es

/-- The datagrams that went to `sendData`. -/
def sent : List Event → List (List UInt8)
  | [] => []
  | .sent packet :: es => packet :: sent es
  | _ :: es => sent es

@[simp] theorem accepted_append (es fs : List Event) :
    accepted (es ++ fs) = accepted es ++ accepted fs := by
  induction es using accepted.induct <;> simp_all [accepted]

@[simp] theorem sent_append (es fs : List Event) : sent (es ++ fs) = sent es ++ sent fs := by
  induction es using sent.induct <;> simp_all [sent]

/-- The bytes of a queued packet that count. -/
def dataPacket.bytes (p : dataPacket) : List UInt8 := p.data.slice 0 p.length.toNat

/-- A packet whose length is that of a datagram of at most 1500 bytes. -/
def dataPacket.Sound (p : dataPacket) : Prop := 0 ≤ p.length ∧ p.length ≤ 1500

/-! ## What one step does -/

@[simp] theorem notify_one_queue (s : Sender) : s.notify_one.sendQueue_ = s.sendQueue_ := by
  unfold Sender.notify_one
  split <;> rfl

@[simp] theorem notify_one_sending (s : Sender) : s.notify_one.sending_ = s.sending_ := by
  unfold Sender.notify_one
  split <;> rfl

theorem notify_one_thread (s : Sender) :
    s.notify_one.send_Thread_ ≠ .waiting ∧
      (s.notify_one.send_Thread_ = .ended → s.send_Thread_ = .ended) := by
  unfold Sender.notify_one
  split
  · exact ⟨nofun, nofun⟩
  · rename_i hnot
    exact ⟨hnot, id⟩

/-- A caller leaves the flag. It wakes the thread up, or the flag was down. -/
theorem receive_thread {s s' : Sender} {size : Nat} {p_ : Block 1500 UInt8}
    {inBuff : Block size UInt8} {buffSize : Int} {ok : Bool}
    (h : s.receiveRtpPacket p_ inBuff buffSize = .ok (s', ok)) :
    s'.sending_ = s.sending_ ∧ (s' = s ∨ (s'.send_Thread_ ≠ .waiting ∧
      (s'.send_Thread_ = .ended → s.send_Thread_ = .ended))) := by
  unfold Sender.receiveRtpPacket at h
  split at h
  · cases h
    exact ⟨rfl, Or.inl rfl⟩
  · split at h
    · obtain ⟨data, -, hdata⟩ := bind_eq_ok h
      cases hdata
      exact ⟨notify_one_sending _, Or.inr (notify_one_thread _)⟩
    · cases h
      exact ⟨notify_one_sending _, Or.inr (notify_one_thread _)⟩

/-- A packet that comes in: it is put at the back of the queue with its bytes,
or nothing goes in, and then the flag was down or the queue was full. -/
theorem receive_cases {s s' : Sender} {p_ : Block 1500 UInt8} {a : Arrival} {ok : Bool}
    (hint : a.buffSize < 2 ^ 31)
    (h : s.receiveRtpPacket p_ a.inBuff a.buffSize = .ok (s', ok)) :
    (ok = true ∧ s.sendQueue_.length < 1000 ∧ ∃ p : dataPacket, p.Sound ∧
        p.bytes = a.inBuff.slice 0 a.buffSize ∧ s'.sendQueue_ = s.sendQueue_ ++ [p]) ∨
      (ok = false ∧ (s.sending_ = true → 1000 ≤ s.sendQueue_.length) ∧
        s'.sendQueue_ = s.sendQueue_) := by
  unfold Sender.receiveRtpPacket at h
  split at h
  · rename_i hflag
    cases h
    exact Or.inr ⟨rfl, fun htrue => absurd (htrue.symm.trans hflag) (by decide), rfl⟩
  · split at h
    · rename_i hroom
      rcases hcopy : p_.memcpy 0 a.inBuff 0 a.buffSize with e | data
      · rw [hcopy] at h
        cases h
      · rw [hcopy, ok_bind] at h
        cases h
        obtain ⟨-, hsize, rfl⟩ := memcpy_ok_inv (p := 0) (q := 0) (by omega) hcopy
        refine Or.inl ⟨rfl, hroom, ⟨p_.put 0 (a.inBuff.slice 0 a.buffSize), a.buffSize⟩,
          ⟨?_, ?_⟩, ?_, ?_⟩
        · exact Int.natCast_nonneg _
        · change (a.buffSize : Int) ≤ 1500
          omega
        · have hput := slice_put_self p_ 0 (a.inBuff.slice 0 a.buffSize)
          rwa [slice_length] at hput
        · rw [notify_one_queue]
    · rename_i hfull
      cases h
      exact Or.inr ⟨rfl, fun _ => Nat.le_of_not_lt hfull, notify_one_queue s⟩

/-- The section of the thread: it finds nothing, or it sends the bytes of the
front packet and takes it out. -/
theorem serve_cases {s s' : Sender} {e : Event} (h : s.serve = .ok (s', e)) :
    (s.sendQueue_ = [] ∧ s'.sendQueue_ = [] ∧ e = .quiet) ∨
      ∃ front rest, s.sendQueue_ = front :: rest ∧ s'.sendQueue_ = rest ∧
        e = .sent front.bytes := by
  unfold Sender.serve at h
  split at h
  · rename_i hq
    cases h
    exact Or.inl ⟨hq, hq, rfl⟩
  · rename_i front rest hq
    unfold Sender.sendData at h
    split at h
    · cases h
      exact Or.inr ⟨front, rest, hq, rfl, rfl⟩
    · cases h

/-! ## The invariant -/

/-- What holds in every state: what was sent and what is queued are what was
accepted, the queue is not over its size, its packets can be sent, and a
packet was refused only at a full queue. -/
structure Good (es : List Event) (s : Sender) : Prop where
  fifo : sent es ++ s.sendQueue_.map dataPacket.bytes = accepted es
  bound : s.sendQueue_.length ≤ 1000
  sound : ∀ p ∈ s.sendQueue_, p.Sound
  refused : ∀ packet queued, Event.arrived packet true queued false ∈ es → queued = 1000

theorem good_init : Good [] Sender.init := by
  refine ⟨rfl, by decide, ?_, ?_⟩
  · intro p hp
    cases hp
  · intro packet queued hmem
    cases hmem

/-- A step that shows nothing and keeps the queue keeps the invariant. -/
theorem good_quiet {es : List Event} {s s' : Sender} (h : Good es s)
    (hq : s'.sendQueue_ = s.sendQueue_) : Good (es ++ [.quiet]) s' := by
  obtain ⟨h1, h2, h3, h4⟩ := h
  refine ⟨?_, by rwa [hq], by rwa [hq], ?_⟩
  · rw [sent_append, accepted_append, hq]
    simpa [sent, accepted] using h1
  · intro packet queued hmem
    exact h4 packet queued (by simpa using hmem)

theorem good_receive {es : List Event} {s s' : Sender} {p_ : Block 1500 UInt8} {a : Arrival}
    {ok : Bool} (h : Good es s) (hint : a.buffSize < 2 ^ 31)
    (hs : s.receiveRtpPacket p_ a.inBuff a.buffSize = .ok (s', ok)) :
    Good (es ++ [.arrived (a.inBuff.slice 0 a.buffSize) s.sending_ s.sendQueue_.length ok]) s' := by
  obtain ⟨h1, h2, h3, h4⟩ := h
  rcases receive_cases hint hs with ⟨rfl, hroom, p, hp, hbytes, hq⟩ | ⟨rfl, hfull, hq⟩
  · refine ⟨?_, ?_, ?_, ?_⟩
    · rw [sent_append, accepted_append, hq, List.map_append, ← List.append_assoc]
      simp [sent, accepted, h1, hbytes]
    · rw [hq, List.length_append]
      exact hroom
    · rw [hq, List.forall_mem_append, List.forall_mem_singleton]
      exact ⟨h3, hp⟩
    · intro packet queued hmem
      exact h4 packet queued (by simpa using hmem)
  · refine ⟨?_, by rwa [hq], by rwa [hq], ?_⟩
    · rw [sent_append, accepted_append, hq]
      simpa [sent, accepted] using h1
    · intro packet queued hmem
      rw [List.mem_append, List.mem_singleton] at hmem
      rcases hmem with hmem | heq
      · exact h4 packet queued hmem
      · simp only [Event.arrived.injEq, and_true] at heq
        obtain ⟨-, hflag, rfl⟩ := heq
        have := hfull hflag.symm
        omega

theorem good_serve {es : List Event} {s s' : Sender} {e : Event} (h : Good es s)
    (hs : s.serve = .ok (s', e)) : Good (es ++ [e]) s' := by
  rcases serve_cases hs with ⟨hq, hq', rfl⟩ | ⟨front, rest, hq, hq', rfl⟩
  · exact good_quiet h (hq'.trans hq.symm)
  · obtain ⟨h1, h2, h3, h4⟩ := h
    rw [hq, List.forall_mem_cons] at h3
    rw [hq, List.length_cons] at h2
    refine ⟨?_, by rw [hq']; omega, by rw [hq']; exact h3.2, ?_⟩
    · rw [sent_append, accepted_append, hq', ← h1, hq]
      simp [sent, accepted]
    · intro packet queued hmem
      exact h4 packet queued (by simpa using hmem)

theorem good_step (es : List Event) (s : Sender) (e : Event) (s' : Sender) (h : Good es s)
    (hs : Step s e s') : Good (es ++ [e]) s' := by
  cases hs with
  | receive p_ a hint hr => exact good_receive h hint hr
  | test _ => exact good_quiet h rfl
  | serve _ hr => exact good_serve h hr
  | spurious _ => exact good_quiet h rfl
  | wake _ hr =>
    unfold Sender.afterWait at hr
    split at hr
    · cases hr
      exact good_quiet h rfl
    · exact good_serve h hr
  | stop => exact good_quiet h rfl

theorem good_of_reaches {es : List Event} {s : Sender} (h : Reaches Step Sender.init es s) :
    Good es s :=
  h.invariant Good good_init good_step

/-- A datagram of at most 1500 bytes is never written outside its slot. -/
theorem receive_ok (s : Sender) (p_ : Block 1500 UInt8) (a : Arrival) (h1 : a.buffSize ≤ 1500)
    (h2 : a.buffSize ≤ a.size) :
    ∃ s' ok, s.receiveRtpPacket p_ a.inBuff a.buffSize = .ok (s', ok) := by
  have hcopy : p_.memcpy 0 a.inBuff 0 a.buffSize = .ok (p_.put 0 (a.inBuff.slice 0 a.buffSize)) :=
    memcpy_ok p_ a.inBuff (p := 0) (q := 0) (by omega) (by omega) (by omega)
  unfold Sender.receiveRtpPacket
  split
  · exact ⟨_, _, rfl⟩
  · split
    · rw [hcopy]
      exact ⟨_, _, rfl⟩
    · exact ⟨_, _, rfl⟩

/-- A packet of the queue is never read outside its slot. -/
theorem serve_ok {s : Sender} (h : ∀ p ∈ s.sendQueue_, p.Sound) :
    ∃ s' e, s.serve = .ok (s', e) := by
  unfold Sender.serve
  split
  · exact ⟨_, _, rfl⟩
  · rename_i front rest hq
    have hfront : 0 ≤ front.length ∧ front.length ≤ 1500 := h front (hq ▸ List.mem_cons_self)
    unfold Sender.sendData
    rw [if_pos hfront]
    exact ⟨_, _, rfl⟩

/-- In every state that any schedule reaches: what was sent and then what is
queued are the accepted packets in order, with their bytes, the queue is never
over 1000, and while the flag is up a packet is refused only when the queue
holds exactly 1000. No datagram of at most 1500 bytes makes a call fail, and
no section of the thread fails. -/
theorem the_queue_loses_and_reorders_nothing (es : List Event) (s : Sender)
    (h : Reaches Step Sender.init es s) :
    sent es ++ s.sendQueue_.map dataPacket.bytes = accepted es ∧
      s.sendQueue_.length ≤ 1000 ∧
      (∀ packet queued, Event.arrived packet true queued false ∈ es → queued = 1000) ∧
      (∀ (p_ : Block 1500 UInt8) (a : Arrival), a.buffSize ≤ 1500 → a.buffSize ≤ a.size →
        ∃ s' ok, s.receiveRtpPacket p_ a.inBuff a.buffSize = .ok (s', ok)) ∧
      ∃ s' e, s.serve = .ok (s', e) := by
  have hgood := good_of_reaches h
  exact ⟨hgood.fifo, hgood.bound, hgood.refused, receive_ok s, serve_ok hgood.sound⟩

/-- Packets of one byte that come in, the first at an empty queue. -/
def nines (n : Nat) : List Event := (List.range n).map (fun i => .arrived [9] true i true)

theorem nines_succ (n : Nat) : nines (n + 1) = nines n ++ [.arrived [9] true n true] := by
  unfold nines
  rw [List.range_succ, List.map_append, List.map_singleton]

theorem nines_log (n : Nat) : sent (nines n) = [] ∧ accepted (nines n) = List.replicate n [9] := by
  induction n with
  | zero => exact ⟨rfl, rfl⟩
  | succ n ih =>
    rw [nines_succ, sent_append, accepted_append, ih.1, ih.2, List.replicate_succ']
    exact ⟨rfl, rfl⟩

/-- Packets of one byte go into an empty queue as long as there is room. -/
theorem packets_go_in {es : List Event} {s : Sender} (h : Reaches Step Sender.init es s)
    (hup : s.sending_ = true) (hempty : s.sendQueue_ = []) (n : Nat) (hn : n ≤ 1000) :
    ∃ s', Reaches Step Sender.init (es ++ nines n) s' ∧
      s'.sending_ = true ∧ s'.sendQueue_.length = n := by
  induction n with
  | zero => exact ⟨s, by simpa [nines] using h, hup, by rw [hempty]; rfl⟩
  | succ n ih =>
    obtain ⟨s', hrun, hflag, hlen⟩ := ih (by omega)
    obtain ⟨s'', ok, hr⟩ := receive_ok s' (Block.ofList [] 0) (Arrival.ofBytes [9])
      (by decide) (Nat.le_refl _)
    have hnext := hrun.next (Step.receive _ _ (by decide) hr)
    rcases receive_cases (by decide) hr with ⟨rfl, -, p, -, -, hq⟩ | ⟨-, hfull, -⟩
    · refine ⟨s'', ?_, (receive_thread hr).1.trans hflag, ?_⟩
      · rw [hflag, hlen, List.append_assoc] at hnext
        rwa [nines_succ]
      · rw [hq, List.length_append, hlen]
        rfl
    · have := hfull hflag
      omega

/-- The thread waits, is woken and sends one packet. Then 1000 packets fill the
queue, and the next one is refused. -/
theorem a_packet_meets_a_full_queue :
    ∃ es s, Reaches Step Sender.init es s ∧ sent es = [[1, 2]] ∧
      .arrived [3] true 1000 false ∈ es ∧
      s.sendQueue_.map dataPacket.bytes = List.replicate 1000 [9] := by
  have hwait : Reaches Step Sender.init [.quiet, .quiet]
      { Sender.init with send_Thread_ := .waiting } :=
    (Reaches.start.next (.test rfl)).next (.serve rfl rfl)
  have hcame := hwait.next (.receive (Block.ofList [] 0) (Arrival.ofBytes [1, 2]) (by decide) rfl)
  have hsent := hcame.next (.wake rfl rfl)
  obtain ⟨s, hfull, hflag, hlen⟩ := packets_go_in hsent rfl rfl 1000
    (Nat.le_refl _)
  obtain ⟨s', ok, hr⟩ := receive_ok s (Block.ofList [] 0) (Arrival.ofBytes [3]) (by decide)
    (Nat.le_refl _)
  have hrun := hfull.next (Step.receive _ _ (by decide) hr)
  rcases receive_cases (by decide) hr with ⟨-, hroom, -⟩ | ⟨rfl, -, -⟩
  · omega
  · rw [hflag, hlen] at hrun
    have hfifo := (the_queue_loses_and_reorders_nothing _ _ hrun).1
    rw [sent_append, sent_append, accepted_append, accepted_append, (nines_log _).1,
      (nines_log _).2] at hfifo
    refine ⟨_, s', hrun, ?_, ?_, ?_⟩
    · rw [sent_append, sent_append, (nines_log _).1]
      rfl
    · exact List.mem_append_right _ (List.mem_singleton.mpr rfl)
    · generalize List.replicate 1000 [(9 : UInt8)] = ones at hfifo ⊢
      exact (List.cons.inj (hfifo.trans (List.append_nil _))).2

/-! ## The thread is roused -/

/-- The thread waits on an empty queue only, and it ends when the flag is down
only. Each packet of the queue can be sent. -/
structure Roused (s : Sender) : Prop where
  waiting : s.send_Thread_ = .waiting → s.sendQueue_ = []
  ended : s.send_Thread_ = .ended → s.sending_ = false
  sound : ∀ p ∈ s.sendQueue_, p.Sound

theorem roused_init : Roused Sender.init := ⟨nofun, nofun, nofun⟩

theorem Roused.receive {s s' : Sender} (h : Roused s) {p_ : Block 1500 UInt8} {a : Arrival}
    {ok : Bool} (hint : a.buffSize < 2 ^ 31)
    (hs : s.receiveRtpPacket p_ a.inBuff a.buffSize = .ok (s', ok)) : Roused s' := by
  obtain ⟨hflag, rfl | ⟨hawake, hended⟩⟩ := receive_thread hs
  · exact h
  · refine ⟨fun hwaiting => absurd hwaiting hawake, fun he => hflag.trans (h.ended (hended he)), ?_⟩
    rcases receive_cases hint hs with ⟨-, -, p, hp, -, hq⟩ | ⟨-, -, hq⟩
    · rw [hq, List.forall_mem_append, List.forall_mem_singleton]
      exact ⟨h.sound, hp⟩
    · rw [hq]
      exact h.sound

theorem Roused.serve {s s' : Sender} {e : Event} (h : Roused s) (hs : s.serve = .ok (s', e)) :
    Roused s' := by
  unfold Sender.serve at hs
  split at hs
  · rename_i hempty
    cases hs
    exact ⟨fun _ => hempty, nofun, h.sound⟩
  · rename_i front rest hqueue
    obtain ⟨packet, -, hout⟩ := bind_eq_ok hs
    cases hout
    have hsound := h.sound
    rw [hqueue, List.forall_mem_cons] at hsound
    exact ⟨nofun, nofun, hsound.2⟩

theorem Roused.next {s s' : Sender} {e : Event} (h : Roused s) (hs : Step s e s') : Roused s' := by
  cases hs with
  | receive p_ a hint hr => exact h.receive hint hr
  | test _ =>
    refine ⟨?_, ?_, h.sound⟩
    · unfold Sender.testSending
      split <;> nofun
    · unfold Sender.testSending
      split
      · nofun
      · rename_i hdown
        exact fun _ => eq_false_of_ne_true hdown
  | serve _ hr => exact h.serve hr
  | spurious _ => exact ⟨nofun, nofun, h.sound⟩
  | wake _ hr =>
    unfold Sender.afterWait at hr
    split at hr
    · rename_i hdown
      cases hr
      exact ⟨nofun, fun _ => hdown, h.sound⟩
    · exact h.serve hr
  | stop => exact ⟨h.waiting, fun _ => rfl, h.sound⟩

/-- A thread that is awake and finds the flag up sends the front of the queue. -/
theorem serve_front {s : Sender} {front : dataPacket} {rest : List dataPacket}
    (hqueue : s.sendQueue_ = front :: rest) (hsound : front.Sound) :
    s.serve = .ok ({ s with sendQueue_ := rest, send_Thread_ := .test }, .sent front.bytes) := by
  have hsize : 0 ≤ front.length ∧ front.length ≤ 1500 := hsound
  unfold Sender.serve
  split
  · rename_i hempty
    cases hqueue.symm.trans hempty
  · rename_i front' rest' hqueue'
    cases hqueue.symm.trans hqueue'
    unfold Sender.sendData
    rw [if_pos hsize]
    rfl

end payloader.sender
