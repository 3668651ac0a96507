-- The receiver of Receiver.cpp: one `async_receive_from` is pending at a time,
-- and `handleReceive` asks for the next one after it has called the sink.
import Payloader.Interfaces
import Payloader.Machines

set_option autoImplicit false

namespace payloader.receiver

open payloader.memory payloader.machines payloader.interfaces

def LENGTH : Nat := 1500

/-- The buffer is an array of pointers, of eight bytes each. `pending` says that
a receive was asked for, and `socket_` has the datagrams that wait. -/
structure Receiver where
  buffer_ : Block (8 * LENGTH) UInt8
  sink_ : Bool
  pending : Bool
  socket_ : List (List UInt8)

namespace Receiver

/-- The constructor; `buffer_` is what the memory held. -/
def new (buffer_ : Block (8 * LENGTH) UInt8) : Receiver :=
  { buffer_, sink_ := false, pending := false, socket_ := [] }

def setSink (r : Receiver) : Receiver := { r with sink_ := true }

def async_receive_from (r : Receiver) : Receiver := { r with pending := true }

def init (r : Receiver) : Receiver := r.async_receive_from

/-- An error is only logged. Gives what the sink was called with. -/
def handleReceive (r : Receiver) (_error : Bool) (bytes_recvd : Nat) :
    Receiver × Option Arrival :=
  if 0 < bytes_recvd ∧ r.sink_ = true then
    (r.async_receive_from,
      some { size := 8 * LENGTH, inBuff := r.buffer_, buffSize := bytes_recvd })
  else (r, none)

/-- A receive that is pending gets a datagram: at most `LENGTH` bytes of it go
into the buffer, and the rest is lost. -/
def received (r : Receiver) (d : List UInt8) (rest : List (List UInt8)) :
    Receiver × Option Arrival :=
  handleReceive { r with
    buffer_ := r.buffer_.put 0 (d.take LENGTH)
    pending := false
    socket_ := rest } false (d.take LENGTH).length

/-- A receive that is pending fails. -/
def failed (r : Receiver) : Receiver × Option Arrival :=
  handleReceive { r with pending := false } true 0

end Receiver

/-- A datagram reaches the socket, or the pending receive completes. -/
inductive Event
  | arrived (d : List UInt8)
  | received (d : List UInt8) (sunk : Option Arrival)
  | failed (sunk : Option Arrival)

inductive Step : Receiver → Event → Receiver → Prop
  | arrive {r : Receiver} (d : List UInt8) :
      Step r (.arrived d) { r with socket_ := r.socket_ ++ [d] }
  | receive {r : Receiver} {d : List UInt8} {rest : List (List UInt8)} (h : r.pending = true)
      (hd : r.socket_ = d :: rest) :
      Step r (.received d (r.received d rest).2) (r.received d rest).1
  | fail {r : Receiver} (h : r.pending = true) : Step r (.failed r.failed.2) r.failed.1

/-- A receiver with a sink, when `init` has asked for the first datagram. -/
def start (buffer_ : Block (8 * LENGTH) UInt8) : Receiver := (Receiver.new buffer_).setSink.init

/-! ## What a run did -/

def arrived (log : List Event) : List (List UInt8) :=
  log.filterMap (fun e =>
    match e with
    | .arrived d => some d
    | _ => none)

/-- The bytes that the sink was called with. -/
def forwarded (log : List Event) : List (List UInt8) :=
  log.filterMap (fun e =>
    match e with
    | .received _ (some a) => some (a.inBuff.slice 0 a.buffSize)
    | .failed (some a) => some (a.inBuff.slice 0 a.buffSize)
    | _ => none)

/-- What the sink is to get for some datagrams: those with bytes, cut to the
size of the buffer. -/
def due (ds : List (List UInt8)) : List (List UInt8) :=
  (ds.filter (fun d => d ≠ [])).map (·.take LENGTH)

/-- Every datagram with bytes is forwarded once, in order, or waits for the
receive that is pending. -/
structure Forwards (log : List Event) (r : Receiver) : Prop where
  inOrder : forwarded log ++ due r.socket_ = due (arrived log)
  pending : r.pending = true

/-- A datagram that is received has bytes, and no receive fails. -/
def Usual : Event → Prop
  | .arrived _ => True
  | .received d _ => d ≠ []
  | .failed _ => False

variable {log more : List Event} {e : Event} {r r' : Receiver} {d : List UInt8}
variable {rest : List (List UInt8)} {buffer_ : Block (8 * LENGTH) UInt8}

theorem arrived_append : arrived (log ++ more) = arrived log ++ arrived more :=
  List.filterMap_append

theorem forwarded_append : forwarded (log ++ more) = forwarded log ++ forwarded more :=
  List.filterMap_append

theorem due_append (ds es : List (List UInt8)) : due (ds ++ es) = due ds ++ due es := by
  unfold due
  rw [List.filter_append, List.map_append]

theorem due_cons (hd : d ≠ []) : due (d :: rest) = d.take LENGTH :: due rest := by
  unfold due
  rw [List.filter_cons, if_pos (decide_eq_true hd), List.map_cons]

theorem due_cons_nil : due ([] :: rest) = due rest := rfl

/-! ## One completion -/

theorem take_length_pos (hd : d ≠ []) : 0 < (d.take LENGTH).length := by
  rw [List.length_take]
  have := List.length_pos_iff.mpr hd
  exact Nat.lt_min.mpr ⟨by decide, this⟩

/-- A datagram with bytes goes to the sink, and the next receive is asked for. -/
theorem received_bytes (hsink : r.sink_ = true) (hd : d ≠ []) (rest : List (List UInt8)) :
    ∃ a, r.received d rest = ({ r with buffer_ := r.buffer_.put 0 (d.take LENGTH)
                                       pending := true
                                       socket_ := rest }, some a) ∧
      a.inBuff.slice 0 a.buffSize = d.take LENGTH := by
  unfold Receiver.received Receiver.handleReceive
  rw [if_pos ⟨take_length_pos hd, hsink⟩]
  exact ⟨_, rfl, slice_put_self _ _ _⟩

/-- Without bytes nothing goes to the sink, and nothing is asked for. -/
theorem handleReceive_none (error : Bool) : r.handleReceive error 0 = (r, none) := by
  unfold Receiver.handleReceive
  rw [if_neg (fun h => Nat.lt_irrefl 0 h.1)]

theorem received_nil : r.received [] rest =
    ({ r with buffer_ := r.buffer_.put 0 [], pending := false, socket_ := rest }, none) :=
  handleReceive_none false

theorem failed_eq : r.failed = ({ r with pending := false }, none) := handleReceive_none true

/-- What every receiver with a sink keeps. -/
structure Known (log : List Event) (r : Receiver) : Prop where
  sink : r.sink_ = true
  inOrder : forwarded log ++ due r.socket_ = due (arrived log)
  pending : r.pending = true ↔ ∀ e ∈ log, Usual e

theorem Known.next (hI : Known log r) (h : Step r e r') : Known (log ++ [e]) r' := by
  have horder := hI.inOrder
  cases h with
  | arrive d =>
    refine ⟨hI.sink, ?_, ?_⟩
    · rw [forwarded_append, arrived_append, due_append, due_append, ← horder]
      simp only [forwarded, arrived, List.filterMap_cons, List.filterMap_nil, List.append_nil,
        List.append_assoc]
    · rw [forall_mem_snoc, ← hI.pending]
      exact (and_iff_left trivial).symm
  | receive hpending hd =>
    rename_i d rest
    rw [hd] at horder
    by_cases hnil : d = []
    · subst hnil
      rw [received_nil]
      rw [due_cons_nil] at horder
      refine ⟨hI.sink, ?_, ?_⟩
      · rw [forwarded_append, arrived_append]
        simpa [forwarded, arrived] using horder
      · rw [forall_mem_snoc]
        exact ⟨fun hp => absurd hp Bool.false_ne_true, fun hu => absurd rfl hu.2⟩
    · obtain ⟨a, ha, hbytes⟩ := received_bytes hI.sink hnil rest
      rw [ha]
      refine ⟨hI.sink, ?_, ?_⟩
      · rw [due_cons hnil, ← hbytes] at horder
        rw [forwarded_append, arrived_append]
        simpa [forwarded, arrived] using horder
      · rw [forall_mem_snoc, ← hI.pending]
        exact ⟨fun _ => ⟨hpending, hnil⟩, fun _ => rfl⟩
  | fail hpending =>
    rw [failed_eq]
    refine ⟨hI.sink, ?_, ?_⟩
    · rw [forwarded_append, arrived_append]
      simpa [forwarded, arrived] using horder
    · rw [forall_mem_snoc]
      exact ⟨fun hp => absurd hp Bool.false_ne_true, fun hu => absurd hu.2 id⟩

theorem known_reached (h : Reaches Step (start buffer_) log r) : Known log r :=
  h.invariant Known ⟨rfl, rfl, fun _ _ he => absurd he List.not_mem_nil, fun _ => rfl⟩
    (fun _ _ _ _ hI hstep => hI.next hstep)

/-! ## A whole run -/

/-- In every state that a receiver comes to, the datagrams are forwarded and a
receive is pending exactly when all it got was datagrams with bytes. -/
theorem a_receiver_goes_on_while_datagrams_have_bytes
    (h : Reaches Step (start buffer_) log r) : Forwards log r ↔ ∀ e ∈ log, Usual e := by
  have hK := known_reached h
  rw [← hK.pending]
  exact ⟨fun hF => hF.pending, fun hp => ⟨hK.inOrder, hp⟩⟩

/-- While a receive is pending, what waits can all be forwarded. -/
theorem what_waits_is_forwarded (hsink : r.sink_ = true) (hpending : r.pending = true)
    (hbytes : ∀ d ∈ r.socket_, d ≠ []) :
    ∃ more r', Reaches Step r more r' ∧ arrived more = [] ∧ forwarded more = due r.socket_ ∧
      r'.socket_ = [] ∧ ∀ e ∈ more, Usual e := by
  generalize hwait : r.socket_ = ds at hbytes ⊢
  induction ds generalizing r with
  | nil => exact ⟨[], r, .start, rfl, rfl, hwait, List.forall_mem_nil _⟩
  | cons d rest ih =>
    have hd := hbytes d List.mem_cons_self
    obtain ⟨a, ha, hsunk⟩ := received_bytes hsink hd rest
    have hstep := Step.receive hpending hwait
    rw [ha] at hstep
    obtain ⟨more, r', hrun, harrived, hforwarded, hempty, husual⟩ := ih (r := { r with
      buffer_ := r.buffer_.put 0 (d.take LENGTH), pending := true, socket_ := rest }) hsink rfl rfl
      (fun d' hd' => hbytes d' (List.mem_cons_of_mem d hd'))
    refine ⟨_, r', (Reaches.start.next hstep).trans hrun, ?_, ?_, hempty,
      List.forall_mem_cons.mpr ⟨hd, husual⟩⟩
    · rw [arrived_append, harrived]
      rfl
    · rw [forwarded_append, hforwarded, due_cons hd, ← hsunk]
      rfl

/-- When no receive is pending, nothing is forwarded any more. -/
theorem a_receiver_that_has_stopped_forwards_nothing (hstop : r.pending = false)
    (h : Reaches Step r more r') : forwarded more = [] ∧ r'.pending = false := by
  refine h.invariant (fun more r => forwarded more = [] ∧ r.pending = false) ⟨rfl, hstop⟩ ?_
  rintro more r e r' ⟨hforwarded, hstop⟩ hstep
  cases hstep with
  | arrive d =>
    refine ⟨?_, hstop⟩
    rw [forwarded_append, hforwarded]
    rfl
  | receive hpending =>
    rw [hstop] at hpending
    cases hpending
  | fail hpending =>
    rw [hstop] at hpending
    cases hpending

/-- Three datagrams wait and are received, of which the second has more bytes
than the buffer. -/
theorem three_datagrams_are_forwarded :
    ∃ log r, Reaches Step (start (Block.ofList [] 0)) log r ∧
      forwarded log = [[7], List.replicate 1500 1, [8, 9]] ∧ Forwards log r := by
  let waiting : List (List UInt8) := [[7], List.replicate 1600 1, [8, 9]]
  have hlong : List.replicate 1600 (1 : UInt8) ≠ [] := List.cons_ne_nil _ _
  have hbytes : ∀ d ∈ waiting, d ≠ [] :=
    List.forall_mem_cons.mpr ⟨List.cons_ne_nil 7 [], List.forall_mem_cons.mpr
      ⟨hlong, List.forall_mem_singleton.mpr (List.cons_ne_nil 8 [9])⟩⟩
  have hdue : due waiting = [[7], List.replicate 1500 1, [8, 9]] := by
    rw [due_cons (List.cons_ne_nil 7 []), due_cons hlong, List.take_replicate]
    rfl
  have hcame : Reaches Step (start (Block.ofList [] 0)) (waiting.map .arrived)
      { start (Block.ofList [] 0) with socket_ := waiting } :=
    ((Reaches.start.next (.arrive _)).next (.arrive _)).next (.arrive _)
  obtain ⟨more, r, hrest, -, hforwarded, -, husual⟩ := what_waits_is_forwarded
    (r := { start (Block.ofList [] 0) with socket_ := waiting }) rfl rfl hbytes
  have hrun := hcame.trans hrest
  refine ⟨_, r, hrun, ?_, (a_receiver_goes_on_while_datagrams_have_bytes hrun).mpr ?_⟩
  · rw [forwarded_append, hforwarded, ← hdue]
    rfl
  · rw [List.forall_mem_append]
    exact ⟨List.forall_mem_map.mpr (fun _ _ => trivial), husual⟩

/-- A datagram without bytes stops the receiver. -/
theorem an_empty_datagram_stops_the_receiver :
    ¬ ∀ (buffer_ : Block (8 * LENGTH) UInt8) (log : List Event) (r : Receiver),
      Reaches Step (start buffer_) log r → Forwards log r := by
  intro h
  have harrive : Step (start (Block.ofList [] 0)) (.arrived []) _ := .arrive []
  have hpending := (h _ _ _ ((Reaches.start.next harrive).next (.receive rfl rfl))).pending
  cases hpending

end payloader.receiver
