-- The unpackager of Unpackager.cpp: the payloads of the datagrams pile up in
-- one buffer behind a cursor, and a marker hands the buffer to the sink. On
-- well-formed datagrams it does what `depacketize` does, a machine with a
-- list in place of the buffer and the cursor.
import Payloader.Framing
import Payloader.Interfaces
import Payloader.RtpHeaders

set_option autoImplicit false

namespace payloader.unpackager

open payloader.memory payloader.machines payloader.framing payloader.byte_order
open payloader.rtp_headers payloader.interfaces

def UNPACKAGED_BUFFER_SIZE : Nat := 1500000

/-- `buffer` is the block that `init` allocates. The cursor
`unpackagedBuffer_` is an offset from its start. -/
structure Unpackager where
  sink_ : Bool
  upackagedSize_ : Int
  buffer : Block UNPACKAGED_BUFFER_SIZE UInt8
  unpackagedBuffer_ : Int
  first_video_timestamp_ : Int

namespace Unpackager

/-- The constructor and `init`. The buffer holds what `malloc` left there. -/
def init (buffer : Block UNPACKAGED_BUFFER_SIZE UInt8) : Unpackager :=
  { sink_ := false, upackagedSize_ := 0, buffer, unpackagedBuffer_ := 0,
    first_video_timestamp_ := -1 }

def setSink (u : Unpackager) (receiver : Bool) : Unpackager := { u with sink_ := receiver }

/-- The state after a copy of `l` bytes. -/
def advance (u : Unpackager) (buffer : Block UNPACKAGED_BUFFER_SIZE UInt8) (l : Int) : Unpackager :=
  { u with buffer, upackagedSize_ := u.upackagedSize_ + l,
           unpackagedBuffer_ := u.unpackagedBuffer_ + l }

/-- The part under `if (head->getMarker())`: the cursor goes back, and the
packet that the sink gets starts there. -/
def deliver (u : Unpackager) (head : RtpHeader) : Unpackager × Option AVPacket :=
  let unpackagedBuffer_ := u.unpackagedBuffer_ - u.upackagedSize_
  let first_video_timestamp_ :=
    if u.first_video_timestamp_ = -1 then (head.getTimestamp.toNat : Int)
    else u.first_video_timestamp_
  let timestampToWrite := (head.getTimestamp.toNat - first_video_timestamp_).tdiv (90000 / 1000)
  let pkt : AVPacket :=
    { data := u.buffer.slice unpackagedBuffer_.toNat u.upackagedSize_.toNat
      dts := BitVec.ofInt 64 timestampToWrite }
  ({ u with unpackagedBuffer_, first_video_timestamp_, upackagedSize_ := 0 },
    if u.sink_ then some pkt else none)

/-- Gives the packet that went to the sink, if any. -/
def receiveRtpPacket {size : Nat} (u : Unpackager) (inBuff : Block size UInt8) (buffSize : Int) :
    Except Fault (Unpackager × Option AVPacket) := do
  let head ← RtpHeader.overlay inBuff
  let inBuffOffset := head.getHeaderLength
  let l := buffSize - head.getHeaderLength
  let buffer ← u.buffer.memcpy u.unpackagedBuffer_ inBuff inBuffOffset l
  let u := u.advance buffer l
  if head.getMarker ≠ 0 then .ok (u.deliver head) else .ok (u, none)

/-- What `~Unpackager` gives to `free`, from the start of the buffer. -/
def freed (u : Unpackager) : Int := u.unpackagedBuffer_

/-- The call with the arguments of one arrival. -/
def receive (u : Unpackager) (a : Arrival) : Except Fault (Unpackager × Option AVPacket) :=
  u.receiveRtpPacket a.inBuff a.buffSize

end Unpackager

/-! ## What a well-formed datagram carries -/

/-- What the unpackager reads in a datagram. -/
structure RtpPacket where
  payload : List UInt8
  marker : Bool
  timestamp : Nat
  deriving DecidableEq, Repr

def RtpPacket.piece (k : RtpPacket) : Piece UInt8 := { payload := k.payload, last := k.marker }

@[simp] theorem piece_payload (k : RtpPacket) : k.piece.payload = k.payload := rfl

@[simp] theorem piece_last (k : RtpPacket) : k.piece.last = k.marker := rfl

/-- The header at the start of the datagram. -/
def head (a : Arrival) : RtpHeader := RtpHeader.ofBytes a.inBuff.cell

/-- The header class lies in the buffer, and the header in the datagram. -/
def WellFormed (a : Arrival) : Prop :=
  16 ≤ a.size ∧ a.buffSize ≤ a.size ∧ (head a).getHeaderLength ≤ a.buffSize ∧ a.size < 2 ^ 64

def parse (a : Arrival) : RtpPacket :=
  { payload := a.inBuff.slice (head a).getHeaderLength (a.buffSize - (head a).getHeaderLength)
    marker := (head a).getMarker != 0
    timestamp := (head a).getTimestamp.toNat }

/-- The marker and the time, as RFC 3550 reads them. -/
theorem parse_marker (a : Arrival) :
    (parse a).marker = ((readFixedHeader a.inBuff.cell).marker == 1) := by
  have h : (head a).marker.toNat = (readFixedHeader a.inBuff.cell).marker := by
    rw [← fixed_ofBytes]
    rfl
  have hbit : ∀ b : BitVec 1, (b.setWidth 8 != 0) = (b.toNat == 1) := by decide
  rw [← h, ← hbit]
  rfl

theorem parse_timestamp (a : Arrival) :
    (parse a).timestamp = (readFixedHeader a.inBuff.cell).timestamp := by
  rw [← fixed_ofBytes]
  rfl

/-! ## The spec: a list in place of the buffer -/

structure Depacketizer where
  sink : Bool
  acc : List UInt8
  first : Int

/-- The base of the times at a marker: the one that stands, or its own time. -/
def baseAt (first : Int) (k : RtpPacket) : Int := if first = -1 then k.timestamp else first

/-- The packet that a sink gets at `k`, if any. -/
def stamp (sink : Bool) (base : Int) (k : RtpPacket) (data : Option (List UInt8)) :
    Option AVPacket :=
  if sink then
    data.map (fun data => { data, dts := BitVec.ofInt 64 ((k.timestamp - base).tdiv 90) })
  else none

theorem stamp_none (sink : Bool) (base : Int) (k : RtpPacket) : stamp sink base k none = none := by
  cases sink <;> rfl

/-- One packet comes in. The first marker sets the base of the times. -/
def depacketize (s : Depacketizer) (k : RtpPacket) :
    Except Fault (Depacketizer × Option AVPacket) := do
  let r ← collectIn UNPACKAGED_BUFFER_SIZE s.acc k.piece
  let first := if k.marker then baseAt s.first k else s.first
  .ok ({ s with acc := r.1, first }, stamp s.sink first k r.2)

/-- The buffer starts with the bytes of the list, and the cursor stands
right after them. -/
structure Tracks (u : Unpackager) (s : Depacketizer) : Prop where
  sink : u.sink_ = s.sink
  cursor : u.unpackagedBuffer_ = s.acc.length
  size : u.upackagedSize_ = s.acc.length
  bytes : u.buffer.slice 0 s.acc.length = s.acc
  first : u.first_video_timestamp_ = s.first

theorem tracks_init (buffer : Block UNPACKAGED_BUFFER_SIZE UInt8) (sink : Bool) :
    Tracks ((Unpackager.init buffer).setSink sink) { sink, acc := [], first := -1 } :=
  ⟨rfl, rfl, rfl, rfl, rfl⟩

/-- The length of the copy, which is negative when the header is too long. -/
def copyLength (a : Arrival) : Int := (a.buffSize : Int) - (head a).getHeaderLength

/-- A buffer without room for the header class: the header is read past its end. -/
theorem receive_short (u : Unpackager) (a : Arrival) (h : a.size < 16) :
    u.receive a = .error .read := by
  have ho : RtpHeader.overlay a.inBuff = .error .read := if_neg (Nat.not_le_of_lt h)
  unfold Unpackager.receive Unpackager.receiveRtpPacket
  rw [ho]
  rfl

/-- Every other call is one copy, and after it the marker decides. -/
theorem receive_eq (u : Unpackager) (a : Arrival) (h : 16 ≤ a.size) :
    u.receive a =
      (u.buffer.memcpy u.unpackagedBuffer_ a.inBuff (head a).getHeaderLength (copyLength a)).map
        (fun buffer =>
          if (head a).getMarker ≠ 0 then (u.advance buffer (copyLength a)).deliver (head a)
          else (u.advance buffer (copyLength a), none)) := by
  have ho : RtpHeader.overlay a.inBuff = .ok (head a) := if_pos h
  unfold Unpackager.receive Unpackager.receiveRtpPacket
  rw [ho, ok_bind]
  simp only [copyLength]
  rcases u.buffer.memcpy u.unpackagedBuffer_ a.inBuff (head a).getHeaderLength
    ((a.buffSize : Int) - (head a).getHeaderLength) with e | buffer
  · rfl
  · simp only [ok_bind, Except.map]
    split <;> rfl

/-- The copy of a payload that fits puts it right after the bytes so far. -/
theorem copy_payload {a : Arrival} (ha : WellFormed a) {size : Nat} {α : Type}
    (dst : Block size α) (src : Block a.size α) (n : Nat)
    (hfit : n + (a.buffSize - (head a).getHeaderLength) ≤ size) :
    dst.memcpy n src (head a).getHeaderLength (copyLength a) =
      .ok (dst.put n (src.slice (head a).getHeaderLength
        (a.buffSize - (head a).getHeaderLength))) := by
  obtain ⟨_, h2, h3, h4⟩ := ha
  have h := memcpy_ok dst src (p := n) (q := (head a).getHeaderLength)
    (n := a.buffSize - (head a).getHeaderLength) (by omega) (by omega) hfit
  rw [Nat.cast_sub h3] at h
  exact h

/-- The copy of a payload that does not fit leaves the block. -/
theorem copy_payload_over {a : Arrival} (ha : WellFormed a) {size : Nat} {α : Type}
    (dst : Block size α) (src : Block a.size α) (n : Nat)
    (hfit : size < n + (a.buffSize - (head a).getHeaderLength)) :
    dst.memcpy n src (head a).getHeaderLength (copyLength a) =
      .error .write := by
  obtain ⟨_, h2, h3, h4⟩ := ha
  have h := memcpy_write dst src (p := n) (q := (head a).getHeaderLength)
    (n := a.buffSize - (head a).getHeaderLength) (by omega) (by omega) hfit
  rw [Nat.cast_sub h3] at h
  exact h

theorem payload_length (a : Arrival) :
    (parse a).payload.length = a.buffSize - (head a).getHeaderLength := by
  simp [parse]

/-- A payload that fits: the state after the copy, before the marker is read. -/
def Unpackager.appended (u : Unpackager) (a : Arrival) : Unpackager :=
  u.advance (u.buffer.put u.unpackagedBuffer_.toNat (parse a).payload) (parse a).payload.length

theorem copyLength_eq {a : Arrival} (ha : WellFormed a) :
    copyLength a = (parse a).payload.length := by
  unfold copyLength
  rw [payload_length, Nat.cast_sub ha.2.2.1]

theorem receive_fits {u : Unpackager} {a : Arrival} {n : Nat} (ha : WellFormed a)
    (hn : u.unpackagedBuffer_ = n)
    (hfit : n + (parse a).payload.length ≤ UNPACKAGED_BUFFER_SIZE) :
    u.receive a = .ok (if (head a).getMarker ≠ 0 then (u.appended a).deliver (head a)
      else (u.appended a, none)) := by
  have hcopy := copy_payload ha u.buffer a.inBuff n (by rw [← payload_length]; exact hfit)
  rw [receive_eq u a ha.1, hn, hcopy, copyLength_eq ha]
  unfold Unpackager.appended
  rw [hn]
  rfl

theorem receive_over {u : Unpackager} {a : Arrival} {n : Nat} (ha : WellFormed a)
    (hn : u.unpackagedBuffer_ = n)
    (hfit : UNPACKAGED_BUFFER_SIZE < n + (parse a).payload.length) :
    u.receive a = .error .write := by
  have hcopy := copy_payload_over ha u.buffer a.inBuff n (by rw [← payload_length]; exact hfit)
  rw [receive_eq u a ha.1, hn, hcopy]
  rfl

/-- The state after a packet that fits. -/
def Depacketizer.next (s : Depacketizer) (k : RtpPacket) : Depacketizer :=
  { s with acc := (collect s.acc k.piece).1
           first := if k.marker then baseAt s.first k else s.first }

theorem depacketize_next {s : Depacketizer} {k : RtpPacket}
    (hfit : s.acc.length + k.payload.length ≤ UNPACKAGED_BUFFER_SIZE) :
    depacketize s k =
      .ok (s.next k, stamp s.sink (s.next k).first k (collect s.acc k.piece).2) := by
  have hc : collectIn UNPACKAGED_BUFFER_SIZE s.acc k.piece = .ok (collect s.acc k.piece) :=
    if_pos hfit
  unfold depacketize
  rw [hc, ok_bind]
  rfl

theorem depacketize_over {s : Depacketizer} {k : RtpPacket}
    (hfit : UNPACKAGED_BUFFER_SIZE < s.acc.length + k.payload.length) :
    depacketize s k = .error .write := by
  have hc : collectIn UNPACKAGED_BUFFER_SIZE s.acc k.piece = .error .write :=
    if_neg (Nat.not_le_of_lt hfit)
  unfold depacketize
  rw [hc]
  rfl

/-- On a well-formed datagram the unpackager and its spec agree. -/
theorem receive_agrees (u : Unpackager) (s : Depacketizer) (a : Arrival) (k : RtpPacket)
    (hR : Tracks u s) (hM : WellFormed a ∧ k = parse a) :
    Agree Tracks (u.receive a) (depacketize s k) := by
  obtain ⟨ha, rfl⟩ := hM
  obtain ⟨hsink, hcursor, hsize, hbytes, hfirst⟩ := hR
  by_cases hfit : s.acc.length + (parse a).payload.length ≤ UNPACKAGED_BUFFER_SIZE
  · rw [receive_fits ha hcursor hfit, depacketize_next hfit]
    have hput : (u.buffer.put s.acc.length (parse a).payload).slice 0
        (s.acc.length + (parse a).payload.length) = s.acc ++ (parse a).payload := by
      have h := slice_put_after u.buffer 0 s.acc.length (parse a).payload
      rwa [Nat.zero_add, hbytes] at h
    by_cases hm : (head a).getMarker ≠ 0
    · have hmark : (parse a).marker = true := by simpa [parse] using hm
      have h0 : ((s.acc.length : Int) + (parse a).payload.length).toNat =
          s.acc.length + (parse a).payload.length := by omega
      simp only [if_pos hm, Unpackager.deliver, Unpackager.appended, Unpackager.advance, hsink,
        hcursor, hsize, hfirst, Int.sub_self, Int.toNat_zero, h0, Int.toNat_natCast, hput,
        Depacketizer.next, collect, RtpPacket.piece, hmark, if_true]
      exact .ok (Tracks.mk rfl rfl rfl rfl rfl)
    · have hmark : (parse a).marker = false := by simpa [parse] using hm
      simp only [if_neg hm, Unpackager.appended, Unpackager.advance, hcursor, Int.toNat_natCast,
        Depacketizer.next, collect, RtpPacket.piece, hmark, Bool.false_eq_true, if_false,
        stamp_none]
      refine .ok ⟨hsink, ?_, ?_, ?_, hfirst⟩
      · simp
      · simp [hsize]
      · simpa using hput
  · rw [receive_over ha hcursor (Nat.lt_of_not_le hfit), depacketize_over (Nat.lt_of_not_le hfit)]
    exact .error _

/-! ## Runs -/

/-- The base of the times of a whole run: the one that stands at its start, or
the time of the first marker. -/
def baseOf (first : Int) : List RtpPacket → Int
  | [] => first
  | k :: ks => baseOf (if k.marker then baseAt first k else first) ks

theorem baseOf_of_ne (first : Int) (ks : List RtpPacket) (h : first ≠ -1) :
    baseOf first ks = first := by
  induction ks with
  | nil => rfl
  | cons k ks ih => simp [baseOf, baseAt, h, ih]

/-- The first marker sets the base for good. -/
theorem baseOf_marked (first : Int) (k : RtpPacket) (ks : List RtpPacket) (h : k.marker = true) :
    baseOf first (k :: ks) = baseAt first k := by
  have hne : baseAt first k ≠ -1 := by
    unfold baseAt
    split <;> omega
  simp only [baseOf, h, if_true]
  exact baseOf_of_ne _ ks hne

/-- What each packet of a run hands over, when nothing is written outside. -/
def handed (s : Depacketizer) (ks : List RtpPacket) : List (Option AVPacket) :=
  List.zipWith (stamp s.sink (baseOf s.first ks)) ks (collectAll s.acc (ks.map RtpPacket.piece)).2

theorem handed_cons (s : Depacketizer) (k : RtpPacket) (ks : List RtpPacket) :
    handed s (k :: ks) =
      stamp s.sink (s.next k).first k (collect s.acc k.piece).2 :: handed (s.next k) ks := by
  cases hm : k.marker
  · simp [handed, baseOf, collectAll, collect, RtpPacket.piece, stamp, Depacketizer.next, hm]
  · have hb := baseOf_marked s.first k ks hm
    simp only [baseOf, hm, if_true] at hb
    simp [handed, baseOf, collectAll, RtpPacket.piece, Depacketizer.next, hm, hb]

/-- A run of the spec: every load fits, or some copy leaves the buffer. -/
theorem run_depacketize (s : Depacketizer) (ks : List RtpPacket) :
    run depacketize s ks =
      if ∀ x ∈ loads s.acc.length (ks.map RtpPacket.piece), x ≤ UNPACKAGED_BUFFER_SIZE then
        .ok ({ s with acc := (collectAll s.acc (ks.map RtpPacket.piece)).1,
                      first := baseOf s.first ks }, handed s ks)
      else .error .write := by
  induction ks generalizing s with
  | nil => simp [run, loads, collectAll, handed, baseOf]
  | cons k ks ih =>
    have hl : loads s.acc.length ((k :: ks).map RtpPacket.piece) =
        (s.acc.length + k.payload.length) ::
          loads (s.next k).acc.length (ks.map RtpPacket.piece) := by
      unfold Depacketizer.next
      rw [collect_length]
      rfl
    simp only [hl, List.forall_mem_cons]
    by_cases hfit : s.acc.length + k.payload.length ≤ UNPACKAGED_BUFFER_SIZE
    · rw [run_cons_ok (depacketize_next hfit), ih, handed_cons]
      simp only [hfit, true_and]
      split <;> rfl
    · simp only [run, depacketize_over (Nat.lt_of_not_le hfit), hfit, false_and, if_false]

/-- A run over well-formed datagrams does what the spec does. -/
theorem run_receive_agrees {u : Unpackager} {s : Depacketizer} (arrivals : List Arrival)
    (hR : Tracks u s) (h : ∀ a ∈ arrivals, WellFormed a) :
    Agree Tracks (run Unpackager.receive u arrivals) (run depacketize s (arrivals.map parse)) := by
  refine run_agree Tracks (fun a k => WellFormed a ∧ k = parse a) receive_agrees ?_ hR
  rw [List.forall₂_map_right_iff, List.forall₂_same]
  intro a ha
  exact ⟨h a ha, rfl⟩

/-- A run over well-formed datagrams whose loads fit: it ends, and it hands
over the payloads between the markers. -/
theorem run_receive {u : Unpackager} {s : Depacketizer} (arrivals : List Arrival)
    (hR : Tracks u s) (h : ∀ a ∈ arrivals, WellFormed a)
    (hfit : ∀ x ∈ loads s.acc.length (arrivals.map (fun a => (parse a).piece)),
      x ≤ UNPACKAGED_BUFFER_SIZE) :
    ∃ u', run Unpackager.receive u arrivals = .ok (u', handed s (arrivals.map parse)) := by
  have hagree := run_receive_agrees arrivals hR h
  rw [run_depacketize, if_pos (by rw [List.map_map]; exact hfit)] at hagree
  obtain ⟨u', hu, -⟩ := hagree.of_ok
  exact ⟨u', hu⟩

/-! ## What a run hands over -/

/-- With a sink, the packets hold what was collected between the markers. -/
theorem handed_data (s : Depacketizer) (ks : List RtpPacket) (h : s.sink = true) :
    (handed s ks).map (Option.map AVPacket.data) =
      (collectAll s.acc (ks.map RtpPacket.piece)).2 := by
  induction ks generalizing s with
  | nil => rfl
  | cons k ks ih =>
    rw [handed_cons, List.map_cons, ih (s.next k) h, List.map_cons, collectAll, stamp, if_pos h]
    rcases (collect s.acc k.piece).2 with _ | data <;> rfl

/-- The RTP timestamps of the markers, in order. -/
def markerTimes (ks : List RtpPacket) : List Nat :=
  (ks.filter RtpPacket.marker).map RtpPacket.timestamp

theorem markerTimes_append (ks ls : List RtpPacket) :
    markerTimes (ks ++ ls) = markerTimes ks ++ markerTimes ls := by
  simp [markerTimes]

/-- A complete frame has one marker, with the time of the frame. -/
theorem markerTimes_complete {ks : List RtpPacket} {t : Nat}
    (h : Complete (ks.map RtpPacket.piece)) (ht : ∀ k ∈ ks, k.timestamp = t) :
    markerTimes ks = [t] := by
  obtain ⟨us, m, hps, hus, hm⟩ := h
  obtain ⟨ls, bs, rfl, rfl, hb⟩ := List.map_eq_append_iff.mp hps
  obtain ⟨b, rfl, rfl⟩ := List.map_eq_singleton_iff.mp hb
  have hnone : ls.filter RtpPacket.marker = [] := by
    rw [List.filter_eq_nil_iff]
    intro k hk
    rw [← piece_last, hus _ (List.mem_map_of_mem hk)]
    decide
  rw [piece_last] at hm
  rw [markerTimes_append]
  simp [markerTimes, hnone, hm, ht b (by simp)]

/-- The first marker of a stream sets the base of all the times. -/
theorem baseOf_markerTimes (ks : List RtpPacket) (t : Nat) (ts : List Nat)
    (h : markerTimes ks = t :: ts) : baseOf (-1) ks = t := by
  induction ks with
  | nil => cases h
  | cons k ks ih =>
    cases hm : k.marker
    · simp only [markerTimes, List.filter_cons, hm] at h
      simp only [baseOf, hm, Bool.false_eq_true, if_false]
      exact ih h
    · simp only [markerTimes, List.filter_cons, hm, if_true, List.map_cons, List.cons.injEq] at h
      rw [baseOf_marked _ _ _ hm, baseAt, if_pos rfl, h.1]

theorem delivered_stamp (base : Int) (acc : List UInt8) (ks : List RtpPacket) :
    (delivered (List.zipWith (stamp true base) ks
      (collectAll acc (ks.map RtpPacket.piece)).2)).map AVPacket.dts =
      (markerTimes ks).map (fun t : Nat => BitVec.ofInt 64 ((t - base).tdiv 90)) := by
  induction ks generalizing acc with
  | nil => rfl
  | cons k ks ih =>
    cases hm : k.marker <;>
      simpa [collectAll, collect, RtpPacket.piece, stamp, markerTimes, hm] using ih _

/-- A difference of two RTP timestamps fits the decode time. -/
theorem toInt_dts (t base : Nat) (h1 : t < 2 ^ 32) (h2 : base < 2 ^ 32) :
    (BitVec.ofInt 64 (((t : Int) - base).tdiv 90)).toInt = ((t : Int) - base).tdiv 90 := by
  have h3 := Int.natAbs_tdiv_le_natAbs ((t : Int) - base) 90
  rw [BitVec.toInt_ofInt]
  exact Int.bmod_eq_of_le (by omega) (by omega)

/-- The decode times of a stream from a fresh start: each is the time since
the first marker, in ms, rounded toward zero. -/
theorem delivered_times (ks : List RtpPacket) (h : ∀ k ∈ ks, k.timestamp < 2 ^ 32) :
    (delivered (handed { sink := true, acc := [], first := -1 } ks)).map (fun p => p.dts.toInt) =
      (markerTimes ks).map (fun t : Nat => ((t : Int) - (markerTimes ks).headD 0).tdiv 90) := by
  have hlt : ∀ t ∈ markerTimes ks, t < 2 ^ 32 := by
    intro t ht
    simp only [markerTimes, List.mem_map, List.mem_filter] at ht
    obtain ⟨k, ⟨hk, -⟩, rfl⟩ := ht
    exact h k hk
  have hd := delivered_stamp (baseOf (-1) ks) [] ks
  rw [← Function.comp_def BitVec.toInt AVPacket.dts, ← List.map_map]
  unfold handed
  rw [hd, List.map_map]
  rcases hks : markerTimes ks with _ | ⟨t0, ts⟩
  · rfl
  · rw [baseOf_markerTimes ks t0 ts hks]
    apply List.map_congr_left
    intro t ht
    exact toInt_dts t t0 (hlt t (hks ▸ ht)) (hlt t0 (hks ▸ List.mem_cons_self))

end payloader.unpackager
