-- Where the bytes of a packet come from. Next to the buffer of the unpackager
-- lies a second block, and each copy into the buffer is also made there, with
-- the RTP timestamp of the datagram in place of each byte. The second block
-- changes nothing: without it the run is the run of the unpackager.
import Payloader.Unpackager

set_option autoImplicit false

namespace payloader.origins

open payloader.memory payloader.machines payloader.framing payloader.rtp_headers
open payloader.interfaces payloader.unpackager

/-- The unpackager, and the origin of each byte of its buffer. -/
structure Traced where
  u : Unpackager
  origin : Block UNPACKAGED_BUFFER_SIZE Nat

/-- A buffer with the timestamp of its datagram at each address. -/
def timestamps (a : Arrival) : Block a.size Nat :=
  { cell := fun _ => (head a).getTimestamp.toNat }

/-- The call, and the same copy into the second block. A packet that goes to
the sink goes with the origins of its bytes. -/
def Traced.receive (s : Traced) (a : Arrival) :
    Except Fault (Traced × Option (AVPacket × List Nat)) := do
  let r ← s.u.receive a
  let origin ← s.origin.memcpy s.u.unpackagedBuffer_ (timestamps a) (head a).getHeaderLength
    (copyLength a)
  .ok ({ u := r.1, origin },
    r.2.map (fun pkt => (pkt, origin.slice r.1.unpackagedBuffer_.toNat pkt.data.length)))

/-- The payload of a packet, with its timestamp in place of each byte. -/
def originPiece (k : RtpPacket) : Piece Nat :=
  { payload := List.replicate k.payload.length k.timestamp, last := k.marker }

/-- The second block starts with the origins of the bytes so far. -/
structure Follows (s : Traced) (d : Depacketizer) (acc : List Nat) : Prop where
  tracks : Tracks s.u d
  sink : d.sink = true
  length : acc.length = d.acc.length
  origin : s.origin.slice 0 acc.length = acc

theorem timestamps_slice (a : Arrival) (off n : Nat) :
    (timestamps a).slice off n = List.replicate n (parse a).timestamp := by
  simp [Block.slice, timestamps, parse]

/-- One datagram that fits: the packet that goes out and the origins that go
with it are those of the two specs. -/
theorem receive_follows {s : Traced} {d : Depacketizer} {acc : List Nat} {a : Arrival}
    (h : Follows s d acc) (ha : WellFormed a)
    (hfit : d.acc.length + (parse a).payload.length ≤ UNPACKAGED_BUFFER_SIZE) :
    ∃ s' out, s.receive a = .ok (s', out) ∧
      s.u.receive a = .ok (s'.u, out.map Prod.fst) ∧
      out.map Prod.snd = (collect acc (originPiece (parse a))).2 ∧
      Follows s' (d.next (parse a)) (collect acc (originPiece (parse a))).1 := by
  obtain ⟨htracks, hsink, hlen, horigin⟩ := h
  have hagree := receive_agrees s.u d a (parse a) htracks ⟨ha, rfl⟩
  rw [depacketize_next hfit] at hagree
  obtain ⟨u', hu, htracks'⟩ := hagree.of_ok
  have hcopy := copy_payload ha s.origin (timestamps a) acc.length
    (by rw [hlen, ← payload_length]; exact hfit)
  rw [timestamps_slice, ← payload_length] at hcopy
  have hput : (s.origin.put acc.length
      (List.replicate (parse a).payload.length (parse a).timestamp)).slice 0
      (acc.length + (parse a).payload.length) =
      acc ++ List.replicate (parse a).payload.length (parse a).timestamp := by
    have hafter := slice_put_after s.origin 0 acc.length
      (List.replicate (parse a).payload.length (parse a).timestamp)
    rwa [Nat.zero_add, horigin, List.length_replicate] at hafter
  unfold Traced.receive
  rw [hu, ok_bind, htracks.cursor, ← hlen, hcopy, ok_bind]
  refine ⟨_, _, rfl, ?_, ?_, ?_⟩
  · rw [Option.map_map]
    exact congrArg Except.ok (by simp [Function.comp_def])
  · cases hm : (parse a).marker
    · simp [collect, originPiece, RtpPacket.piece, hm, stamp_none]
    · have hcursor : u'.unpackagedBuffer_ = 0 := by
        rw [htracks'.cursor]
        simp [Depacketizer.next, collect, RtpPacket.piece, hm]
      simp [collect, originPiece, RtpPacket.piece, hm, stamp, hsink, hcursor, ← hlen, hput]
  · refine ⟨htracks', hsink, ?_, ?_⟩
    · cases hm : (parse a).marker <;>
        simp [collect, originPiece, Depacketizer.next, RtpPacket.piece, hm, hlen]
    · cases hm : (parse a).marker
      · simpa [collect, originPiece, hm] using hput
      · simp [collect, originPiece, hm]

/-- A run over well-formed datagrams whose loads fit: it is the run of the
unpackager, and the origins are collected as the bytes are. -/
theorem run_follows {s : Traced} {d : Depacketizer} {acc : List Nat} (arrivals : List Arrival)
    (h : Follows s d acc) (ha : ∀ a ∈ arrivals, WellFormed a)
    (hfit : ∀ x ∈ loads d.acc.length (arrivals.map (fun a => (parse a).piece)),
      x ≤ UNPACKAGED_BUFFER_SIZE) :
    ∃ s' outs, run Traced.receive s arrivals = .ok (s', outs) ∧
      run Unpackager.receive s.u arrivals = .ok (s'.u, outs.map (Option.map Prod.fst)) ∧
      outs.map (Option.map Prod.snd) =
        (collectAll acc (arrivals.map (fun a => originPiece (parse a)))).2 := by
  induction arrivals generalizing s d acc with
  | nil => exact ⟨s, [], rfl, rfl, rfl⟩
  | cons a as ih =>
    rw [List.forall_mem_cons] at ha
    rw [List.map_cons, loads, List.forall_mem_cons, piece_payload, ← piece_payload,
      ← collect_length] at hfit
    obtain ⟨s1, out, hs, hu, hout, hnext⟩ := receive_follows h ha.1 hfit.1
    obtain ⟨s', outs, hs', hu', houts⟩ := ih hnext ha.2 hfit.2
    refine ⟨s', out :: outs, ?_, ?_, ?_⟩
    · rw [run_cons_ok hs, hs']
      rfl
    · rw [run_cons_ok hu, hu']
      rfl
    · rw [List.map_cons, hout, houts]
      rfl

end payloader.origins
