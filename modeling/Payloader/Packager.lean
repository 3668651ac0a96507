-- The packager of Packager.cpp: each video frame leaves as RTP datagrams, one
-- for each fragment, and the last one has the marker. The spec of a call is
-- `frameDatagrams`, a pure function of the frame and of the counter.
import Payloader.Interfaces
import Payloader.RtpFragmenter
import Payloader.RtpHeaders

set_option autoImplicit false

namespace payloader.packager

open payloader.memory payloader.machines payloader.framing payloader.byte_order
open payloader.rtp_headers payloader.rtp_fragmenter payloader.interfaces

def PACKAGED_BUFFER_SIZE : Nat := 2000

/-- `sink_` says whether the pointer is set. -/
structure Packager where
  sink_ : Bool
  videoSeqNum_ : BitVec 32
  outBuff_ : Block PACKAGED_BUFFER_SIZE UInt8
  rtpBuffer_ : Block PACKAGED_BUFFER_SIZE UInt8

/-- The constructor and `init`. The two buffers hold what `malloc` left there. -/
def Packager.init (outBuff_ rtpBuffer_ : Block PACKAGED_BUFFER_SIZE UInt8) : Packager :=
  { sink_ := false, videoSeqNum_ := 0, outBuff_, rtpBuffer_ }

def Packager.setSink (p : Packager) (receiver : Bool) : Packager := { p with sink_ := receiver }

/-- FFmpeg, of which the packager calls `av_rescale` alone: `a * b / c`, rounded.
From milliseconds to the 90 kHz of RTP there is nothing to round. -/
class FFmpeg where
  av_rescale : Int → Int → Int → Int
  av_rescale_ms (a : Int) : av_rescale a 90000 1000 = 90 * a

export FFmpeg (av_rescale av_rescale_ms)

/-- One that rounds every quotient down. The fixed inputs below run with it. -/
instance (priority := low) FFmpeg.floor : FFmpeg where
  av_rescale a b c := a * b / c
  av_rescale_ms a := by omega

/-- The header of one datagram. A decode time of 0 stands for none: the time
is then the wall clock. -/
def rtpHeader [FFmpeg] (lastFrame : Bool) (videoSeqNum_ dts : BitVec 32) (millis : BitVec 64) :
    RtpHeader :=
  let rtpHeader := RtpHeader.init.setMarker (if lastFrame then 1 else 0)
  let rtpHeader := rtpHeader.setSeqNumber (videoSeqNum_.setWidth 16)
  let rtpHeader :=
    if dts = 0 then rtpHeader.setTimestamp (BitVec.ofInt 32 (av_rescale millis.toInt 90000 1000))
    else rtpHeader.setTimestamp (BitVec.ofInt 32 (av_rescale dts.toInt 90000 1000))
  (rtpHeader.setSSRC 55543).setPayloadType 96

/-- The locals of the loop, and the datagrams that the sink got. -/
structure Turn where
  frag : RtpFragmenter
  lastFrame : Bool
  p : Packager
  sent : List (List UInt8)

/-- One turn of the loop. It stops at the flag of the last fragment. -/
def turn [FFmpeg] (dts : BitVec 32) (millis : BitVec 64) (s : Turn) :
    Except Fault (Turn × Bool) := do
  let d ← s.frag.getPacket s.p.outBuff_ 0 s.lastFrame
  let rtpHeader := rtpHeader d.lastPacket s.p.videoSeqNum_ dts millis
  let object : Block 16 UInt8 := Block.ofList rtpHeader.image 0
  let rtpBuffer_ ← s.p.rtpBuffer_.memcpy 0 object 0 rtpHeader.getHeaderLength
  let rtpBuffer_ ← rtpBuffer_.memcpy rtpHeader.getHeaderLength d.data 0 d.length
  let l := d.length + rtpHeader.getHeaderLength
  let p := { s.p with videoSeqNum_ := s.p.videoSeqNum_ + 1, outBuff_ := d.data, rtpBuffer_ }
  let sent := if p.sink_ then s.sent ++ [rtpBuffer_.slice 0 l] else s.sent
  .ok ({ frag := d.frag, lastFrame := d.lastPacket, p, sent }, d.lastPacket)

/-- A packet comes in at wall clock `millis`. Gives the datagrams that went
to the sink, or `running` when the loop does not end within the fuel. -/
def Packager.receivePacket [FFmpeg] (fuel : Nat) (p : Packager) (packet : AVPacket)
    (type : AVMediaType) (millis : BitVec 64) : Except Fault (Packager × List (List UInt8)) :=
  match type with
  | .AVMEDIA_TYPE_VIDEO => do
    let data : Block packet.data.length UInt8 := Block.ofList packet.data 0
    let dts : BitVec 32 := packet.dts.setWidth 32
    let start : Turn := { frag := RtpFragmenter.init data, lastFrame := false, p, sent := [] }
    let s ← doWhile (turn dts millis) fuel start
    .ok (s.p, s.sent)
  | _ => .ok (p, [])

/-! ## The spec of one call -/

/-- The RTP timestamp of a frame. -/
def timestampOf (dts : BitVec 32) (millis : BitVec 64) : BitVec 32 :=
  if dts = 0 then BitVec.ofInt 32 (90 * millis.toInt) else BitVec.ofInt 32 (90 * dts.toInt)

/-- The members of the header of one datagram. -/
def headerFor (lastFrame : Bool) (seq dts : BitVec 32) (millis : BitVec 64) : RtpHeader :=
  { RtpHeader.init with
    marker := if lastFrame then 1 else 0
    seqnum := htons (seq.setWidth 16)
    timestamp := htonl (timestampOf dts millis)
    ssrc := htonl 55543
    payloadtype := 96 }

/-- The bytes of one datagram. -/
def datagram (lastFrame : Bool) (seq dts : BitVec 32) (millis : BitVec 64)
    (payload : List UInt8) : List UInt8 :=
  (headerFor lastFrame seq dts millis).image.take 12 ++ payload

/-- The `i`-th datagram of a frame, when the counter stands at `seq`. -/
def datagramAt (seq dts : BitVec 32) (millis : BitVec 64) (data : List UInt8) (i : Nat) :
    List UInt8 :=
  datagram (i + 1 == pieceCount 1099 data.length) (seq + BitVec.ofNat 32 i) dts millis
    (piece 1099 data i)

def frameDatagrams (seq dts : BitVec 32) (millis : BitVec 64) (data : List UInt8) :
    List (List UInt8) :=
  (List.range (pieceCount 1099 data.length)).map (datagramAt seq dts millis data)

theorem rtpHeader_eq [FFmpeg] (b : Bool) (seq dts : BitVec 32) (millis : BitVec 64) :
    rtpHeader b seq dts millis = headerFor b seq dts millis := by
  unfold rtpHeader headerFor timestampOf
  simp only [av_rescale_ms]
  by_cases hd : dts = 0
  · cases b <;> simp only [hd, if_true] <;> rfl
  · cases b <;> simp only [hd, if_false] <;> rfl

@[simp] theorem getHeaderLength_headerFor (b : Bool) (seq dts : BitVec 32) (millis : BitVec 64) :
    (headerFor b seq dts millis).getHeaderLength = 12 :=
  RtpHeader.getHeaderLength_fixed _ rfl rfl

/-- What RFC 3550 reads in the header of one datagram. -/
theorem fixed_headerFor (b : Bool) (seq dts : BitVec 32) (millis : BitVec 64) :
    (headerFor b seq dts millis).fixed =
      { version := 2, padding := 0, extension := 0, csrcCount := 0
        marker := if b then 1 else 0
        payloadType := 96
        sequenceNumber := seq.toNat % 2 ^ 16
        timestamp := (timestampOf dts millis).toNat
        ssrc := 55543 } := by
  simp only [headerFor, RtpHeader.fixed, ntohs_htons, ntohl_htonl, BitVec.toNat_setWidth]
  cases b <;> rfl

/-! ## One turn of the loop -/

theorem slice_fragmentAt (data : List UInt8) (i : Nat) (h : i * 1099 < data.length) :
    (Block.ofList data 0 : Block data.length UInt8).slice (fragmentAt data.length i).position
      (fragmentAt data.length i).size = piece 1099 data i := by
  unfold fragmentAt piece
  simp only
  rw [slice_ofList _ _ _ _ (by omega)]
  have hl : (data.drop (i * 1099)).length = data.length - i * 1099 := List.length_drop
  rcases Nat.le_total 1099 (data.length - i * 1099) with h1 | h1
  · rw [Nat.min_eq_left h1]
  · rw [Nat.min_eq_right h1, List.take_of_length_le (by omega), List.take_of_length_le (by omega)]

/-- The header goes to the start of the buffer, and the payload right after
it: both copies fit, and the buffer starts with the two. -/
theorem write_datagram (rtp out : Block PACKAGED_BUFFER_SIZE UInt8) (header : RtpHeader)
    (payload : List UInt8) (hlen : payload.length ≤ 1099)
    (hout : out.slice 0 payload.length = payload) :
    ∃ rtp1 rtp2, rtp.memcpy 0 (Block.ofList header.image 0 : Block 16 UInt8) 0 (12 : Nat) =
        .ok rtp1 ∧
      rtp1.memcpy (12 : Nat) out 0 payload.length = .ok rtp2 ∧
      rtp2.slice 0 (payload.length + 12) = header.image.take 12 ++ payload := by
  have hsize : PACKAGED_BUFFER_SIZE = 2000 := rfl
  have h1 := memcpy_ok rtp (Block.ofList header.image 0 : Block 16 UInt8)
    (p := 0) (q := 0) (n := 12) (by decide) (by decide) (by decide)
  rw [slice_ofList _ _ _ _ (by simp), List.drop_zero] at h1
  have h2 := memcpy_ok (rtp.put 0 (header.image.take 12)) out
    (p := 12) (q := 0) (n := payload.length) (by omega) (by omega) (by omega)
  rw [hout] at h2
  refine ⟨_, _, h1, h2, ?_⟩
  have h3 := slice_put_after (rtp.put 0 (header.image.take 12)) 0 12 payload
  rw [Nat.zero_add, Nat.add_comm] at h3
  rw [h3]
  exact congrArg (· ++ payload) (slice_put_self rtp 0 (header.image.take 12))

/-- One turn with fragment `i` at the head of the queue sends its datagram. -/
theorem turn_fragment [FFmpeg] (dts : BitVec 32) (millis : BitVec 64) (data : List UInt8) (i : Nat)
    (rest : List Fragment) (p : Packager) (sent : List (List UInt8))
    (hi : i < pieceCount 1099 data.length) :
    ∃ out rtp, turn dts millis
      { frag := { totalLenth_ := data.length, totalData_ := Block.ofList data 0,
                  fragmentQueue_ := fragmentAt data.length i :: rest }
        lastFrame := false, p, sent } =
      .ok ({ frag := { totalLenth_ := data.length, totalData_ := Block.ofList data 0,
                       fragmentQueue_ := rest }
             lastFrame := rest.isEmpty
             p := { p with videoSeqNum_ := p.videoSeqNum_ + 1, outBuff_ := out, rtpBuffer_ := rtp }
             sent := if p.sink_ then sent ++ [datagram rest.isEmpty p.videoSeqNum_ dts millis
               (piece 1099 data i)] else sent }, rest.isEmpty) := by
  have hin := (lt_pieceCount_iff (by decide)).mp hi
  have hsize : (fragmentAt data.length i).size ≤ 1099 := Nat.min_le_left _ _
  have hend : (fragmentAt data.length i).position + (fragmentAt data.length i).size ≤
      data.length := by
    unfold fragmentAt
    simp only
    omega
  have hpop := getPacket_pop
    { totalLenth_ := data.length, totalData_ := Block.ofList data 0,
      fragmentQueue_ := fragmentAt data.length i :: rest }
    p.outBuff_ 0 _ rest rfl hend (by unfold PACKAGED_BUFFER_SIZE; omega) (by omega)
  have hlen : (fragmentAt data.length i).size = (piece 1099 data i).length := by
    rw [piece_length]
    rfl
  simp only [slice_fragmentAt data i hin] at hpop
  rw [hlen] at hpop hsize
  obtain ⟨rtp1, rtp2, h1, h2, h3⟩ := write_datagram p.rtpBuffer_
    (p.outBuff_.put 0 (piece 1099 data i)) (headerFor rest.isEmpty p.videoSeqNum_ dts millis)
    (piece 1099 data i) hsize (slice_put_self _ _ _)
  refine ⟨p.outBuff_.put 0 (piece 1099 data i), rtp2, ?_⟩
  simp only [turn, hpop, ok_bind, rtpHeader_eq, getHeaderLength_headerFor, h1, h2, h3, datagram]

/-- One turn with an empty queue sends a header with no payload, and the loop
goes on. -/
theorem turn_empty [FFmpeg] (dts : BitVec 32) (millis : BitVec 64) (s : Turn)
    (h1 : s.frag.fragmentQueue_ = []) (h2 : s.lastFrame = false) :
    ∃ s', turn dts millis s = .ok (s', false) ∧ s'.frag.fragmentQueue_ = [] ∧
      s'.lastFrame = false := by
  have hpop := getPacket_empty s.frag s.p.outBuff_ 0 false h1
  obtain ⟨rtp1, rtp2, hc1, hc2, -⟩ := write_datagram s.p.rtpBuffer_ s.p.outBuff_
    (headerFor false s.p.videoSeqNum_ dts millis) [] (by simp) rfl
  simp only [List.length_nil] at hc2
  simp only [turn, h2, hpop, ok_bind, rtpHeader_eq, getHeaderLength_headerFor, hc1, hc2]
  exact ⟨_, rfl, h1, rfl⟩

/-! ## The whole loop -/

theorem ofNat_succ (seq : BitVec 32) (i : Nat) :
    seq + BitVec.ofNat 32 i + 1 = seq + BitVec.ofNat 32 (i + 1) := by
  rw [BitVec.ofNat_add, BitVec.add_assoc]
  rfl

/-- The loop from fragment `i` on sends the datagrams from `i` on and stops. -/
theorem doWhile_turn_from [FFmpeg] (seq dts : BitVec 32) (millis : BitVec 64) (data : List UInt8)
    (m i : Nat) (hm : i + (m + 1) = pieceCount 1099 data.length) (fuel : Nat) (hf : m < fuel)
    (p : Packager) (hp : p.videoSeqNum_ = seq + BitVec.ofNat 32 i) (sent : List (List UInt8)) :
    ∃ s, doWhile (turn dts millis) fuel
      { frag := { totalLenth_ := data.length, totalData_ := Block.ofList data 0,
                  fragmentQueue_ := (List.range' i (m + 1)).map (fragmentAt data.length) }
        lastFrame := false, p, sent } = .ok s ∧
      s.p.sink_ = p.sink_ ∧ s.p.videoSeqNum_ = seq + BitVec.ofNat 32 (i + (m + 1)) ∧
      s.sent = if p.sink_ then
        sent ++ (List.range' i (m + 1)).map (datagramAt seq dts millis data) else sent := by
  induction m generalizing i fuel p sent with
  | zero =>
    obtain ⟨fuel, rfl⟩ : ∃ n, fuel = n + 1 := ⟨fuel - 1, by omega⟩
    obtain ⟨out, rtp, h⟩ := turn_fragment dts millis data i [] p sent (by omega)
    refine ⟨_, doWhile_stop fuel h, rfl, ?_, ?_⟩
    · simp only [hp, ofNat_succ, Nat.zero_add]
    · simp [datagramAt, ← hm, hp]
  | succ m ih =>
    obtain ⟨fuel, rfl⟩ : ∃ n, fuel = n + 1 := ⟨fuel - 1, by omega⟩
    obtain ⟨out, rtp, h⟩ := turn_fragment dts millis data i
      ((List.range' (i + 1) (m + 1)).map (fragmentAt data.length)) p sent (by omega)
    have hlast : (i + 1 == pieceCount 1099 data.length) = false := by
      rw [beq_eq_false_iff_ne]
      omega
    have hdatagram : datagram false p.videoSeqNum_ dts millis (piece 1099 data i) =
        datagramAt seq dts millis data i := by
      rw [datagramAt, hlast, hp]
    obtain ⟨s, hs, h1, h2, h3⟩ := ih (i + 1) (by omega) fuel (by omega)
      { p with videoSeqNum_ := p.videoSeqNum_ + 1, outBuff_ := out, rtpBuffer_ := rtp }
      (by rw [hp, ofNat_succ])
      (if p.sink_ then sent ++ [datagramAt seq dts millis data i] else sent)
    refine ⟨s, ?_, h1, ?_, ?_⟩
    · rw [List.range'_succ, List.map_cons, doWhile_turn fuel h, ← hs, ← hdatagram]
      rfl
    · rw [h2]
      congr 2
      omega
    · rw [h3]
      split <;> simp [List.range'_succ]

/-- A video packet with bytes in it: the call returns, and the sink gets the
datagrams of the frame. -/
theorem receivePacket_video [FFmpeg] (fuel : Nat) (p : Packager) (packet : AVPacket)
    (millis : BitVec 64) (h0 : 0 < packet.data.length) (h1 : packet.data.length < 2 ^ 31)
    (hf : pieceCount 1099 packet.data.length ≤ fuel) :
    ∃ p', p.receivePacket fuel packet .AVMEDIA_TYPE_VIDEO millis =
        .ok (p', if p.sink_ then
          frameDatagrams p.videoSeqNum_ (packet.dts.setWidth 32) millis packet.data else []) ∧
      p'.sink_ = p.sink_ ∧
      p'.videoSeqNum_ = p.videoSeqNum_ + BitVec.ofNat 32 (pieceCount 1099 packet.data.length) := by
  obtain ⟨m, hm⟩ : ∃ m, pieceCount 1099 packet.data.length = m + 1 :=
    ⟨_, (Nat.succ_pred_eq_of_pos ((pieceCount_pos (by decide)).mpr h0)).symm⟩
  obtain ⟨s, hs, hsink, hseq, hsent⟩ := doWhile_turn_from p.videoSeqNum_ (packet.dts.setWidth 32)
    millis packet.data m 0 (by omega) fuel (by omega) p (by simp) []
  refine ⟨s.p, ?_, hsink, ?_⟩
  · simp only [Packager.receivePacket, RtpFragmenter.init,
      calculatePackets_eq _ (by omega : packet.data.length < 2 ^ 32), hm, List.range_eq_range', hs,
      ok_bind, hsent, frameDatagrams, List.nil_append]
  · rw [hseq, hm, Nat.zero_add]

/-- A video packet with no bytes: the loop never ends. -/
theorem receivePacket_empty [FFmpeg] (fuel : Nat) (p : Packager) (packet : AVPacket)
    (millis : BitVec 64) (h : packet.data = []) :
    p.receivePacket fuel packet .AVMEDIA_TYPE_VIDEO millis = .error .running := by
  have hq : RtpFragmenter.calculatePackets packet.data.length 0 = [] := by
    simp [h, RtpFragmenter.calculatePackets]
  have hloop := fun s => doWhile_never (turn (packet.dts.setWidth 32) millis)
    (fun s => s.frag.fragmentQueue_ = [] ∧ s.lastFrame = false)
    (fun s hs => turn_empty _ _ s hs.1 hs.2) fuel (s := s)
  simp only [Packager.receivePacket, RtpFragmenter.init, hq]
  rw [hloop _ ⟨rfl, rfl⟩]
  rfl

end payloader.packager
