-- The laws of the packager. A call with a video packet either sends its
-- datagrams and returns, or it never returns, and only the size of the packet
-- decides which. Over a run the datagrams are numbered by one counter.
import Payloader.Packager
import Mathlib.Algebra.Order.BigOperators.Group.List
import Mathlib.Data.List.GetD

set_option autoImplicit false

namespace payloader.packager_laws

open payloader.memory payloader.machines payloader.framing payloader.byte_order
open payloader.rtp_headers payloader.interfaces payloader.packager

/-! ## What the bytes of a datagram say -/

/-- The RTP header of a datagram, as RFC 3550 reads it. -/
def headerOf (d : List UInt8) : FixedHeader := readFixedHeader (fun i => d.getD i 0)

@[simp] theorem datagram_length (b : Bool) (seq dts : BitVec 32) (millis : BitVec 64)
    (payload : List UInt8) : (datagram b seq dts millis payload).length = 12 + payload.length := by
  simp [datagram]

theorem datagram_drop (b : Bool) (seq dts : BitVec 32) (millis : BitVec 64)
    (payload : List UInt8) : (datagram b seq dts millis payload).drop 12 = payload := by
  unfold datagram
  rw [List.drop_append_of_le_length (by simp), List.drop_eq_nil_of_le (by simp), List.nil_append]

/-- Memory that starts with a datagram starts with the bytes of its header. -/
theorem datagram_header_bytes {m : Nat → UInt8} {b : Bool} {seq dts : BitVec 32}
    {millis : BitVec 64} {payload : List UInt8}
    (hm : ∀ i < 12, m i = (datagram b seq dts millis payload).getD i 0) :
    ∀ i < 12, m i = (headerFor b seq dts millis).image.getD i 0 := by
  intro i hi
  have hlen : ((headerFor b seq dts millis).image.take 12).length = 12 := by simp
  rw [hm i hi, datagram, List.getD_append _ _ _ _ (by omega), List.getD_eq_getElem?_getD,
    List.getD_eq_getElem?_getD, List.getElem?_take_of_lt hi]

theorem headerOf_datagram (b : Bool) (seq dts : BitVec 32) (millis : BitVec 64)
    (payload : List UInt8) :
    headerOf (datagram b seq dts millis payload) =
      { version := 2, padding := 0, extension := 0, csrcCount := 0
        marker := if b then 1 else 0
        payloadType := 96
        sequenceNumber := seq.toNat % 2 ^ 16
        timestamp := (timestampOf dts millis).toNat
        ssrc := 55543 } := by
  obtain ⟨p, l, h⟩ := RtpHeader.ofBytes_image
    (m := fun i => (datagram b seq dts millis payload).getD i 0)
    (datagram_header_bytes (fun i _ => rfl))
  rw [headerOf, ← fixed_ofBytes, h, ← fixed_headerFor]
  rfl

/-! ## Runs -/

/-- One call of `receivePacket`. -/
structure Call where
  packet : AVPacket
  type : AVMediaType
  millis : BitVec 64
  deriving DecidableEq, Repr

/-- The low 32 bits of the decode time, as `receivePacket` keeps it. -/
def Call.dts (c : Call) : BitVec 32 := c.packet.dts.setWidth 32

/-- How many fragments the packet is cut into. -/
def Call.count (c : Call) : Nat := pieceCount 1099 c.packet.data.length

def call [FFmpeg] (fuel : Nat) (p : Packager) (c : Call) :
    Except Fault (Packager × List (List UInt8)) :=
  p.receivePacket fuel c.packet c.type c.millis

/-- The run ends, and each call sends the datagrams in `sent`. From some fuel
on, more fuel changes nothing. -/
def Sends [FFmpeg] (p : Packager) (calls : List Call) (sent : List (List (List UInt8))) :
    Prop :=
  ∃ n, ∀ fuel ≥ n, ∃ p', run (call fuel) p calls = .ok (p', sent)

/-- A video packet has at least one byte, and an `int` can hold its size. -/
def Call.Full (c : Call) : Prop :=
  c.type = .AVMEDIA_TYPE_VIDEO → 0 < c.packet.data.length ∧ c.packet.data.length < 2 ^ 31

/-- What each call sends, when the counter starts at `seq`. -/
def sentBy : BitVec 32 → List Call → List (List (List UInt8))
  | _, [] => []
  | seq, c :: cs =>
    if c.type = .AVMEDIA_TYPE_VIDEO then
      frameDatagrams seq c.dts c.millis c.packet.data :: sentBy (seq + BitVec.ofNat 32 c.count) cs
    else [] :: sentBy seq cs

theorem call_video [FFmpeg] {fuel : Nat} {p : Packager} {c : Call} (hsink : p.sink_ = true)
    (hv : c.type = .AVMEDIA_TYPE_VIDEO) (h : c.Full) (hf : c.count ≤ fuel) :
    ∃ p', call fuel p c = .ok (p', frameDatagrams p.videoSeqNum_ c.dts c.millis c.packet.data) ∧
      p'.sink_ = true ∧ p'.videoSeqNum_ = p.videoSeqNum_ + BitVec.ofNat 32 c.count := by
  obtain ⟨h0, h1⟩ := h hv
  obtain ⟨p', hp, hs, hn⟩ := receivePacket_video fuel p c.packet c.millis h0 h1 hf
  refine ⟨p', ?_, hs.trans hsink, hn⟩
  rw [call, hv, hp, hsink]
  rfl

theorem call_other [FFmpeg] {fuel : Nat} {p : Packager} {c : Call}
    (hv : c.type ≠ .AVMEDIA_TYPE_VIDEO) :
    call fuel p c = .ok (p, []) := by
  unfold call Packager.receivePacket
  split
  · contradiction
  · rfl

/-- With enough fuel a run sends what `sentBy` says. -/
theorem run_call [FFmpeg] (fuel : Nat) (calls : List Call) (p : Packager)
    (hsink : p.sink_ = true) (h : ∀ c ∈ calls, c.Full) (hf : ∀ c ∈ calls, c.count ≤ fuel) :
    ∃ p', run (call fuel) p calls = .ok (p', sentBy p.videoSeqNum_ calls) := by
  induction calls generalizing p with
  | nil => exact ⟨p, rfl⟩
  | cons c cs ih =>
    rw [List.forall_mem_cons] at h hf
    by_cases hv : c.type = .AVMEDIA_TYPE_VIDEO
    · obtain ⟨p1, h1, hs, hn⟩ := call_video hsink hv h.1 hf.1
      obtain ⟨p', h2⟩ := ih p1 hs h.2 hf.2
      refine ⟨p', ?_⟩
      rw [run_cons_ok h1, h2, sentBy, if_pos hv, hn]
      rfl
    · obtain ⟨p', h2⟩ := ih p hsink h.2 hf.2
      refine ⟨p', ?_⟩
      rw [run_cons_ok (call_other hv), h2, sentBy, if_neg hv]
      rfl

/-- A run over full packets ends, in every state with a sink. -/
theorem sends_sentBy [FFmpeg] (p : Packager) (calls : List Call) (hsink : p.sink_ = true)
    (h : ∀ c ∈ calls, c.Full) : Sends p calls (sentBy p.videoSeqNum_ calls) := by
  refine ⟨(calls.map Call.count).sum, fun fuel hfuel => run_call fuel calls p hsink h ?_⟩
  intro c hc
  exact (List.le_sum_of_mem (List.mem_map_of_mem hc)).trans hfuel

theorem Sends.unique [FFmpeg] {p : Packager} {calls : List Call}
    {sent sent' : List (List (List UInt8))} (h : Sends p calls sent) (h' : Sends p calls sent') :
    sent = sent' := by
  obtain ⟨n, hn⟩ := h
  obtain ⟨n', hn'⟩ := h'
  obtain ⟨p1, h1⟩ := hn (max n n') (Nat.le_max_left _ _)
  obtain ⟨p2, h2⟩ := hn' (max n n') (Nat.le_max_right _ _)
  rw [h1] at h2
  cases h2
  rfl

/-- The datagrams of one video packet. -/
theorem frameDatagrams_getElem? (seq dts : BitVec 32) (millis : BitVec 64) (data : List UInt8)
    (i : Nat) :
    (frameDatagrams seq dts millis data)[i]? =
      if i < pieceCount 1099 data.length then some (datagramAt seq dts millis data i)
      else none := by
  unfold frameDatagrams
  rw [List.getElem?_map]
  split
  · simp [*]
  · rw [List.getElem?_eq_none (by simp; omega)]
    rfl

@[simp] theorem frameDatagrams_length (seq dts : BitVec 32) (millis : BitVec 64)
    (data : List UInt8) :
    (frameDatagrams seq dts millis data).length = pieceCount 1099 data.length := by
  simp [frameDatagrams]

@[simp] theorem sentBy_length (seq : BitVec 32) (calls : List Call) :
    (sentBy seq calls).length = calls.length := by
  induction calls generalizing seq with
  | nil => rfl
  | cons c cs ih =>
    unfold sentBy
    split <;> simp [ih]

/-- What call `f` of a run sends is the datagrams of its packet, from some
count on, or nothing. -/
theorem sentBy_getElem? (seq : BitVec 32) {calls : List Call} {f : Nat} {c : Call}
    (h : calls[f]? = some c) :
    ∃ start, (sentBy seq calls)[f]? =
      some (if c.type = .AVMEDIA_TYPE_VIDEO then frameDatagrams start c.dts c.millis c.packet.data
        else []) := by
  induction calls generalizing seq f with
  | nil => simp at h
  | cons b cs ih =>
    cases f with
    | zero =>
      simp only [List.getElem?_cons_zero, Option.some.injEq] at h
      subst h
      refine ⟨seq, ?_⟩
      unfold sentBy
      split <;> rfl
    | succ f =>
      simp only [List.getElem?_cons_succ] at h
      unfold sentBy
      split
      · exact ih _ h
      · exact ih _ h

/-- The `n`-th datagram of a whole run has the counter's start plus `n`. -/
theorem sentBy_flatten_getElem? {seq : BitVec 32} {calls : List Call} {n : Nat} {d : List UInt8}
    (h : (sentBy seq calls).flatten[n]? = some d) :
    ∃ b dts millis payload, d = datagram b (seq + BitVec.ofNat 32 n) dts millis payload ∧
      0 < payload.length ∧ payload.length ≤ 1099 := by
  induction calls generalizing seq n with
  | nil => simp [sentBy] at h
  | cons c cs ih =>
    unfold sentBy at h
    split at h
    · rw [List.flatten_cons] at h
      by_cases hn : n < pieceCount 1099 c.packet.data.length
      · rw [List.getElem?_append_left (by simpa using hn), frameDatagrams_getElem?, if_pos hn] at h
        simp only [Option.some.injEq] at h
        subst h
        refine ⟨_, _, _, _, rfl, piece_length_pos (by decide) hn, ?_⟩
        rw [piece_length]
        exact Nat.min_le_left _ _
      · rw [List.getElem?_append_right (by simpa using hn)] at h
        obtain ⟨b, dts, millis, payload, hd, h1, h2⟩ := ih h
        refine ⟨b, dts, millis, payload, ?_, h1, h2⟩
        rw [hd, BitVec.add_assoc, ← BitVec.ofNat_add, frameDatagrams_length, Call.count,
          Nat.add_sub_cancel' (Nat.le_of_not_lt hn)]
    · exact ih h

/-- The marker and the timestamp of each datagram of one packet. -/
theorem headerOf_datagramAt (seq dts : BitVec 32) (millis : BitVec 64) (data : List UInt8)
    (i : Nat) :
    (headerOf (datagramAt seq dts millis data i)).timestamp = (timestampOf dts millis).toNat ∧
      (headerOf (datagramAt seq dts millis data i)).marker =
        if i + 1 = pieceCount 1099 data.length then 1 else 0 := by
  unfold datagramAt
  rw [headerOf_datagram]
  simp

/-! ## The laws -/

/-- The call returns, and it put together exactly `n` datagrams: the counter
went up by `n`, and a sink got `n` of them. -/
def Emits [FFmpeg] (p : Packager) (packet : AVPacket) (millis : BitVec 64) (n : Nat) : Prop :=
  ∃ fuel p' sent, p.receivePacket fuel packet .AVMEDIA_TYPE_VIDEO millis = .ok (p', sent) ∧
    p'.videoSeqNum_ = p.videoSeqNum_ + BitVec.ofNat 32 n ∧
    sent.length = if p.sink_ then n else 0

/-- A video packet leaves as one datagram for each 1099 bytes and the call
returns, in every state, exactly when the packet has a byte in it. With no
byte the queue is empty at the first turn, and nothing ever raises the flag. -/
theorem a_call_returns_exactly_when_the_packet_has_a_byte [FFmpeg] (p : Packager)
    (packet : AVPacket) (millis : BitVec 64) (h : packet.data.length < 2 ^ 31) :
    Emits p packet millis ((packet.data.length + 1098) / 1099) ↔ packet.data ≠ [] := by
  constructor
  · rintro ⟨fuel, p', sent, hrun, -, -⟩ hnil
    rw [receivePacket_empty fuel p packet millis hnil] at hrun
    cases hrun
  · intro hne
    have hpos : 0 < packet.data.length := List.length_pos_iff.mpr hne
    obtain ⟨p', hrun, -, hseq⟩ := receivePacket_video _ p packet millis hpos h le_rfl
    refine ⟨_, p', _, hrun, hseq, ?_⟩
    split
    · exact frameDatagrams_length _ _ _ _
    · rfl

theorem a_call_with_one_byte_returns :
    Emits (Packager.init (Block.ofList [] 0) (Block.ofList [] 0)) ⟨[7], 40⟩ 0 1 :=
  (a_call_returns_exactly_when_the_packet_has_a_byte _ ⟨[7], 40⟩ 0 (by decide)).mpr (by decide)

theorem a_call_with_no_byte_never_returns :
    ¬ Emits (Packager.init (Block.ofList [] 0) (Block.ofList [] 0)) ⟨[], 40⟩ 0 0 := by
  rintro ⟨fuel, p', sent, hrun, -, -⟩
  rw [receivePacket_empty fuel _ ⟨[], 40⟩ 0 rfl] at hrun
  cases hrun

/-- Every run over full packets ends. Its `n`-th datagram has the number
`n` and the fixed header of the stream. Each video packet is one group of
datagrams with one timestamp, and the marker is on the last of them only. -/
theorem every_run_numbers_its_datagrams [FFmpeg]
    (outBuff_ rtpBuffer_ : Block PACKAGED_BUFFER_SIZE UInt8) (calls : List Call)
    (h : ∀ c ∈ calls, c.Full) :
    ∃ sent, Sends ((Packager.init outBuff_ rtpBuffer_).setSink true) calls sent ∧
      (∀ (n : Nat) (d : List UInt8), sent.flatten[n]? = some d →
        12 ≤ d.length ∧ d.length ≤ 1111 ∧
        (headerOf d).sequenceNumber = n % 2 ^ 16 ∧ (headerOf d).version = 2 ∧
        (headerOf d).csrcCount = 0 ∧ (headerOf d).extension = 0 ∧ (headerOf d).padding = 0 ∧
        (headerOf d).payloadType = 96 ∧ (headerOf d).ssrc = 55543) ∧
      sent.length = calls.length ∧
      (∀ (f : Nat) (c : Call) (ds : List (List UInt8)),
        calls[f]? = some c → sent[f]? = some ds →
        (c.type ≠ .AVMEDIA_TYPE_VIDEO → ds = []) ∧
        (c.type = .AVMEDIA_TYPE_VIDEO → ds.length = (c.packet.data.length + 1098) / 1099 ∧
          ∃ t, ∀ (i : Nat) (d : List UInt8), ds[i]? = some d →
            (headerOf d).timestamp = t ∧
            (headerOf d).marker = if i + 1 = ds.length then 1 else 0)) := by
  refine ⟨_, sends_sentBy _ calls rfl h, ?_, sentBy_length _ _, ?_⟩
  · intro n d hd
    obtain ⟨b, dts, millis, payload, rfl, h1, h2⟩ := sentBy_flatten_getElem? hd
    have hseq : (((Packager.init outBuff_ rtpBuffer_).setSink true).videoSeqNum_ +
        BitVec.ofNat 32 n).toNat % 2 ^ 16 = n % 2 ^ 16 := by
      simp [Packager.init, Packager.setSink]
    rw [headerOf_datagram, datagram_length]
    exact ⟨by omega, by omega, hseq, rfl, rfl, rfl, rfl, rfl, rfl⟩
  · intro f c ds hc hds
    obtain ⟨start, hs⟩ := sentBy_getElem? _ hc
    rw [hs, Option.some.injEq] at hds
    subst hds
    refine ⟨fun hv => if_neg hv, ?_⟩
    intro hv
    rw [if_pos hv]
    refine ⟨frameDatagrams_length _ _ _ _, (timestampOf c.dts c.millis).toNat, ?_⟩
    intro i d hd
    rw [frameDatagrams_getElem?] at hd
    split at hd
    · cases hd
      rw [frameDatagrams_length]
      exact headerOf_datagramAt _ _ _ _ _
    · cases hd

/-- Two video packets with an audio packet between them. -/
def mixedCalls : List Call :=
  [⟨⟨[1, 2], 40⟩, .AVMEDIA_TYPE_VIDEO, 5⟩, ⟨⟨[9], 41⟩, AVMediaType.AVMEDIA_TYPE_AUDIO, 6⟩,
    ⟨⟨[3], 80⟩, .AVMEDIA_TYPE_VIDEO, 7⟩]

theorem a_run_with_audio_numbers_its_datagrams :
    ∃ sent, Sends ((Packager.init (Block.ofList [] 0) (Block.ofList [] 0)).setSink true)
      mixedCalls sent ∧ sent.length = 3 := by
  obtain ⟨sent, h1, -, h2, -⟩ := every_run_numbers_its_datagrams (Block.ofList [] 0)
    (Block.ofList [] 0) mixedCalls (by simp [Call.Full, mixedCalls])
  exact ⟨sent, h1, h2⟩

end payloader.packager_laws
