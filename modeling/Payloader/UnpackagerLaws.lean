-- The laws of the unpackager, for the datagrams of any sender. Four things go
-- wrong on bytes that the network can bring: a short or a broken header, a
-- marker that never comes, an end in the middle of a frame, and a clock that
-- wraps. Each law says on which inputs exactly.
import Payloader.Unpackager

set_option autoImplicit false

namespace payloader.unpackager_laws

open payloader.memory payloader.machines payloader.framing payloader.rtp_headers
open payloader.interfaces payloader.unpackager

/-! ## Broken headers -/

/-- The state of an unpackager after some run from `init`. -/
def Reached (u : Unpackager) : Prop :=
  ∃ buffer sink arrivals outs,
    run Unpackager.receive ((Unpackager.init buffer).setSink sink) arrivals = .ok (u, outs)

/-- What one datagram may do: the copy length is not negative, the cursor and
the size do not go back before a marker, and nothing is read outside the
datagram. The buffer holds the datagram and nothing else, so a read of any
other byte is a fault. -/
structure Harmless (u : Unpackager) (d : List UInt8) : Prop where
  copy_length : 0 ≤ copyLength (Arrival.ofBytes d)
  forward : (head (Arrival.ofBytes d)).getMarker = 0 → ∀ u' out,
    u.receive (Arrival.ofBytes d) = .ok (u', out) →
      u.unpackagedBuffer_ ≤ u'.unpackagedBuffer_ ∧ u.upackagedSize_ ≤ u'.upackagedSize_
  reads : u.receive (Arrival.ofBytes d) ≠ .error .read

/-- The header length that the bytes of a datagram ask for. -/
def headerBytes (d : List UInt8) : Nat :=
  12 + 4 * ((d.getD 0 0).toNat % 16) +
    (d.getD 0 0).toNat / 16 % 2 * (4 + 4 * ((d.getD 14 0).toNat * 256 + (d.getD 15 0).toNat))

theorem copyLength_bytes (d : List UInt8) :
    copyLength (Arrival.ofBytes d) = (d.length : Int) - headerBytes d := by
  have h : (head (Arrival.ofBytes d)).getHeaderLength = headerBytes d := getHeaderLength_ofBytes _
  unfold copyLength
  rw [h]
  rfl

/-- A call that is not a fault moves the cursor and the size by the copy
length, when the marker is not set. -/
theorem receive_forward {u u' : Unpackager} {a : Arrival} {out : Option AVPacket}
    (h16 : 16 ≤ a.size) (hm : (head a).getMarker = 0) (h : u.receive a = .ok (u', out)) :
    u'.unpackagedBuffer_ = u.unpackagedBuffer_ + copyLength a ∧
      u'.upackagedSize_ = u.upackagedSize_ + copyLength a := by
  rw [receive_eq u a h16] at h
  rcases hc : u.buffer.memcpy u.unpackagedBuffer_ a.inBuff (head a).getHeaderLength
    (copyLength a) with e | buffer
  · rw [hc] at h
    cases h
  · rw [hc] at h
    simp only [Except.map, hm, ne_eq, not_true_eq_false, if_false, Except.ok.injEq,
      Prod.mk.injEq] at h
    obtain ⟨rfl, -⟩ := h
    exact ⟨rfl, rfl⟩

theorem wellFormed_bytes (d : List UInt8) (h1 : 16 ≤ d.length) (h2 : headerBytes d ≤ d.length)
    (h3 : d.length < 2 ^ 64) : WellFormed (Arrival.ofBytes d) :=
  ⟨h1, le_rfl, (getHeaderLength_ofBytes _).trans_le h2, h3⟩

/-- A datagram does no harm exactly when it has the 16 bytes of the header
class and its header ends in it. This holds in every state. -/
theorem harmless_iff (u : Unpackager) (d : List UInt8) (hd : d.length ≤ 1500) :
    Harmless u d ↔ 16 ≤ d.length ∧ headerBytes d ≤ d.length := by
  have hl := copyLength_bytes d
  constructor
  · rintro ⟨h1, -, h3⟩
    refine ⟨?_, by omega⟩
    by_contra h16
    exact h3 (receive_short u (Arrival.ofBytes d) (Nat.lt_of_not_le h16))
  · rintro ⟨h1, h2⟩
    have hlen : 0 ≤ copyLength (Arrival.ofBytes d) := by omega
    refine ⟨hlen, ?_, ?_⟩
    · intro hm u' out hok
      obtain ⟨hcur, hsize⟩ := receive_forward (a := Arrival.ofBytes d) h1 hm hok
      omega
    · have hhead : (head (Arrival.ofBytes d)).getHeaderLength = headerBytes d :=
        getHeaderLength_ofBytes _
      have hcopy := memcpy_source_inside u.buffer (Arrival.ofBytes d).inBuff
        (p := u.unpackagedBuffer_) (q := headerBytes d) (n := d.length - headerBytes d) (by omega)
        (Nat.le_of_eq (Nat.add_sub_cancel' h2))
      rw [receive_eq u _ h1, hhead, hl, ← Nat.cast_sub h2]
      intro hread
      rcases hc : u.buffer.memcpy u.unpackagedBuffer_ (Arrival.ofBytes d).inBuff (headerBytes d)
        ((d.length - headerBytes d : Nat) : Int) with e | buffer
      · rw [hc] at hread
        cases hread
        exact hcopy hc
      · rw [hc] at hread
        cases hread

/-- Every datagram of a run does no harm where it comes in. -/
def HarmlessRun (u : Unpackager) : List (List UInt8) → Prop
  | [] => True
  | d :: ds => Harmless u d ∧
    ∀ u' out, u.receive (Arrival.ofBytes d) = .ok (u', out) → HarmlessRun u' ds

theorem harmlessRun_of_whole (u : Unpackager) (ds : List (List UInt8))
    (h : ∀ d ∈ ds, d.length ≤ 1500 ∧ 16 ≤ d.length ∧ headerBytes d ≤ d.length) :
    HarmlessRun u ds := by
  induction ds generalizing u with
  | nil => exact True.intro
  | cons d ds ih =>
    rw [List.forall_mem_cons] at h
    exact ⟨(harmless_iff u d h.1.1).mpr h.1.2, fun u' _ _ => ih u' h.2⟩

/-- In every reachable state each of the next datagrams does no harm exactly
when it has the 16 bytes of the header class and its header ends in it. When
all of them are so, the run over them does no harm at any of its steps. -/
theorem a_datagram_does_no_harm_exactly_when_its_header_ends_in_it (u : Unpackager)
    (_hu : Reached u) (ds : List (List UInt8)) (h : ∀ d ∈ ds, 1 ≤ d.length ∧ d.length ≤ 1500) :
    (∀ d ∈ ds, (Harmless u d ↔ 16 ≤ d.length ∧ headerBytes d ≤ d.length)) ∧
      ((∀ d ∈ ds, 16 ≤ d.length ∧ headerBytes d ≤ d.length) → HarmlessRun u ds) := by
  constructor
  · intro d hd
    exact harmless_iff u d (h d hd).2
  · intro hwhole
    exact harmlessRun_of_whole u ds (fun d hd => ⟨(h d hd).2, hwhole d hd⟩)

theorem a_datagram_of_sixteen_bytes_does_no_harm :
    Harmless ((Unpackager.init (Block.ofList [] 0)).setSink true)
      (128 :: List.replicate 15 0) := by
  have h := a_datagram_does_no_harm_exactly_when_its_header_ends_in_it
    ((Unpackager.init (Block.ofList [] 0)).setSink true) ⟨Block.ofList [] 0, true, [], [], rfl⟩
    [128 :: List.replicate 15 0] (by decide)
  exact (h.1 _ List.mem_cons_self).mpr (by decide)

/-- A datagram of 16 bytes that asks for 15 CSRC words: its header would be 72
bytes, so the copy length is -56. -/
theorem a_datagram_with_a_long_header_does_harm :
    ¬ Harmless ((Unpackager.init (Block.ofList [] 0)).setSink true)
      (143 :: List.replicate 15 0) := by
  rw [harmless_iff _ _ (by decide)]
  decide

/-! ## A marker that never comes -/

/-- The copy that is made for a datagram stays in the buffer. -/
def CopyInside (u : Unpackager) (a : Arrival) : Prop :=
  0 ≤ u.unpackagedBuffer_ ∧ u.unpackagedBuffer_ + copyLength a ≤ UNPACKAGED_BUFFER_SIZE

/-- Every datagram of a run is reached, and its copy stays in the buffer. -/
def CopiesInside (u : Unpackager) (arrivals : List Arrival) : Prop :=
  ∀ (i : Nat) (a : Arrival), arrivals[i]? = some a → ∃ u' outs,
    run Unpackager.receive u (arrivals.take i) = .ok (u', outs) ∧ CopyInside u' a

theorem loads_take {n : Nat} {ps : List (Piece UInt8)} {cap : Nat}
    (h : ∀ x ∈ loads n ps, x ≤ cap) (i : Nat) : ∀ x ∈ loads n (ps.take i), x ≤ cap := by
  have happ := loads_append (List.replicate n (0 : UInt8)) (ps.take i) (ps.drop i)
  rw [List.take_append_drop, List.length_replicate] at happ
  intro x hx
  exact h x (happ ▸ List.mem_append_left _ hx)

/-- After a run over well-formed datagrams the cursor stands behind the bytes
since the last marker. -/
theorem cursor_after {buffer : Block UNPACKAGED_BUFFER_SIZE UInt8} {sink : Bool}
    {arrivals : List Arrival} {u : Unpackager} {outs : List (Option AVPacket)}
    (h : ∀ a ∈ arrivals, WellFormed a)
    (hrun : run Unpackager.receive ((Unpackager.init buffer).setSink sink) arrivals =
      .ok (u, outs)) :
    u.unpackagedBuffer_ =
      (collectAll [] (arrivals.map (fun a => (parse a).piece))).1.length := by
  have hagree := run_receive_agrees arrivals (tracks_init buffer sink) h
  rw [hrun] at hagree
  obtain ⟨s, hs, htracks⟩ := hagree.inv_ok
  rw [run_depacketize] at hs
  split at hs
  · cases hs
    rw [htracks.cursor, List.map_map]
    rfl
  · cases hs

/-- The copies of a run stay in the buffer exactly when no load is over its size. -/
theorem copiesInside_iff (buffer : Block UNPACKAGED_BUFFER_SIZE UInt8) (sink : Bool)
    (arrivals : List Arrival) (h : ∀ a ∈ arrivals, WellFormed a) :
    CopiesInside ((Unpackager.init buffer).setSink sink) arrivals ↔
      ∀ x ∈ loads 0 (arrivals.map (fun a => (parse a).piece)), x ≤ UNPACKAGED_BUFFER_SIZE := by
  have htake : ∀ i, ∀ a ∈ arrivals.take i, WellFormed a :=
    fun i a ha => h a (List.mem_of_mem_take ha)
  have hget := loads_getElem? ([] : List UInt8) (arrivals.map (fun a => (parse a).piece))
  constructor
  · intro hin x hx
    obtain ⟨i, hi⟩ := List.mem_iff_getElem?.mp hx
    rw [← List.length_nil (α := UInt8), hget, List.getElem?_map] at hi
    rcases ha : arrivals[i]? with _ | a
    · rw [ha] at hi
      cases hi
    · rw [ha] at hi
      obtain ⟨u, outs, hrun, -, hcopy⟩ := hin i a ha
      have hcur := cursor_after (htake i) hrun
      have hlen := copyLength_eq (h a (List.mem_of_getElem? ha))
      simp only [Option.map_some, Option.some.injEq, ← List.map_take] at hi
      rw [hcur, hlen] at hcopy
      rw [← hi]
      exact_mod_cast hcopy
  · intro hfit i a ha
    obtain ⟨u, hrun⟩ := run_receive (arrivals.take i) (tracks_init buffer sink) (htake i)
      (by rw [List.map_take]; exact loads_take hfit i)
    have hcur := cursor_after (htake i) hrun
    have hlen := copyLength_eq (h a (List.mem_of_getElem? ha))
    refine ⟨u, _, hrun, ?_, ?_⟩
    · omega
    · have hx := hget i
      rw [List.getElem?_map, ha, ← List.map_take] at hx
      have hle := hfit _ (List.mem_of_getElem? hx)
      rw [hcur, hlen]
      exact_mod_cast hle

/-- Over well-formed datagrams of any sender, every copy stays in the buffer
exactly when the payload bytes from one marker to the next never exceed it. -/
theorem copies_stay_inside_exactly_when_no_load_is_over_the_buffer
    (buffer : Block UNPACKAGED_BUFFER_SIZE UInt8) (sink : Bool) (arrivals : List Arrival)
    (h : ∀ a ∈ arrivals, WellFormed a ∧ a.buffSize ≤ 1500) :
    CopiesInside ((Unpackager.init buffer).setSink sink) arrivals ↔
      ∀ x ∈ loads 0 (arrivals.map (fun a => (parse a).piece)), x ≤ 1500000 :=
  copiesInside_iff buffer sink arrivals (fun a ha => (h a ha).1)

/-- One datagram of four payload bytes; `b` has the marker bit. -/
def fourBytes (b : UInt8) : List UInt8 := [128, b, 0, 0, 0, 0, 0, 0, 0, 0, 0, 0, 7, 7, 7, 7]

/-- A datagram of four payload bytes for each marker byte. -/
def fourEach (bs : List UInt8) : List Arrival := bs.map (fun b => Arrival.ofBytes (fourBytes b))

theorem fourEach_wellFormed (bs : List UInt8) : ∀ a ∈ fourEach bs, WellFormed a :=
  List.forall_mem_map.mpr (fun b _ =>
    wellFormed_bytes _ (by simp [fourBytes]) (by simp [headerBytes, fourBytes])
      (by simp [fourBytes]))

theorem fourBytes_payload (b : UInt8) :
    (parse (Arrival.ofBytes (fourBytes b))).payload.length = 4 := by
  have hwf : WellFormed (Arrival.ofBytes (fourBytes b)) :=
    fourEach_wellFormed [b] _ (List.mem_singleton.mpr rfl)
  have hlen := (copyLength_eq hwf).symm.trans (copyLength_bytes _)
  have hfour : ((fourBytes b).length : Int) - headerBytes (fourBytes b) = 4 := by
    simp [fourBytes, headerBytes]
  omega

/-- Datagrams that fit in the buffer all together fit with any markers. -/
theorem fourEach_loads (bs : List UInt8) (h : 4 * bs.length ≤ UNPACKAGED_BUFFER_SIZE) :
    ∀ x ∈ loads 0 ((fourEach bs).map (fun a => (parse a).piece)), x ≤ UNPACKAGED_BUFFER_SIZE := by
  intro x hx
  have hle := loads_le 0 _ x hx
  have hsum : (((fourEach bs).map (fun a => (parse a).piece)).map
      (fun p => p.payload.length)).sum = 4 * bs.length := by
    have hfour : ∀ b, (((fun p => p.payload.length) ∘ fun a => (parse a).piece) ∘
        fun b => Arrival.ofBytes (fourBytes b)) b = 4 := fourBytes_payload
    rw [fourEach, List.map_map, List.map_map, funext hfour]
    simp [Nat.mul_comm]
  omega

/-- A frame of two datagrams, a frame of one, and the first half of a third frame. -/
theorem two_frames_and_a_half_stay_inside :
    CopiesInside ((Unpackager.init (Block.ofList [] 0)).setSink true)
      (fourEach [96, 224, 224, 96]) :=
  (copies_stay_inside_exactly_when_no_load_is_over_the_buffer _ _ _
    (fun a ha => ⟨fourEach_wellFormed _ a ha, by
      obtain ⟨b, -, rfl⟩ := List.mem_map.mp ha
      simp [Arrival.ofBytes, fourBytes]⟩)).mpr
    (fourEach_loads _ (by decide))

/-- A full datagram with the marker bit not set. -/
def unmarked : List UInt8 := 128 :: 96 :: List.replicate 1498 0

/-- When 1009 markers are lost in a row, a copy leaves the buffer. -/
theorem copies_leave_the_buffer_when_the_markers_are_lost :
    ¬ CopiesInside ((Unpackager.init (Block.ofList [] 0)).setSink true)
      (List.replicate 1009 (Arrival.ofBytes unmarked)) := by
  have hlen : unmarked.length = 1500 := by
    rw [unmarked, List.length_cons, List.length_cons, List.length_replicate]
  have hhead : headerBytes unmarked = 12 := rfl
  have hwf : WellFormed (Arrival.ofBytes unmarked) :=
    wellFormed_bytes _ (by omega) (by omega) (by omega)
  have hpayload : (parse (Arrival.ofBytes unmarked)).payload.length = 1488 := by
    have h := (copyLength_eq hwf).symm.trans (copyLength_bytes unmarked)
    omega
  have hmarker : (parse (Arrival.ofBytes unmarked)).marker = false := by
    rw [parse_marker]
    rfl
  rw [copiesInside_iff _ _ _ (fun a ha => List.eq_of_mem_replicate ha ▸ hwf), List.map_replicate]
  intro hfit
  have hmem := mem_loads_replicate 0 1008 (parse (Arrival.ofBytes unmarked)).piece hmarker
  have hle := hfit _ hmem
  rw [piece_payload, hpayload] at hle
  exact absurd hle (by decide)

/-! ## An end in the middle of a frame -/

/-- What came in since the last marker. -/
def sinceMarker (arrivals : List Arrival) : List Arrival :=
  arrivals.rtakeWhile (fun a => !(parse a).marker)

/-- After well-formed datagrams that fit, the destructor frees what `malloc` gave
exactly when no byte came in since the last marker. -/
theorem the_base_is_freed_exactly_when_no_frame_has_begun
    (buffer : Block UNPACKAGED_BUFFER_SIZE UInt8) (sink : Bool) (arrivals : List Arrival)
    (h : ∀ a ∈ arrivals, WellFormed a)
    (hfit : ∀ x ∈ loads 0 (arrivals.map (fun a => (parse a).piece)), x ≤ UNPACKAGED_BUFFER_SIZE) :
    ∃ u outs, run Unpackager.receive ((Unpackager.init buffer).setSink sink) arrivals =
        .ok (u, outs) ∧
      (u.freed = 0 ↔ ∀ a ∈ sinceMarker arrivals, (parse a).payload = []) := by
  obtain ⟨u, hrun⟩ := run_receive arrivals (tracks_init buffer sink) h hfit
  refine ⟨u, _, hrun, ?_⟩
  unfold Unpackager.freed
  rw [cursor_after h hrun, collectAll_waiting, Int.natCast_eq_zero, List.length_eq_zero_iff,
    List.flatten_eq_nil_iff, List.forall_mem_map]
  rfl

/-- Two frames of two datagrams, and nothing behind the second marker. -/
theorem two_whole_frames_leave_the_base :
    ∃ u outs, run Unpackager.receive ((Unpackager.init (Block.ofList [] 0)).setSink true)
        (fourEach [96, 224, 96, 224]) = .ok (u, outs) ∧ u.freed = 0 := by
  obtain ⟨u, outs, hrun, hiff⟩ := the_base_is_freed_exactly_when_no_frame_has_begun
    (Block.ofList [] 0) true (fourEach [96, 224, 96, 224])
    (fourEach_wellFormed _) (fourEach_loads _ (by decide))
  refine ⟨u, outs, hrun, hiff.mpr ?_⟩
  have hmarker : (parse (Arrival.ofBytes (fourBytes 224))).marker = true := by
    rw [parse_marker]
    rfl
  unfold sinceMarker
  rw [show fourEach [96, 224, 96, 224] = fourEach [96, 224, 96] ++
      [Arrival.ofBytes (fourBytes 224)] from rfl,
    List.rtakeWhile_concat_neg _ _ _ (by rw [hmarker]; decide)]
  exact List.forall_mem_nil _

/-- A frame whose marker does not come before the end. -/
theorem half_a_frame_moves_the_freed_pointer :
    ¬ ∀ (buffer : Block UNPACKAGED_BUFFER_SIZE UInt8) (sink : Bool) (arrivals : List Arrival)
      (u : Unpackager) (outs : List (Option AVPacket)), (∀ a ∈ arrivals, WellFormed a) →
      (∀ x ∈ loads 0 (arrivals.map (fun a => (parse a).piece)), x ≤ UNPACKAGED_BUFFER_SIZE) →
      run Unpackager.receive ((Unpackager.init buffer).setSink sink) arrivals = .ok (u, outs) →
        u.freed = 0 := by
  intro h
  have hwf := fourEach_wellFormed [96]
  have hfit := fourEach_loads [96] (by decide)
  obtain ⟨u, hrun⟩ := run_receive (fourEach [96]) (tracks_init (Block.ofList [] 0) true) hwf hfit
  have hfreed := h _ _ _ _ _ hwf hfit hrun
  have hmarker : (parse (Arrival.ofBytes (fourBytes 96))).marker = false := by
    rw [parse_marker]
    rfl
  unfold Unpackager.freed at hfreed
  rw [cursor_after hwf hrun, fourEach, List.map_singleton, List.map_singleton,
    collectAll_unmarked _ _ (List.forall_mem_singleton.mpr hmarker)] at hfreed
  simp [RtpPacket.piece, fourBytes_payload] at hfreed

/-! ## A clock that wraps -/

/-- The datagrams of one frame of which none is lost, with the RTP timestamp
of a 64-bit clock at `t`. -/
structure CompleteFrame (frame : List Arrival) (t : Nat) : Prop where
  well_formed : ∀ a ∈ frame, WellFormed a
  times : ∀ a ∈ frame, (parse a).timestamp = t % 2 ^ 32
  marked : Complete (frame.map (fun a => (parse a).piece))
  size : (frame.map (fun a => (parse a).payload)).flatten.length ≤ UNPACKAGED_BUFFER_SIZE

/-- The decode times are the times since the first frame, in ms, rounded
down, and they never go back. -/
def FollowsClock (clock : List Nat) (dts : List Int) : Prop :=
  dts = clock.map (fun t : Nat => (((t - clock.headD 0) / 90 : Nat) : Int)) ∧
    dts.Pairwise (· ≤ ·)

/-- A difference of two residues of the clock, in ms. -/
def wrapped (t0 t : Nat) : Int := (((t % 2 ^ 32 : Nat) : Int) - (t0 % 2 ^ 32 : Nat)).tdiv 90

/-- With no wrap in between, the residues have the same difference as the clock. -/
theorem wrapped_eq_iff (t0 t : Nat) (h : t0 ≤ t) :
    wrapped t0 t = (((t - t0) / 90 : Nat) : Int) ↔ t / 2 ^ 32 = t0 / 2 ^ 32 := by
  have hsign : Int.sign 90 = 1 := rfl
  unfold wrapped
  rw [Int.tdiv_eq_ediv, hsign]
  constructor
  · intro heq
    split at heq <;> omega
  · intro heq
    rw [if_pos (Or.inl (by omega))]
    omega

theorem clock_markerTimes {frames : List (List Arrival)} {clock : List Nat}
    (h : List.Forall₂ CompleteFrame frames clock) :
    markerTimes (frames.flatten.map parse) = clock.map (· % 2 ^ 32) := by
  induction h with
  | nil => rfl
  | cons hf _ ih =>
    have hone := markerTimes_complete (by rw [List.map_map]; exact hf.marked)
      (List.forall_mem_map.mpr hf.times)
    rw [List.flatten_cons, List.map_append, markerTimes_append, ih, hone]
    rfl

theorem parse_timestamp_lt (a : Arrival) : (parse a).timestamp < 2 ^ 32 :=
  (head a).getTimestamp.isLt

/-- A stream of complete frames: the run ends, and the decode times are the
differences of the residues. -/
theorem run_clock (buffer : Block UNPACKAGED_BUFFER_SIZE UInt8) (frames : List (List Arrival))
    (clock : List Nat) (h : List.Forall₂ CompleteFrame frames clock) :
    ∃ u outs, run Unpackager.receive ((Unpackager.init buffer).setSink true) frames.flatten =
        .ok (u, outs) ∧
      (delivered outs).map (fun p => p.dts.toInt) = clock.map (wrapped (clock.headD 0)) := by
  have hall := forall₂_exists_right h
  have hwf : ∀ a ∈ frames.flatten, WellFormed a := by
    intro a ha
    obtain ⟨frame, hframe, haf⟩ := List.mem_flatten.mp ha
    obtain ⟨t, -, ht⟩ := hall frame hframe
    exact ht.well_formed a haf
  have hfit : ∀ x ∈ loads 0 (frames.flatten.map (fun a => (parse a).piece)),
      x ≤ UNPACKAGED_BUFFER_SIZE := by
    rw [List.map_flatten]
    refine loads_frames _ _ (List.forall_mem_map.mpr fun frame hframe => ?_)
      (List.forall_mem_map.mpr fun frame hframe => ?_)
    · obtain ⟨t, -, ht⟩ := hall frame hframe
      exact ht.marked
    · obtain ⟨t, -, ht⟩ := hall frame hframe
      rw [List.map_map]
      exact ht.size
  obtain ⟨u, hu⟩ := run_receive frames.flatten (tracks_init buffer true) hwf hfit
  refine ⟨u, _, hu, ?_⟩
  rw [delivered_times _ (List.forall_mem_map.mpr fun a _ => parse_timestamp_lt a),
    clock_markerTimes h, List.map_map]
  cases clock <;> rfl

/-- Over complete frames of any sender, the decode times follow the clock
exactly when it does not pass a multiple of 2^32 after the first frame. -/
theorem the_times_follow_the_clock_exactly_when_it_does_not_wrap
    (buffer : Block UNPACKAGED_BUFFER_SIZE UInt8) (frames : List (List Arrival))
    (clock : List Nat) (h : List.Forall₂ CompleteFrame frames clock)
    (hmono : clock.Pairwise (· ≤ ·)) :
    ∃ u outs, run Unpackager.receive ((Unpackager.init buffer).setSink true) frames.flatten =
        .ok (u, outs) ∧
      (FollowsClock clock ((delivered outs).map (fun p => p.dts.toInt)) ↔
        ∀ t ∈ clock, t / 2 ^ 32 = clock.headD 0 / 2 ^ 32) := by
  obtain ⟨u, outs, hrun, hdts⟩ := run_clock buffer frames clock h
  have hfirst : ∀ t ∈ clock, clock.headD 0 ≤ t := by
    cases clock with
    | nil => simp
    | cons t0 ts =>
      rw [List.pairwise_cons] at hmono
      exact List.forall_mem_cons.mpr ⟨le_rfl, hmono.1⟩
  refine ⟨u, outs, hrun, ?_⟩
  unfold FollowsClock
  rw [hdts, List.map_inj_left]
  constructor
  · rintro ⟨heq, -⟩ t ht
    exact (wrapped_eq_iff _ t (hfirst t ht)).mp (heq t ht)
  · intro hwrap
    have heq : ∀ t ∈ clock, wrapped (clock.headD 0) t = (((t - clock.headD 0) / 90 : Nat) : Int) :=
      fun t ht => (wrapped_eq_iff _ t (hfirst t ht)).mpr (hwrap t ht)
    refine ⟨heq, ?_⟩
    rw [List.pairwise_map]
    apply hmono.imp_of_mem
    intro s t hs ht hle
    rw [heq _ hs, heq _ ht]
    exact_mod_cast Nat.div_le_div_right (Nat.sub_le_sub_right hle _)

/-- A frame of one datagram, with the given bytes in the timestamp. -/
def stamped (b4 b5 b6 b7 : UInt8) : List UInt8 :=
  [128, 224, 0, 0, b4, b5, b6, b7, 0, 0, 0, 0, 7, 7, 7, 7]

theorem stamped_complete {b4 b5 b6 b7 : UInt8} {t : Nat}
    (h : b4.toNat * 2 ^ 24 + b5.toNat * 2 ^ 16 + b6.toNat * 2 ^ 8 + b7.toNat = t % 2 ^ 32) :
    CompleteFrame [Arrival.ofBytes (stamped b4 b5 b6 b7)] t := by
  have hwf : WellFormed (Arrival.ofBytes (stamped b4 b5 b6 b7)) :=
    wellFormed_bytes _ (by simp [stamped]) (by simp [stamped, headerBytes]) (by simp [stamped])
  refine ⟨by simpa using hwf, ?_, ⟨[], _, rfl, by simp, ?_⟩, ?_⟩
  · rw [List.forall_mem_singleton, parse_timestamp]
    exact h
  · rw [piece_last, parse_marker]
    simp [readFixedHeader, Arrival.ofBytes, Block.ofList, stamped]
  · have hl := (copyLength_eq hwf).symm.trans (copyLength_bytes _)
    have hfour : ((stamped b4 b5 b6 b7).length : Int) - headerBytes (stamped b4 b5 b6 b7) = 4 := by
      simp [stamped, headerBytes]
    rw [List.map_singleton, List.flatten_singleton]
    exact le_trans (by omega) (by decide : 4 ≤ UNPACKAGED_BUFFER_SIZE)

theorem a_stream_without_a_wrap_follows_the_clock :
    ∃ u outs, run Unpackager.receive ((Unpackager.init (Block.ofList [] 0)).setSink true)
        [Arrival.ofBytes (stamped 0 0 0 90), Arrival.ofBytes (stamped 0 0 14 106)] =
        .ok (u, outs) ∧
      FollowsClock [90, 3690] ((delivered outs).map (fun p => p.dts.toInt)) := by
  obtain ⟨u, outs, hrun, hiff⟩ := the_times_follow_the_clock_exactly_when_it_does_not_wrap
    (Block.ofList [] 0)
    [[Arrival.ofBytes (stamped 0 0 0 90)], [Arrival.ofBytes (stamped 0 0 14 106)]] [90, 3690]
    (.cons (stamped_complete rfl) (.cons (stamped_complete rfl) .nil)) (by decide)
  exact ⟨u, outs, hrun, hiff.mpr (by decide)⟩

/-- A stream that starts 1 ms before the wrap: the second frame, 1 ms later,
has a decode time far below 0. -/
theorem a_stream_over_a_wrap_loses_the_clock :
    ∃ u outs, run Unpackager.receive ((Unpackager.init (Block.ofList [] 0)).setSink true)
        [Arrival.ofBytes (stamped 255 255 255 166), Arrival.ofBytes (stamped 0 0 0 0)] =
        .ok (u, outs) ∧
      ¬ FollowsClock [2 ^ 32 - 90, 2 ^ 32] ((delivered outs).map (fun p => p.dts.toInt)) := by
  obtain ⟨u, outs, hrun, hdts⟩ := run_clock (Block.ofList [] 0)
    [[Arrival.ofBytes (stamped 255 255 255 166)], [Arrival.ofBytes (stamped 0 0 0 0)]]
    [2 ^ 32 - 90, 2 ^ 32]
    (.cons (stamped_complete (by decide)) (.cons (stamped_complete (by decide)) .nil))
  refine ⟨u, outs, hrun, ?_⟩
  intro hfollows
  rw [hdts] at hfollows
  exact absurd hfollows.2 (by decide)

end payloader.unpackager_laws
