-- What the fragmenter does with a whole frame: the fragments of its queue lie
-- side by side from the first byte to the last, and the calls that drain the
-- queue give their bytes.
import Mathlib.Algebra.Order.Floor.Div
import Payloader.RtpFragmenter

set_option autoImplicit false

namespace payloader.fragmenter_laws

open payloader.memory payloader.framing payloader.rtp_fragmenter
open payloader.rtp_fragmenter.RtpFragmenter

/-! ## The queue -/

/-- The fragments cut `n` bytes: none is empty or longer than 1099 bytes, and only
the last one may be shorter. Each starts where the one before ends, so every byte
is in exactly one of them. No end is out of the range of 32 bits. -/
structure Cut (n : Nat) (fragments : List Fragment) : Prop where
  count : fragments.length = n ⌈/⌉ 1099
  nonempty : ∀ t ∈ fragments, 0 < t.size
  short : ∀ t ∈ fragments, t.size ≤ 1099
  full : ∀ i t, fragments[i]? = some t → i + 1 < fragments.length → t.size = 1099
  start : ∀ t, fragments[0]? = some t → t.position = 0
  adjacent : ∀ i t u, fragments[i]? = some t → fragments[i + 1]? = some u →
    u.position = t.position + t.size
  finish : ∀ i t, fragments[i]? = some t → i + 1 = fragments.length → t.position + t.size = n
  within : ∀ t ∈ fragments, t.position + t.size < 2 ^ 32
  once : ∀ k < n, ∃! i : Nat, ∃ t : Fragment, fragments[i]? = some t ∧
    t.position ≤ k ∧ k < t.position + t.size
  first : ∀ i t, fragments[i]? = some t → (t.first = true ↔ i = 0)

/-- The fragments that `calculatePackets` gives. -/
def fragmentsOf (n : Nat) : List Fragment := (List.range (pieceCount 1099 n)).map (fragmentAt n)

theorem fragmentsOf_length (n : Nat) : (fragmentsOf n).length = pieceCount 1099 n := by
  rw [fragmentsOf, List.length_map, List.length_range]

theorem fragmentsOf_get {n i : Nat} {t : Fragment} :
    (fragmentsOf n)[i]? = some t ↔ i < pieceCount 1099 n ∧ fragmentAt n i = t := by
  rw [fragmentsOf, List.getElem?_map, Option.map_eq_some_iff]
  simp only [List.getElem?_eq_some_iff, List.length_range, List.getElem_range]
  exact ⟨fun ⟨_, ⟨hlt, heq⟩, ht⟩ => ⟨hlt, heq ▸ ht⟩, fun ⟨hlt, ht⟩ => ⟨i, ⟨hlt, rfl⟩, ht⟩⟩

theorem mem_fragmentsOf {n : Nat} {t : Fragment} :
    t ∈ fragmentsOf n ↔ ∃ i < pieceCount 1099 n, fragmentAt n i = t := by
  rw [List.mem_iff_getElem?]
  exact exists_congr fun _ => fragmentsOf_get

theorem lt_pieceCount {n i : Nat} : i < pieceCount 1099 n ↔ i * 1099 < n :=
  lt_pieceCount_iff (by decide)

/-- The fragment that a byte is in. -/
theorem mem_fragmentAt {n i k : Nat} (hk : k < n) :
    (fragmentAt n i).position ≤ k ∧ k < (fragmentAt n i).position + (fragmentAt n i).size ↔
      i = k / 1099 := by
  unfold fragmentAt
  simp only
  omega

theorem fragmentAt_end_le {n i : Nat} (hi : i < pieceCount 1099 n) :
    (fragmentAt n i).position + (fragmentAt n i).size ≤ n := by
  have hlt := lt_pieceCount.mp hi
  unfold fragmentAt
  simp only
  omega

theorem fragmentsOf_cut {n : Nat} (hn : n < 2 ^ 32) : Cut n (fragmentsOf n) where
  count := fragmentsOf_length n
  nonempty t ht := by
    obtain ⟨i, hi, rfl⟩ := mem_fragmentsOf.mp ht
    have hlt := lt_pieceCount.mp hi
    exact Nat.lt_min.mpr ⟨by decide, Nat.sub_pos_of_lt hlt⟩
  short t ht := by
    obtain ⟨i, -, rfl⟩ := mem_fragmentsOf.mp ht
    exact Nat.min_le_left _ _
  full i t ht hnext := by
    obtain ⟨-, rfl⟩ := fragmentsOf_get.mp ht
    rw [fragmentsOf_length, lt_pieceCount] at hnext
    exact Nat.min_eq_left (by omega)
  start t ht := by
    obtain ⟨-, rfl⟩ := fragmentsOf_get.mp ht
    exact Nat.zero_mul 1099
  adjacent i t u ht hu := by
    obtain ⟨-, rfl⟩ := fragmentsOf_get.mp ht
    obtain ⟨hnext, rfl⟩ := fragmentsOf_get.mp hu
    have hlt := lt_pieceCount.mp hnext
    unfold fragmentAt
    simp only
    omega
  finish i t ht hlast := by
    obtain ⟨hi, rfl⟩ := fragmentsOf_get.mp ht
    have hlt := lt_pieceCount.mp hi
    have hend : ¬ (i + 1) * 1099 < n := by
      rw [← lt_pieceCount, ← fragmentsOf_length]
      omega
    unfold fragmentAt
    simp only
    omega
  within t ht := by
    obtain ⟨i, hi, rfl⟩ := mem_fragmentsOf.mp ht
    exact (fragmentAt_end_le hi).trans_lt hn
  once k hk := by
    refine ⟨k / 1099, ⟨_, fragmentsOf_get.mpr ⟨?_, rfl⟩, (mem_fragmentAt hk).mpr rfl⟩, ?_⟩
    · rw [lt_pieceCount]
      omega
    · rintro i ⟨t, ht, hmem⟩
      obtain ⟨-, rfl⟩ := fragmentsOf_get.mp ht
      exact (mem_fragmentAt hk).mp hmem
  first i t ht := by
    obtain ⟨-, rfl⟩ := fragmentsOf_get.mp ht
    exact beq_iff_eq

/-! ## The drain -/

variable {size : Nat}

/-- Calls of `getPacket` with one flag. Each has a buffer, and what `length` was
before it. -/
def drain (f : RtpFragmenter) (lastPacket : Bool) :
    List (Block size UInt8 × Nat) → Except Fault (List (Drained size))
  | [] => .ok []
  | (data, length) :: calls => do
    let d ← f.getPacket data length lastPacket
    let ds ← drain d.frag d.lastPacket calls
    .ok (d :: ds)

/-- The fragmenter after `i` calls. -/
def fragmenterAt {n : Nat} (data : Block n UInt8) (i : Nat) : RtpFragmenter :=
  { totalLenth_ := n, totalData_ := data,
    fragmentQueue_ := (List.range' i (pieceCount 1099 n - i)).map (fragmentAt n) }

/-- The flag after `i` calls. -/
def flagAt (n i : Nat) : Bool := decide (0 < pieceCount 1099 n ∧ pieceCount 1099 n ≤ i)

/-- What call `i` gives. After the last fragment it gives what it was given. -/
def callAt {n : Nat} (data : Block n UInt8) (i : Nat) (call : Block size UInt8 × Nat) :
    Drained size :=
  if i < pieceCount 1099 n then
    { frag := fragmenterAt data (i + 1)
      data := call.1.put 0 (data.slice (fragmentAt n i).position (fragmentAt n i).size)
      length := (fragmentAt n i).size
      lastPacket := flagAt n (i + 1) }
  else { frag := fragmenterAt data (i + 1), data := call.1, length := call.2,
         lastPacket := flagAt n (i + 1) }

theorem init_eq {n : Nat} (data : Block n UInt8) (hn : n < 2 ^ 32) :
    RtpFragmenter.init data = fragmenterAt data 0 := by
  rw [RtpFragmenter.init, calculatePackets_eq n hn, List.range_eq_range']
  rfl

/-- One call, at any place in the drain. -/
theorem getPacket_at {n : Nat} (data : Block n UInt8) (hsize : 1099 ≤ size) (i : Nat)
    (call : Block size UInt8 × Nat) :
    (fragmenterAt data i).getPacket call.1 call.2 (flagAt n i) = .ok (callAt data i call) := by
  unfold callAt
  by_cases hi : i < pieceCount 1099 n
  · have hqueue : (fragmenterAt data i).fragmentQueue_ =
        fragmentAt n i :: (fragmenterAt data (i + 1)).fragmentQueue_ := by
      obtain ⟨m, hm⟩ : ∃ m, pieceCount 1099 n - i = m + 1 :=
        ⟨_, (Nat.sub_add_cancel (by omega)).symm⟩
      have hrest : pieceCount 1099 n - (i + 1) = m := by omega
      simp only [fragmenterAt, hm, hrest, List.range'_succ, List.map_cons]
    have hfits : (fragmentAt n i).size ≤ 1099 := Nat.min_le_left _ _
    have hflag : flagAt n i = false := decide_eq_false (by omega)
    have hlast : (fragmenterAt data (i + 1)).fragmentQueue_.isEmpty = flagAt n (i + 1) := by
      rw [Bool.eq_iff_iff, List.isEmpty_iff_length_eq_zero, flagAt, decide_eq_true_iff]
      simp only [fragmenterAt, List.length_map, List.length_range']
      omega
    rw [hflag, getPacket_pop _ _ _ _ _ hqueue (fragmentAt_end_le hi) (by omega) (by omega), hlast,
      if_pos hi]
    rfl
  · have hempty : ∀ j, i ≤ j → (fragmenterAt data j).fragmentQueue_ = [] := by
      intro j hj
      rw [fragmenterAt, Nat.sub_eq_zero_of_le (by omega)]
      rfl
    have hsame : fragmenterAt data (i + 1) = fragmenterAt data i := by
      unfold fragmenterAt
      rw [Nat.sub_eq_zero_of_le (by omega), Nat.sub_eq_zero_of_le (by omega)]
      rfl
    have hflag : flagAt n (i + 1) = flagAt n i := decide_eq_decide.mpr (by omega)
    rw [getPacket_empty _ _ _ _ (hempty i le_rfl), if_neg hi, hsame, hflag]

theorem drain_from {n : Nat} (data : Block n UInt8) (hsize : 1099 ≤ size) (i : Nat)
    (calls : List (Block size UInt8 × Nat)) :
    drain (fragmenterAt data i) (flagAt n i) calls =
      .ok (calls.mapIdx fun j => callAt data (i + j)) := by
  induction calls generalizing i with
  | nil => rfl
  | cons call calls ih =>
    have hcall : (callAt data i call).frag = fragmenterAt data (i + 1) ∧
        (callAt data i call).lastPacket = flagAt n (i + 1) := by
      unfold callAt
      split <;> exact ⟨rfl, rfl⟩
    have hshift : (fun j => @callAt size n data (i + 1 + j)) =
        fun j => callAt data (i + (j + 1)) := by
      funext j
      rw [Nat.add_assoc, Nat.add_comm 1 j]
    rw [drain, getPacket_at data hsize i call, List.mapIdx_cons]
    change (do
      let ds ← drain (callAt data i call).frag (callAt data i call).lastPacket calls
      Except.ok (callAt data i call :: ds)) = _
    rw [hcall.1, hcall.2, ih (i + 1), hshift]
    rfl

/-- What a call gives is the fragment of its turn, with the flag on the last one
alone. When there is none left it changes nothing. -/
structure Turn {n : Nat} (data : Block n UInt8) (fragments : List Fragment) (i : Nat)
    (call : Block size UInt8 × Nat) (d : Drained size) : Prop where
  bytes : ∀ t, fragments[i]? = some t →
    d.length = t.size ∧ d.data.slice 0 t.size = data.slice t.position t.size
  flag : i < fragments.length → (d.lastPacket = true ↔ i + 1 = fragments.length)
  after : fragments.length ≤ i →
    d.data = call.1 ∧ d.length = call.2 ∧ (d.lastPacket = true ↔ 0 < fragments.length)

theorem callAt_turn {n : Nat} (data : Block n UInt8) (i : Nat) (call : Block size UInt8 × Nat) :
    Turn data (fragmentsOf n) i call (callAt data i call) := by
  have hlength := fragmentsOf_length n
  unfold callAt
  split
  · rename_i hi
    refine ⟨fun t ht => ?_, fun _ => ?_, fun hle => absurd hi (by omega)⟩
    · obtain ⟨-, rfl⟩ := fragmentsOf_get.mp ht
      have hself := slice_put_self call.1 0
        (data.slice (fragmentAt n i).position (fragmentAt n i).size)
      rw [slice_length] at hself
      exact ⟨rfl, hself⟩
    · rw [hlength]
      simp only [flagAt, decide_eq_true_iff]
      omega
  · rename_i hi
    refine ⟨fun t ht => absurd (fragmentsOf_get.mp ht).1 hi, fun hlt => absurd hlt (by omega),
      fun _ => ⟨rfl, rfl, ?_⟩⟩
    rw [hlength]
    simp only [flagAt, decide_eq_true_iff]
    omega

/-- A block of zeros. -/
def aFrame (n : Nat) : Block n UInt8 := { cell := fun _ => 0 }

/-- The queue of the constructor cuts the frame, and calls of `getPacket`, however
many, give the fragments in order. -/
theorem the_frame_is_cut_and_drained_in_order (length : BitVec 32)
    (data : Block length.toNat UInt8) (size : Nat) (hsize : 1099 ≤ size)
    (calls : List (Block size UInt8 × Nat)) :
    Cut length.toNat (RtpFragmenter.init data).fragmentQueue_ ∧
      ∃ ds, drain (RtpFragmenter.init data) false calls = .ok ds ∧ ds.length = calls.length ∧
        ∀ (i : Nat) (d : Drained size) (call : Block size UInt8 × Nat), ds[i]? = some d →
          calls[i]? = some call →
          Turn data (RtpFragmenter.init data).fragmentQueue_ i call d := by
  have hqueue : (RtpFragmenter.init data).fragmentQueue_ = fragmentsOf length.toNat :=
    calculatePackets_eq length.toNat length.isLt
  have hflag : flagAt length.toNat 0 = false := decide_eq_false (by omega)
  have hdrain := drain_from data hsize 0 calls
  rw [hflag, ← init_eq data length.isLt] at hdrain
  rw [hqueue]
  refine ⟨fragmentsOf_cut length.isLt, _, hdrain, List.length_mapIdx, fun i d call hd hcall => ?_⟩
  rw [List.getElem?_mapIdx, hcall, Option.map_some, Nat.zero_add, Option.some_inj] at hd
  exact hd ▸ callAt_turn data i call

/-- A frame of 1100 bytes takes two of three calls. -/
theorem a_frame_of_1100_bytes_is_drained :
    Cut 1100 (RtpFragmenter.init (aFrame 1100)).fragmentQueue_ ∧
      ∃ ds, drain (RtpFragmenter.init (aFrame 1100)) false
        (List.replicate 3 (aFrame 1099, 0)) = .ok ds ∧ ds.length = 3 := by
  obtain ⟨hcut, ds, hdrain, hlength, -⟩ := the_frame_is_cut_and_drained_in_order 1100#32
    (aFrame 1100) 1099 le_rfl (List.replicate 3 (aFrame 1099, 0))
  exact ⟨hcut, ds, hdrain, hlength⟩

end payloader.fragmenter_laws
