-- The fragmenter of rtp/RtpFragmenter.cpp: a queue of fragments cut from one
-- frame, and the drain that tells its caller which fragment is the last.
import Payloader.Framing

set_option autoImplicit false

namespace payloader.rtp_fragmenter

open payloader.memory payloader.framing

def MAX_SIZE : Nat := 1100

def VP8 : Bool := false

structure Fragment where
  position : Nat
  size : Nat
  first : Bool
  deriving DecidableEq, Repr

/-- `totalData_` points at `totalLenth_` bytes. -/
structure RtpFragmenter where
  totalLenth_ : Nat
  totalData_ : Block totalLenth_ UInt8
  fragmentQueue_ : List Fragment

namespace RtpFragmenter

variable {size : Nat}

/-- The loop of `calculatePackets`: `remaining` and `currentPos` are 32 bits wide. -/
def calculatePackets (remaining currentPos : Nat) : List Fragment :=
  if 0 < remaining then
    let size := if remaining > MAX_SIZE - 1 then MAX_SIZE - 1 else remaining
    { position := currentPos, size, first := currentPos == 0 } ::
      calculatePackets (remaining - size) ((currentPos + size) % 2 ^ 32)
  else []
termination_by remaining
decreasing_by
  unfold MAX_SIZE at *
  split <;> omega

/-- The constructor. -/
def init {length : Nat} (data : Block length UInt8) : RtpFragmenter :=
  { totalLenth_ := length, totalData_ := data, fragmentQueue_ := calculatePackets length 0 }

def writeFragment (f : RtpFragmenter) (fragment : Fragment) (buffer : Block size UInt8) :
    Except Fault (Block size UInt8 × Nat) :=
  if VP8 then do
    let buffer ← buffer.store 0 (if fragment.first then 0x10 else 0x0)
    let buffer ← buffer.memcpy 1 f.totalData_ fragment.position fragment.size
    .ok (buffer, fragment.size + 1)
  else do
    let buffer ← buffer.memcpy 0 f.totalData_ fragment.position fragment.size
    .ok (buffer, fragment.size)

/-- What a call of `getPacket` leaves behind: the fragmenter, and what the
pointers `data`, `length` and `lastPacket` point at. -/
structure Drained (size : Nat) where
  frag : RtpFragmenter
  data : Block size UInt8
  length : Nat
  lastPacket : Bool

def getPacket (f : RtpFragmenter) (data : Block size UInt8) (length : Nat) (lastPacket : Bool) :
    Except Fault (Drained size) :=
  match f.fragmentQueue_ with
  | [] => .ok { frag := f, data, length, lastPacket }
  | test :: rest => do
    let (data, length) ← f.writeFragment test data
    -- the flag is raised when the pop leaves the queue empty, and never lowered
    .ok { frag := { f with fragmentQueue_ := rest }, data, length,
          lastPacket := if rest.isEmpty then true else lastPacket }

end RtpFragmenter

open RtpFragmenter

/-! ## The queue in closed form -/

/-- The `i`-th fragment of `n` bytes. -/
def fragmentAt (n i : Nat) : Fragment :=
  { position := i * 1099, size := min 1099 (n - i * 1099), first := i == 0 }

theorem calculatePackets_from (n i : Nat) (hn : n < 2 ^ 32) (hi : i * 1099 ≤ n) :
    calculatePackets (n - i * 1099) (i * 1099) =
      (List.range' i (pieceCount 1099 n - i)).map (fragmentAt n) := by
  induction hk : pieceCount 1099 n - i generalizing i with
  | zero =>
    have h := (lt_pieceCount_iff (k := 1099) (n := n) (i := i) (by decide)).not.mp (by omega)
    rw [calculatePackets, if_neg (by omega)]
    rfl
  | succ k ih =>
    have h := (lt_pieceCount_iff (k := 1099) (n := n) (i := i) (by decide)).mp (by omega)
    have hsize : (if n - i * 1099 > MAX_SIZE - 1 then MAX_SIZE - 1 else n - i * 1099) =
        min 1099 (n - i * 1099) := by
      unfold MAX_SIZE
      split <;> omega
    rw [calculatePackets, if_pos (by omega), List.range'_succ, List.map_cons]
    simp only [hsize]
    clear hsize
    congr 1
    · unfold fragmentAt
      simp
    · by_cases hlast : n ≤ (i + 1) * 1099
      · -- the last fragment: nothing remains, so the position does not matter
        have hz : n - i * 1099 - min 1099 (n - i * 1099) = 0 := by omega
        have hk0 : k = 0 := by
          have := (lt_pieceCount_iff (k := 1099) (n := n) (i := i + 1) (by decide)).not.mpr
            (by omega)
          omega
        rw [hz, calculatePackets, if_neg (by omega), hk0]
        rfl
      · have h1 : (i + 1) * 1099 ≤ n := (Nat.lt_of_not_le hlast).le
        have hrest := ih (i + 1) h1 (by omega)
        have h2 : n - i * 1099 - min 1099 (n - i * 1099) = n - (i + 1) * 1099 := by omega
        have h3 : i * 1099 + min 1099 (n - i * 1099) = (i + 1) * 1099 := by omega
        rw [h2, h3, Nat.mod_eq_of_lt (h1.trans_lt hn), hrest]

/-- The loop gives the fragments of the frame in order, with no overflow. -/
theorem calculatePackets_eq (n : Nat) (hn : n < 2 ^ 32) :
    calculatePackets n 0 = (List.range (pieceCount 1099 n)).map (fragmentAt n) := by
  have h := calculatePackets_from n 0 hn (by omega)
  simpa [List.range_eq_range'] using h

/-! ## One call of `getPacket` -/

theorem getPacket_empty {size : Nat} (f : RtpFragmenter) (data : Block size UInt8)
    (length : Nat) (b : Bool) (h : f.fragmentQueue_ = []) :
    f.getPacket data length b = .ok { frag := f, data, length, lastPacket := b } := by
  simp [getPacket, h]

/-- A call that pops a fragment copies it and raises the flag at the last one. -/
theorem getPacket_pop {size : Nat} (f : RtpFragmenter) (data : Block size UInt8) (length : Nat)
    (test : Fragment) (rest : List Fragment) (h : f.fragmentQueue_ = test :: rest)
    (h1 : test.position + test.size ≤ f.totalLenth_) (h2 : test.size ≤ size)
    (h3 : test.size < 2 ^ 64) :
    f.getPacket data length false =
      .ok { frag := { f with fragmentQueue_ := rest }
            data := data.put 0 (f.totalData_.slice test.position test.size)
            length := test.size
            lastPacket := rest.isEmpty } := by
  have hc := memcpy_ok data f.totalData_ (p := 0) (q := test.position) h3 h1
    (by omega)
  have hw : f.writeFragment test data =
      .ok (data.put 0 (f.totalData_.slice test.position test.size), test.size) := by
    simp only [writeFragment, VP8, Bool.false_eq_true, if_false]
    rw [Nat.cast_zero] at hc
    rw [hc]
    rfl
  simp only [getPacket, h]
  rw [hw]
  cases rest <;> rfl

end payloader.rtp_fragmenter
