-- What a request says, as the parser reads it. Nothing here depends on the
-- session: a reading is a function of the request and of the stack memory
-- that lies after it, and what the session holds afterwards is the reading
-- stored over what it held before.
import Payloader.RtspParser

set_option autoImplicit false

namespace payloader.rtsp_reading

open payloader.memory payloader.machines payloader.c_strings payloader.rtsp_parser

/-- Turns enough for each loop of the parser. -/
def TURNS : Nat := 10202

/-! ## Searches in a text -/

/-- The tests hold at the start of a text. -/
def holdsAt : List (UInt8 → Bool) → List UInt8 → Bool
  | [], _ => true
  | _ :: _, [] => false
  | test :: tests, x :: xs => test x && holdsAt tests xs

/-- The first place from `lo` on and before `hi` where the tests hold. -/
def firstIn (tests : List (UInt8 → Bool)) (text : List UInt8) (lo hi : Nat) : Option Nat :=
  (List.range' lo (hi - lo)).find? (fun j => holdsAt tests (text.drop j))

def isBlank (x : UInt8) : Bool := x = ch ' ' ∨ x = ch '\t'

/-- The first place from `j` on with no blank. -/
def pastBlanks (text : List UInt8) (j : Nat) : Nat :=
  j + ((text.drop j).takeWhile isBlank).length

/-- Where the text before `k` ends without its last spaces, and no sooner
than `i`. -/
def trimmed (text : List UInt8) (i : Nat) : Nat → Nat
  | 0 => 0
  | k + 1 => if i ≤ k ∧ text.getD k 0 = ch ' ' then trimmed text i k else k + 1

/-- The last slash after `i` and up to `k`, or else `i`. -/
def lastSlash (text : List UInt8) (i : Nat) : Nat → Nat
  | 0 => 0
  | k + 1 => if i < k + 1 ∧ text.getD (k + 1) 0 ≠ ch '/' then lastSlash text i k else k + 1

/-- The bytes from `a` on and before `b`. -/
def part (text : List UInt8) (a b : Nat) : List UInt8 := (text.take b).drop a

/-! ## The parts of a request -/

/-- The bytes before the first blank, as far as the array for them goes. -/
def nameIn (text : List UInt8) : List UInt8 :=
  (text.take (RTSP_PARAM_STRING_MAX - 1)).takeWhile (fun x => !isBlank x)

/-- A blank ends the command name. -/
def hasName (text : List UInt8) : Prop :=
  (nameIn text).length < (text.take (RTSP_PARAM_STRING_MAX - 1)).length

instance (text : List UInt8) : Decidable (hasName text) := inferInstanceAs (Decidable (_ < _))

/-- The known commands, in the order in which the parser looks for them. -/
def commands : List (List UInt8 × RTSP_CMD_TYPES) :=
  [(bytes "OPTIONS", .RTSP_OPTIONS), (bytes "DESCRIBE", .RTSP_DESCRIBE),
   (bytes "SETUP", .RTSP_SETUP), (bytes "PLAY", .RTSP_PLAY), (bytes "PAUSE", .RTSP_PAUSE),
   (bytes "TEARDOWN", .RTSP_TEARDOWN)]

/-- The first known command that a name holds anywhere in it. -/
def commandIn (name : List UInt8) : Option RTSP_CMD_TYPES :=
  (commands.find? (fun p => (find p.1 name).isSome)).map (·.2)

/-- The host and the port of an `rtsp://` URL, and the cursor after it. -/
def urlIn (text : List UInt8) (i : Nat) : Option (List UInt8) × Nat :=
  match firstIn rtspScheme text (pastBlanks text (i + 1)) (text.length - 8) with
  | none => (none, i)
  | some j =>
    if text.getD (j + 6) 0 = ch '/' then
      let host := (text.drop (j + 7)).takeWhile (fun x => decide (x ≠ ch '/' ∧ x ≠ ch ' '))
      (some host, j + 7 + host.length)
    else (none, j + 5)

/-- What the phase after the URL reads: the part of the path after its last
slash, and then the part before it with the cursor after the path. -/
structure Path where
  suffix : List UInt8
  rest : Option (List UInt8 × Nat)

/-- Only from a cursor at the first byte does the phase leave its arrays. -/
def pathIn (text : List UInt8) (i : Nat) : Except Fault (Option Path) :=
  match firstIn (exactly (bytes "RTSP/")) text (i + 1) (text.length - 5) with
  | none => .ok none
  | some version =>
    let stop := trimmed text i version
    if stop = 0 then .error .read
    else
      let k := stop - 1
      let k1 := lastSlash text i k
      if k - k1 + 1 > RTSP_PARAM_STRING_MAX then .ok none
      else
        let suffix := part text (k1 + 1) (k + 1)
        -- `k1 - i` wraps when only spaces come before the version
        if k1 < i ∨ k1 - i > RTSP_PARAM_STRING_MAX then .ok (some ⟨suffix, none⟩)
        else if k1 = 0 then .error .write
        else .ok (some ⟨suffix, some (part text (i + 1) k1, k + 7)⟩)

/-- The value of the first `CSeq:`, and whether the line ends after it. -/
def seqIn (text : List UInt8) (i : Nat) : Option (List UInt8 × Bool) :=
  (firstIn (exactly (bytes "CSeq:")) text i (text.length - 5)).map (fun j =>
    let line := (text.drop (pastBlanks text (j + 5))).take (RTSP_PARAM_STRING_MAX - 1)
    let value := line.takeWhile (fun x => decide (¬ (x = ch '\r' ∨ x = ch '\n')))
    (value, decide (value.length < line.length)))

/-- Where the numbers after each `Content-Length:` start, from `j` on and for
at most `fuel` bytes. -/
def numberStarts (text : List UInt8) : Nat → Nat → List Nat
  | 0, _ => []
  | fuel + 1, j =>
    if j + 15 < text.length then
      if holdsAt contentLengthName (text.drop j) then
        pastBlanks text (j + 15) :: numberStarts text fuel (pastBlanks text (j + 15) + 1)
      else numberStarts text fuel (j + 1)
    else []

/-! ## The reading of a request -/

/-- What the parser takes from a request. A part that it does not reach or does
not find is missing. -/
structure Reading where
  ports : Option (BitVec 16) := none
  command : Option RTSP_CMD_TYPES := none
  tcp : Option Bool := none
  host : Option (List UInt8) := none
  suffix : Option (List UInt8) := none
  preSuffix : Option (List UInt8) := none
  seq : Option (List UInt8) := none
  numbers : List (Option (BitVec 32)) := []
  accepted : Bool := false
  deriving DecidableEq

/-- The port between `=` and `-` in a line. -/
def portOf [Libc] (line : List UInt8) : Option (BitVec 16) :=
  match find (bytes "=") line with
  | none => none
  | some x =>
    let value := copiedDown line (x + 1)
    (find (bytes "-") value).map (fun y => (atoi (value.take y)).setWidth 16)

/-- The port in the line of the first `client_port`, and where that line ends.
The copy of the line may leave its array. -/
def portsIn [Libc] (text : List UInt8) : Except Fault (Option (BitVec 16) × Option Nat) :=
  match find (bytes "client_port") text with
  | none => .ok (none, none)
  | some q =>
    match find (bytes "\r\n") (text.drop q) with
    | none => .ok (none, none)
    | some d =>
      if d < 1024 then .ok (portOf ((text.drop q).take d), some (q + d)) else .error .write

/-- The request with a NUL at the end of a line. -/
def endLine (CurRequest : Request) : Option Nat → Request
  | none => CurRequest
  | some p => CurRequest.put p [0]

/-- The port, and the request as the phases after it see it. -/
def readPorts [Libc] (CurRequest : Request) : Except Fault (Option (BitVec 16) × Request) := do
  let (ports, stop) ← portsIn (← cString CurRequest 0)
  .ok (ports, endLine CurRequest stop)

/-- The text of a block from `off` on, up to its first NUL. -/
def textAt {size : Nat} (b : Block size UInt8) (off : Nat) : List UInt8 :=
  (b.slice off (size - off)).takeWhile (· ≠ 0)

/-- The text that `strstr` finds in a `SETUP` over TCP. -/
def isTcp (text : List UInt8) : Bool := (find (bytes "RTP/AVP/TCP") text).isSome

/-- The reading of a request once its ports are read. -/
def readParts (ports : Option (BitVec 16)) (tcp : Bool)
    (number : Nat → Except Fault (Option (BitVec 32))) (text : List UInt8) :
    Except Fault Reading :=
  if hasName text then do
    let (host, i) := urlIn text (nameIn text).length
    let r : Reading :=
      { ports, command := commandIn (upToNul (nameIn text) 0), tcp := some tcp, host }
    match ← pathIn text i with
    | none => .ok r
    | some ⟨suffix, none⟩ => .ok { r with suffix := some suffix }
    | some ⟨suffix, some (preSuffix, i)⟩ =>
      let r := { r with suffix := some suffix, preSuffix := some preSuffix }
      match seqIn text i with
      | none => .ok r
      | some (seq, false) => .ok { r with seq := some seq }
      | some (seq, true) => do
        let numbers ← (numberStarts text (text.length + 1) i).mapM number
        .ok { r with seq := some seq, numbers, accepted := true }
  else .ok { ports }

/-- The reading of the first `n` bytes of a buffer. -/
def readBuffer [Libc] (CurRequest : Request) (n : Nat) : Except Fault Reading := do
  let (ports, CurRequest) ← readPorts CurRequest
  readParts ports (isTcp (textAt CurRequest 0)) (number CurRequest) (CurRequest.slice 0 n)

/-- The reading of a request, from the stack memory that it is copied into. -/
def reading [Libc] {size : Nat} (l : Locals) (aRequest : Block size UInt8) (aRequestSize : Nat) :
    Except Fault Reading := do
  readBuffer (← l.CurRequest.memcpy 0 aRequest 0 aRequestSize) aRequestSize

/-- The text with a NUL at the end of a line. -/
def endText (text : List UInt8) : Option Nat → List UInt8
  | none => text
  | some p => text.set p 0

/-- The reading of a request that has a NUL right after it. -/
def readText [Libc] (text : List UInt8) : Except Fault Reading := do
  let (ports, stop) ← portsIn (upToNul text 0)
  let text := endText text stop
  readParts ports (isTcp (upToNul text 0)) (fun j => .ok (sscanf_u (upToNul text j))) text

/-! ## Storing a reading -/

/-- A part with its NUL, at the start of its array. -/
def putPart {size : Nat} (b : Block size UInt8) : Option (List UInt8) → Block size UInt8
  | none => b
  | some text => b.put 0 (text ++ [0])

def putPorts (c : TcpConnection) : Option (BitVec 16) → TcpConnection
  | none => c
  | some port => { c with m_ClientRTPPort := port, m_ClientRTCPPort := port + 1 }

/-- Every number that was there is stored, so the last one stays. -/
def lastNumber (old : BitVec 32) (numbers : List (Option (BitVec 32))) : BitVec 32 :=
  numbers.foldl (fun old number => number.getD old) old

/-- The command type after the request, from the one before it. -/
def Reading.type (r : Reading) (old : RTSP_CMD_TYPES) : RTSP_CMD_TYPES := r.command.getD old

/-- Only a `SETUP` sets the transport. -/
def setTransport (type : RTSP_CMD_TYPES) (tcp : Option Bool) (old : Bool) : Bool :=
  if type = .RTSP_SETUP then tcp.getD old else old

/-- The members after the request. The host is stored without a NUL. -/
def Reading.store (r : Reading) (c : TcpConnection) : TcpConnection :=
  { putPorts c r.ports with
    m_RtspCmdType := r.type c.m_RtspCmdType
    m_TcpTransport := setTransport (r.type c.m_RtspCmdType) r.tcp c.m_TcpTransport
    m_URLHostPort := c.m_URLHostPort.put 0 (r.host.getD [])
    m_URLSuffix := putPart c.m_URLSuffix r.suffix
    m_URLPreSuffix := putPart c.m_URLPreSuffix r.preSuffix
    m_CSeq := putPart c.m_CSeq r.seq
    m_ContentLength := lastNumber c.m_ContentLength r.numbers }

end payloader.rtsp_reading
