-- `ParseRtspRequest` of TcpConnection.cpp, phase by phase. The cursors are 32
-- bits wide and wrap, and where the source casts a cursor to `int` the model
-- does too. A phase that fails leaves what it has written so far.
import Payloader.CStrings
import Payloader.Machines

set_option autoImplicit false

namespace payloader.rtsp_parser

open payloader.memory payloader.machines payloader.c_strings

def RTSP_BUFFER_SIZE : Nat := 10000

def RTSP_PARAM_STRING_MAX : Nat := 200

inductive RTSP_CMD_TYPES
  | RTSP_OPTIONS
  | RTSP_DESCRIBE
  | RTSP_SETUP
  | RTSP_PLAY
  | RTSP_TEARDOWN
  | RTSP_PAUSE
  | RTSP_UNKNOWN
  deriving DecidableEq, Repr

/-- The members that the parser writes. -/
structure TcpConnection where
  m_RtspCmdType : RTSP_CMD_TYPES
  m_ClientRTPPort : BitVec 16
  m_ClientRTCPPort : BitVec 16
  m_TcpTransport : Bool
  m_URLPreSuffix : Block RTSP_PARAM_STRING_MAX UInt8
  m_URLSuffix : Block RTSP_PARAM_STRING_MAX UInt8
  m_CSeq : Block RTSP_PARAM_STRING_MAX UInt8
  m_URLHostPort : Block RTSP_BUFFER_SIZE UInt8
  m_ContentLength : BitVec 32

/-- The constructor. -/
def TcpConnection.init : TcpConnection :=
  { m_RtspCmdType := .RTSP_UNKNOWN
    m_ClientRTPPort := 0
    m_ClientRTCPPort := 0
    m_TcpTransport := false
    m_URLPreSuffix := Block.ofList [] 0
    m_URLSuffix := Block.ofList [] 0
    m_CSeq := Block.ofList [] 0
    m_URLHostPort := Block.ofList [] 0
    m_ContentLength := 0 }

/-- The local arrays, with what the stack held. -/
structure Locals where
  CmdName : Block RTSP_PARAM_STRING_MAX UInt8
  CurRequest : Block RTSP_BUFFER_SIZE UInt8
  CP : Block 1024 UInt8

/-! ## Cursors -/

/-- `++j` and `--j` for an `unsigned`. -/
def inc (j : Nat) : Nat := (j + 1) % 2 ^ 32

def dec (j : Nat) : Nat := (j + (2 ^ 32 - 1)) % 2 ^ 32

/-- `a - b` for two `unsigned`. -/
def minus (a b : Nat) : Nat := (a + (2 ^ 32 - b % 2 ^ 32)) % 2 ^ 32

/-- `(int)j` for an `unsigned`. -/
def toInt (j : Nat) : Int := if j < 2 ^ 31 then j else (j : Int) - 2 ^ 32

/-! ## The loops that the phases share -/

abbrev Request := Block RTSP_BUFFER_SIZE UInt8

-- The phases that go by an index take a request of any capacity, so that one
-- with only `CurRequestSize` cells shows which bytes they read. The phase of the
-- ports does too, so that a full request can have a NUL right after it.
variable {cap : Nat}

/-- `CurRequest[j] == .. && CurRequest[j+1] == .. && ..`, with no read after
the first byte that does not match. -/
def matchAt (CurRequest : Block cap UInt8) (j : Nat) : List (UInt8 → Bool) → Except Fault Bool
  | [] => .ok true
  | test :: tests => do
    let c ← CurRequest.load j
    if test c then matchAt CurRequest (inc j) tests else .ok false

/-- The tests for one text, byte by byte. -/
def exactly (text : List UInt8) : List (UInt8 → Bool) := text.map (fun c x => x == c)

/-- The test for one letter in either case. -/
def either (lower upper : Char) (x : UInt8) : Bool := x == ch lower || x == ch upper

/-- `for (; (int)j < (int)(CurRequestSize - ahead); ++j)` up to the first match. -/
def scan (fuel : Nat) (CurRequest : Block cap UInt8) (CurRequestSize ahead : Nat)
    (tests : List (UInt8 → Bool)) (j : Nat) : Except Fault (Option Nat) :=
  loop (fun j =>
    if toInt j < toInt (minus CurRequestSize ahead) then do
      if ← matchAt CurRequest j tests then .ok (.leave (some j)) else .ok (.next (inc j))
    else .ok (.leave none)) fuel j

/-- Skips blanks and tabs. -/
def skipBlanks (fuel : Nat) (CurRequest : Block cap UInt8) (CurRequestSize j : Nat) :
    Except Fault Nat :=
  loop (fun j =>
    if j < CurRequestSize then do
      let c ← CurRequest.load j
      if c = ch ' ' ∨ c = ch '\t' then .ok (.next (inc j)) else .ok (.leave j)
    else .ok (.leave j)) fuel j

/-- What a copy loop leaves behind: how it stopped, its two cursors, and the
block that it wrote. -/
structure Copied (size : Nat) (β : Type) where
  verdict : β
  n : Nat
  k : Nat
  dst : Block size UInt8

/-- `dst[n++] = CurRequest[k++]`, as long as `stop` gives nothing. -/
def copyBytes {size : Nat} {β : Type} (fuel : Nat) (CurRequest : Block cap UInt8)
    (stop : Nat → Nat → Except Fault (Option β)) (dst : Block size UInt8) (n k : Nat) :
    Except Fault (Copied size β) :=
  loop (fun s : Nat × Nat × Block size UInt8 => do
    match ← stop s.1 s.2.1 with
    | some verdict => .ok (.leave { verdict, n := s.1, k := s.2.1, dst := s.2.2 })
    | none => do
      let c ← CurRequest.load s.2.1
      let dst ← s.2.2.store s.1 c
      .ok (.next (inc s.1, inc s.2.1, dst))) fuel (n, k, dst)

/-! ## The phases -/

/-- The port between `=` and `-` in the copy of a line. -/
def portInLine [Libc] (CP : Block 1024 UInt8) : Except Fault (Option (BitVec 16)) := do
  match ← strstr CP 0 (bytes "=") with
  | none => .ok none
  | some pCP =>
    let CP ← strcpyDown CP (pCP + 1)
    match ← strstr CP 0 (bytes "-") with
    | none => .ok none
    | some pCP =>
      let CP ← CP.store pCP 0
      .ok (some ((atoi (← cString CP 0)).setWidth 16))

/-- The ports of a `client_port` parameter. The end of its line becomes a NUL
in the request itself. -/
def clientPort [Libc] (c : TcpConnection) (CurRequest : Block cap UInt8) (CP : Block 1024 UInt8) :
    Except Fault (TcpConnection × Block cap UInt8) := do
  match ← strstr CurRequest 0 (bytes "client_port") with
  | none => .ok (c, CurRequest)
  | some ClientPortPtr =>
    match ← strstr CurRequest ClientPortPtr (bytes "\r\n") with
    | none => .ok (c, CurRequest)
    | some TmpPtr =>
      let CurRequest ← CurRequest.store TmpPtr 0
      let CP ← strcpy CP 0 CurRequest ClientPortPtr
      match ← portInLine CP with
      | none => .ok (c, CurRequest)
      | some port =>
        .ok ({ c with m_ClientRTPPort := port, m_ClientRTCPPort := port + 1 }, CurRequest)

/-- Everything up to the first blank. Gives whether there is one, where it is,
and the name. -/
def commandName (fuel : Nat) (CurRequest : Block cap UInt8) (CurRequestSize : Nat)
    (CmdName : Block RTSP_PARAM_STRING_MAX UInt8) :
    Except Fault (Bool × Nat × Block RTSP_PARAM_STRING_MAX UInt8) := do
  let r ← copyBytes fuel CurRequest (fun i _ =>
    if i < RTSP_PARAM_STRING_MAX - 1 ∧ i < CurRequestSize then do
      let c ← CurRequest.load i
      .ok (if c = ch ' ' ∨ c = ch '\t' then some true else none)
    else .ok (some false)) CmdName 0 0
  let CmdName ← r.dst.store r.n 0
  .ok (r.verdict, r.n, CmdName)

/-- A name that holds no known command leaves the type of the last request. -/
def commandType (c : TcpConnection) (CmdName : Block RTSP_PARAM_STRING_MAX UInt8) :
    Except Fault TcpConnection := do
  let name ← cString CmdName 0
  .ok
    (if (find (bytes "OPTIONS") name).isSome then { c with m_RtspCmdType := .RTSP_OPTIONS }
    else if (find (bytes "DESCRIBE") name).isSome then { c with m_RtspCmdType := .RTSP_DESCRIBE }
    else if (find (bytes "SETUP") name).isSome then { c with m_RtspCmdType := .RTSP_SETUP }
    else if (find (bytes "PLAY") name).isSome then { c with m_RtspCmdType := .RTSP_PLAY }
    else if (find (bytes "PAUSE") name).isSome then { c with m_RtspCmdType := .RTSP_PAUSE }
    else if (find (bytes "TEARDOWN") name).isSome then { c with m_RtspCmdType := .RTSP_TEARDOWN }
    else c)

def transport (c : TcpConnection) (CurRequest : Request) : Except Fault TcpConnection :=
  if c.m_RtspCmdType = .RTSP_SETUP then do
    let TmpPtr ← strstr CurRequest 0 (bytes "RTP/AVP/TCP")
    .ok { c with m_TcpTransport := TmpPtr.isSome }
  else .ok c

/-- The tests for `rtsp:/` with the first four letters in either case. -/
def rtspScheme : List (UInt8 → Bool) :=
  [either 'r' 'R', either 't' 'T', either 's' 'S', either 'p' 'P'] ++ exactly (bytes ":/")

/-- The host and the port of an `rtsp://` URL. No NUL is put after them. Gives
the cursor `i` for the next phase. -/
def hostPort (fuel : Nat) (c : TcpConnection) (CurRequest : Block cap UInt8)
    (CurRequestSize i : Nat) : Except Fault (TcpConnection × Nat) := do
  let j ← skipBlanks fuel CurRequest CurRequestSize (inc i)
  match ← scan fuel CurRequest CurRequestSize 8 rtspScheme j with
  | none => .ok (c, i)
  | some j =>
    let j := (j + 6) % 2 ^ 32
    if (← CurRequest.load j) = ch '/' then do
      let r ← copyBytes fuel CurRequest (fun _ j =>
        if j < CurRequestSize then do
          let x ← CurRequest.load j
          .ok (if x ≠ ch '/' ∧ x ≠ ch ' ' then none else some ())
        else .ok (some ())) c.m_URLHostPort 0 (inc j)
      .ok ({ c with m_URLHostPort := r.dst }, r.k)
    else .ok (c, dec j)

/-- Back over the blanks before `RTSP/`. -/
def backBlanks (fuel : Nat) (CurRequest : Block cap UInt8) (i k : Nat) : Except Fault Nat :=
  loop (fun k =>
    if dec k ≥ i then do
      let x ← CurRequest.load (dec k)
      if x = ch ' ' then .ok (.next (dec k)) else .ok (.leave (dec k))
    else .ok (.leave (dec k))) fuel k

/-- Back to the last slash of the path. -/
def backToSlash (fuel : Nat) (CurRequest : Block cap UInt8) (i k1 : Nat) : Except Fault Nat :=
  loop (fun k1 =>
    if k1 > i then do
      let x ← CurRequest.load k1
      if x ≠ ch '/' then .ok (.next (dec k1)) else .ok (.leave k1)
    else .ok (.leave k1)) fuel k1

/-- The part of the path after the last slash, and the part before it. Gives
the cursor `i` for the next phase, or nothing when the request is refused. -/
def urlSuffix (fuel : Nat) (c : TcpConnection) (CurRequest : Block cap UInt8)
    (CurRequestSize i : Nat) : Except Fault (TcpConnection × Option Nat) := do
  match ← scan fuel CurRequest CurRequestSize 5 (exactly (bytes "RTSP/")) (inc i) with
  | none => .ok (c, none)
  | some k =>
    let k ← backBlanks fuel CurRequest i k
    let k1 ← backToSlash fuel CurRequest i k
    if inc (minus k k1) > RTSP_PARAM_STRING_MAX then .ok (c, none)
    else do
      let suffix ← copyBytes fuel CurRequest
        (fun _ k2 => .ok (if k2 ≤ k then none else some ())) c.m_URLSuffix 0 (inc k1)
      let c := { c with m_URLSuffix := ← suffix.dst.store suffix.n 0 }
      if minus k1 i > RTSP_PARAM_STRING_MAX then .ok (c, none)
      else do
        let preSuffix ← copyBytes fuel CurRequest
          (fun _ k2 => .ok (if k2 ≤ dec k1 then none else some ())) c.m_URLPreSuffix 0 (inc i)
        let c := { c with m_URLPreSuffix := ← preSuffix.dst.store preSuffix.n 0 }
        .ok (c, some ((k + 7) % 2 ^ 32))

/-- The rest of the line after `CSeq:` and its blanks. Gives whether the end of
the line was reached. -/
def cSeq (fuel : Nat) (c : TcpConnection) (CurRequest : Block cap UInt8)
    (CurRequestSize i : Nat) : Except Fault (TcpConnection × Bool) := do
  match ← scan fuel CurRequest CurRequestSize 5 (exactly (bytes "CSeq:")) i with
  | none => .ok (c, false)
  | some j =>
    let j ← skipBlanks fuel CurRequest CurRequestSize ((j + 5) % 2 ^ 32)
    let r ← copyBytes fuel CurRequest (fun n j =>
      if n < RTSP_PARAM_STRING_MAX - 1 ∧ j < CurRequestSize then do
        let x ← CurRequest.load j
        .ok (if x = ch '\r' ∨ x = ch '\n' then some true else none)
      else .ok (some false)) c.m_CSeq 0 j
    .ok ({ c with m_CSeq := ← r.dst.store r.n 0 }, r.verdict)

/-- The tests for `Content-Length:` with either case of the second word. -/
def contentLengthName : List (UInt8 → Bool) :=
  exactly (bytes "Content-") ++ either 'L' 'l' :: exactly (bytes "ength:")

/-- The scan for every `Content-Length:`. What `number` reads after its blanks
is stored, so the last one stays. -/
def contentLengths (number : Nat → Except Fault (Option (BitVec 32))) (fuel : Nat)
    (c : TcpConnection) (CurRequest : Block cap UInt8) (CurRequestSize i : Nat) :
    Except Fault TcpConnection :=
  loop (fun s : Nat × TcpConnection =>
    if toInt s.1 < toInt (minus CurRequestSize 15) then do
      if ← matchAt CurRequest s.1 contentLengthName then do
        let j ← skipBlanks fuel CurRequest CurRequestSize ((s.1 + 15) % 2 ^ 32)
        match ← number j with
        | some num => .ok (.next (inc j, { s.2 with m_ContentLength := num }))
        | none => .ok (.next (inc j, s.2))
      else .ok (.next (inc s.1, s.2))
    else .ok (.leave s.2)) fuel (i, c)

/-- `sscanf(&CurRequest[j], "%u", &num)`. -/
def number (CurRequest : Block cap UInt8) (j : Nat) : Except Fault (Option (BitVec 32)) := do
  .ok (sscanf_u (← cString CurRequest j))

def contentLength (fuel : Nat) (c : TcpConnection) (CurRequest : Request)
    (CurRequestSize i : Nat) : Except Fault TcpConnection :=
  contentLengths (number CurRequest) fuel c CurRequest CurRequestSize i

/-- Gives whether the request was accepted, and the members as they are then. -/
def ParseRtspRequest [Libc] {size : Nat} (fuel : Nat) (c : TcpConnection) (l : Locals)
    (aRequest : Block size UInt8) (aRequestSize : Nat) : Except Fault (Bool × TcpConnection) := do
  let CurRequest ← l.CurRequest.memcpy 0 aRequest 0 aRequestSize
  let (c, CurRequest) ← clientPort c CurRequest l.CP
  let (parseSucceeded, i, CmdName) ← commandName fuel CurRequest aRequestSize l.CmdName
  if parseSucceeded = false then .ok (false, c)
  else do
    let c ← commandType c CmdName
    let c ← transport c CurRequest
    let (c, i) ← hostPort fuel c CurRequest aRequestSize i
    let (c, i) ← urlSuffix fuel c CurRequest aRequestSize i
    match i with
    | none => .ok (false, c)
    | some i =>
      let (c, parseSucceeded) ← cSeq fuel c CurRequest aRequestSize i
      if parseSucceeded = false then .ok (false, c)
      else do
        let c ← contentLength fuel c CurRequest aRequestSize i
        .ok (true, c)

end payloader.rtsp_parser
