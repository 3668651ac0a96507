-- `TcpConnection` of TcpConnection.cpp with its handlers: what each of them
-- answers on the socket of the client, and which of them a request runs.
import Payloader.RtspReading
import Payloader.Printing
import Payloader.Streamer

set_option autoImplicit false

namespace payloader.rtsp_handlers

open payloader.memory payloader.machines payloader.c_strings payloader.printing
open payloader.streamer payloader.rtsp_parser payloader.rtsp_reading

/-- The whole object. The parser writes only the members of `TcpConnection`. -/
structure Connection extends TcpConnection where
  m_RtspSessionID : BitVec 32
  m_StreamID : Int
  buf_Date : Block 200 UInt8
  connected : Bool
  m_Streamer : Streamer

/-- The constructor, with the values of its two calls of `rand`, and with what
the memory held. -/
def Connection.init (rand1 rand2 : BitVec 32) (buf_Date : Block 200 UInt8)
    (m_Streamer : Streamer) : Connection :=
  { TcpConnection.init with
    m_RtspSessionID := rand1 <<< 16 ||| rand2 ||| 0x80000000
    m_StreamID := -1
    buf_Date
    connected := false
    m_Streamer }

/-- What a call of the handlers finds: the stack, the time, and the UDP ports
that no one else has. -/
structure World where
  l : Locals
  OBuf : Block 256 UInt8
  tm : Tm
  free : BitVec 16 → Bool

def Connection.DateHeader (c : Connection) (tm : Tm) : Connection :=
  { c with buf_Date := c.buf_Date.put 0 (strftime tm ++ [0]) }

/-! ## The texts -/

def optionsText (m_CSeq : List UInt8) : List UInt8 :=
  bytes "RTSP/1.0 200 OK\r\nCSeq: " ++ m_CSeq ++
    bytes "\r\nPublic: DESCRIBE, SETUP, TEARDOWN, PLAY, PAUSE\r\n\r\n"

def pauseText (m_CSeq buf_Date : List UInt8) (m_RtspSessionID : BitVec 32) : List UInt8 :=
  bytes "RTSP/1.0 200 OK\r\nCSeq: " ++ m_CSeq ++ bytes "\r\n" ++ buf_Date ++
    bytes "\r\nRange: npt=339.072020-\r\nSession: " ++ printInt m_RtspSessionID.toInt ++
    bytes "\r\n\r\n"

def notFoundText (m_CSeq buf_Date : List UInt8) : List UInt8 :=
  bytes "RTSP/1.0 404 Stream Not Found\r\nCSeq: " ++ m_CSeq ++ bytes "\r\n" ++ buf_Date ++
    bytes "\r\n"

def sdpText (OBuf : List UInt8) : List UInt8 :=
  bytes "v=0\r\no=- 0 0 IN IP4 " ++ OBuf ++
    bytes "\r\ns=Unnamed\r\nt=0 0\r\nm=video 0 RTP/AVP 96\r\nb=AS:1561\r\n" ++
    bytes "a=rtpmap:96 MP4V-ES/90000\r\na=fmtp:96 profile-level-id=1; config=" ++
    bytes "000001B0F5000001B509000001000000012008BC040687FFFF0AAD8B0218CA31" ++
    bytes "000001B25876694430303530\r\na=control:streamid=0\r\n"

def urlText (m_URLHostPort StreamName : List UInt8) : List UInt8 :=
  bytes "rtsp://" ++ m_URLHostPort ++ bytes "/" ++ StreamName

/-- `%d` prints the low half of a `size_t`. -/
def describeText (buf_Date URLBuf m_CSeq SDPBuf : List UInt8) : List UInt8 :=
  bytes "RTSP/1.0 200 OK\r\n" ++ buf_Date ++
    bytes "\r\nContent-Type: application/sdp\r\nContent-Base: " ++ URLBuf ++
    bytes "/\r\nContent-Length: " ++ printInt (BitVec.ofNat 32 SDPBuf.length).toInt ++
    bytes "\r\nCSeq: " ++ m_CSeq ++ bytes "\r\n\r\n" ++ SDPBuf

def transportText (clientRtp clientRtcp serverRtp serverRtcp : BitVec 16) : List UInt8 :=
  bytes "RTP/AVP/UDP;unicast;client_port=" ++ printInt clientRtp.toNat ++ bytes "-" ++
    printInt clientRtcp.toNat ++ bytes ";server_port=" ++ printInt serverRtp.toNat ++ bytes "-" ++
    printInt serverRtcp.toNat ++ bytes ";"

def setupText (m_CSeq buf_Date Transport : List UInt8) (m_RtspSessionID : BitVec 32) :
    List UInt8 :=
  bytes "RTSP/1.0 200 OK\r\nCSeq: " ++ m_CSeq ++ bytes "\r\n" ++ buf_Date ++
    bytes "\r\nTransport: " ++ Transport ++ bytes "\r\nSession: " ++
    printInt m_RtspSessionID.toInt ++ bytes ";\r\n\r\n"

def playText (m_CSeq buf_Date : List UInt8) (m_RtspSessionID : BitVec 32) : List UInt8 :=
  bytes "RTSP/1.0 200 OK\r\nCSeq: " ++ m_CSeq ++ bytes "\r\n" ++ buf_Date ++
    bytes "\r\nRTP-Info: url=rtsp://138.4.7.72:8554/ej/1/video;seq=12312232;rtptime=650" ++
    bytes "\r\nRange: npt=0.000-\r\nSession: " ++ printInt m_RtspSessionID.toInt ++
    bytes "\r\n\r\n"

/-! ## The handlers

Each gives the object, the sockets and the texts that it sends. -/

abbrev Answer := Connection × Host × List (List UInt8)

def Handle_RtspOPTION (c : Connection) (host : Host) : Except Fault Answer := do
  let m_CSeq ← cString c.m_CSeq 0
  .ok (c, host, [snprintf 1024 (optionsText m_CSeq)])

def Handle_RtspPAUSE (c : Connection) (host : Host) : Except Fault Answer := do
  let m_CSeq ← cString c.m_CSeq 0
  let buf_Date ← cString c.buf_Date 0
  .ok (c, host, [snprintf 1024 (pauseText m_CSeq buf_Date c.m_RtspSessionID)])

/-- The number of the stream that a path names, or -1. -/
def streamID (m_URLPreSuffix m_URLSuffix : List UInt8) : Int :=
  if m_URLPreSuffix = bytes "ej" ∧ m_URLSuffix = bytes "1" then 0
  else if m_URLPreSuffix = bytes "ej" ∧ m_URLSuffix = bytes "2" then 1
  else -1

/-- The host of a URL, copied to `OBuf` and cut at its port. -/
def hostOnly (OBuf : Block 256 UInt8) (m_URLHostPort : Block RTSP_BUFFER_SIZE UInt8) :
    Except Fault (List UInt8) := do
  let OBuf ← strcpy OBuf 0 m_URLHostPort 0
  match ← strstr OBuf 0 (bytes ":") with
  | none => cString OBuf 0
  | some ColonPtr => do
    let OBuf ← OBuf.store ColonPtr 0
    cString OBuf 0

def Handle_RtspDESCRIBE (OBuf : Block 256 UInt8) (c : Connection) (host : Host) :
    Except Fault Answer := do
  let c := { c with m_StreamID := streamID (← cString c.m_URLPreSuffix 0)
                                    (← cString c.m_URLSuffix 0) }
  let m_CSeq ← cString c.m_CSeq 0
  let buf_Date ← cString c.buf_Date 0
  if c.m_StreamID = -1 then
    .ok (c, host, [snprintf 1024 (notFoundText m_CSeq buf_Date)])
  else do
    let SDPBuf := snprintf 1024 (sdpText (← hostOnly OBuf c.m_URLHostPort))
    let StreamName := if c.m_StreamID = 0 then bytes "ej/1" else bytes "ej/2"
    let URLBuf := snprintf 1024 (urlText (← cString c.m_URLHostPort 0) StreamName)
    .ok (c, host, [snprintf 1024 (describeText buf_Date URLBuf m_CSeq SDPBuf)])

/-- The answer is inside the branch for UDP. -/
def Handle_RtspSETUP (free : BitVec 16 → Bool) (c : Connection) (host : Host) :
    Except Fault Answer := do
  let (s, host) ←
    c.m_Streamer.InitTransport free host c.m_ClientRTPPort c.m_ClientRTCPPort c.m_TcpTransport
  let c := { c with m_Streamer := s }
  if c.m_TcpTransport then .ok (c, host, [])
  else do
    let Transport := snprintf 255 (transportText c.m_ClientRTPPort c.m_ClientRTCPPort
      c.m_Streamer.m_RtpServerPort c.m_Streamer.m_RtcpServerPort)
    let m_CSeq ← cString c.m_CSeq 0
    let buf_Date ← cString c.buf_Date 0
    .ok (c, host, [snprintf 1024 (setupText m_CSeq buf_Date Transport c.m_RtspSessionID)])

def Handle_RtspPLAY (c : Connection) (host : Host) : Except Fault Answer := do
  let m_CSeq ← cString c.m_CSeq 0
  let buf_Date ← cString c.buf_Date 0
  .ok ({ c with connected := true }, host,
    [snprintf 1024 (playText m_CSeq buf_Date c.m_RtspSessionID)])

/-! ## Requests -/

/-- The `switch`. There is no handler for `TEARDOWN`. -/
def handle (w : World) (c : Connection) (host : Host) : Except Fault Answer :=
  match c.m_RtspCmdType with
  | .RTSP_OPTIONS => Handle_RtspOPTION c host
  | .RTSP_DESCRIBE => Handle_RtspDESCRIBE w.OBuf c host
  | .RTSP_SETUP => Handle_RtspSETUP w.free c host
  | .RTSP_PLAY => Handle_RtspPLAY c host
  | .RTSP_PAUSE => Handle_RtspPAUSE c host
  | _ => .ok (c, host, [])

/-- The command whose handler the `switch` runs. -/
def handlerOf : RTSP_CMD_TYPES → Option RTSP_CMD_TYPES
  | .RTSP_TEARDOWN => none
  | .RTSP_UNKNOWN => none
  | type => some type

/-- What a call of `Handle_RtspRequest` leaves: its result `C`, whether the
request was parsed, the handler that ran, and the texts that were sent. -/
structure Handled where
  C : RTSP_CMD_TYPES
  parsed : Bool
  handler : Option RTSP_CMD_TYPES
  c : Connection
  host : Host
  sent : List (List UInt8)

def Handle_RtspRequest [Libc] {size : Nat} (w : World) (c : Connection) (host : Host)
    (aRequest : Block size UInt8) (aRequestSize : Nat) : Except Fault Handled := do
  let (parsed, p) ← ParseRtspRequest TURNS c.toTcpConnection w.l aRequest aRequestSize
  let c := { c with toTcpConnection := p }
  if parsed then do
    let c := c.DateHeader w.tm
    let handler := handlerOf c.m_RtspCmdType
    let (c, host, sent) ← handle w c host
    .ok { C := c.m_RtspCmdType, parsed, handler, c, host, sent }
  else
    .ok { C := c.m_RtspCmdType, parsed, handler := none, c, host, sent := [] }

end payloader.rtsp_handlers
