import Payloader.PackagerLaws
import Payloader.UnpackagerLaws
import Payloader.UnpackagerFrames
import Payloader.RtpSessionLaws
import Payloader.SenderShutdown
import Payloader.Receiver
import Payloader.RtspRequest
import Payloader.RtspBounds
import Payloader.RtspStack
import Payloader.RtspHistory
import Payloader.RtspAnswers
import Payloader.RtspSequence
import Payloader.RtspReplies
import Payloader.SessionThread
import Payloader.SessionPieces
import Payloader.SessionEvents
import Payloader.SessionTarget
import Payloader.SessionSockets
import Payloader.AcceptLoop
import Payloader.RtpFields
import Payloader.RtcpFields
import Payloader.PackedFields
import Payloader.RembBitRate
import Payloader.RtcpUnion
import Payloader.FragmenterLaws
import Payloader.RtspPorts
import Payloader.RtspDescribe
import Payloader.PeventsLaws
import Payloader.SessionProgram
import Payloader.StreamLaws
