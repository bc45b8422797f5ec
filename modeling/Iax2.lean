import Iax2.Lib.Table
import Iax2.Lib.Run
import Iax2.Lib.Bytes
import Iax2.Lib.Serial
import Iax2.Lib.Nearest
import Iax2.Lib.Sessions
import Iax2.Lib.Ordered
import Iax2.Lib.Ledger
import Iax2.Lib.Rotation
import Iax2.Lib.Blocks
import Iax2.Consts
import Iax2.Ie
import Iax2.Frame
import Iax2.Client.Leg
import Iax2.Client.Call
import Iax2.Client.State
import Iax2.Client.Input
import Iax2.Client.Run
import Iax2.Laws.Wire
import Iax2.Laws.Step
import Iax2.Laws.Store
import Iax2.Laws.CallState
import Iax2.Laws.Window
import Iax2.Laws.Registration
import Iax2.Laws.Reliable
import Iax2.Laws.Index
import Iax2.Laws.Repeats
import Iax2.Laws.Numbering
import Iax2.Laws.Acks
import Iax2.Laws.Sessions
import Iax2.Laws.Isolation
import Iax2.Laws.Sequence
import Iax2.Laws.Cumulative
import Iax2.Laws.Timers
import Iax2.Laws.Retransmission
import Iax2.Laws.Codec
import Iax2.Laws.Elements
import Iax2.Laws.Handshake
import Iax2.Laws.Secret
import Iax2.Laws.Voice
import Iax2.Laws.VoiceTime
import Iax2.Laws.VoicePair
import Iax2.Jitter
import Iax2.Laws.Jitter
import Iax2.Laws.Playout
import Iax2.Laws.Outcomes
import Iax2.Laws.Conservation
import Iax2.Softphone
import Iax2.Laws.Events
import Iax2.Laws.Softphone
import Iax2.Laws.AnswerKey
import Iax2.Laws.Allocation
import Iax2.Laws.Replies
import Iax2.Laws.Request
import Iax2.Resample
import Iax2.Laws.Resample
import Iax2.Lib.Companding
import Iax2.Lib.DropOldest
import Iax2.G711
import Iax2.Laws.G711
import Iax2.Audio
import Iax2.Laws.Audio
import Iax2.Phone
import Iax2.Laws.Phone
import Iax2.Laws.Heard
import Iax2.Lib.Text
import Iax2.Lib.Sections
import Iax2.Accounts
import Iax2.Laws.Accounts
import Iax2.Laws.Origin
import Iax2.Network
import Iax2.Laws.Network
import Iax2.Conversation
import Iax2.Laws.Conversation
import Iax2.Lib.Retry
import Iax2.Regdaemon
import Iax2.Laws.Regdaemon
import Iax2.Laws.Renewal
import Iax2.Laws.Answering
