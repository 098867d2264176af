import NymphMqtt.Library.Base128
import NymphMqtt.Library.Base256
import NymphMqtt.ByteBauble
import NymphMqtt.Message
import NymphMqtt.Library.LoggedReader
import NymphMqtt.MessageParse
import NymphMqtt.MessageVerdict
import NymphMqtt.MessageParseOutcome
import NymphMqtt.MessageSerialize
import NymphMqtt.MessageRoundTrip
import NymphMqtt.Receive
import NymphMqtt.ReceiveFraming
import NymphMqtt.ReceiveAcceptance
import NymphMqtt.StreamReading
import NymphMqtt.PacketFraming
import NymphMqtt.PackedLength
import NymphMqtt.PackedReading
import NymphMqtt.MessageByteOrder
import NymphMqtt.HeaderDecoding
import NymphMqtt.HeaderAgreement
import NymphMqtt.ConnectEncoding
import NymphMqtt.ConnectDecoding
import NymphMqtt.AcceptedPackets
import NymphMqtt.SubscribeEncoding
import NymphMqtt.SerializeRepeat
import NymphMqtt.ParseHistory
import NymphMqtt.BodyReassembly
import NymphMqtt.Library.Transition
import NymphMqtt.Library.Splice
import NymphMqtt.Library.Precedence
import NymphMqtt.Library.OrderedMap
import NymphMqtt.Dispatcher
import NymphMqtt.DispatcherCustody
import NymphMqtt.DispatcherProgress
import NymphMqtt.LockedDispatcher
import NymphMqtt.DeliveryOrder
import NymphMqtt.ChronoTrigger
import NymphMqtt.ServerConnections
import NymphMqtt.ServerHandles
import NymphMqtt.Server
import NymphMqtt.ServerAnswers
import NymphMqtt.SessionHandles
import NymphMqtt.SessionEnds
import NymphMqtt.SessionTable
import NymphMqtt.ClientConnect
import NymphMqtt.ClientHandshake
import NymphMqtt.ConnectLockOut
import NymphMqtt.ConnackRace
import NymphMqtt.ClientRuntime
import NymphMqtt.ClientCalls
import NymphMqtt.ClientLocks
import NymphMqtt.HandleBinding
import NymphMqtt.PingTimer
import NymphMqtt.ConnectTraces
import NymphMqtt.ListenerStop
import NymphMqtt.ConnectionRelease
import NymphMqtt.ConnectFlags
import NymphMqtt.StringPrefixes
import NymphMqtt.ListenerLifeCycle
import NymphMqtt.ListenerStartUp
import NymphMqtt.Exchange
import NymphMqtt.ServerReplies
import NymphMqtt.TimerPeriods
import NymphMqtt.DispatcherShutdown
import NymphMqtt.DispatcherReturn
import NymphMqtt.Transmission
import NymphMqtt.AcceptedPublish
import NymphMqtt.ConnectionRouting
import NymphMqtt.ShutdownReach
import NymphMqtt.SocketsLockOut
import NymphMqtt.TimerClock
import NymphMqtt.PingPeriods
import NymphMqtt.TimerSilence
import NymphMqtt.MessagePath
