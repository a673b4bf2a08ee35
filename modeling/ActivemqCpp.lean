import ActivemqCpp.Core.ScopedAudit
import ActivemqCpp.Core.SessionClose
import ActivemqCpp.Core.ConsumerRuns
import ActivemqCpp.Core.LocalCommands
import ActivemqCpp.Core.XaTransaction
import ActivemqCpp.State.Replay
import ActivemqCpp.Openwire.WireFormat
import ActivemqCpp.Transport.CorrelatorRuns
import ActivemqCpp.Stomp.HeaderInterference
import ActivemqCpp.Transport.Failover.ReconnectRuns
import ActivemqCpp.Decaf.QueueRuns
import ActivemqCpp.Decaf.LinkedListRuns
import ActivemqCpp.Decaf.PriorityQueueRuns
import ActivemqCpp.Commands.BytesMessage
import ActivemqCpp.Decaf.ThreadPoolRuns
import ActivemqCpp.Core.DeliveredCounter
import ActivemqCpp.Core.AuditLimit
import ActivemqCpp.State.PullRecovery
import ActivemqCpp.State.XaTracking
import ActivemqCpp.Transport.Failover.BrokerUpdates
import ActivemqCpp.Util.URISupport
import ActivemqCpp.Util.MarshallingSupport
