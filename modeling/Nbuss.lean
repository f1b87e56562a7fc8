import Nbuss.Transition.Runs
import Nbuss.Transition.Threads
import Nbuss.Events
import Nbuss.SocketData
import Nbuss.ClientWrite
import Nbuss.ClientMode
import Nbuss.ClientSocket
import Nbuss.ServerRead
import Nbuss.TypedRead
import Nbuss.EdgeTriggered
import Nbuss.Delivery
import Nbuss.InOrder
import Nbuss.RoundTrip
import Nbuss.BufferedWrite
import Nbuss.WriteWorker
import Nbuss.SocketLocks
import Nbuss.SocketWaiters
import Nbuss.WorkerEnd
import Nbuss.Listen
import Nbuss.TcpSetup
import Nbuss.UnixSetup
import Nbuss.ListenProtocol
import Nbuss.Forwarding
import Nbuss.Barrier
import Nbuss.Progress
import Nbuss.Readiness
import Nbuss.Decorator
import Nbuss.Restart
import Nbuss.StaleEntries
import Nbuss.CloseOnce
import Nbuss.Accounting
import Nbuss.SmartClose
import Nbuss.WorkQueue
import Nbuss.HandOver
import Nbuss.Shutdown
import Nbuss.StopConsumers
import Nbuss.Serving
import Nbuss.Crc16
