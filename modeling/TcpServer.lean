import TcpServer.Base.Interleaving
import TcpServer.Laws.Conservation
import TcpServer.Laws.Isolation
import TcpServer.Laws.Solvency
import TcpServer.Laws.Pricing
import TcpServer.Laws.Rejection
import TcpServer.Laws.Catalogue
import TcpServer.ServiceLayer.Table
import TcpServer.ServiceLayer.Server
import TcpServer.Laws.Steps
import TcpServer.Laws.Counter
import TcpServer.Laws.Room
import TcpServer.Laws.Pending
import TcpServer.Laws.Gate
import TcpServer.Laws.Progress
import TcpServer.ControllerLayer.RequestHandler
import TcpServer.Laws.Answering
import TcpServer.Laws.Locks
import TcpServer.Laws.Refinement
import TcpServer.Laws.Wedge
import TcpServer.Laws.Callback
import TcpServer.Laws.Growth
import TcpServer.Laws.Routing
import TcpServer.Laws.Overselling
import TcpServer.ControllerLayer.Session
import TcpServer.Laws.Pairing
import TcpServer.Base.Linearizability
import TcpServer.Laws.Linearization
import TcpServer.Laws.Draining
import TcpServer.Laws.Waiting
import TcpServer.Base.OrderedMap
import TcpServer.DataLayer.Lexer
import TcpServer.DataLayer.Parser
import TcpServer.DataLayer.Serializer
import TcpServer.Laws.Grammar
import TcpServer.Laws.Numbers
import TcpServer.Laws.Scanning
import TcpServer.Laws.Integers
import TcpServer.Laws.RoundTrip
import TcpServer.Laws.NormalForm
import TcpServer.ControllerLayer.Client
import TcpServer.Laws.Wire
import TcpServer.Laws.Custody
import TcpServer.Laws.Delivery
import TcpServer.ControllerLayer.Listener
import TcpServer.Laws.Shutdown
import TcpServer.Laws.Documents
import TcpServer.ControllerLayer.Message
import TcpServer.Laws.Closing
import TcpServer.Base.Utf8
import TcpServer.DataLayer.Bytes
import TcpServer.Laws.ByteScanning
import TcpServer.Laws.Entering
import TcpServer.Laws.Replying
import TcpServer.Laws.ByteParsing
import TcpServer.Laws.ByteDumping
