import Integratio.Responder.Proof.Fresh
import Integratio.Responder.Proof.Free
import Integratio.Responder.Proof.Trace
import Integratio.Responder.Proof.Delivery
import Integratio.Responder.Proof.Ranges
import Integratio.Responder.Proof.Numbers
import Integratio.Responder.Proof.LostAck
import Integratio.Responder.Proof.Stream
import Integratio.Responder.Proof.Session
import Integratio.Responder.Proof.Delay
import Integratio.Responder.Proof.Accepts
import Integratio.Listener.Proof.Ownership
import Integratio.Listener.Proof.Isolation
import Integratio.Listener.Proof.Capacity
import Integratio.Listener.Proof.Exclusive
import Integratio.Listener.Proof.Order
import Integratio.Listener.Proof.Layers
import Integratio.Applicator.Proof.Framing
import Integratio.Config.Proof.Elements
import Integratio.Config.Proof.Independent
import Integratio.Config.Proof.Configured
import Integratio.Lib.Monitor
import Integratio.Listener.Queue
import Integratio.Listener.Threads
import Integratio.Listener.Proof.Threads
import Integratio.Applicator.Proof.Post
import Integratio.Applicator.Proof.Chunked
import Integratio.Applicator.Proof.Segments
import Integratio.Config.Proof.Served
import Integratio.Listener.Proof.Packets
import Integratio.Listener.Proof.Schedule
import Integratio.Listener.Proof.Sessions
import Integratio.Responder.Proof.Observed
import Integratio.Responder.Proof.Release
import Integratio.Listener.Program
import Integratio.Listener.Proof.Program
import Integratio.Listener.Proof.Settles
import Integratio.Config.Proof.Accesses
import Integratio.Listener.Proof.Whole
import Integratio.Applicator.Proof.Accepted
import Integratio.Applicator.Proof.Binary
