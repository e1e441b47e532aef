import Rendezvous.Main
import Rendezvous.Query.Json
import Rendezvous.Transport.Backoff
import Rendezvous.Proofs.Directory.Search
import Rendezvous.Proofs.Service.Restart
import Rendezvous.Proofs.Service.Stray
import Rendezvous.Proofs.Service.Membership
import Rendezvous.Proofs.Service.Effect
import Rendezvous.Proofs.Service.Subscription
import Rendezvous.Proofs.Service.Notification
import Rendezvous.Proofs.Lease.Handshake
import Rendezvous.Proofs.Service.Eviction
import Rendezvous.Proofs.Service.Cursor
import Rendezvous.Proofs.Service.Paging
import Rendezvous.Proofs.Protocol.Refusal
import Rendezvous.Proofs.Service.Punctuality
import Rendezvous.Proofs.Service.Discretion
import Rendezvous.Proofs.Service.Faults
import Rendezvous.Proofs.Service.Attendance
import Rendezvous.Proofs.Service.Reinstatement
import Rendezvous.Proofs.Protocol.Readable
import Rendezvous.Proofs.Service.Succession
import Rendezvous.Proofs.Lease.Generations
import Rendezvous.Proofs.Directory.Canonical
import Rendezvous.Proofs.Service.Durability
import Rendezvous.Proofs.Service.Term
import Rendezvous.Proofs.Service.Isolation
import Rendezvous.Proofs.Query.Algebra
import Rendezvous.Proofs.Protocol.QueryReply
import Rendezvous.Proofs.Directory.Update
import Rendezvous.Proofs.Transport.Backoff
import Rendezvous.Proofs.Number.Whole
import Rendezvous.Proofs.Query.NumericOrder
import Rendezvous.Proofs.Transport.Pool
import Rendezvous.Proofs.Transport.Turns
import Rendezvous.Proofs.Query.Stability
import Rendezvous.Proofs.Query.Coherence
import Rendezvous.Proofs.Lease.Milliseconds
