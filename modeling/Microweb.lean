import Microweb.Bench.Browser
import Microweb.Bench.Session
import Microweb.Text.Ascii
import Microweb.Proofs.Custody
import Microweb.Proofs.Custody.Client
import Microweb.Proofs.Run
import Microweb.Proofs.Slots
import Microweb.Proofs.Custody.Server
import Microweb.Proofs.Balance
import Microweb.Proofs.Published
import Microweb.Proofs.Ownership
import Microweb.Proofs.Lifetime
import Microweb.Proofs.Forget
import Microweb.Proofs.Forget.Client
import Microweb.Proofs.Forget.Server
import Microweb.Proofs.Scope
import Microweb.Proofs.Scope.Client
import Microweb.Proofs.Polls
import Microweb.Proofs.Scope.Server
import Microweb.Proofs.Containment
import Microweb.Proofs.Recency
import Microweb.Proofs.Wiring
import Microweb.Proofs.Delivery
import Microweb.Proofs.Delivery.Client
import Microweb.Proofs.Delivery.Server
import Microweb.Proofs.Frames
import Microweb.Proofs.Shutdown
import Microweb.Proofs.RequestLine
import Microweb.Proofs.Truncation
import Microweb.Proofs.Concur
import Microweb.Proofs.Alike
import Microweb.Proofs.Segments.Alone
import Microweb.Proofs.Segments.Server
import Microweb.Proofs.Utf8
import Microweb.Proofs.Version
import Microweb.Proofs.RequestLine.Grammar
import Microweb.Proofs.Percent
import Microweb.Proofs.Percent.Verdict
import Microweb.Proofs.Lines
import Microweb.Proofs.Field
import Microweb.Proofs.Peers.Lru
import Microweb.Proofs.Suffix
import Microweb.Proofs.RoundTrip
import Microweb.Proofs.Loads
import Microweb.Proofs.Stop
import Microweb.Proofs.Frames.Acceptance
import Microweb.Proofs.Segments.Duplex
import Microweb.Proofs.Segments.Batching
import Microweb.Proofs.Overrun
import Microweb.Proofs.Audited
import Microweb.Proofs.Pages
import Microweb.Proofs.Base64
import Microweb.Proofs.Doubles
import Microweb.Proofs.Doubles.Client
import Microweb.Proofs.Doubles.Server
import Microweb.Proofs.Handshake
import Microweb.Proofs.Heads
import Microweb.Proofs.Decimal
import Microweb.Proofs.Markup
import Microweb.Proofs.Rounding
import Microweb.Proofs.Shortest
import Microweb.Proofs.Readback
import Microweb.Proofs.Commands
import Microweb.Proofs.Routes
import Microweb.Proofs.Disclosure
import Microweb.Proofs.Lines.Tiling
import Microweb.Proofs.Utf8.Lossy
import Microweb.Proofs.RequestLine.Rejected
