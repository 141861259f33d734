import SceneGraph.Content.Files
import SceneGraph.Node.Rules
import SceneGraph.Scene.Outline
import SceneGraph.Scene.Session
import SceneGraph.Proofs.Lookup
import SceneGraph.Proofs.Coherence
import SceneGraph.Proofs.Demolition
import SceneGraph.Proofs.Edit
import SceneGraph.Proofs.Writing
import SceneGraph.Proofs.Creation
import SceneGraph.Proofs.Wiring
import SceneGraph.Proofs.Drafting
import SceneGraph.Proofs.Loading
import SceneGraph.Proofs.Cascade
import SceneGraph.Proofs.Delivery
import SceneGraph.Proofs.Ticking
import SceneGraph.Proofs.Reachable
import SceneGraph.Proofs.Undoing
import SceneGraph.Proofs.Firing
import SceneGraph.Proofs.Settling
import SceneGraph.Proofs.Refusing
import SceneGraph.Proofs.Calm
import SceneGraph.Proofs.Entering
import SceneGraph.Proofs.Turning
import SceneGraph.Proofs.Proceeding
import SceneGraph.Proofs.History
import SceneGraph.Proofs.Straying
import SceneGraph.Proofs.Announcing
import SceneGraph.Proofs.Booking
import SceneGraph.Proofs.Requesting
import SceneGraph.Proofs.Answering
import SceneGraph.Proofs.Hearing
import SceneGraph.Proofs.Routing
import SceneGraph.Proofs.Traffic
import SceneGraph.Proofs.Owing
import SceneGraph.Proofs.Supplying
import SceneGraph.Proofs.Replacing
import SceneGraph.Proofs.Passing
import SceneGraph.Proofs.Bounding
import SceneGraph.Proofs.Spreading
import SceneGraph.Proofs.Confining
import SceneGraph.Proofs.Publishing
import SceneGraph.Proofs.Furnishing
import SceneGraph.Proofs.Holding
import SceneGraph.Proofs.Domains
import SceneGraph.Proofs.Clocking
import SceneGraph.Proofs.Collecting
import SceneGraph.Proofs.Reporting
import SceneGraph.Proofs.Removing
import SceneGraph.Proofs.Inlining
import SceneGraph.Proofs.Concealing
import SceneGraph.Proofs.Reloading
import SceneGraph.Proofs.Storing
import SceneGraph.Proofs.Faring
import SceneGraph.Proofs.Striding
import SceneGraph.Proofs.Timekeeping
import SceneGraph.Proofs.Interpolating
import SceneGraph.Proofs.Overhearing
import SceneGraph.Proofs.Alternating
import SceneGraph.Proofs.Withholding
import SceneGraph.Proofs.Shelving
import SceneGraph.Proofs.Trying
import SceneGraph.Proofs.Declaring
import SceneGraph.Proofs.Regrouping
import SceneGraph.Proofs.Heading
import SceneGraph.Proofs.Matching
import SceneGraph.Proofs.Scanning
import SceneGraph.Proofs.Rereading
import SceneGraph.Proofs.Wording
import SceneGraph.Proofs.Adjoining
import SceneGraph.Proofs.Agreeing
import SceneGraph.Proofs.Echoing
import SceneGraph.Proofs.Outlining
import SceneGraph.Proofs.Composing
import SceneGraph.Proofs.Accepting
import SceneGraph.Proofs.Locking
