import Verdure.Canopy
import Verdure.Serial.Definition
import Verdure.Serial.JsonText
import Verdure.Proofs.Nesting.LeafAhead
import Verdure.Proofs.Run.Brackets
import Verdure.Proofs.Binary32.Placement
import Verdure.Proofs.Binary32.Ordinal
import Verdure.Proofs.Binary32.Arithmetic
import Verdure.Proofs.MaxHeap.Order
import Verdure.Proofs.PointTree.History
import Verdure.Proofs.PointTree.Distance
import Verdure.Proofs.PointTree.Nearest
import Verdure.Proofs.Grammar.Choice
import Verdure.Proofs.Grammar.Registration
import Verdure.Proofs.Grammar.Derivation
import Verdure.Proofs.Grammar.History
import Verdure.Proofs.Grammar.Prefix
import Verdure.Proofs.Run.Balance
import Verdure.Proofs.Nesting.Partners
import Verdure.Proofs.Run.Nesting
import Verdure.Proofs.Collision.Index
import Verdure.Proofs.Run.Clearance
import Verdure.Proofs.Run.Sinks
import Verdure.Proofs.Run.Attempts
import Verdure.Proofs.Run.Accounts
import Verdure.Proofs.Collision.Growth
import Verdure.Proofs.Run.Placements
import Verdure.Proofs.Run.Elsewhere
import Verdure.Proofs.Run.Causality
import Verdure.Proofs.Nesting.Inert
import Verdure.Proofs.Run.Inert
import Verdure.Proofs.Run.Untested
import Verdure.Proofs.Run.SideBranches
import Verdure.Proofs.Grammar.Homomorphism
import Verdure.Proofs.Binary32.Quotient
import Verdure.Proofs.Exact.Real
import Verdure.Proofs.Geometry.Ratios
import Verdure.Proofs.Geometry.Nearest
import Verdure.Proofs.Geometry.Distance
import Verdure.Proofs.Geometry.Parameters
import Verdure.Proofs.Nesting.Matching
import Verdure.Proofs.Collision.History
import Verdure.Proofs.Collision.Issuers
import Verdure.Proofs.Exact.Rational
import Verdure.Proofs.Grammar.Shares
import Verdure.Proofs.Grammar.Draws
import Verdure.Grammar.Edit
import Verdure.Proofs.Grammar.Edit
import Verdure.Proofs.Grammar.Interleaving
import Verdure.Proofs.Definition.Build
import Verdure.Proofs.Geometry.Slabs
import Verdure.Proofs.PointTree.Balance
import Verdure.Proofs.Binary32.Width
import Verdure.Proofs.Serial.Records
import Verdure.Proofs.Serial.RoundTrip
import Verdure.Proofs.Binary32.Integral
import Verdure.Proofs.Noise.Words
import Verdure.Proofs.Noise.Uniform
import Verdure.Proofs.Noise.Seams
import Verdure.Proofs.Noise.Residues
import Verdure.Proofs.Binary32.Zeros
import Verdure.Proofs.Run.Homogeneous
import Verdure.Proofs.Noise.LatticePoints
import Verdure.Proofs.Geometry.Boxes
import Verdure.Proofs.PointTree.Invariant
