import TypeParams.Graph.Reach
import TypeParams.Interchange
import TypeParams.Proofs.Fallible
import TypeParams.Proofs.Graph
import TypeParams.Proofs.Subtype.Data
import TypeParams.Proofs.Subtype.Mentions
import TypeParams.Resolution
import TypeParams.Subtype.Relation
import TypeParams.Proofs.Subtype.Decision
import TypeParams.Proofs.Subtype.Order
import TypeParams.Proofs.Actions
import TypeParams.Proofs.Marker
import TypeParams.Proofs.Layer
import TypeParams.Proofs.Kind
import TypeParams.Proofs.Workspace
import TypeParams.Proofs.Instantiation.Growth
import TypeParams.Proofs.Resolution
import TypeParams.Proofs.Instantiation.Substitution
import TypeParams.Proofs.Matching.Levels
import TypeParams.Proofs.Matching.Counterparts
import TypeParams.Proofs.Matching.Reading
import TypeParams.Proofs.RoundTrip
import TypeParams.Proofs.Additions
import TypeParams.Proofs.Instantiation.Additions
import TypeParams.Proofs.Instantiation.Slots
import TypeParams.Proofs.Matching.Sources
import TypeParams.Proofs.Matching.Additions
import TypeParams.Proofs.Concrete
import TypeParams.Proofs.Commit
import TypeParams.Proofs.Subtype.Shapes
import TypeParams.Proofs.Subtype.Unions
import TypeParams.Proofs.Loops
import TypeParams.Proofs.Subtype.Downward
import TypeParams.Proofs.Subtype.Transitivity
import TypeParams.Proofs.Subtype.Values
import TypeParams.Proofs.Matching.Bindings
import TypeParams.Proofs.Matching.Totality
import TypeParams.Proofs.Bindings
import TypeParams.Proofs.Places
import TypeParams.Proofs.Subtype.Growth
import TypeParams.Proofs.Instantiation.Shape
import TypeParams.Proofs.Matching.Shape
import TypeParams.Proofs.Soundness
import TypeParams.Proofs.Copying
import TypeParams.Proofs.Matching.Agreement
import TypeParams.Proofs.Veil
import TypeParams.Proofs.Commuting
import TypeParams.Proofs.Over
import TypeParams.Proofs.Matching.Over
import TypeParams.Proofs.Instantiation.Over
import TypeParams.Proofs.Witness
import TypeParams.Proofs.Matching.Twins
import TypeParams.Proofs.Matching.Lockstep
import TypeParams.Proofs.ArgumentOrder
import TypeParams.Proofs.Allocation
import TypeParams.Proofs.Reservations
import TypeParams.Proofs.Softening
import TypeParams.Proofs.Nesting
import TypeParams.Proofs.Matching.Nesting
import TypeParams.Proofs.Matching.Record
import TypeParams.Proofs.Instantiation.Nesting
import TypeParams.Proofs.Subtype.Nesting
import TypeParams.Proofs.Termination
import TypeParams.Proofs.Limit
import TypeParams.Proofs.Instantiation.Limit
import TypeParams.Proofs.Matching.Drawn
import TypeParams.Proofs.Matching.Limit
import TypeParams.Proofs.MoreLevels
import TypeParams.Proofs.Subtype.Joins
import TypeParams.Proofs.Matching.Doubles
import TypeParams.Proofs.Matching.Repeat
import TypeParams.Proofs.Repetition
import TypeParams.Proofs.Subtype.Containers
import TypeParams.Proofs.Matching.Least
import TypeParams.Proofs.LeastBindings
import TypeParams.Proofs.FirstOccurrences
import TypeParams.Proofs.Subtype.LeastUnions
import TypeParams.Proofs.Discovery
import TypeParams.Proofs.MissingArgument
import TypeParams.Proofs.Instantiation.Unfolding
import TypeParams.Proofs.CopiedText
import TypeParams.Proofs.Gate
