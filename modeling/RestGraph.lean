import RestGraph.Logging
import RestGraph.Main
import RestGraph.Proofs.Schema.Agreement
import RestGraph.Proofs.Schema.Attained
import RestGraph.Proofs.Schema.Expanding
import RestGraph.Proofs.Schema.Responding
import RestGraph.Proofs.Schema.Closed
import RestGraph.Proofs.Schema.FieldNames
import RestGraph.Proofs.Selection.Replay
import RestGraph.Proofs.Selection.Texts
import RestGraph.Proofs.Document.Sites
import RestGraph.Proofs.Graph.Changes
import RestGraph.Proofs.Graph.Citing
import RestGraph.Proofs.Graph.Making
import RestGraph.Proofs.Schema.Balance
import RestGraph.Proofs.Schema.Referring
import RestGraph.Proofs.Schema.Retries
import RestGraph.Proofs.Graph.Unfolding
import RestGraph.Proofs.Schema.History
import RestGraph.Proofs.Graph.Blending
import RestGraph.Proofs.Graph.Twins
import RestGraph.Proofs.Schema.Independence
import RestGraph.Proofs.Graph.Tally
import RestGraph.Proofs.Schema.Substitutes
import RestGraph.Proofs.Schema.Frozen
import RestGraph.Proofs.Graph.Preorder
import RestGraph.Proofs.Selection.Wildcards
import RestGraph.Proofs.Schema.References
import RestGraph.Proofs.Schema.Spelling
import RestGraph.Proofs.Graph.Bearing
import RestGraph.Proofs.Schema.Binding
import RestGraph.Proofs.Schema.Grafts
import RestGraph.Proofs.Schema.Tended
import RestGraph.Proofs.Schema.Reordering
import RestGraph.Proofs.Schema.Uniting
import RestGraph.Proofs.Selection.Admitting
import RestGraph.Proofs.Schema.Ordering
import RestGraph.Proofs.Schema.Precedence
import RestGraph.Proofs.Schema.Sharing
import RestGraph.Proofs.Schema.Absorbing
import RestGraph.Proofs.Schema.Reachable
import RestGraph.Proofs.Naming.Entries
import RestGraph.Proofs.Document.Issues
import RestGraph.Proofs.Schema.Arguments
import RestGraph.Proofs.Schema.Locations
import RestGraph.Proofs.Naming.Legal
import RestGraph.Proofs.Picker.Choosing
import RestGraph.Proofs.Document.Stripping
import RestGraph.Proofs.Schema.Parts
import RestGraph.Proofs.Schema.Allotting
import RestGraph.Proofs.Schema.Literals
