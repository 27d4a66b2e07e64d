import DocumentGraph.Main
import DocumentGraph.Graph.Read
import DocumentGraph.Proofs.Graph.Change
import DocumentGraph.Proofs.Graph.Recovered
import DocumentGraph.Proofs.Query.RoundTrip
import DocumentGraph.Proofs.Match.Complete
import DocumentGraph.Proofs.Match.Permutation
import DocumentGraph.Proofs.Match.Reversal
import DocumentGraph.Proofs.Evaluate.Run
import DocumentGraph.Proofs.Evaluate.Projection
import DocumentGraph.Proofs.Match.Depth
import DocumentGraph.Proofs.Match.Introduced
import DocumentGraph.Proofs.Evaluate.Negation
import DocumentGraph.Proofs.Evaluate.Property
import DocumentGraph.Proofs.Match.Narrowing
import DocumentGraph.Proofs.Evaluate.PropertyMap
import DocumentGraph.Proofs.Result.Value
import DocumentGraph.Proofs.Match.Rearranged
import DocumentGraph.Proofs.Evaluate.Grouping
import DocumentGraph.Proofs.Evaluate.Rearranged
import DocumentGraph.Proofs.Evaluate.Counted
import DocumentGraph.Proofs.Report.Table
import DocumentGraph.Proofs.Document.Name
import DocumentGraph.Proofs.Document.Place
import DocumentGraph.Proofs.Document.Build
import DocumentGraph.Proofs.Document.Dependency
import DocumentGraph.Proofs.Graph.Collision
import DocumentGraph.Proofs.Document.Containment
import DocumentGraph.Proofs.Query.Height
import DocumentGraph.Proofs.Document.Fallback
import DocumentGraph.Proofs.Evaluate.Collected
import DocumentGraph.Proofs.Match.Distance
import DocumentGraph.Proofs.Query.Spacing
import DocumentGraph.Proofs.Query.Fault
import DocumentGraph.Proofs.Query.Viable
import DocumentGraph.Proofs.Query.Violation
import DocumentGraph.Proofs.Query.Column
import DocumentGraph.Proofs.Evaluate.Column
import DocumentGraph.Proofs.Text.LetterCase
import DocumentGraph.Proofs.Number.Binary64
import DocumentGraph.Proofs.Evaluate.Compare
import DocumentGraph.Proofs.Evaluate.Order
import DocumentGraph.Proofs.Document.Fragment
import DocumentGraph.Proofs.Document.Numeral
import DocumentGraph.Proofs.Document.Title
import DocumentGraph.Proofs.Document.Reference
