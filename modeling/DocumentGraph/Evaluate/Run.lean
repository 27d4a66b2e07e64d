import DocumentGraph.Evaluate.Projection
import DocumentGraph.Match.Pattern
import DocumentGraph.Query.Prepare

namespace DocumentGraph.Query

/-! Answers to queries. -/

/-- The rows of a query and the warnings on the way to them.  `maxDepth` bounds the hops
that have no upper bound of their own. -/
def rows (graph : Snapshot) (maxDepth : Nat) (query : Query) : Evaluation (List Row) := do
  let matched ← Match.patterns graph maxDepth query.patterns
  let kept ← Evaluate.filter query.condition matched
  Evaluate.project query.projection kept

/-- Runs a query.  Every warning is reported once.  A mismatch of types empties the table
and is reported in it; any other error takes the table's place. -/
def run (graph : Snapshot) (maxDepth : Nat) (query : Query) : Except QueryError Table :=
  let outcome := (query.rows graph maxDepth).run
  match outcome.value with
  | .ok rows => .ok {
      columns := Evaluate.columns query.projection
      rows
      diagnostics := Ordered.distinctBy (· = ·) outcome.warnings }
  | .error error =>
      if error.isRecoverable then
        .ok { columns := [], rows := [], diagnostics := [error.diagnostic] }
      else
        .error error

def answer (graph : Snapshot) (maxDepth : Nat) (source : String) : Except QueryError Table := do
  (← prepare source).run graph maxDepth

end DocumentGraph.Query
