import DocumentGraph.Document.Build
import DocumentGraph.Evaluate.Run

namespace DocumentGraph.Query

/-- Answers a query over the documents of the directory that a path leads to.  The query is
prepared first, so the fault of a malformed one is reported without a look at the
directory. -/
def answerAt (path : String) (found : Option Document.FileTree) (maxDepth : Nat)
    (source : String) : Except QueryError Table := do
  let query ← prepare source
  match Document.buildAt {} path found with
  | .error reason => .error (.graph reason)
  | .ok graph => query.run graph.snapshot maxDepth

end DocumentGraph.Query
