import DocumentGraph.Query.Parse
import DocumentGraph.Query.Scan
import DocumentGraph.Query.Scope

namespace DocumentGraph.Query

/-! Queries with their names checked. -/

def parse (tokens : List Token) : Except QueryError Query := do
  let query ← ofTokens tokens
  query.check
  return query

/-- The query that a text spells, with its names checked. -/
def prepare (source : String) : Except QueryError Query := do
  parse (← tokenize source)

end DocumentGraph.Query
