import DocumentGraph.Query.Error
import DocumentGraph.Result.Value

namespace DocumentGraph

/-! Rows, and the table that answers a query. -/

/-- The cells of a row with their columns, in column order. -/
abbrev Row := List (String × Value)

namespace Row

/-- The row with a value in a column; a column that is present keeps its place. -/
def put (row : Row) (column : String) (value : Value) : Row :=
  Ordered.put column value row

def get? (row : Row) (column : String) : Option Value :=
  row.lookup column

/-- Rows are the same when they have the same values in the same columns in the same
order. -/
def same : Row → Row → Bool
  | [], [] => true
  | (leftColumn, leftValue) :: left, (rightColumn, rightValue) :: right =>
      leftColumn = rightColumn && leftValue.same rightValue && same left right
  | _, _ => false

end Row

/-- The answer to a query: a table, and what is to be reported beside it. -/
structure Table where
  columns : List String
  rows : List Row
  diagnostics : List Query.Diagnostic := []

namespace Table

def hasErrors (table : Table) : Bool :=
  table.diagnostics.any fun diagnostic => !diagnostic.isWarning

def warnings (table : Table) : List Query.Diagnostic :=
  table.diagnostics.filter Query.Diagnostic.isWarning

end Table

end DocumentGraph
