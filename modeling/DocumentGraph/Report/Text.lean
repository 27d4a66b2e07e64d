import DocumentGraph.Graph.Basic
import DocumentGraph.Query.Token
import DocumentGraph.Result.Json

namespace DocumentGraph

/-! Plain-text reports: tables, token listings and counts.  Every report is a list of lines,
each of which ends with a line break. -/

namespace Report

/-- A character as it stands in a cell: tabs and line breaks must not break the row. -/
def escapeChar (c : Char) : List Char :=
  match c with
  | '\\' => ['\\', '\\']
  | '\t' => ['\\', 't']
  | '\n' => ['\\', 'n']
  | '\r' => ['\\', 'r']
  | c => [c]

def escape (text : String) : String :=
  String.ofList (text.toList.flatMap escapeChar)

def ofLines (lines : List String) : String :=
  String.join (lines.map (· ++ "\n"))

def cells (texts : List String) : String :=
  String.intercalate "\t" texts

def row (columns : List String) (row : Row) : String :=
  cells (columns.map fun column =>
    ((row.get? column).map fun value => escape value.display).getD "")

/-- A table under a line with its columns.  Without columns there is no table. -/
def table (table : Table) : String :=
  if table.columns.isEmpty then ""
  else ofLines (cells table.columns :: table.rows.map (row table.columns))

def token (token : Query.Token) : String :=
  let place := toString token.position.line ++ ":" ++ toString token.position.column
  if token.kind = .endOfText then
    cells [place, token.kind.name]
  else
    cells [place, token.kind.name, escape token.text]

def tokens (tokens : List Query.Token) : String :=
  ofLines (tokens.map token)

/-- How often each text occurs, in the order of the texts. -/
def tally (texts : List String) : List (String × Nat) :=
  let sorted := (Ordered.distinctBy (· = ·) texts).mergeSort (fun left right => left ≤ right)
  sorted.map fun text => (text, texts.count text)

def counts (graph : Graph) : String :=
  let labels := tally (graph.nodes.toList.flatMap Node.labels)
  let types := tally (graph.edges.toList.map Edge.type)
  ofLines (
    cells ["nodes", toString graph.nodeCount] ::
      labels.map (fun (label, count) => cells ["  :" ++ label, toString count]) ++
    cells ["edges", toString graph.edgeCount] ::
      types.map (fun (type, count) => cells ["  " ++ type, toString count]))

end Report

end DocumentGraph
