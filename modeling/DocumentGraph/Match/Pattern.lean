import DocumentGraph.Match.Hop

namespace DocumentGraph.Match

open Query (NodePattern Pattern)

/-! Matches of patterns: a pattern extends binding sets, and the patterns of a query do so
one after the other. -/

/-- Where a pattern can begin.  A variable that is bound already leaves its node only. -/
def starts (graph : Snapshot) (pattern : NodePattern) (bindings : Bindings) :
    Noted (List Partial) :=
  match pattern.binder.bind bindings.element? with
  | some (.node node) => do
      if ← satisfies node pattern then return [{ bindings, anchor := node }] else return []
  | some (.edge _) => pure []
  | none =>
      Noted.collect graph.nodes fun node => do
        if ← satisfies node pattern then
          return [{ bindings := bindings.bind pattern.binder (.node node), anchor := node }]
        else
          return []

def pattern (graph : Snapshot) (maxDepth : Nat) (pattern : Pattern) (bindings : Bindings) :
    Noted (List Bindings) := do
  let begun ← starts graph pattern.start bindings
  let found ← pattern.hops.foldlM
    (fun found hop => Noted.collect found (Match.hop graph maxDepth hop)) begun
  return found.map Partial.bindings

def patterns (graph : Snapshot) (maxDepth : Nat) (patterns : List Pattern) :
    Noted (List Bindings) :=
  patterns.foldlM
    (fun found pattern => Noted.collect found (Match.pattern graph maxDepth pattern)) [[]]

end DocumentGraph.Match
