import DocumentGraph.Graph.Basic

namespace DocumentGraph

/-! What queries see of a graph.  Queries run on any snapshot, whether it comes from a graph,
where every edge has its ends, or from bare lists. -/

structure Snapshot where
  nodes : List Node
  node? : String → Option Node
  outgoing : String → List Edge
  incoming : String → List Edge

namespace Snapshot

def nodeCount (snapshot : Snapshot) : Nat :=
  snapshot.nodes.length

/-- A snapshot that searches two lists, which may hold anything: the first node with an id
counts, and an edge may lead nowhere. -/
def ofLists (nodes : List Node) (edges : List Edge) : Snapshot where
  nodes := nodes
  node? id := nodes.find? (·.id = id)
  outgoing id := edges.filter (·.source = id)
  incoming id := edges.filter (·.target = id)

end Snapshot

def Graph.snapshot (graph : Graph) : Snapshot where
  nodes := graph.nodes.toList
  node? := graph.node?
  outgoing := graph.outgoing
  incoming := graph.incoming

end DocumentGraph
