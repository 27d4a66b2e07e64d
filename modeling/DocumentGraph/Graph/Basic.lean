import DocumentGraph.Graph.Element
import Std.Data.TreeMap

namespace DocumentGraph

/-! The graph.

Nodes and edges are kept in order of insertion.  Beside them stand indices from ids to
places: of nodes, of edges, and of the edges that leave or reach a node.  Only `addNode`
and `addEdge` change a graph, and they keep the indices in step.
-/

structure Graph where
  nodes : Array Node := #[]
  edges : Array Edge := #[]
  nodePlaces : Std.TreeMap String Nat := {}
  edgePlaces : Std.TreeMap String Nat := {}
  outgoingPlaces : Std.TreeMap String (List Nat) := {}
  incomingPlaces : Std.TreeMap String (List Nat) := {}

namespace Graph

inductive EdgeError where
  | danglingEdge (edge endpoint : String)
deriving DecidableEq, Repr

def EdgeError.message : EdgeError → String
  | danglingEdge edge endpoint => "edge " ++ edge ++ " references missing node " ++ endpoint

def empty : Graph := {}

def node? (graph : Graph) (id : String) : Option Node := do
  graph.nodes[← graph.nodePlaces[id]?]?

def edge? (graph : Graph) (id : String) : Option Edge := do
  graph.edges[← graph.edgePlaces[id]?]?

/-- The edges at the places that an index lists for a node. -/
def edgesAt (graph : Graph) (index : Std.TreeMap String (List Nat)) (id : String) : List Edge :=
  (index[id]?.getD []).filterMap (graph.edges[·]?)

/-- The edges whose source is the node, in order of insertion. -/
def outgoing (graph : Graph) (id : String) : List Edge :=
  graph.edgesAt graph.outgoingPlaces id

/-- The edges whose target is the node, in order of insertion. -/
def incoming (graph : Graph) (id : String) : List Edge :=
  graph.edgesAt graph.incomingPlaces id

def nodeCount (graph : Graph) : Nat :=
  graph.nodes.size

def edgeCount (graph : Graph) : Nat :=
  graph.edges.size

/-- Adds a node.  A node with the same id is replaced where it stands. -/
def addNode (graph : Graph) (node : Node) : Graph :=
  match graph.nodePlaces[node.id]? with
  | some place => { graph with nodes := graph.nodes.setIfInBounds place node }
  | none =>
      { graph with
        nodes := graph.nodes.push node
        nodePlaces := graph.nodePlaces.insert node.id graph.nodes.size }

/-- The first endpoint of an edge that is no node, the source being looked at first. -/
def missingEndpoint? (graph : Graph) (edge : Edge) : Option String :=
  [edge.source, edge.target].find? fun endpoint => !graph.nodePlaces.contains endpoint

/-- Adds an edge between two nodes of the graph and says whether it was new.  An edge whose
id is taken changes nothing. -/
def addEdge (graph : Graph) (edge : Edge) : Except EdgeError (Graph × Bool) :=
  match graph.missingEndpoint? edge with
  | some endpoint => .error (.danglingEdge edge.id endpoint)
  | none =>
      if graph.edgePlaces.contains edge.id then .ok (graph, false)
      else
        let place := graph.edges.size
        let link (index : Std.TreeMap String (List Nat)) (id : String) :=
          index.insert id (index[id]?.getD [] ++ [place])
        .ok ({ graph with
          edges := graph.edges.push edge
          edgePlaces := graph.edgePlaces.insert edge.id place
          outgoingPlaces := link graph.outgoingPlaces edge.source
          incomingPlaces := link graph.incomingPlaces edge.target }, true)

def ofLists (nodes : List Node) (edges : List Edge) : Except EdgeError Graph :=
  edges.foldlM (fun graph edge => Prod.fst <$> graph.addEdge edge)
    (nodes.foldl addNode empty)

end Graph

end DocumentGraph
