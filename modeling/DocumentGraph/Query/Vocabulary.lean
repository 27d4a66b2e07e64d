namespace DocumentGraph.Query

/-! The labels and relationship types that a query may ask for, in any spelling but
their own refused, and the default reach of an unbounded hop. -/

def labels : List String :=
  ["Node", "Index", "Skill", "Entrypoint", "Reference", "Asset", "Document"]

def relationshipTypes : List String :=
  ["LINKS_TO", "CONTAINS", "REFERENCES", "HAS_ENTRYPOINT", "HAS_INDEX", "DEPENDS_ON"]

/-- The greatest number of edges of a variable-length hop without an upper bound. -/
def defaultMaxDepth : Nat := 10

def isLabel (label : String) : Bool :=
  labels.contains label

def isRelationshipType (type : String) : Bool :=
  relationshipTypes.contains type

end DocumentGraph.Query
