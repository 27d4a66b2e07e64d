namespace DocumentGraph.Document

inductive BuildError where
  | rootNotFound (path : String)
deriving DecidableEq, Repr

def BuildError.message : BuildError → String
  | .rootNotFound path => "skill root not found: " ++ path

end DocumentGraph.Document
