import DocumentGraph.Document.Error
import DocumentGraph.Query.Position

namespace DocumentGraph.Query

/-! What can go wrong with a query, and the records that report it.

Each error knows its stable code, the phase that raises it, its wording and, where it
has one, its place in the query text.  A `Diagnostic` is the record of an error or a
warning that a result carries.
-/

/-- Stable codes; `w001` alone is a warning. -/
inductive Code where
  | e001 | e002 | e010 | e011 | e012 | e013 | e020 | e021 | e022 | e023 | e024
  | e030 | e031 | e032 | e040 | w001
deriving DecidableEq, Repr

namespace Code

def text : Code → String
  | e001 => "E001"
  | e002 => "E002"
  | e010 => "E010"
  | e011 => "E011"
  | e012 => "E012"
  | e013 => "E013"
  | e020 => "E020"
  | e021 => "E021"
  | e022 => "E022"
  | e023 => "E023"
  | e024 => "E024"
  | e030 => "E030"
  | e031 => "E031"
  | e032 => "E032"
  | e040 => "E040"
  | w001 => "W001"

def isWarning (code : Code) : Bool :=
  code = w001

end Code

/-- The stage of answering a query that an error belongs to. -/
inductive Phase where
  | lexical | syntactic | semantic | runtime | graph
deriving DecidableEq, Repr

def Phase.name : Phase → String
  | lexical => "Lexical"
  | syntactic => "Syntax"
  | semantic => "Semantic"
  | runtime => "Runtime"
  | graph => "Graph"

structure Diagnostic where
  code : Code
  message : String
  location : Option Position := none
deriving DecidableEq, Repr

namespace Diagnostic

def isWarning (diagnostic : Diagnostic) : Bool :=
  diagnostic.code.isWarning

def display (diagnostic : Diagnostic) : String :=
  let head := diagnostic.code.text ++ ": " ++ diagnostic.message
  match diagnostic.location with
  | none => head
  | some place =>
      head ++ " (line " ++ toString place.line ++ ", column " ++ toString place.column ++ ")"

end Diagnostic

inductive QueryError where
  | unexpectedCharacter (character : Char) (position : Position)
  | unterminatedString (position : Position)
  | unexpectedToken (expected found : String) (position : Position)
  | invalidRange (min max : UInt32) (position : Position)
  | missingClause (clause : String) (position : Position)
  | invalidLiteral (reason : String) (position : Position)
  | unboundVariable (name : String) (position : Position)
  | unknownLabel (label : String) (position : Position)
  | unknownRelationshipType (type : String) (position : Position)
  | ambiguousPattern (reason : String) (position : Position)
  | duplicateBinding (name existing : String) (position : Position)
  | traversalDepthExceeded (requested limit : UInt32) (position : Option Position)
  | invalidPropertyAccess (reason : String) (position : Option Position)
  | typeMismatch (operator left right : String)
  | graph (reason : Document.BuildError)
deriving DecidableEq, Repr

namespace QueryError

def code : QueryError → Code
  | unexpectedCharacter .. => .e001
  | unterminatedString .. => .e002
  | unexpectedToken .. => .e010
  | invalidRange .. => .e011
  | missingClause .. => .e012
  | invalidLiteral .. => .e013
  | unboundVariable .. => .e020
  | unknownLabel .. => .e021
  | unknownRelationshipType .. => .e022
  | ambiguousPattern .. => .e023
  | duplicateBinding .. => .e024
  | traversalDepthExceeded .. => .e030
  | invalidPropertyAccess .. => .e031
  | typeMismatch .. => .e032
  | graph .. => .e040

def phase : QueryError → Phase
  | unexpectedCharacter .. | unterminatedString .. => .lexical
  | unexpectedToken .. | invalidRange .. | missingClause .. | invalidLiteral .. => .syntactic
  | unboundVariable .. | unknownLabel .. | unknownRelationshipType .. | ambiguousPattern ..
  | duplicateBinding .. => .semantic
  | traversalDepthExceeded .. | invalidPropertyAccess .. | typeMismatch .. => .runtime
  | graph .. => .graph

/-- The place of the offending token, when the error has one. -/
def location : QueryError → Option Position
  | unexpectedCharacter _ position
  | unterminatedString position
  | unexpectedToken _ _ position
  | invalidRange _ _ position
  | missingClause _ position
  | invalidLiteral _ position
  | unboundVariable _ position
  | unknownLabel _ position
  | unknownRelationshipType _ position
  | ambiguousPattern _ position
  | duplicateBinding _ _ position => some position
  | traversalDepthExceeded _ _ position
  | invalidPropertyAccess _ position => position
  | typeMismatch .. | graph .. => none

def message : QueryError → String
  | unexpectedCharacter character _ =>
      "unexpected character '" ++ String.singleton character ++ "'"
  | unterminatedString _ => "unterminated string literal"
  | unexpectedToken expected found _ => "expected " ++ expected ++ ", found " ++ found
  | invalidRange min max _ =>
      "invalid range: minimum " ++ toString min.toNat ++ " is greater than maximum " ++
        toString max.toNat
  | missingClause clause _ => "missing " ++ clause ++ " clause"
  | invalidLiteral reason _ => "invalid literal: " ++ reason
  | unboundVariable name _ => "variable `" ++ name ++ "` is not defined in MATCH"
  | unknownLabel label _ => "unknown label :" ++ label
  | unknownRelationshipType type _ => "unknown relationship type :" ++ type
  | ambiguousPattern reason _ => "ambiguous pattern: " ++ reason
  | duplicateBinding name existing _ =>
      "variable `" ++ name ++ "` is already bound to a " ++ existing
  | traversalDepthExceeded requested limit _ =>
      "traversal depth " ++ toString requested.toNat ++ " exceeds the maximum of " ++
        toString limit.toNat
  | invalidPropertyAccess reason _ => "invalid property access: " ++ reason
  | typeMismatch operator left right =>
      "type mismatch: cannot apply " ++ operator ++ " to " ++ left ++ " and " ++ right
  | graph reason => "graph build failed: " ++ reason.message

/-- A mismatch of operand types is reported inside the result; any other error
replaces the result. -/
def isRecoverable : QueryError → Bool
  | typeMismatch .. => true
  | _ => false

def diagnostic (error : QueryError) : Diagnostic :=
  { code := error.code, message := error.message, location := error.location }

end QueryError

end DocumentGraph.Query
