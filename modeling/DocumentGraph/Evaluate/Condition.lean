import DocumentGraph.Match.Binding

namespace DocumentGraph

open Match (Bindings Element)
open Query (Condition Identifier Operand PropertyAccess QueryError)

/-! Evaluation of conditions on a binding set. -/

namespace Evaluate

def element (bindings : Bindings) (identifier : Identifier) (context : String) :
    Except QueryError Element :=
  match bindings.element? identifier with
  | some element => .ok element
  | none => .error (.invalidPropertyAccess
      ("`" ++ identifier.name ++ "` is not bound while resolving " ++ context)
      (some identifier.position))

def property (bindings : Bindings) (access : PropertyAccess) : Evaluation Value := do
  match ← element bindings access.owner access.spelling with
  | .node node => node.property access.property
  | .edge edge => return edge.property access.property

def variableValue (bindings : Bindings) (identifier : Identifier) : Evaluation Value := do
  match ← element bindings identifier identifier.name with
  | .node node => return .node node
  | .edge edge => return .edge edge

def operand (bindings : Bindings) : Operand → Evaluation Value
  | .property access => property bindings access
  | .literal literal => return .ofLiteral literal

/-- Whether a condition holds.  The right side of AND and OR is not looked at when the left
one decides. -/
def condition (bindings : Bindings) : Condition → Evaluation Bool
  | .comparison left operator right => do
      let left ← property bindings left
      let right ← operand bindings right
      operator.apply left right
  | .nullCheck access negated => do
      return (← property bindings access).isNull != negated
  | .not inner => do
      return !(← condition bindings inner)
  | .and left right => do
      if ← condition bindings left then condition bindings right else return false
  | .or left right => do
      if ← condition bindings left then return true else condition bindings right

/-- The binding sets for which a condition holds.  The first failure ends the evaluation. -/
def filter (condition? : Option Condition) (sets : List Bindings) : Evaluation (List Bindings) :=
  match condition? with
  | none => return sets
  | some condition => keep condition sets
where
  keep (given : Condition) : List Bindings → Evaluation (List Bindings)
    | [] => return []
    | bindings :: rest => do
        let holds ← condition bindings given
        let others ← keep given rest
        return if holds then bindings :: others else others

end Evaluate

end DocumentGraph
