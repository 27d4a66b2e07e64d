import DocumentGraph.Evaluate.Noted
import DocumentGraph.Result.Value
import DocumentGraph.Text.LetterCase
import DocumentGraph.Text.Split

namespace DocumentGraph

/-! Properties as queries see them.

Names of properties are compared in lower case.  The fields of a node or an edge come
before its property bag.  A node also answers to `aliases` and, without a property of that
name, to `keywords` with the search tokens derived from its texts.
-/

/-- The first property whose name is `wanted` in lower case. -/
def PropertyBag.find? (bag : PropertyBag) (wanted : String) : Option Property :=
  (List.find? (fun (key, _) => lowerCase key = wanted) bag).map Prod.snd

namespace Node

/-- The shortest part of a text that counts as a search token. -/
def minTokenLength : Nat := 3

def isTokenChar (c : Char) : Bool :=
  c.isLower || c.isDigit || c = '_'

/-- The search tokens of one text: the text itself and its longer words in lower case. -/
def tokensOfText (text : String) : List String :=
  let words := Text.pieces (fun c => !isTokenChar c) (Text.lowerCase text.toList)
  text :: (words.filter fun word => minTokenLength ≤ word.length).map String.ofList

/-- The texts that search tokens are derived from. -/
def searchTexts (node : Node) : List String :=
  let named := ["name", "title", "description"].filterMap fun key =>
    (node.properties.lookup key).bind Property.text?
  let listed := ["aliases", "keywords"].flatMap fun key =>
    match PropertyBag.find? node.properties key with
    | some (.string text) => [text]
    | some (.list items) => items
    | _ => []
  named ++ listed

def searchTokens (node : Node) : List String :=
  Ordered.distinctBy (· = ·) (node.searchTexts.flatMap tokensOfText)

private def searchTokens? (node : Node) : Option Value :=
  if node.searchTokens.isEmpty then none
  else some (.list (node.searchTokens.map .string))

theorem texts_of_searchTokens? {node : Node} {value : Value}
    (found : node.searchTokens? = some value) :
    ∃ texts : List String, value = .list (texts.map .string) := by
  unfold searchTokens? at found
  split at found
  · contradiction
  · exact ⟨_, (Option.some.inj found).symm⟩

/-- The value of a property, or nothing if the node has no such property. -/
def property? (node : Node) (name : String) : Option Value :=
  let wanted := lowerCase name
  let stored := (PropertyBag.find? node.properties wanted).map Value.ofProperty
  match wanted with
  | "id" => some (.string node.id)
  | "labels" => some (.list (node.labels.map .string))
  | "skill" => some (.string node.skill)
  | "path" => some (.string node.path)
  | "aliases" => node.searchTokens?.or stored
  | "keywords" => stored.or node.searchTokens?
  | _ => stored

def unknownProperty (node : Node) (name : String) : Query.Diagnostic where
  code := .w001
  message := "Unknown property \"" ++ name ++ "\" on node \"" ++ node.id ++ "\" (labels: " ++
    String.intercalate ", " node.labels ++ ")"

/-- The value of a property.  A property that the node does not have is NULL, and noted. -/
def property (node : Node) (name : String) : Noted Value :=
  match node.property? name with
  | some value => pure value
  | none => { value := .null, warnings := [node.unknownProperty name] }

end Node

/-- The value of an edge's property; NULL, silently, if it has none. -/
def Edge.property (edge : Edge) (name : String) : Value :=
  let wanted := lowerCase name
  match wanted with
  | "id" => .string edge.id
  | "type" => .string edge.type
  | "source" => .string edge.source
  | "target" => .string edge.target
  | _ => ((PropertyBag.find? edge.properties wanted).map Value.ofProperty).getD .null

end DocumentGraph
