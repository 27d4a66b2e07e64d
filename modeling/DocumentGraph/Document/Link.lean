import DocumentGraph.Document.Markup
import DocumentGraph.Graph.Element

namespace DocumentGraph.Document

/-! From the links of a document to edges.

A target is an id: the path of a document below the root, without its extension.
-/

/-- Directories that a link may name relative to its own skill. -/
def localDirectories : List String :=
  ["nodes/", "references/", "assets/"]

def dropExtension (target : List Char) : List Char :=
  Text.dropEnd ['.', 'm', 'd'] target

def isLocal (target : List Char) : Bool :=
  localDirectories.any fun directory => directory.toList.isPrefixOf target

/-- The target of a link between doubled brackets.  It belongs to the skill of the link
unless it has a directory in front that is none of a skill's own. -/
def resolveWikiLink (target : List Char) (skill : String) : String :=
  let target := dropExtension target
  if '/' ∈ target && !isLocal target then String.ofList target
  else skill ++ "/" ++ String.ofList target

/-- The directory of a document that lies deeper than its skill's top. -/
def nestedDirectory? (node : Node) : Option (List Char) :=
  let path := node.path.toList.map fun c => if c = '\\' then '/' else c
  match Text.cutAtLast? '/' path with
  | some (directory, _) => if '/' ∈ directory then some directory else none
  | none => none

/-- The target of a link by path.  A path that leads upwards is taken from the root; any
other from the directory of the document, or from its skill. -/
def resolvePath? (path : List Char) (node : Node) : Option String :=
  let path := Text.dropFront ['.', '/'] (dropExtension path)
  if ['.', '.', '/'].isPrefixOf path then
    match (Text.splitOn '/' path).filter (· ≠ ['.', '.']) with
    | [] => none
    | parts => some (String.ofList (['/'].intercalate parts))
  else
    match nestedDirectory? node with
    | some directory => some (String.ofList directory ++ "/" ++ String.ofList path)
    | none => some (node.skill ++ "/" ++ String.ofList path)

def skillOf (id : String) : String :=
  String.ofList (id.toList.takeWhile (· ≠ '/'))

/-- The edges that a link stands for, of the given types.  A link into another skill also
makes its document depend on the target. -/
def linkEdges (node : Node) (types : List String) (target : String) (label : Option String) :
    List Edge :=
  let types := if skillOf target = node.skill then types else types ++ ["DEPENDS_ON"]
  types.map fun type =>
    { Edge.between node.id type target with
      properties := (label.map fun label => ("label", Property.string label)).toList }

def wikiLinkEdges (node : Node) (link : WikiLink) : List Edge :=
  let target := Text.trim link.target
  let label := (link.label.map Text.trim).filter fun label => !label.isEmpty
  let inIndex := node.hasLabel "Index" && "nodes/".toList.isPrefixOf target
  let types := if inIndex then ["LINKS_TO", "CONTAINS"] else ["LINKS_TO"]
  linkEdges node types (resolveWikiLink target node.skill) (label.map String.ofList)

def pathLinkEdges (node : Node) (link : PathLink) : List Edge :=
  match resolvePath? (Text.trim link.path) node with
  | none => []
  | some target =>
      linkEdges node ["REFERENCES"] target (some (String.ofList (Text.trim link.text)))

/-- The edges that the links in a document's text stand for.  Of edges with the same id the
first one counts. -/
def edges (node : Node) (body : List Char) : List Edge :=
  Ordered.distinctBy (fun left right => left.id = right.id)
    ((wikiLinks body).flatMap (wikiLinkEdges node) ++
      (pathLinks body).flatMap (pathLinkEdges node))

end DocumentGraph.Document
