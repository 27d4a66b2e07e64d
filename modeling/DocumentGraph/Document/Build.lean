import DocumentGraph.Document.Error
import DocumentGraph.Document.FileTree
import DocumentGraph.Document.FrontMatter
import DocumentGraph.Document.Link
import DocumentGraph.Graph.Basic

namespace DocumentGraph.Document

/-! The graph of a directory of skills.

Every directory below the root is a skill, and the documents in it, at any depth, are its
nodes.  All nodes are there before any edge is added, so a link is kept if its target is a
node, wherever it stands; other links are dropped.
-/

structure Options where
  /-- Directories that are passed over, besides hidden ones. -/
  skippedDirectories : List String := ["node_modules", "scripts", "dist"]
  /-- The extension of documents, without its dot. -/
  extension : String := "md"
deriving DecidableEq, Repr

namespace Options

def skips (options : Options) (name : String) : Bool :=
  name.startsWith "." || options.skippedDirectories.contains name

def suffix (options : Options) : String :=
  "." ++ options.extension

/-- Whether a file name has the extension of documents. -/
def isDocument (options : Options) (name : FileName) : Bool :=
  name.extension? = some (FileName.encode options.extension.toList)

end Options

/-- A file with the names on its path below the root, as they are shown. -/
structure Source where
  path : List String
  bytes : ByteArray

def byName (left right : FileName × α) : Bool :=
  left.1.le right.1

mutual

/-- The document files of an entry, in the order of their paths, name by name. -/
def sourcesOf (options : Options) (above : List String) (name : FileName) :
    FileTree → List Source
  | .file bytes =>
      if options.isDocument name then [{ path := above ++ [name.shown], bytes }] else []
  | .directory entries =>
      if options.skips name.shown then []
      else
        ((sourcesByName options (above ++ [name.shown]) entries).mergeSort byName).flatMap Prod.snd

/-- The document files of each of some entries, with the entry's name. -/
def sourcesByName (options : Options) (above : List String) :
    List (FileName × FileTree) → List (FileName × List Source)
  | [] => []
  | (name, tree) :: rest =>
      (name, sourcesOf options above name tree) :: sourcesByName options above rest

end

/-- The label of a document by its place.  The first name on a path is the skill. -/
def labelOf (options : Options) : List String → String
  | [_, name] =>
      if name = "index" ++ options.suffix then "Index"
      else if name = "SKILL" ++ options.suffix then "Entrypoint"
      else "Document"
  | _ :: "nodes" :: _ :: _ => "Node"
  | _ :: "references" :: _ :: _ => "Reference"
  | _ :: "assets" :: _ :: _ => "Asset"
  | _ => "Document"

/-- Gives a node a property unless it has one that is neither NULL nor empty. -/
def fillMissing (key : String) (value : Option Property) (node : Node) : Node :=
  match node.properties.lookup key with
  | none | some .null | some (.string "") =>
      match value with
      | some value => node.putProperty key value
      | none => node
  | some _ => node

def stemOf (id : String) : String :=
  match Text.cutAtLast? '/' id.toList with
  | some (_, stem) => String.ofList stem
  | none => id

/-- The node of a document: what its front matter declares, its place, and a name, a type
and a title where the front matter has none. -/
def documentNode (options : Options) (skill : String) (path : List String) (content : String) :
    Node :=
  let relative := String.intercalate "/" path
  let id := String.ofList (Text.dropEnd options.suffix.toList relative.toList)
  let label := labelOf options path
  let declared : Node := {
    id
    labels := [label]
    properties := FrontMatter.properties content.toList
    skill
    path := relative }
  declared
    |>.putProperty "skill" (.string skill)
    |>.putProperty "path" (.string relative)
    |> fillMissing "name" (some (.string (stemOf id)))
    |> fillMissing "type" (some (.string (String.ofList (label.toList.map Char.toLower))))
    |> fillMissing "title" ((title? content.toList).map fun title => .string (String.ofList title))

def skillNode (skill : String) : Node where
  id := skill
  labels := ["Skill"]
  properties := [("name", .string skill)]
  skill := skill
  path := skill ++ "/"

/-- The nodes of a skill's documents, each with the text behind its front matter.  What is
no text is passed over. -/
def documents (options : Options) (skill : String) (sources : List Source) :
    List (Node × List Char) :=
  sources.filterMap fun source => do
    let content ← String.fromUTF8? source.bytes
    return (documentNode options skill source.path content,
      (FrontMatter.split content.toList).body)

def skillEdges (graph : Graph) (skill : String) : List Edge :=
  [("HAS_ENTRYPOINT", skill ++ "/SKILL"), ("HAS_INDEX", skill ++ "/index")].filterMap
    fun (type, target) => (graph.node? target).map fun _ => Edge.between skill type target

/-- Adds the nodes of a skill.  The edges come with them, to be added later. -/
def addSkill (options : Options) (graph : Graph) (skill : String)
    (entries : List (FileName × FileTree)) : Graph × List Edge :=
  let sources := ((sourcesByName options [skill] entries).mergeSort byName).flatMap Prod.snd
  let found := documents options skill sources
  let graph := (found.map Prod.fst).foldl Graph.addNode (graph.addNode (skillNode skill))
  let links := found.flatMap fun (node, body) =>
    match graph.node? node.id with
    | some present => edges present body
    | none => []
  (graph, links ++ skillEdges graph skill)

/-- The directories that are skills, in the order of their names. -/
def skills (options : Options) (entries : List (FileName × FileTree)) :
    List (FileName × List (FileName × FileTree)) :=
  let directories := entries.filterMap fun (name, tree) =>
    match tree with
    | .directory below => if options.skips name.shown then none else some (name, below)
    | .file _ => none
  directories.mergeSort byName

def addEdges (graph : Graph) (edges : List Edge) : Graph :=
  edges.foldl (fun graph edge =>
    match graph.addEdge edge with
    | .ok (graph, _) => graph
    | .error _ => graph) graph

def build (options : Options) (entries : List (FileName × FileTree)) : Graph :=
  let (graph, pending) := (skills options entries).foldl (fun (graph, pending) (name, below) =>
    let (graph, links) := addSkill options graph name.shown below
    (graph, pending ++ links)) (Graph.empty, [])
  addEdges graph pending

def buildAt (options : Options) (path : String) (found : Option FileTree) :
    Except BuildError Graph :=
  match found with
  | some (.directory entries) => .ok (build options entries)
  | _ => .error (.rootNotFound path)

end DocumentGraph.Document
