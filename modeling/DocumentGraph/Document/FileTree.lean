import DocumentGraph.Document.FileName

namespace DocumentGraph.Document

/-! Trees of files and directories, and paths in them. -/

/-- A file with its bytes, or a directory with named entries.  Names are bytes; what a name is in
paths and ids is how it is shown. -/
inductive FileTree where
  | file (bytes : ByteArray)
  | directory (entries : List (FileName × FileTree))

inductive ReadError where
  | notFound
  | notDirectory
  | isDirectory
  | notText
  | other (reason : String)
deriving DecidableEq, Repr

def ReadError.message : ReadError → String
  | notFound => "No such file or directory (os error 2)"
  | notDirectory => "Not a directory (os error 20)"
  | isDirectory => "Is a directory (os error 21)"
  | notText => "stream did not contain valid UTF-8"
  | other reason => reason

namespace FileTree

def entries : FileTree → List (FileName × FileTree)
  | file _ => []
  | directory entries => entries

def isDirectory : FileTree → Bool
  | file _ => false
  | directory _ => true

def segments (path : String) : List String :=
  path.splitOn "/"

/-- Walks along the segments of a path.  `above` holds the directories on the way, the nearest
first; empty segments and single dots stay where they are. -/
def walk (above : List FileTree) (tree : FileTree) : List FileName → Except ReadError FileTree
  | [] => .ok tree
  | segment :: rest =>
      if !tree.isDirectory then .error .notDirectory
      else if segment = "" || segment = "." then walk above tree rest
      else if segment = ".." then
        match above with
        | [] => .error .notFound
        | parent :: above => walk above parent rest
      else
        match tree.entries.lookup segment with
        | none => .error .notFound
        | some next => walk (tree :: above) next rest

/-- What a path below a directory leads to.  Absolute paths lead nowhere. -/
def find (tree : FileTree) (path : String) : Except ReadError FileTree :=
  match segments path with
  | [""] => .error .notFound
  | "" :: _ => .error .notFound
  | found => walk [] tree (found.map .ofText)

def bytesText (bytes : ByteArray) : Except ReadError String :=
  match String.fromUTF8? bytes with
  | some text => .ok text
  | none => .error .notText

def readText (tree : FileTree) (path : String) : Except ReadError String := do
  match ← tree.find path with
  | file bytes => bytesText bytes
  | directory _ => .error .isDirectory

/-- The entries with `tree` added at the end of a path of names, inside directories that are
made where they are missing.  An empty path adds nothing. -/
def insertAt (tree : FileTree) : List FileName → List (FileName × FileTree) →
    List (FileName × FileTree)
  | [], entries => entries
  | [name], entries => putEntry name tree entries
  | name :: rest, entries =>
      let below := ((entries.lookup name).map FileTree.entries).getD []
      putEntry name (directory (insertAt tree rest below)) entries
where
  putEntry (name : FileName) (tree : FileTree) :
      List (FileName × FileTree) → List (FileName × FileTree)
    | [] => [(name, tree)]
    | (present, old) :: rest =>
        if present = name then (name, tree) :: rest else (present, old) :: putEntry name tree rest

/-- A directory with the given files.  A path with a slash at its end stands for a directory
without files. -/
def ofFiles (files : List (String × ByteArray)) : FileTree :=
  directory (files.foldl (fun entries (path, bytes) =>
    let names := ((segments path).filter (· ≠ "")).map FileName.ofText
    if path.endsWith "/" then
      if (walk [] (directory entries) names).toOption.isSome then entries
      else insertAt (directory []) names entries
    else insertAt (file bytes) names entries) [])

end FileTree

end DocumentGraph.Document
