import DocumentGraph.CommandLine.Response

namespace DocumentGraph.Main

open CommandLine

/-! The program: it looks up what a request needs and prints the response. -/

def readError : IO.Error → Document.ReadError
  | .noFileOrDirectory .. => .notFound
  | .inappropriateType _ code _ =>
      if code = 21 || -code = 21 then .isDirectory else .notDirectory
  | reason => .other (toString reason)

def readText (path : String) : IO (Except Document.ReadError String) := do
  match ← (IO.FS.readBinFile path).toBaseIO with
  | .ok bytes => return Document.FileTree.bytesText bytes
  | .error reason => return .error (readError reason)

/-- The named entries of a directory that the graph can depend on.  Links are not followed,
and what cannot be read is left out.  The library gives names as texts, so bytes that are no text are
lost here already. -/
partial def readEntries (options : Document.Options) (entries : List IO.FS.DirEntry) :
    IO (List (Document.FileName × Document.FileTree)) := do
  let found ← entries.mapM fun entry => do
    let tree ← (readEntry entry).toBaseIO
    return tree.toOption.join.map fun tree => (.ofText entry.fileName, tree)
  return found.filterMap id
where
  readEntry (entry : IO.FS.DirEntry) : IO (Option Document.FileTree) := do
    match (← entry.path.symlinkMetadata).type with
    | .file =>
        if options.isDocument entry.fileName then
          return some (.file (← IO.FS.readBinFile entry.path))
        else return none
    | .dir =>
        if options.skips entry.fileName then return none
        else return some (.directory (← readEntries options (← entry.path.readDir).toList))
    | _ => return none

def readRoot (path : String) : IO (Option Document.FileTree) := do
  let entries ← (do readEntries {} (← (← IO.FS.realPath path).readDir).toList : IO _).toBaseIO
  return entries.toOption.map .directory

def filesOf (command : Command) : IO Files := do
  let text ← match command.queryFile? with
    | some path => readText path
    | none => pure (.error .notFound)
  let tree ← match command.root? with
    | some path => readRoot path
    | none => pure none
  return { readText := fun _ => text, find? := fun _ => tree }

def answer (request : Request) : IO Response := do
  match request with
  | .run command => return command.respond (← filesOf command)
  | .help .. | .version => return request.respond .none

def run (arguments : List String) : IO UInt32 := do
  let environment : Environment := {
    root := ← IO.getEnv Environment.rootVariable
    maxDepth := ← IO.getEnv Environment.maxDepthVariable }
  let response ← match Request.read environment arguments with
    | .ok request => answer request
    | .error reason => pure (.ofUsageError reason)
  IO.print response.stdout
  IO.eprint response.stderr
  return response.exitCode.toUInt32

end DocumentGraph.Main

def main (arguments : List String) : IO UInt32 :=
  DocumentGraph.Main.run arguments
