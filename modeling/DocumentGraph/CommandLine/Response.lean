import DocumentGraph.CommandLine.Help
import DocumentGraph.Document.Answer
import DocumentGraph.Query.Json
import DocumentGraph.Report.Text

namespace DocumentGraph.CommandLine

/-! How the program responds to a request.

The exit code is zero for an answer without errors, one for an answer with errors or none,
and two for arguments that ask for nothing the program can do.
-/

structure Response where
  exitCode : UInt8
  stdout : String := ""
  stderr : String := ""
deriving DecidableEq, Repr

/-- What the program sees of the files around it. -/
structure Files where
  readText : String → Except Document.ReadError String
  find? : String → Option Document.FileTree

def Files.none : Files where
  readText _ := .error .notFound
  find? _ := .none

def Files.ofTree (tree : Document.FileTree) : Files where
  readText := tree.readText
  find? path := (tree.find path).toOption

namespace Response

def success (stdout : String) : Response :=
  { exitCode := 0, stdout }

def failure (message : String) : Response :=
  { exitCode := 1, stderr := Report.ofLines [message] }

def error (message : String) : Response :=
  failure ("error: " ++ message)

def ofQueryError (reason : Query.QueryError) : Response :=
  failure reason.diagnostic.display

def ofUsageError (reason : UsageError) : Response :=
  { exitCode := 2, stderr := Report.ofLines ["error: " ++ reason.message] }

/-- A table as the answer.  As text it goes to the standard output, and what it reports to
the standard error; as JSON all of it is one value. -/
def ofTable (format : Format) (table : Table) : Response :=
  let exitCode := if table.hasErrors then 1 else 0
  match format with
  | .tsv => {
      exitCode
      stdout := Report.table table
      stderr := Report.ofLines (table.diagnostics.map Query.Diagnostic.display) }
  | .json => { exitCode, stdout := Report.ofLines [table.toJson.pretty] }

end Response

/-- The text of a query, or the message that says why there is none. -/
def QuerySource.read (files : Files) : QuerySource → Except String String
  | text query => .ok query
  | file path =>
      match files.readText path with
      | .ok query => .ok query
      | .error reason => .error ("failed to read query file " ++ path ++ ": " ++ reason.message)
  | missing => .error "either a query argument or --file is required"

namespace Command

def respondQuery (files : Files) (root : String) (format : Format) (maxDepth : Nat)
    (query : String) : Response :=
  match Query.answerAt root (files.find? root) maxDepth query with
  | .ok table => .ofTable format table
  | .error reason => .ofQueryError reason

def respondExplain (tokens : Bool) (query : String) : Response :=
  let explained :=
    if tokens then (Query.tokenize query).map Report.tokens
    else (Query.prepare query).map fun prepared => Report.ofLines [prepared.toJson.pretty]
  match explained with
  | .ok text => .success text
  | .error reason => .ofQueryError reason

def respondStats (files : Files) (root : String) : Response :=
  match Document.buildAt {} root (files.find? root) with
  | .ok graph => .success (Report.counts graph)
  | .error reason => .error ("failed to build graph from " ++ root ++ ": " ++ reason.message)

def respond (files : Files) (command : Command) : Response :=
  let onQuery (source : QuerySource) (respond : String → Response) : Response :=
    match source.read files with
    | .ok text => respond text
    | .error message => .error message
  match command with
  | query source root format maxDepth => onQuery source (respondQuery files root format maxDepth)
  | explain source tokens => onQuery source (respondExplain tokens)
  | stats root => respondStats files root

end Command

def Request.respond (files : Files) : Request → Response
  | run command => command.respond files
  | help level => .success (Report.ofLines (helpLines level))
  | version => .success (Report.ofLines [versionLine])

def respond (environment : Environment) (files : Files) (arguments : List String) : Response :=
  match Request.read environment arguments with
  | .ok request => request.respond files
  | .error reason => .ofUsageError reason

end DocumentGraph.CommandLine
