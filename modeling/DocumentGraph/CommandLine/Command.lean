import DocumentGraph.CommandLine.Settings
import DocumentGraph.Query.Vocabulary

namespace DocumentGraph.CommandLine

/-! What the arguments ask for. -/

inductive QuerySource where
  | text (query : String)
  | file (path : String)
  | missing
deriving DecidableEq, Repr

inductive Command where
  | query (source : QuerySource) (root : String) (format : Format) (maxDepth : Nat)
  | explain (source : QuerySource) (tokens : Bool)
  | stats (root : String)
deriving DecidableEq, Repr

namespace Command

def queryFile? : Command → Option String
  | query (.file path) .. | explain (.file path) _ => some path
  | _ => none

def root? : Command → Option String
  | query _ root .. | stats root => some root
  | explain .. => none

end Command

inductive Request where
  | run (command : Command)
  | help (level : Level)
  | version
deriving DecidableEq, Repr

/-- The values that stand in for options that are not given. -/
structure Environment where
  root : Option String := none
  maxDepth : Option String := none
deriving DecidableEq, Repr

namespace Environment

/-- The variables that hold the root and the bound on the depth. -/
def rootVariable : String := "SGQS_ROOT"

def maxDepthVariable : String := "SGQS_MAX_DEPTH"

def ofVariables (lookup : String → Option String) : Environment :=
  { root := lookup rootVariable, maxDepth := lookup maxDepthVariable }

end Environment

/-- The root where neither an option nor the environment names one. -/
def defaultRoot : String := "."

namespace Settings

/-- The value of an option, or else of its variable, or else the default. -/
def resolve (option : OptionName) (given : Option α) (inherited : Option String)
    (read? : String → Option α) (default : α) : Except UsageError α :=
  match given, inherited with
  | some value, _ => .ok value
  | none, none => .ok default
  | none, some text =>
      match read? text with
      | some value => .ok value
      | none => .error (.invalidValue option text)

def rootIn (environment : Environment) (settings : Settings) : Except UsageError String :=
  resolve .root settings.root environment.root readPath? defaultRoot

def maxDepthIn (environment : Environment) (settings : Settings) : Except UsageError Nat :=
  resolve .maxDepth (settings.maxDepth.map UInt32.toNat) environment.maxDepth
    (fun text => (readDepth? text).map UInt32.toNat) Query.defaultMaxDepth

def source (settings : Settings) : Except UsageError QuerySource :=
  match settings.query, settings.file with
  | some _, some _ => .error .queryTwice
  | some query, none => .ok (.text query)
  | none, some path => .ok (.file path)
  | none, none => .ok .missing

end Settings

namespace Request

def ofQuery (environment : Environment) (settings : Settings) : Except UsageError Request := do
  return .run (.query (← settings.source) (← settings.rootIn environment)
    (settings.format.getD .tsv) (← settings.maxDepthIn environment))

def ofExplain (settings : Settings) : Except UsageError Request := do
  return .run (.explain (← settings.source) settings.tokens)

def ofStats (environment : Environment) (settings : Settings) : Except UsageError Request := do
  return .run (.stats (← settings.rootIn environment))

/-- Reads the arguments of a command to their end, unless they stop before. -/
def ofArguments (level : Level) (finish : Settings → Except UsageError Request)
    (arguments : List String) : Except UsageError Request :=
  match Settings.read level {} arguments with
  | .ok (settings, _) => finish settings
  | .error (.help level) => .ok (.help level)
  | .error .version => .ok .version
  | .error (.fault error) => .error error

def ofHelp : List String → Except UsageError Request
  | [] | ["help"] => .ok (.help .program)
  | ["query"] => .ok (.help .query)
  | ["explain"] => .ok (.help .explain)
  | ["stats"] => .ok (.help .stats)
  | name :: _ => .error (.unknownCommand name)

def read (environment : Environment) (arguments : List String) : Except UsageError Request :=
  match Settings.read .program {} arguments with
  | .ok (_, []) => .error .missingCommand
  | .ok (_, "query" :: rest) => ofArguments .query (ofQuery environment) rest
  | .ok (_, "explain" :: rest) => ofArguments .explain ofExplain rest
  | .ok (_, "stats" :: rest) => ofArguments .stats (ofStats environment) rest
  | .ok (_, "help" :: rest) => ofHelp rest
  | .ok (_, name :: _) => .error (.unknownCommand name)
  | .error (.help level) => .ok (.help level)
  | .error .version => .ok .version
  | .error (.fault error) => .error error

end Request

end DocumentGraph.CommandLine
