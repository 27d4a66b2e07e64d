import DocumentGraph.CommandLine.Command

namespace DocumentGraph.CommandLine

/-! Help on the program and its commands. -/

def programName : String := "sgqs"

def versionLine : String := programName ++ " 0.1.0"

namespace Level

/-- What stands behind the program's name, and what it does. -/
def usage : Level → String × String
  | program => ("[OPTIONS] <COMMAND>", "Queries over the graph of a tree of skills")
  | query => ("query [OPTIONS] [QUERY]", "Run a query against the skill graph under --root")
  | explain =>
      ("explain [OPTIONS] [QUERY]", "Show how a query is scanned and parsed without running it")
  | stats => ("stats [OPTIONS]", "Count nodes per label and edges per relationship type")

end Level

def OptionName.purpose : OptionName → String
  | verbose => "Accepted by every command; no log is written"
  | help => "Print help"
  | version => "Print version"
  | file => "Read the query from a file"
  | root => "Skill tree root: one directory per skill"
  | format => "Output format: tsv or json"
  | maxDepth => "Hop cap for variable-length relationships written without an upper bound"
  | tokens => "Print the token stream instead of the parsed query"

def OptionName.head (option : OptionName) : String :=
  let letter := match option.letter? with
    | some letter => "-" ++ String.singleton letter ++ ", "
    | none => "    "
  let value := if option.takesValue then " <VALUE>" else ""
  letter ++ "--" ++ option.long ++ value

def helpLine (head text : String) : String :=
  "  " ++ head.pushn ' ' (24 - head.length) ++ "  " ++ text

def helpLines (level : Level) : List String :=
  let (usage, purpose) := level.usage
  let commands := match level with
    | .program =>
        ["", "Commands:"] ++ [("query", Level.query), ("explain", .explain), ("stats", .stats)].map
          fun (name, command) => helpLine name command.usage.2
    | _ => []
  let options := level.options.map fun option => helpLine option.head option.purpose
  [purpose, "", "Usage: " ++ programName ++ " " ++ usage] ++ commands ++ ["", "Options:"] ++ options

end DocumentGraph.CommandLine
