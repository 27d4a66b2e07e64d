import DocumentGraph.Text.Split

namespace DocumentGraph.CommandLine

/-! Arguments by their dashes, and the options that they can name. -/

/-- The program and its commands, each with options of its own. -/
inductive Level where
  | program | query | explain | stats
deriving DecidableEq, Repr

inductive OptionName where
  | verbose | help | version | file | root | format | maxDepth | tokens
deriving DecidableEq, Repr

namespace OptionName

def long : OptionName → String
  | verbose => "verbose"
  | help => "help"
  | version => "version"
  | file => "file"
  | root => "root"
  | format => "format"
  | maxDepth => "max-depth"
  | tokens => "tokens"

/-- The letter behind a single dash, for the options that have one. -/
def letter? : OptionName → Option Char
  | verbose => some 'v'
  | help => some 'h'
  | version => some 'V'
  | _ => none

def takesValue : OptionName → Bool
  | file | root | format | maxDepth => true
  | verbose | help | version | tokens => false

end OptionName

namespace Level

def options : Level → List OptionName
  | program => [.verbose, .help, .version]
  | query => [.file, .root, .format, .maxDepth, .verbose, .help]
  | explain => [.file, .tokens, .verbose, .help]
  | stats => [.root, .verbose, .help]

def option? (level : Level) (name : String) : Option OptionName :=
  level.options.find? (·.long = name)

def optionByLetter? (level : Level) (letter : Char) : Option OptionName :=
  level.options.find? (·.letter? = some letter)

end Level

/-- An argument by the dashes in front of it.  A lone dash is plain. -/
inductive Argument where
  | plain (text : String)
  | separator
  | long (name : String) (value : Option String)
  | short (letters : List Char)
deriving DecidableEq, Repr

namespace Argument

def ofText (text : String) : Argument :=
  match text.toList with
  | ['-', '-'] => separator
  | '-' :: '-' :: name =>
      match Text.cutAt? ['='] name with
      | some (name, value) => long (String.ofList name) (some (String.ofList value))
      | none => long (String.ofList name) none
  | '-' :: letter :: letters => short (letter :: letters)
  | _ => plain text

def isPlain (text : String) : Bool :=
  match ofText text with
  | plain _ => true
  | _ => false

end Argument

end DocumentGraph.CommandLine
