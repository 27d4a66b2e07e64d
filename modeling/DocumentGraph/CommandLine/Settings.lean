import DocumentGraph.CommandLine.Argument
import DocumentGraph.Text.Numeral

namespace DocumentGraph.CommandLine

/-! From arguments to settings.

Arguments are read from left to right.  A fault ends the reading, and so does a request for
help or for the version; what stands behind them does not matter.
-/

inductive UsageError where
  | missingCommand
  | unknownCommand (name : String)
  | unknownOption (argument : String)
  | unexpectedArgument (argument : String)
  | missingValue (option : OptionName)
  | unexpectedValue (option : OptionName)
  | invalidValue (option : OptionName) (value : String)
  | repeated (option : OptionName)
  | queryTwice
deriving DecidableEq, Repr

def UsageError.message : UsageError → String
  | missingCommand => "a command is required"
  | unknownCommand name => "unknown command '" ++ name ++ "'"
  | unknownOption argument => "unknown option '" ++ argument ++ "'"
  | unexpectedArgument argument => "unexpected argument '" ++ argument ++ "'"
  | missingValue option => "option --" ++ option.long ++ " needs a value"
  | unexpectedValue option => "option --" ++ option.long ++ " takes no value"
  | invalidValue option value =>
      "invalid value '" ++ value ++ "' for option --" ++ option.long
  | repeated option => "option --" ++ option.long ++ " is given more than once"
  | queryTwice => "a query argument cannot be used with --file"

inductive Format where
  | tsv | json
deriving DecidableEq, Repr

def Format.ofName? : String → Option Format
  | "tsv" => some .tsv
  | "json" => some .json
  | _ => none

structure Settings where
  verbose : Bool := false
  tokens : Bool := false
  query : Option String := none
  file : Option String := none
  root : Option String := none
  format : Option Format := none
  maxDepth : Option UInt32 := none
deriving DecidableEq, Repr

/-- Why reading ends before the last argument. -/
inductive Stop where
  | help (level : Level)
  | version
  | fault (error : UsageError)
deriving DecidableEq, Repr

/-- A path is not empty. -/
def readPath? (value : String) : Option String :=
  if value.isEmpty then none else some value

/-- A bound on the depth is a whole number of 32 bits, with or without a sign. -/
def readDepth? (value : String) : Option UInt32 := do
  let depth := (← Text.readInt64? value.toList).toInt
  if 0 ≤ depth ∧ depth < UInt32.size then some (UInt32.ofNat depth.toNat) else none

/-- A value that an option has not had before. -/
def Settings.fill (option : OptionName) (old : Option α) (read? : String → Option α)
    (value : String) : Except Stop (Option α) :=
  match old, read? value with
  | some _, _ => .error (.fault (.repeated option))
  | none, none => .error (.fault (.invalidValue option value))
  | none, some value => .ok (some value)

namespace Settings

def assign (settings : Settings) (option : OptionName) (value : String) :
    Except Stop Settings :=
  match option with
  | .file => do return { settings with file := ← fill option settings.file readPath? value }
  | .root => do return { settings with root := ← fill option settings.root readPath? value }
  | .format => do
      return { settings with format := ← fill option settings.format Format.ofName? value }
  | .maxDepth => do
      return { settings with maxDepth := ← fill option settings.maxDepth readDepth? value }
  | .verbose | .help | .version | .tokens => .error (.fault (.unexpectedValue option))

/-- An option that stands for itself. -/
def switch (level : Level) (settings : Settings) (option : OptionName) :
    Except Stop Settings :=
  match option with
  | .help => .error (.help level)
  | .version => .error .version
  | .verbose =>
      if settings.verbose then .error (.fault (.repeated option))
      else .ok { settings with verbose := true }
  | .tokens =>
      if settings.tokens then .error (.fault (.repeated option))
      else .ok { settings with tokens := true }
  | .file | .root | .format | .maxDepth => .error (.fault (.missingValue option))

def switchByLetter (level : Level) (settings : Settings) (letter : Char) :
    Except Stop Settings :=
  match level.optionByLetter? letter with
  | some option => settings.switch level option
  | none => .error (.fault (.unknownOption ("-" ++ String.singleton letter)))

/-- A plain argument is the query, where a query is asked for. -/
def addPlain (level : Level) (settings : Settings) (text : String) : Except Stop Settings :=
  match level, settings.query with
  | .query, none | .explain, none => .ok { settings with query := some text }
  | _, _ => .error (.fault (.unexpectedArgument text))

/-- Reads the arguments of a level, and returns those that belong to a command.  Behind a
separator every argument is plain; a value stands in its option's argument behind an equals
sign, or is the plain argument that follows. -/
def read (level : Level) (settings : Settings) :
    List String → Except Stop (Settings × List String)
  | [] => .ok (settings, [])
  | argument :: rest =>
      match Argument.ofText argument with
      | .separator => do return (← rest.foldlM (addPlain level) settings, [])
      | .plain text =>
          if level = .program then .ok (settings, text :: rest)
          else do (← settings.addPlain level text).read level rest
      | .short letters => do (← letters.foldlM (switchByLetter level) settings).read level rest
      | .long name value =>
          match level.option? name with
          | none => .error (.fault (.unknownOption argument))
          | some option =>
              match value with
              | some value => do (← settings.assign option value).read level rest
              | none =>
                  if option.takesValue then
                    match rest with
                    | [] => .error (.fault (.missingValue option))
                    | value :: others =>
                        if Argument.isPlain value then do
                          (← settings.assign option value).read level others
                        else .error (.fault (.missingValue option))
                  else do (← settings.switch level option).read level rest

end Settings

end DocumentGraph.CommandLine
