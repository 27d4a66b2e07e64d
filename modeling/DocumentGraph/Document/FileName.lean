import DocumentGraph.Text.Split

namespace DocumentGraph.Document

/-! Names of files and directories.

A file system keeps a name as bytes, and these need not be a text in UTF-8.  Paths and ids show a
replacement character for what is no text, so that different names can be shown alike.
-/

structure FileName where
  bytes : List UInt8
deriving DecidableEq, Repr

namespace FileName

/-- A text in UTF-8. -/
def encode (text : List Char) : List UInt8 :=
  text.flatMap String.utf8EncodeChar

def ofText (text : String) : FileName where
  bytes := encode text.toList

instance : Coe String FileName :=
  ⟨ofText⟩

/-- A character that some bytes begin.  Each of those that are missing brings six bits, and those of
the first one are in a range. -/
structure Begun where
  code : Nat
  missing : Nat
  least : Nat := 0
  greatest : Nat := 0x3f

/-- The character that a byte begins together with others.  The ranges leave out longer forms than
needed, surrogates, and codes above those of all characters. -/
def begun? (byte : Nat) : Option Begun :=
  if byte < 0xc2 then none
  else if byte < 0xe0 then some { code := byte - 0xc0, missing := 1 }
  else if byte < 0xf0 then
    let least := if byte = 0xe0 then 0x20 else 0
    let greatest := if byte = 0xed then 0x1f else 0x3f
    some { code := byte - 0xe0, missing := 2, least, greatest }
  else if byte < 0xf5 then
    let least := if byte = 0xf0 then 0x10 else 0
    let greatest := if byte = 0xf4 then 0x0f else 0x3f
    some { code := byte - 0xf0, missing := 3, least, greatest }
  else none

def replacement : Char := '\ufffd'

/-- What a byte shows where no character is begun. -/
def start (byte : Nat) : List Char × Option Begun :=
  if byte < 0x80 then ([Char.ofNat byte], none)
  else match begun? byte with
    | some begun => ([], some begun)
    | none => ([replacement], none)

/-- What a byte shows where a character may be begun.  A byte that does not go on with it leaves
one replacement character for all that was begun, and starts anew. -/
def step : Option Begun → Nat → List Char × Option Begun
  | none, byte => start byte
  | some begun, byte =>
      let bits := byte - 0x80
      if 0x80 ≤ byte && begun.least ≤ bits && bits ≤ begun.greatest then
        let code := begun.code * 64 + bits
        if begun.missing = 1 then ([Char.ofNat code], none)
        else ([], some { code, missing := begun.missing - 1 })
      else
        let (shown, begun) := start byte
        (replacement :: shown, begun)

def shownFrom (begun : Option Begun) : List UInt8 → List Char
  | [] => if begun.isSome then [replacement] else []
  | byte :: rest =>
      let (shown, begun) := step begun byte.toNat
      shown ++ shownFrom begun rest

/-- The name as a text. -/
def shown (name : FileName) : String :=
  String.ofList (shownFrom none name.bytes)

/-- What stands behind the last dot, if anything stands in front of it. -/
def extension? (name : FileName) : Option (List UInt8) :=
  match Text.cutAtLast? '.'.toUInt8 name.bytes with
  | some (stem, extension) => if stem.isEmpty then none else some extension
  | none => none

def le (left right : FileName) : Bool :=
  left.bytes ≤ right.bytes

end FileName

end DocumentGraph.Document
