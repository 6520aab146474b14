/-
Settings of a resolution, and how they are read from texts such as the
values of environment variables.
-/
import TypeParams.Text.Blank
import TypeParams.Text.Numeral

namespace TypeParams

/-- What may be set for a resolution. -/
structure Config where
  /-- How many levels of a declared type are followed. Below that a
  warning is reported and nothing is inferred. -/
  maxDepth : Nat := 256
  /-- Report as warnings what would be errors. -/
  lossy : Bool := false
  deriving DecidableEq

namespace Config

def default : Config := {}

/-- Whether a text switches a setting on: any text does but the blank
one and the words for no. -/
def isOn (text : String) : Bool :=
  let word := Text.trim text.toList
  let no := ["0", "false", "FALSE", "False"]
  !word.isEmpty && !no.any (·.toList == word)

/-- A depth read from a text: a numeral of a positive 64-bit number
between blanks. -/
def readDepth? (text : String) : Option Nat :=
  (Text.readNat? UInt64.size (Text.trim text.toList)).filter (0 < ·)

/-- The settings that two texts give, each of which may be missing. A
depth that cannot be read is the default depth. -/
def ofTexts (depth lossy : Option String) : Config where
  maxDepth := (depth.bind readDepth?).getD default.maxDepth
  lossy := lossy.any isOn

end Config

end TypeParams
