/-
# Source languages

Kotlin files and Kotlin scripts share one grammar; any other file is of an unknown language.
The language of a file is read off its extension, in either case of letters.
-/
import SpecOutline.Files.Pathname

namespace SpecOutline

/-! ## 1. The languages -/

/-- The language of a source file. -/
inductive Language where
  | kotlin
  | kotlinScript
  | unknown
deriving Repr, DecidableEq, Inhabited

namespace Language

/-- The name for readers. -/
def title : Language → String
  | .kotlin => "Kotlin"
  | .kotlinScript => "Kotlin Script"
  | .unknown => "Unknown"

/-- The name in error messages. -/
def tag : Language → String
  | .kotlin => "Kotlin"
  | .kotlinScript => "KotlinScript"
  | .unknown => "Unknown"

/-- The name in stored files. -/
def key : Language → String
  | .kotlin => "kotlin"
  | .kotlinScript => "kotlinscript"
  | .unknown => "unknown"

/-- The languages by their names in stored files. -/
def byKey : List (String × Language) :=
  [Language.kotlin, .kotlinScript, .unknown].map fun l => (l.key, l)

/-- Whether there is a grammar for a language. -/
def isSupported : Language → Bool
  | .unknown => false
  | _ => true

/-! ## 2. Languages of files -/

/-- Lower case, as far as the letters of the known extensions need it: beside the ASCII
capitals, the Kelvin sign is the only character whose lower case is one of them. -/
def lowerLetter (c : Char) : Char := if c.toNat == 0x212A then 'k' else c.toLower

/-- The language that an extension announces. -/
def ofExtension (ext : String) : Language :=
  match ext.map lowerLetter with
  | "kt" => .kotlin
  | "kts" => .kotlinScript
  | _ => .unknown

/-- The language of the file at a pathname. -/
def ofPathname (path : String) : Language :=
  ((Pathname.extension? path).map ofExtension).getD .unknown

end Language

end SpecOutline
