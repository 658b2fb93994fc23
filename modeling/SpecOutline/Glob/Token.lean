/-
# Glob patterns

A pattern is a list of tokens.  It is matched against the octets of a whole path; no token
minds slashes but the three that come of `**`.
-/

namespace SpecOutline.Glob

/-- A part of a pattern. -/
inductive Token where
  | literal (c : Char)
  /-- Any one octet. -/
  | anyOctet
  /-- Any octets. -/
  | anyRun
  /-- Nothing or one slash, or anything up to a slash: `**` at the start. -/
  | anyStart
  /-- A slash and anything: `**` at the end. -/
  | anyEnd
  /-- A slash, or anything between two slashes: `**` in the middle. -/
  | anyMiddle
  /-- One octet of, or not of, some ranges of characters. -/
  | oneOf (negated : Bool) (ranges : List (Char × Char))
  | choice (branches : List (List Token))
deriving Repr, Inhabited

/-- A pattern. -/
abbrev Pattern := List Token

/-- Why a text is no pattern. -/
inductive Error where
  | unclosedClass
  | invalidRange (low high : Char)
  | unopenedChoice
  | unclosedChoice
  | danglingEscape
deriving Repr, DecidableEq

namespace Error

/-- What is wrong with a text. -/
def reason : Error → String
  | .unclosedClass => "unclosed character class; missing ']'"
  | .invalidRange low high => s!"invalid range; '{low}' > '{high}'"
  | .unopenedChoice =>
    "unopened alternate group; missing '\x7b' (maybe escape '\x7d' with '[\x7d]'?)"
  | .unclosedChoice =>
    "unclosed alternate group; missing '\x7d' (maybe escape '\x7b' with '[\x7b]'?)"
  | .danglingEscape => "dangling '\\'"

/-- The words for a text that is no pattern. -/
def message (e : Error) (glob : String) : String :=
  "error parsing glob '" ++ glob ++ "': " ++ e.reason

end Error

end SpecOutline.Glob
