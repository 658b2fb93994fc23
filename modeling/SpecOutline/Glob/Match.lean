/-
# Matching glob patterns

A token matches in front of a rest that what follows it accepts.  Matching is on octets: a
literal is its UTF-8 encoding, and a class holds the octets between the last octet of each
lower end and the first of the upper end, and the remaining octets of both by themselves.
-/
import SpecOutline.Glob.Parser

namespace SpecOutline.Glob

/-! ## 1. Octets -/

/-- What accepts or refuses the rest of a path. -/
abbrev Rest := List UInt8 → Bool

/-- The octet of a slash. -/
def slash : UInt8 := 47

/-- Accepts if some end of a path is accepted. -/
def afterAny (next : Rest) : Rest
  | [] => next []
  | b :: bs => next (b :: bs) || afterAny next bs

/-- Accepts if what follows some slash is accepted. -/
def afterSlash (next : Rest) : Rest
  | [] => false
  | b :: bs => b == slash && next bs || afterSlash next bs

/-- Accepts a path that starts with given octets, if the rest is accepted. -/
def afterOctets (octets : List UInt8) (next : Rest) : Rest :=
  match octets with
  | [] => next
  | o :: os => fun
    | [] => false
    | b :: bs => o == b && afterOctets os next bs

/-- The octets of a character. -/
def octetsOf (c : Char) : List UInt8 := String.utf8EncodeChar c

/-- Whether an octet belongs to a range of characters. -/
def inRange (b : UInt8) (range : Char × Char) : Bool :=
  let low := octetsOf range.1
  let high := octetsOf range.2
  if range.1 == range.2 then low.contains b
  else low.dropLast.contains b || high.tail.contains b
    || (low.getLast?.any (· ≤ b) && high.head?.any (b ≤ ·))

/-! ## 2. Tokens -/

mutual

/-- Whether a token stands for nothing at all: a choice between such branches. -/
def Token.isVoid : Token → Bool
  | .choice branches => allVoid branches
  | _ => false

/-- Whether a branch stands for nothing at all. -/
def branchVoid : List Token → Bool
  | [] => true
  | t :: ts => t.isVoid && branchVoid ts

/-- Whether all branches stand for nothing at all. -/
def allVoid : List (List Token) → Bool
  | [] => true
  | b :: bs => branchVoid b && allVoid bs

end

mutual

/-- Matches a token in front of an accepted rest.  Empty branches of a choice count only if
there are no others. -/
def Token.accepts (next : Rest) : Token → Rest
  | .literal c, path => afterOctets (octetsOf c) next path
  | .anyOctet, path =>
    match path with
    | [] => false
    | _ :: rest => next rest
  | .anyRun, path => afterAny next path
  | .anyStart, path => next path || afterSlash next path
  | .anyEnd, path =>
    match path with
    | [] => false
    | b :: rest => b == slash && afterAny next rest
  | .anyMiddle, path =>
    match path with
    | [] => false
    | b :: rest => b == slash && (next rest || afterSlash next rest)
  | .oneOf negated ranges, path =>
    match path with
    | [] => false
    | b :: rest => (ranges.any (inRange b)) != negated && next rest
  | .choice branches, path =>
    if allVoid branches then next path else someAccepts next branches path

/-- Matches tokens one after the other. -/
def branchAccepts (next : Rest) : List Token → Rest
  | [], path => next path
  | t :: ts, path => t.accepts (fun rest => branchAccepts next ts rest) path

/-- Matches one of the branches that are not empty. -/
def someAccepts (next : Rest) : List (List Token) → Rest
  | [], _ => false
  | b :: bs, path => (!branchVoid b && branchAccepts next b path) || someAccepts next bs path

end

/-- Whether a pattern matches a whole path.  A lone `**` matches everything. -/
def Pattern.matches (p : Pattern) (path : String) : Bool :=
  match p with
  | [.anyStart] => true
  | tokens => branchAccepts List.isEmpty tokens path.toUTF8.toList

end SpecOutline.Glob
