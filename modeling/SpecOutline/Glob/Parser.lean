/-
# Reading glob patterns

Left to right: `?` and `*` stand for octets, `\` takes the next character as it is, `[...]`
is a class of characters and `{...}` a choice between the branches that commas divide.
Outside a choice a comma is a literal.  What `**` stands for depends on what is around it:
the start, a slash or the end of a branch make it cross directories, anything else makes it
two stars.
-/
import SpecOutline.Glob.Token

namespace SpecOutline.Glob

/-! ## 1. Classes -/

/-- The ranges of a class, the last one first, and whether it waits for its upper end. -/
structure ClassDraft where
  ranges : List (Char × Char) := []
  isOpen : Bool := false

namespace ClassDraft

/-- Adds a character: as the upper end of the range that waits for one, or by itself. -/
def add (d : ClassDraft) (c : Char) : Except Error ClassDraft :=
  match d.isOpen, d.ranges with
  | true, (low, _) :: rest =>
    if c < low then .error (.invalidRange low c)
    else .ok { ranges := (low, c) :: rest }
  | _, ranges => .ok { ranges := (c, c) :: ranges }

/-- The ranges; a dash that waits in vain is a character. -/
def close (d : ClassDraft) : List (Char × Char) :=
  (if d.isOpen then ('-', '-') :: d.ranges else d.ranges).reverse

end ClassDraft

/-- Reads a class up to its closing bracket.  A dash after a character opens a range. -/
def classBody (d : ClassDraft) : List Char →
    Except Error (List (Char × Char) × List Char)
  | [] => .error .unclosedClass
  | ']' :: cs => .ok (d.close, cs)
  | '-' :: cs =>
    if d.isOpen then do classBody (← d.add '-') cs
    else classBody { d with isOpen := true } cs
  | c :: cs => do classBody (← d.add c) cs

/-- Reads a class after its opening bracket: a mark of negation, a first character that is
itself whatever it is, and the rest. -/
def charClass (cs : List Char) : Except Error (Token × List Char) := do
  let negated := cs.head? == some '!' || cs.head? == some '^'
  match if negated then cs.tail else cs with
  | [] => .error .unclosedClass
  | c :: rest =>
    let (ranges, rest) ← classBody { ranges := [(c, c)] } rest
    return (.oneOf negated ranges, rest)

/-! ## 2. Branches -/

/-- A choice that is being read: its finished branches, the last one first, and what stands
before it in its own branch. -/
structure OpenChoice where
  finished : List Pattern
  before : Pattern

/-- What has been read: the tokens of the current branch, the last one first, and the choices
around it, the innermost first. -/
structure Draft where
  current : Pattern := []
  choices : List OpenChoice := []

namespace Draft

/-- Adds a token to the current branch. -/
def push (d : Draft) (t : Token) : Draft := { d with current := t :: d.current }

/-- Whether a choice is open. -/
def inChoice (d : Draft) : Bool := !d.choices.isEmpty

/-- Opens a choice. -/
def openChoice (d : Draft) : Draft where
  current := []
  choices := ⟨[], d.current⟩ :: d.choices

/-- Starts the next branch of a choice; elsewhere a comma is a literal. -/
def comma (d : Draft) : Draft :=
  match d.choices with
  | [] => d.push (.literal ',')
  | c :: rest =>
    { current := [], choices := { c with finished := d.current.reverse :: c.finished } :: rest }

/-- Closes a choice. -/
def closeChoice (d : Draft) : Except Error Draft :=
  match d.choices with
  | [] => .error .unopenedChoice
  | c :: rest =>
    .ok { current := .choice (d.current.reverse :: c.finished).reverse :: c.before
          choices := rest }

/-- The pattern, once all choices are closed. -/
def finish (d : Draft) : Except Error Pattern :=
  if d.inChoice then .error .unclosedChoice else .ok d.current.reverse

/-- Replaces the last token, a slash or what stands for one, by a token that crosses
directories; after one that already does, nothing changes. -/
def cross (d : Draft) (t : Token) : Draft :=
  match d.current with
  | .anyStart :: _ => d
  | .anyEnd :: _ => d
  | _ :: rest => { d with current := t :: rest }
  | [] => d.push t

/-- Reads what follows two stars that stand after `previous?`. -/
def doubleStar (d : Draft) (previous? : Option Char) (cs : List Char) : Draft × List Char :=
  let plain := (d.push .anyRun).push .anyRun
  if d.current.isEmpty then
    match cs with
    | [] => (d.push .anyStart, [])
    | '/' :: rest => (d.push .anyStart, rest)
    | _ => (plain, cs)
  else if previous? != some '/'
      && !(d.inChoice && (previous? == some ',' || previous? == some '\x7b')) then (plain, cs)
  else
    match cs with
    | [] => (d.cross .anyEnd, [])
    | '/' :: rest => (d.cross .anyMiddle, rest)
    | c :: _ =>
      if d.inChoice && (c == ',' || c == '\x7d') then (d.cross .anyEnd, cs) else (plain, cs)

end Draft

/-! ## 3. Patterns -/

/-- Reads a pattern after `previous?`.  The first argument bounds the number of characters. -/
def parseFrom : Nat → Draft → (previous? : Option Char) → List Char → Except Error Pattern
  | 0, d, _, _ => d.finish
  | _ + 1, d, _, [] => d.finish
  | fuel + 1, d, previous?, c :: cs =>
    match c with
    | '?' => parseFrom fuel (d.push .anyOctet) c cs
    | '*' =>
      match cs with
      | '*' :: rest =>
        let (d, after) := d.doubleStar previous? rest
        parseFrom fuel d (if after.length < rest.length then '/' else '*') after
      | _ => parseFrom fuel (d.push .anyRun) c cs
    | '[' => do
      let (t, rest) ← charClass cs
      parseFrom fuel (d.push t) ']' rest
    | '\x7b' => parseFrom fuel d.openChoice c cs
    | '\x7d' => do parseFrom fuel (← d.closeChoice) c cs
    | ',' => parseFrom fuel d.comma c cs
    | '\\' =>
      match cs with
      | [] => .error .danglingEscape
      | e :: rest => parseFrom fuel (d.push (.literal e)) e rest
    | c => parseFrom fuel (d.push (.literal c)) c cs

/-- The pattern that a text is. -/
def parse (glob : String) : Except Error Pattern :=
  parseFrom (glob.toList.length + 1) {} none glob.toList

end SpecOutline.Glob
