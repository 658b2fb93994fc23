/-
# Parse trees

What a grammar makes of a Kotlin text: every token and phrase, with its kind, its text and
its place.  Named nodes are phrases of the grammar, the others are bare tokens.  Nodes where
the text does not fit the grammar are errors; nodes that the grammar supplied for something
left out are missing.
-/
import SpecOutline.Source.Span

namespace SpecOutline

/-! ## 1. Trees -/

/-- What a grammar says about one phrase or token. -/
structure PhraseInfo where
  kind : String
  isNamed : Bool := true
  isError : Bool := false
  isMissing : Bool := false
  /-- Whether this or something below it is an error or missing. -/
  hasError : Bool := false
  /-- The part that this plays in the phrase around it. -/
  field? : Option String := none
  text : String
  span : Span := {}
deriving Repr, DecidableEq

/-- A parse tree. -/
inductive ParseTree where
  | node (info : PhraseInfo) (children : List ParseTree)
deriving Repr

/-- A grammar: the parse tree of a text, if it makes one. -/
abbrev Grammar := String → Option ParseTree

namespace ParseTree

/-- What is said about the top of a tree. -/
def info : ParseTree → PhraseInfo
  | .node info _ => info

/-- The phrases and tokens directly below the top. -/
def children : ParseTree → List ParseTree
  | .node _ children => children

/-- The kind of the top. -/
def kind (t : ParseTree) : String := t.info.kind

/-- Whether the top is a phrase of the grammar. -/
def isNamed (t : ParseTree) : Bool := t.info.isNamed

/-- The text of the whole tree. -/
def text (t : ParseTree) : String := t.info.text

/-- The place of the whole tree. -/
def span (t : ParseTree) : Span := t.info.span

/-- The phrases directly below the top. -/
def phrases (t : ParseTree) : List ParseTree := t.children.filter isNamed

/-! ## 2. Searching -/

/-- The first phrase directly below the top whose kind is among `kinds`. -/
def phraseOf? (kinds : List String) (t : ParseTree) : Option ParseTree :=
  t.phrases.find? fun c => c.kind ∈ kinds

mutual

/-- The first phrase below the top with a kind among `kinds`, in document order. -/
def phraseBelow? (kinds : List String) : ParseTree → Option ParseTree
  | .node _ children => phraseAmong? kinds children

/-- The first phrase in a row of trees with a kind among `kinds`, in document order. -/
def phraseAmong? (kinds : List String) : List ParseTree → Option ParseTree
  | [] => none
  | t :: ts =>
    if t.isNamed then
      if t.kind ∈ kinds then some t
      else (phraseBelow? kinds t).orElse fun _ => phraseAmong? kinds ts
    else phraseAmong? kinds ts

end

mutual

/-- Whether anything below the top, phrase or token, is of a kind. -/
def hasBelow (kind : String) : ParseTree → Bool
  | .node _ children => hasAmong kind children

/-- Whether anything in a row of trees is of a kind. -/
def hasAmong (kind : String) : List ParseTree → Bool
  | [] => false
  | t :: ts => t.kind == kind || hasBelow kind t || hasAmong kind ts

end

/-! ## 3. Errors -/

mutual

/-- The places of the topmost errors and missing phrases, in document order.  Only trees
that admit to an error are searched. -/
def errorSpans : ParseTree → List Span
  | .node info children =>
    if info.isError || info.isMissing then [info.span]
    else if info.hasError then errorSpansAmong children
    else []

/-- The places of the topmost errors in a row of trees. -/
def errorSpansAmong : List ParseTree → List Span
  | [] => []
  | t :: ts => errorSpans t ++ errorSpansAmong ts

end

end ParseTree

end SpecOutline
