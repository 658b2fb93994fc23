/-
# Paths of a suite

A path names one node of a suite: the blocks around it, innermost first, and the spec class
that owns them all.  As a list of segments the class comes last, and it is the only segment
of its kind; `ofSegments?` accepts exactly such lists.
-/
import SpecOutline.Json.Decode
import SpecOutline.Suite.Vocabulary

namespace SpecOutline.Suite

open SpecOutline.Json

/-! ## 1. Segments -/

/-- What a segment of a path names. -/
inductive SegmentKind where
  | spec
  | group
  | test
deriving Repr, DecidableEq

/-- The segment kind of a block. -/
def BlockKind.segment : BlockKind → SegmentKind
  | .group => .group
  | .test => .test

namespace SegmentKind

/-- The name of a kind. -/
def name : SegmentKind → String
  | .spec => "SPEC"
  | .group => "GROUP"
  | .test => "TEST"

/-- The kinds by name. -/
def byName : List (String × SegmentKind) :=
  [SegmentKind.spec, .group, .test].map fun k => (k.name, k)

/-- The block kind of a segment; the spec class is no block. -/
def block? : SegmentKind → Option BlockKind
  | .spec => none
  | .group => some .group
  | .test => some .test

end SegmentKind

/-- One level of a path: the qualified name of a class, or the function and the description of
a block. -/
structure Segment where
  kind : SegmentKind
  label : String
deriving Repr, DecidableEq

/-- One block of a path. -/
structure BlockSegment where
  kind : BlockKind
  label : String
deriving Repr, DecidableEq

/-- A block of a path as a segment. -/
def BlockSegment.segment (b : BlockSegment) : Segment := ⟨b.kind.segment, b.label⟩

/-! ## 2. Paths -/

/-- The blocks of a path, innermost first, and the class that owns them. -/
structure Path where
  blocks : List BlockSegment
  spec : String
deriving Repr, DecidableEq

namespace Path

/-- The path of a class. -/
def ofSpec (name : String) : Path := ⟨[], name⟩

/-- The segment of the class. -/
def root (p : Path) : Segment := ⟨.spec, p.spec⟩

/-- The segments, innermost first. -/
def segments (p : Path) : List Segment := p.blocks.map BlockSegment.segment ++ [p.root]

/-- The segments, outermost first. -/
def outermostFirst (p : Path) : List Segment := p.segments.reverse

/-- The path with given segments, innermost first. -/
def ofSegments? : List Segment → Option Path
  | [] => none
  | [s] => if s.kind = .spec then some (ofSpec s.label) else none
  | s :: rest =>
    match s.kind.block?, ofSegments? rest with
    | some kind, some p => some { p with blocks := ⟨kind, s.label⟩ :: p.blocks }
    | _, _ => none

/-- The number of segments. -/
def length (p : Path) : Nat := p.blocks.length + 1

/-- The innermost segment. -/
def leaf (p : Path) : Segment :=
  match p.blocks with
  | [] => p.root
  | b :: _ => b.segment

/-- What a path names. -/
def kind (p : Path) : SegmentKind := p.leaf.kind

/-- The path of what is around the innermost block. -/
def parent? (p : Path) : Option Path :=
  match p.blocks with
  | [] => none
  | _ :: outer => some { p with blocks := outer }

/-- The labels from the class inwards, with slashes between them. -/
def target (p : Path) : String :=
  String.intercalate "/" (p.outermostFirst.map (·.label))

/-- The paths with fewer blocks than given, the longest first. -/
def shorter (spec : String) : List BlockSegment → List Path
  | [] => []
  | _ :: outer => ⟨outer, spec⟩ :: shorter spec outer

/-- The paths of all that is around a path, nearest first. -/
def parents (p : Path) : List Path := shorter p.spec p.blocks

end Path

/-! ## 3. Paths as JSON -/

/-- A segment. -/
def Segment.toJson (s : Segment) : Value :=
  .object [("kind", .text s.kind.name), ("label", .text s.label)]

/-- Reads a segment. -/
def Segment.ofJson (v : Value) : Except Fault Segment := do
  let r ← record .direct ["kind", "label"] v
  return {
    kind := ← r.required "kind" (enumeration .direct SegmentKind.byName)
    label := ← r.required "label" Value.asText }

/-- A path, as its segments innermost first. -/
def Path.toJson (p : Path) : Value := .array (p.segments.map Segment.toJson)

/-- Reads a path. -/
def Path.ofJson (v : Value) : Except Fault Path := do
  match Path.ofSegments? (← v.asList Segment.ofJson) with
  | some p => return p
  | none => .error .mismatch

/-- The words for a list of segments that is no path. -/
def Path.malformedMessage : String := "a path must end in exactly one SPEC segment"

end SpecOutline.Suite
