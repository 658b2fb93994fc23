/-
# The topmost errors of a parse tree

The error regions of a file are the places of the nodes where its text does not fit the grammar,
but not of what lies below such a node.  `errorSpans` finds them by going down only where a tree
admits to an error.  Two other accounts of the same list:

* All nodes of a tree can be listed in document order, each with the nodes above it (`positions`).
  Of these, the errors with no error above them are what `errorSpans` finds, provided that a tree
  admits to an error exactly if there is one in it (`errorSpans_eq_topmost`).
* A walk can move one cursor over the tree, down to a first child, across to a next sibling and
  back up, and keep a list of what it met (`ErrorWalk`).  From wherever it arrives, it comes back to
  the same node with the errors of that node listed behind those it had (`ErrorWalk.comesBack`), so
  that no sibling is lost or met twice.
-/
import Mathlib.Logic.Relation
import SpecOutline.ParseTree.Lower
import SpecOutline.Proofs.ParseTree.Descent

namespace SpecOutline

/-- Whether a node is an error or missing. -/
def PhraseInfo.isFault (i : PhraseInfo) : Bool := i.isError || i.isMissing

namespace ParseTree

/-! ## 1. Rows of trees -/

/-- Induction from the tokens: a property that passes from the children of a tree to the tree holds
of all trees. -/
theorem bottom_up {P : ParseTree → Prop}
    (step : ∀ info children, (∀ c ∈ children, P c) → P (.node info children)) (t : ParseTree) :
    P t := by
  cases t with
  | node info children => exact step info children fun c _ => bottom_up step c

/-- The errors of a row are those of its trees. -/
theorem errorSpansAmong_eq (ts : List ParseTree) :
    errorSpansAmong ts = ts.flatMap errorSpans := by
  induction ts with
  | nil => rfl
  | cons t ts ih => rw [errorSpansAmong, ih, List.flatMap_cons]

theorem errorSpans_node (info : PhraseInfo) (children : List ParseTree) :
    errorSpans (.node info children) =
      if info.isFault then [info.span]
      else if info.hasError then children.flatMap errorSpans else [] := by
  rw [errorSpans, errorSpansAmong_eq]
  rfl

theorem parts_node (info : PhraseInfo) (children : List ParseTree) :
    parts (.node info children) = .node info children :: children.flatMap parts := by
  have hrow : ∀ ts, partsAmong ts = ts.flatMap parts := by
    intro ts
    induction ts with
    | nil => rfl
    | cons t ts ih => rw [partsAmong, ih, List.flatMap_cons]
  rw [parts, hrow]

/-! ## 2. Nodes and what is above them -/

/-- A node of a tree with the nodes above it, nearest first. -/
abbrev PhrasePosition := PhraseInfo × List PhraseInfo

mutual

/-- The nodes of a tree in document order, phrases and tokens, with `above` above them all. -/
def positions (above : List PhraseInfo) : ParseTree → List PhrasePosition
  | .node info children => (info, above) :: positionsAmong (info :: above) children

/-- The nodes of a row of trees. -/
def positionsAmong (above : List PhraseInfo) : List ParseTree → List PhrasePosition
  | [] => []
  | t :: ts => positions above t ++ positionsAmong above ts

end

/-- An error that has no error above it. -/
def IsTopmostFault (p : PhrasePosition) : Prop :=
  p.1.isFault = true ∧ ∀ i ∈ p.2, i.isFault = false

instance : DecidablePred IsTopmostFault := fun _ => instDecidableAnd

/-- The places of the errors with no error above them, in document order. -/
def topmostFaults (ps : List PhrasePosition) : List Span :=
  (ps.filter (IsTopmostFault ·)).map (·.1.span)

theorem positions_node (above : List PhraseInfo) (info : PhraseInfo) (children : List ParseTree) :
    positions above (.node info children) =
      (info, above) :: children.flatMap (positions (info :: above)) := by
  have hrow : ∀ above ts, positionsAmong above ts = ts.flatMap (positions above) := by
    intro above ts
    induction ts with
    | nil => rfl
    | cons t ts ih => rw [positionsAmong, ih, List.flatMap_cons]
  rw [positions, hrow]

/-- **The positions of a tree are its parts**, in the same order. -/
theorem map_fst_positions (t : ParseTree) : ∀ above,
    (positions above t).map (·.1) = t.parts.map info := by
  induction t using bottom_up with
  | step i children ih =>
    intro above
    rw [positions_node, parts_node, List.map_cons, List.map_cons, List.map_flatMap,
      List.map_flatMap, List.flatMap_congr fun c hc => ih c hc (i :: above)]
    rfl

/-- What is above a tree is above every node of it. -/
theorem mem_above_of_mem_positions (t : ParseTree) : ∀ above, ∀ p ∈ positions above t,
    ∀ i ∈ above, i ∈ p.2 := by
  induction t using bottom_up with
  | step info children ih =>
    intro above p hp i hi
    rw [positions_node] at hp
    rcases List.mem_cons.mp hp with rfl | hp
    · exact hi
    · obtain ⟨c, hc, hp⟩ := List.mem_flatMap.mp hp
      exact ih c hc (info :: above) p hp i (List.mem_cons_of_mem info hi)

theorem topmostFaults_append (ps qs : List PhrasePosition) :
    topmostFaults (ps ++ qs) = topmostFaults ps ++ topmostFaults qs := by
  rw [topmostFaults, List.filter_append, List.map_append, topmostFaults, topmostFaults]

theorem topmostFaults_cons (p : PhrasePosition) (ps : List PhrasePosition) :
    topmostFaults (p :: ps) = topmostFaults [p] ++ topmostFaults ps :=
  topmostFaults_append [p] ps

theorem topmostFaults_flatMap {α : Type} (f : α → List PhrasePosition) (as : List α) :
    topmostFaults (as.flatMap f) = as.flatMap fun a => topmostFaults (f a) := by
  induction as with
  | nil => rfl
  | cons a as ih => rw [List.flatMap_cons, topmostFaults_append, ih, List.flatMap_cons]

theorem topmostFaults_eq_nil {ps : List PhrasePosition} (h : ∀ p ∈ ps, ¬ IsTopmostFault p) :
    topmostFaults ps = [] := by
  rw [topmostFaults, List.filter_eq_nil_iff.mpr (by simpa using h)]
  rfl

theorem topmostFaults_singleton {p : PhrasePosition} (h : IsTopmostFault p) :
    topmostFaults [p] = [p.1.span] := by
  rw [topmostFaults, List.filter_singleton, decide_eq_true h]
  rfl

/-- Below an error nothing is topmost. -/
theorem topmostFaults_below_fault {above : List PhraseInfo} {i : PhraseInfo} (hi : i ∈ above)
    (hfault : i.isFault = true) (t : ParseTree) : topmostFaults (positions above t) = [] := by
  refine topmostFaults_eq_nil fun p hp htop => ?_
  have hnot := htop.2 i (mem_above_of_mem_positions t above p hp i hi)
  rw [hfault] at hnot
  cases hnot

/-- No position of a tree without errors is an error. -/
theorem topmostFaults_of_forall_parts {t : ParseTree}
    (h : ∀ q ∈ t.parts, q.info.isFault = false) (above : List PhraseInfo) :
    topmostFaults (positions above t) = [] := by
  refine topmostFaults_eq_nil fun p hp htop => ?_
  have hmem : p.1 ∈ t.parts.map info := by
    rw [← map_fst_positions t above]
    exact List.mem_map_of_mem hp
  obtain ⟨q, hq, hinfo⟩ := List.mem_map.mp hmem
  have hfault := htop.1
  rw [← hinfo, h q hq] at hfault
  cases hfault

/-! ## 3. Trees that tell where their errors are -/

/-- Every part of a tree admits to an error exactly if there is one in it. -/
def AdmitsErrors (t : ParseTree) : Prop :=
  ∀ p ∈ t.parts, (p.info.hasError = true ↔ ∃ q ∈ p.parts, q.info.isFault = true)

instance : DecidablePred AdmitsErrors := fun t => List.decidableBAll _ t.parts

/-- A tree that does not admit to an error has none. -/
theorem AdmitsErrors.hasError_eq_false_iff {t : ParseTree} (h : t.AdmitsErrors) :
    t.info.hasError = false ↔ ∀ q ∈ t.parts, q.info.isFault = false := by
  have hself := h t t.self_mem_parts
  rw [← Bool.not_eq_true, hself]
  simp

/-- **What is found by going down where trees admit to errors are the topmost errors.** -/
theorem errorSpans_eq_topmost (t : ParseTree) : t.AdmitsErrors → ∀ above,
    (∀ i ∈ above, i.isFault = false) → t.errorSpans = topmostFaults (positions above t) := by
  induction t using bottom_up with
  | step info children ih =>
    intro hadmits above habove
    rw [errorSpans_node, positions_node, topmostFaults_cons, topmostFaults_flatMap]
    cases hfault : info.isFault with
    | true =>
      -- the node is listed, and everything below has it above
      have hbelow : (children.flatMap fun c => topmostFaults (positions (info :: above) c)) = [] :=
        List.flatMap_eq_nil_iff.mpr fun c _ =>
          topmostFaults_below_fault List.mem_cons_self hfault c
      rw [hbelow, if_pos rfl, List.append_nil, topmostFaults_singleton ⟨hfault, habove⟩]
    | false =>
      have hnode : topmostFaults [(info, above)] = [] :=
        topmostFaults_eq_nil (by simp [IsTopmostFault, hfault])
      rw [hnode, List.nil_append, if_neg Bool.false_ne_true]
      cases herror : info.hasError with
      | true =>
        rw [if_pos rfl]
        refine List.flatMap_congr fun c hc => ?_
        exact ih c hc (forall_parts_of_mem hadmits hc) (info :: above)
          (List.forall_mem_cons.mpr ⟨hfault, habove⟩)
      | false =>
        -- there is nothing to find below
        have hclean := hadmits.hasError_eq_false_iff.mp herror
        rw [if_neg Bool.false_ne_true]
        refine (List.flatMap_eq_nil_iff.mpr fun c hc => ?_).symm
        exact topmostFaults_of_forall_parts (forall_parts_of_mem hclean hc) (info :: above)

/-- **Errors are found exactly if there are any.** -/
theorem errorSpans_eq_nil_iff (t : ParseTree) : t.AdmitsErrors →
    (t.errorSpans = [] ↔ ∀ q ∈ t.parts, q.info.isFault = false) := by
  induction t using bottom_up with
  | step info children ih =>
    intro hadmits
    rw [errorSpans_node]
    cases hfault : info.isFault with
    | true =>
      refine iff_of_false (List.cons_ne_nil _ _) fun h => ?_
      have hnot : info.isFault = false := h _ (self_mem_parts _)
      rw [hfault] at hnot
      cases hnot
    | false =>
      rw [if_neg Bool.false_ne_true]
      cases herror : info.hasError with
      | false => exact iff_of_true rfl (hadmits.hasError_eq_false_iff.mp herror)
      | true =>
        rw [if_pos rfl, parts_node, List.forall_mem_cons, List.flatMap_eq_nil_iff]
        constructor
        · intro h
          refine ⟨hfault, fun q hq => ?_⟩
          obtain ⟨c, hc, hq⟩ := List.mem_flatMap.mp hq
          exact (ih c hc (forall_parts_of_mem hadmits hc)).mp (h c hc) q hq
        · rintro ⟨-, h⟩ c hc
          exact (ih c hc (forall_parts_of_mem hadmits hc)).mpr fun q hq =>
            h q (List.mem_flatMap.mpr ⟨c, hc, hq⟩)

/-! ## 4. A walk with a cursor -/

/-- A node of a tree, with the trees that follow it beside it, and the trees above it, nearest
first, each with those that follow that one. -/
structure Cursor where
  here : ParseTree
  after : List ParseTree
  above : List (ParseTree × List ParseTree)

namespace Cursor

/-- Down to the first child. -/
def firstChild? (c : Cursor) : Option Cursor :=
  match c.here.children with
  | [] => none
  | t :: ts => some ⟨t, ts, (c.here, c.after) :: c.above⟩

/-- Across to the next sibling. -/
def nextSibling? (c : Cursor) : Option Cursor :=
  match c.after with
  | [] => none
  | t :: ts => some ⟨t, ts, c.above⟩

/-- Back up. -/
def parent? (c : Cursor) : Option Cursor :=
  match c.above with
  | [] => none
  | (t, ts) :: above => some ⟨t, ts, above⟩

end Cursor

/-- A walk over a tree: where its cursor is, whether it is done with the node there and all below,
how many nodes it has gone down from, and what it has listed. -/
structure ErrorWalk where
  cursor : Cursor
  isDone : Bool
  depth : Nat
  listed : List Span

namespace ErrorWalk

/-- A walk that starts at the top of a tree. -/
def start (t : ParseTree) : ErrorWalk := ⟨⟨t, [], []⟩, false, 0, []⟩

/-- A turn of a walk.  An error is listed and not gone into.  Any other node that admits to an
error is gone into, if there is something below.  When the walk is done with a node it goes on to
the next one beside it; and behind the last one it is done with the node that it went down from. -/
def turn? (w : ErrorWalk) : Option ErrorWalk :=
  if w.isDone then
    match w.cursor.nextSibling?, w.depth with
    | some next, _ => some { w with cursor := next, isDone := false }
    | none, depth + 1 =>
      some { w with cursor := w.cursor.parent?.getD w.cursor, depth }
    | none, 0 => none
  else if w.cursor.here.info.isFault then
    some { w with isDone := true, listed := w.listed ++ [w.cursor.here.span] }
  else
    match if w.cursor.here.info.hasError then w.cursor.firstChild? else none with
    | some child => some { w with cursor := child, depth := w.depth + 1 }
    | none => some { w with isDone := true }

/-- One turn leads from a walk to the next. -/
def Turn (w w' : ErrorWalk) : Prop := w.turn? = some w'

/-- Turns lead from a walk to another. -/
abbrev Turns : ErrorWalk → ErrorWalk → Prop := Relation.ReflTransGen Turn

section Turn

variable {info : PhraseInfo} {children after : List ParseTree}
  {above : List (ParseTree × List ParseTree)} {depth : Nat} {listed : List Span}

/-- An error is listed. -/
theorem turn_of_fault (hfault : info.isFault = true) :
    Turn ⟨⟨.node info children, after, above⟩, false, depth, listed⟩
      ⟨⟨.node info children, after, above⟩, true, depth, listed ++ [info.span]⟩ := by
  simp only [Turn, turn?, ParseTree.info, hfault, Bool.false_eq_true, if_false, if_true]
  rfl

/-- A node that admits to an error is gone into. -/
theorem turn_into {c : ParseTree} {cs : List ParseTree} (hfault : info.isFault = false)
    (herror : info.hasError = true) :
    Turn ⟨⟨.node info (c :: cs), after, above⟩, false, depth, listed⟩
      ⟨⟨c, cs, (.node info (c :: cs), after) :: above⟩, false, depth + 1, listed⟩ := by
  simp only [Turn, turn?, ParseTree.info, hfault, herror, Bool.false_eq_true, if_false, if_true]
  rfl

/-- A node that does not admit to an error, or has nothing below, is passed. -/
theorem turn_past (hfault : info.isFault = false)
    (hnone : info.hasError = false ∨ children = []) :
    Turn ⟨⟨.node info children, after, above⟩, false, depth, listed⟩
      ⟨⟨.node info children, after, above⟩, true, depth, listed⟩ := by
  rcases hnone with herror | rfl
  · simp only [Turn, turn?, ParseTree.info, hfault, herror, Bool.false_eq_true, if_false]
  · cases herror : info.hasError with
    | false => simp only [Turn, turn?, ParseTree.info, hfault, herror, Bool.false_eq_true, if_false]
    | true =>
      simp only [Turn, turn?, ParseTree.info, hfault, herror, Bool.false_eq_true, if_false, if_true]
      rfl

end Turn

/-- The walk comes back to a node, done with it, and has listed the errors of its tree. -/
def ComesBack (t : ParseTree) : Prop :=
  ∀ after above depth listed, Turns ⟨⟨t, after, above⟩, false, depth, listed⟩
    ⟨⟨t, after, above⟩, true, depth, listed ++ t.errorSpans⟩

/-- **From the first tree of a row the walk gets behind the last**, and has listed the errors of all
of them in order. -/
theorem turns_row {t : ParseTree} {ts : List ParseTree} (h : ∀ u ∈ t :: ts, ComesBack u)
    (above : List (ParseTree × List ParseTree)) (depth : Nat) (listed : List Span) :
    ∃ last, Turns ⟨⟨t, ts, above⟩, false, depth, listed⟩
      ⟨⟨last, [], above⟩, true, depth, listed ++ (t :: ts).flatMap errorSpans⟩ := by
  induction ts generalizing t listed with
  | nil =>
    refine ⟨t, ?_⟩
    rw [List.flatMap_singleton]
    exact h t List.mem_cons_self [] above depth listed
  | cons u us ih =>
    have hfirst := h t List.mem_cons_self (u :: us) above depth listed
    have hacross : Turn ⟨⟨t, u :: us, above⟩, true, depth, listed ++ t.errorSpans⟩
        ⟨⟨u, us, above⟩, false, depth, listed ++ t.errorSpans⟩ := rfl
    obtain ⟨last, hrest⟩ := ih (List.forall_mem_cons.mp h).2 (listed ++ t.errorSpans)
    rw [List.append_assoc, ← List.flatMap_cons] at hrest
    exact ⟨last, hfirst.trans (.head hacross hrest)⟩

/-- **The walk comes back to every node.** -/
theorem comesBack (t : ParseTree) : ComesBack t := by
  induction t using bottom_up with
  | step info children ih =>
    intro after above depth listed
    rw [errorSpans_node]
    cases hfault : info.isFault with
    | true => exact .single (turn_of_fault hfault)
    | false =>
      rw [if_neg Bool.false_ne_true]
      cases herror : info.hasError with
      | false =>
        rw [if_neg Bool.false_ne_true, List.append_nil]
        exact .single (turn_past hfault (.inl herror))
      | true =>
        rw [if_pos rfl]
        cases children with
        | nil =>
          rw [List.flatMap_nil, List.append_nil]
          exact .single (turn_past hfault (.inr rfl))
        | cons c cs =>
          -- down to the first child, along the row, and back up
          obtain ⟨last, hrow⟩ := turns_row ih ((.node info (c :: cs), after) :: above) (depth + 1)
            listed
          have hback : Turn
              ⟨⟨last, [], (.node info (c :: cs), after) :: above⟩, true, depth + 1,
                listed ++ (c :: cs).flatMap errorSpans⟩
              ⟨⟨.node info (c :: cs), after, above⟩, true, depth,
                listed ++ (c :: cs).flatMap errorSpans⟩ := rfl
          exact .head (turn_into hfault herror) (hrow.tail hback)

end ErrorWalk

/-! ## 5. Error regions of parsed files -/

/-- **The error regions of a parsed file are its topmost errors**, for every parse tree that admits
to its errors.  A walk with a cursor from the top of the tree comes to an end at the top, and has
then listed the error regions.  They are the places of the errors and missing nodes with none above
them, of all nodes of the tree, phrases and tokens, in document order.  So there are none exactly
if the top of the tree does not admit to an error. -/
theorem errorRegions_lower {t : ParseTree} (h : t.AdmitsErrors) :
    (ErrorWalk.Turns (.start t) ⟨⟨t, [], []⟩, true, 0, t.lower.errorRegions⟩ ∧
      (⟨⟨t, [], []⟩, true, 0, t.lower.errorRegions⟩ : ErrorWalk).turn? = none) ∧
    (t.lower.errorRegions = topmostFaults (t.positions []) ∧
      (t.positions []).map (·.1) = t.parts.map info) ∧
    (t.lower.errorRegions = [] ↔ t.info.hasError = false) := by
  have hregions : t.lower.errorRegions = t.errorSpans := rfl
  rw [hregions]
  refine ⟨⟨?_, rfl⟩, ⟨?_, map_fst_positions t []⟩, ?_⟩
  · exact ErrorWalk.comesBack t [] [] 0 []
  · exact errorSpans_eq_topmost t h [] (by simp)
  · rw [errorSpans_eq_nil_iff t h, h.hasError_eq_false_iff]

namespace Example

/-- The place of some octets. -/
def octets (start stop : Nat) : Span := { start, stop }

/-- A file with text that fits nothing and in it another error, and a class without its brace. -/
def damaged : ParseTree :=
  .node { kind := "source_file", hasError := true, text := "%%% class A \x7b",
          span := octets 0 13 } [
    .node { kind := "ERROR", isError := true, hasError := true, text := "%%%",
            span := octets 0 3 } [
      .node { kind := "%", isNamed := false, text := "%", span := octets 0 1 } [],
      .node { kind := "ERROR", isError := true, hasError := true, text := "%",
              span := octets 1 2 } []],
    .node { kind := "class_declaration", hasError := true, text := "class A \x7b",
            span := octets 4 13 } [
      .node { kind := "class", isNamed := false, text := "class", span := octets 4 9 } [],
      .node { kind := "identifier", text := "A", span := octets 10 11 } [],
      .node { kind := "class_body", hasError := true, text := "\x7b", span := octets 12 13 } [
        .node { kind := "\x7b", isNamed := false, text := "\x7b", span := octets 12 13 } [],
        .node { kind := "\x7d", isNamed := false, isMissing := true, hasError := true, text := "",
                span := octets 13 13 } []]]]

end Example

/-- The error inside the error is no region of its own, the missing brace is one. -/
theorem errorRegions_lower_damaged :
    Example.damaged.AdmitsErrors ∧
    ErrorWalk.Turns (.start Example.damaged)
      ⟨⟨Example.damaged, [], []⟩, true, 0, [Example.octets 0 3, Example.octets 13 13]⟩ ∧
    topmostFaults (Example.damaged.positions []) = [Example.octets 0 3, Example.octets 13 13] ∧
    Example.damaged.lower.errorRegions ≠ [] := by
  have hadmits : Example.damaged.AdmitsErrors := by decide
  have hregions : Example.damaged.lower.errorRegions =
      [Example.octets 0 3, Example.octets 13 13] := by decide
  obtain ⟨⟨hwalk, -⟩, ⟨htopmost, -⟩, hnone⟩ := errorRegions_lower hadmits
  rw [hregions] at hwalk htopmost
  refine ⟨hadmits, hwalk, htopmost.symm, fun h => ?_⟩
  cases hnone.mp h

end ParseTree

end SpecOutline
