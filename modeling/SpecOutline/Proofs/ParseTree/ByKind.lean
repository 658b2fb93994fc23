/-
# Lowering phrase by phrase

`shapes` looks at the kind of a phrase and at where it stands.  Here it is read off for the kinds
that the other modules speak of, one equation a kind; and the functions that go through a row of
trees are read off from the phrases of the row, so that the tokens between them no longer appear.
-/
import SpecOutline.ParseTree.Lower

namespace SpecOutline.ParseTree

/-! ## 1. Rows -/

/-- A row is lowered phrase by phrase. -/
theorem shapesAmong_of_phrases {position : Position} {ts phrases : List ParseTree}
    (h : ts.filter isNamed = phrases) :
    shapesAmong position ts = phrases.flatMap (shapes position) := by
  subst h
  induction ts with
  | nil => rw [shapesAmong]; rfl
  | cons t ts ih =>
    rw [shapesAmong, List.filter_cons]
    split
    · rw [List.flatMap_cons, ih]
    · exact ih

/-- The first phrase of a call is its callee, and what follows are its arguments. -/
theorem callParts_of_phrases {ts rest : List ParseTree} {callee : ParseTree}
    (h : ts.filter isNamed = callee :: rest) :
    callParts ts = shapes .callee callee ++ rest.flatMap (shapes .suffix) := by
  induction ts with
  | nil => cases h
  | cons t ts ih =>
    rw [List.filter_cons] at h
    rw [callParts]
    split
    · next hn =>
      rw [if_pos hn, List.cons.injEq] at h
      obtain ⟨rfl, rfl⟩ := h
      rw [shapesAmong_of_phrases rfl]
    · next hn =>
      rw [if_neg hn] at h
      exact ih h

/-- A lambda that is the only phrase of a row is its first lambda. -/
theorem firstLambda_of_phrases {ts : List ParseTree} {lambda : ParseTree}
    (h : ts.filter isNamed = [lambda]) (hk : lambda.kind = "lambda_literal") :
    firstLambda ts = shapes .anywhere lambda := by
  induction ts with
  | nil => cases h
  | cons t ts ih =>
    rw [List.filter_cons] at h
    rw [firstLambda]
    by_cases hn : t.isNamed = true
    · rw [if_pos hn, List.cons.injEq] at h
      obtain ⟨rfl, -⟩ := h
      rw [if_pos (by rw [hn, hk]; rfl)]
    · rw [if_neg hn] at h
      rw [if_neg (by simp [hn])]
      exact ih h

/-- Between the braces of a lambda, what is no parameter is a statement. -/
theorem lambdaItems_eq_statements {ts : List ParseTree}
    (h : ∀ t ∈ ts, t.isNamed = true → t.kind ≠ "lambda_parameters") :
    lambdaItems ts = (shapesAmong .anywhere ts).map .statement := by
  induction ts with
  | nil => rw [lambdaItems, shapesAmong]; rfl
  | cons t ts ih =>
    obtain ⟨ht, hts⟩ := List.forall_mem_cons.mp h
    rw [lambdaItems, shapesAmong, ih hts]
    cases hn : t.isNamed with
    | false => rfl
    | true =>
      have hk : (t.kind == "lambda_parameters") = false := beq_eq_false_iff_ne.mpr (ht hn)
      simp [hk]

/-! ## 2. Kinds -/

section Kinds

variable {t : ParseTree}

/-- A tree with its kind written out. -/
theorem eq_node_of_kind {kind : String} (hk : t.kind = kind) :
    t = .node { t.info with kind } t.children := by
  obtain ⟨info, children⟩ := t
  subst hk
  rfl

theorem shapes_comment (hk : t.kind ∈ commentKinds) (position : Position) :
    shapes position t = [] := by
  simp only [commentKinds, List.mem_cons, List.not_mem_nil, or_false] at hk
  rcases hk with hk | hk | hk | hk <;> rw [eq_node_of_kind hk] <;> cases position <;> rfl

theorem shapes_statements (hk : t.kind = "statements") :
    shapes .anywhere t = shapesAmong .anywhere t.children := by
  rw [eq_node_of_kind hk]; rfl

theorem shapes_string_literal (hk : t.kind = "string_literal") :
    shapes .anywhere t = [.node (.stringTemplate t.text) t.span []] := by
  rw [eq_node_of_kind hk]; rfl

theorem shapes_call_expression (hk : t.kind = "call_expression") :
    shapes .anywhere t = [.node .call t.span (callParts t.children)] := by
  rw [eq_node_of_kind hk]; rfl

theorem shapes_lambda_literal (hk : t.kind = "lambda_literal") :
    shapes .anywhere t = [.lambda t.span (lambdaItems t.children)] := by
  rw [eq_node_of_kind hk]; rfl

theorem shapes_lambda_parameters (hk : t.kind = "lambda_parameters") :
    shapes .anywhere t =
      [.node (.other "lambda_parameters") t.span (shapesAmong .anywhere t.children)] := by
  rw [eq_node_of_kind hk]; rfl

theorem shapes_callee_identifier (hk : t.kind = "identifier") :
    shapes .callee t = [.node (.nameRef t.text) t.span []] := by
  rw [eq_node_of_kind hk]; rfl

/-- A call in the place of a callee leaves its callee and its arguments. -/
theorem shapes_callee_call_expression (hk : t.kind = "call_expression") :
    shapes .callee t = callParts t.children := by
  rw [eq_node_of_kind hk]; rfl

theorem shapes_suffix_value_arguments (hk : t.kind = "value_arguments") :
    shapes .suffix t = shapesAmong .suffix t.children := by
  rw [eq_node_of_kind hk]; rfl

theorem shapes_suffix_value_argument (hk : t.kind = "value_argument") :
    shapes .suffix t = [.node .valueArgument t.span (shapesAmong .anywhere t.children)] := by
  rw [eq_node_of_kind hk]; rfl

theorem shapes_suffix_annotated_lambda (hk : t.kind = "annotated_lambda") :
    shapes .suffix t = [.node .lambdaArgument t.span (firstLambda t.children)] := by
  rw [eq_node_of_kind hk]; rfl

end Kinds

end SpecOutline.ParseTree
