/-
# The way up from a block

`pathOf` climbs from a call to the calls around it with a bound on the number of levels, stops
at the first call that fails a check, and looks for the owning class only when it has arrived.
This module says what comes out without the climb.

* `wayUp` lists the calls from a call up, each standing in the trailing lambda of the next.
  In a grounded view the list is the whole way: it is the call followed by the way up from the
  call around it (`wayUp_of_outerCall?`).
* `fault?` is the first check that a call fails, and `segment?` what a call without a fault
  contributes.
* `Outcome` gives the answer by five rules over that list.  One of them always applies
  (`exists_outcome`), and they give only answers of the function (`Outcome.pathOf_eq`).  Which
  path a call has is the last rule read as an equivalence (`pathOf_eq_ok_iff`), the form in
  which the other modules use it.
* No class lies between a call and the call around it, so that all calls of a way have the same
  owner (`owner?_of_outerCall?`).
* A scan lists the path of every call that has one, if it does not pass over the class around it
  (`findingOf?_eq_some_iff`), and nothing else (`mem_scan_iff`).
-/
import Mathlib.Data.Option.Basic
import SpecOutline.Proofs.Tree.Walks
import SpecOutline.Suite.Scan

namespace SpecOutline.Suite

variable {v : View} {r : Resolver} {call outer : NodeId}

/-! ## 1. The calls on the way -/

/-- The call whose trailing lambda a call stands in directly. -/
def outerCall? (v : View) (call : NodeId) : Option NodeId :=
  (enclosingLambda? v call).bind (trailingOwner? v)

/-- The calls from a call up, that call first. -/
def wayUp (v : View) (call : NodeId) : List NodeId :=
  call :: chain (outerCall? v) v.height call

/-- The three nodes between a call and the lambda around it. -/
theorem enclosingLambda?_eq_some_iff {lambda : NodeId} :
    enclosingLambda? v call = some lambda ↔ ∃ block literal,
      (v.parent? call = some block ∧ v.kindIs (· == .block) block = true) ∧
      (v.parent? block = some literal ∧ v.kindIs (· == .functionLiteral) literal = true) ∧
      (v.parent? literal = some lambda ∧ v.kindIs (· == .lambdaExpression) lambda = true) := by
  simp only [enclosingLambda?, bind, Option.bind_eq_some_iff, View.parentIf?_eq_some_iff]
  constructor
  · rintro ⟨block, hb, literal, hl, he⟩
    exact ⟨block, literal, hb, hl, he⟩
  · rintro ⟨block, literal, hb, hl, he⟩
    exact ⟨block, hb, literal, hl, he⟩

/-- The two nodes between a lambda and the call that it is the trailing lambda of. -/
theorem trailingOwner?_eq_some_iff {lambda : NodeId} :
    trailingOwner? v lambda = some outer ↔ ∃ argument,
      (v.parent? lambda = some argument ∧ v.kindIs (· == .lambdaArgument) argument = true) ∧
      (v.parent? argument = some outer ∧ v.kindIs Kind.isCall outer = true) := by
  simp only [trailingOwner?, bind, Option.bind_eq_some_iff, View.parentIf?_eq_some_iff]

/-- The kinds that lie between a call and the call around it. -/
def isPassage (k : Kind) : Bool :=
  k == .block || k == .functionLiteral || k == .lambdaExpression || k == .lambdaArgument
    || k.isCall

/-- None of them is a class. -/
theorem not_isClass_of_isPassage {k : Kind} (h : isPassage k = true) : k.isClass = false := by
  cases k with
  | classLike head => simp [isPassage, Kind.isCall] at h
  | objectLike head => simp [isPassage, Kind.isCall] at h
  | _ => rfl

/-- **The five links from a call to the call around it.** -/
theorem links_of_outerCall? (h : outerCall? v call = some outer) :
    ∃ block literal lambda argument,
      v.parent? call = some block ∧ v.parent? block = some literal ∧
      v.parent? literal = some lambda ∧ v.parent? lambda = some argument ∧
      v.parent? argument = some outer ∧
      ∀ id ∈ [block, literal, lambda, argument, outer], v.kindIs isPassage id = true := by
  obtain ⟨lambda, hl, ho⟩ := Option.bind_eq_some_iff.mp h
  obtain ⟨block, literal, ⟨h₁, k₁⟩, ⟨h₂, k₂⟩, h₃, k₃⟩ := enclosingLambda?_eq_some_iff.mp hl
  obtain ⟨argument, ⟨h₄, k₄⟩, h₅, k₅⟩ := trailingOwner?_eq_some_iff.mp ho
  -- each condition on the way is one of the alternatives of `isPassage`
  have weaken : ∀ {f : Kind → Bool} {id : NodeId}, (∀ k, f k = true → isPassage k = true) →
      v.kindIs f id = true → v.kindIs isPassage id = true := by
    intro f id hf hk
    obtain ⟨k, hk, hfk⟩ := Option.any_eq_true _ _ |>.mp hk
    exact (Option.any_eq_true _ _).mpr ⟨k, hk, hf k hfk⟩
  refine ⟨block, literal, lambda, argument, h₁, h₂, h₃, h₄, h₅, ?_⟩
  intro id hid
  simp only [List.mem_cons, List.not_mem_nil, or_false] at hid
  rcases hid with rfl | rfl | rfl | rfl | rfl
  · exact weaken (fun k hk => by simp [isPassage, hk]) k₁
  · exact weaken (fun k hk => by simp [isPassage, hk]) k₂
  · exact weaken (fun k hk => by simp [isPassage, hk]) k₃
  · exact weaken (fun k hk => by simp [isPassage, hk]) k₄
  · exact weaken (fun k hk => by simp [isPassage, hk]) k₅

/-- The call around a call has fewer ancestors than the call. -/
theorem length_ancestors_lt (hv : v.Grounded) (h : outerCall? v call = some outer) :
    (v.ancestors outer).length < (v.ancestors call).length := by
  obtain ⟨block, literal, lambda, argument, h₁, h₂, h₃, h₄, h₅, -⟩ := links_of_outerCall? h
  rw [View.ancestors_of_parent? hv h₁, View.ancestors_of_parent? hv h₂,
    View.ancestors_of_parent? hv h₃, View.ancestors_of_parent? hv h₄,
    View.ancestors_of_parent? hv h₅]
  simp only [List.length_cons]
  omega

/-- So the way up has no more steps than the call has ancestors. -/
theorem length_chain_outerCall?_le (hv : v.Grounded) (n : Nat) (call : NodeId) :
    (chain (outerCall? v) n call).length ≤ (v.ancestors call).length := by
  induction n generalizing call with
  | zero => exact Nat.zero_le _
  | succ n ih =>
    cases ho : outerCall? v call with
    | none => simp [chain, ho]
    | some outer =>
      rw [chain, ho, List.length_cons]
      exact Nat.lt_of_le_of_lt (ih outer) (length_ancestors_lt hv ho)

/-- **The way up from a call is the call and the way up from the call around it.** -/
theorem wayUp_of_outerCall? (hv : v.Grounded) (h : outerCall? v call = some outer) :
    wayUp v call = call :: wayUp v outer := by
  obtain ⟨m, hm⟩ : ∃ m, v.height = m + 1 := ⟨v.height - 1, by have := hv.height_pos; omega⟩
  have hlen : (chain (outerCall? v) (m + 1) outer).length ≤ m := by
    have h₁ := length_chain_outerCall?_le hv (m + 1) outer
    have h₂ := hv.length_ancestors_lt outer
    omega
  have hstable : chain (outerCall? v) m outer = chain (outerCall? v) v.height outer :=
    (chain_eq_of_length_le hlen (by omega)).symm
  rw [wayUp, wayUp, hm, chain, h, ← hm, ← hstable]

theorem wayUp_of_outerCall?_none (h : outerCall? v call = none) : wayUp v call = [call] := by
  rw [wayUp]
  cases v.height with
  | zero => rfl
  | succ m => rw [chain, h]

theorem mem_wayUp_self (v : View) (call : NodeId) : call ∈ wayUp v call := List.mem_cons_self

/-- **Each call of the way is around the one before it**, and the way ends where there is no
further call. -/
theorem getElem?_wayUp_succ (hv : v.Grounded) (call : NodeId) (i : Nat) :
    (wayUp v call)[i + 1]? = (wayUp v call)[i]?.bind (outerCall? v) := by
  induction i generalizing call with
  | zero =>
    cases ho : outerCall? v call with
    | none => simp [wayUp_of_outerCall?_none ho, ho]
    | some outer =>
      rw [wayUp_of_outerCall? hv ho]
      simp [wayUp, ho]
  | succ i ih =>
    cases ho : outerCall? v call with
    | none => simp [wayUp_of_outerCall?_none ho]
    | some outer =>
      rw [wayUp_of_outerCall? hv ho, List.getElem?_cons_succ, List.getElem?_cons_succ]
      exact ih outer

/-- **No class lies between a call and the call around it**, so both have the same owner. -/
theorem owner?_of_outerCall? (hv : v.Grounded) (h : outerCall? v call = some outer) :
    owner? v r call = owner? v r outer := by
  obtain ⟨block, literal, lambda, argument, h₁, h₂, h₃, h₄, h₅, hk⟩ := links_of_outerCall? h
  have skip : ∀ {id p : NodeId}, v.parent? id = some p → v.kindIs isPassage p = true →
      v.enclosingClass? id = v.enclosingClass? p := by
    intro id p hp hkp
    obtain ⟨k, hk, hf⟩ := (Option.any_eq_true _ _).mp hkp
    have hc : v.kindIs Kind.isClass p = false := by
      rw [View.kindIs, hk]
      exact not_isClass_of_isPassage hf
    exact View.enclosingClass?_skip hv hp hc
  rw [owner?, skip h₁ (hk _ (by simp)), skip h₂ (hk _ (by simp)), skip h₃ (hk _ (by simp)),
    skip h₄ (hk _ (by simp)), skip h₅ (hk _ (by simp)), owner?]

/-! ## 2. Checks and segments -/

/-- The first check that a call fails: it has to stand in a lambda, call by a bare name, call a
known function, and describe itself by a literal. -/
def fault? (v : View) (r : Resolver) (call : NodeId) : Option PathError :=
  if (enclosingLambda? v call).isNone then some (.notInClosure call)
  else if (namedCallee? v call).isNone then some (.calleeNotNameReference call)
  else if (calledFunction? v r call).isNone then some (.unresolvedCallee call)
  else if (description? v call).isNone then some (.missingDescription call)
  else none

/-- What a call that calls a known function and describes itself contributes to a path. -/
def segment? (v : View) (r : Resolver) (call : NodeId) : Option BlockSegment := do
  let function ← calledFunction? v r call
  let description ← description? v call
  return ⟨if isTestFunction function.name then .test else .group,
    blockLabel function.name description⟩

/-- A call without a fault stands in a lambda and has a segment. -/
theorem fault?_eq_none_iff :
    fault? v r call = none ↔ (enclosingLambda? v call).isSome = true ∧
      (calledFunction? v r call).isSome = true ∧ (description? v call).isSome = true := by
  unfold fault? calledFunction?
  cases enclosingLambda? v call with
  | none => simp
  | some lambda =>
    cases namedCallee? v call with
    | none => simp
    | some callee =>
      cases hf : r.functionOf? callee with
      | none => simp [hf]
      | some function => cases description? v call <;> simp [hf]

/-- A call with a fault ends the climb with it. -/
theorem segmentOf_of_fault? {e : PathError} (h : fault? v r call = some e) :
    segmentOf v r call = .error e := by
  unfold segmentOf
  unfold fault? calledFunction? at h
  cases hl : enclosingLambda? v call with
  | none => simpa [hl] using h
  | some lambda =>
    cases hc : namedCallee? v call with
    | none => simpa [hl, hc] using h
    | some callee =>
      cases hf : r.functionOf? callee with
      | none => simpa [hl, hc, hf] using h
      | some function =>
        cases hd : description? v call with
        | none => simpa [hl, hc, hf, hd] using h
        | some description => simp [hl, hc, hf, hd] at h

/-- A call without a fault contributes its segment, and the climb goes on from the lambda
around it. -/
theorem segmentOf_of_fault?_none (h : fault? v r call = none) :
    ∃ segment lambda, segmentOf v r call = .ok (segment, lambda) ∧
      segment? v r call = some segment ∧ enclosingLambda? v call = some lambda := by
  obtain ⟨hl, hf, hd⟩ := fault?_eq_none_iff.mp h
  obtain ⟨lambda, hl⟩ := Option.isSome_iff_exists.mp hl
  obtain ⟨function, hf⟩ := Option.isSome_iff_exists.mp hf
  obtain ⟨description, hd⟩ := Option.isSome_iff_exists.mp hd
  obtain ⟨callee, hc, hr⟩ := Option.bind_eq_some_iff.mp hf
  refine ⟨⟨if isTestFunction function.name then .test else .group,
    blockLabel function.name description⟩, lambda, ?_, ?_, hl⟩
  · unfold segmentOf
    simp [hl, hc, hr, hd]
    rfl
  · simp [segment?, hf, hd]

/-- One level of the climb from a call without a fault. -/
theorem ascend_succ (start : NodeId) (room : Nat) (h : fault? v r call = none) :
    ∃ segment, segment? v r call = some segment ∧
      (∀ outer, outerCall? v call = some outer → ascend v r start (room + 1) call =
        (segment :: ·) <$> ascend v r start room outer) ∧
      (outerCall? v call = none → ascend v r start (room + 1) call = .ok [segment]) := by
  obtain ⟨segment, lambda, hs, hseg, hl⟩ := segmentOf_of_fault?_none h
  have ho : outerCall? v call = trailingOwner? v lambda := by
    rw [outerCall?, hl, Option.bind_some]
  refine ⟨segment, hseg, ?_, ?_⟩
  · intro outer hout
    simp only [ascend, hs, bind, Except.bind, ← ho, hout]
    rfl
  · intro hout
    simp only [ascend, hs, bind, Except.bind, ← ho, hout]
    rfl

/-- A fault ends the climb. -/
theorem ascend_succ_of_fault? {start : NodeId} {room : Nat} {e : PathError}
    (h : fault? v r call = some e) : ascend v r start (room + 1) call = .error e := by
  rw [ascend, segmentOf_of_fault? h]
  rfl

/-! ## 3. The climb -/

section Climb

variable (hv : v.Grounded) (start : NodeId)
include hv

/-- **The climb stops at the first call with a fault**, if the bound lets it get there. -/
theorem ascend_of_fault? {room i : Nat} {c : NodeId} {e : PathError} (hi : i < room)
    (hc : (wayUp v call)[i]? = some c) (hf : fault? v r c = some e)
    (hbefore : ∀ d ∈ (wayUp v call).take i, fault? v r d = none) :
    ascend v r start room call = .error e := by
  induction i generalizing call room with
  | zero =>
    obtain ⟨room, rfl⟩ : ∃ k, room = k + 1 := ⟨room - 1, by omega⟩
    obtain rfl : call = c := by simpa [wayUp] using hc
    exact ascend_succ_of_fault? hf
  | succ i ih =>
    obtain ⟨room, rfl⟩ : ∃ k, room = k + 1 := ⟨room - 1, by omega⟩
    cases ho : outerCall? v call with
    | none => simp [wayUp_of_outerCall?_none ho] at hc
    | some outer =>
      rw [wayUp_of_outerCall? hv ho] at hc hbefore
      rw [List.getElem?_cons_succ] at hc
      rw [List.take_succ_cons] at hbefore
      obtain ⟨segment, -, ha, -⟩ := ascend_succ start room
        (hbefore call List.mem_cons_self)
      rw [ha outer ho, ih (Nat.lt_of_succ_lt_succ hi) hc
        (fun d hd => hbefore d (List.mem_cons_of_mem _ hd))]
      rfl

/-- **The climb gives up at the bound**, if there is more of the way and no fault so far. -/
theorem ascend_of_length_lt {room : Nat} (hlen : room < (wayUp v call).length)
    (hsound : ∀ d ∈ (wayUp v call).take room, fault? v r d = none) :
    ascend v r start room call = .error (.nestingTooDeep start nestingLimit) := by
  induction room generalizing call with
  | zero => rfl
  | succ room ih =>
    cases ho : outerCall? v call with
    | none =>
      rw [wayUp_of_outerCall?_none ho, List.length_singleton] at hlen
      omega
    | some outer =>
      rw [wayUp_of_outerCall? hv ho] at hlen hsound
      rw [List.take_succ_cons] at hsound
      obtain ⟨segment, -, ha, -⟩ := ascend_succ start room
        (hsound call List.mem_cons_self)
      rw [ha outer ho, ih (Nat.lt_of_succ_lt_succ hlen)
        (fun d hd => hsound d (List.mem_cons_of_mem _ hd))]
      rfl

/-- **The climb arrives** with the segments of all calls on the way, if none has a fault and the
bound allows so many. -/
theorem ascend_of_length_le {room : Nat} (hlen : (wayUp v call).length ≤ room)
    (hsound : ∀ d ∈ wayUp v call, fault? v r d = none) :
    ∃ blocks, ascend v r start room call = .ok blocks ∧
      (wayUp v call).map (segment? v r) = blocks.map some := by
  induction room generalizing call with
  | zero => simp [wayUp] at hlen
  | succ room ih =>
    obtain ⟨segment, hs, ha, hlast⟩ := ascend_succ start room
      (hsound call (mem_wayUp_self v call))
    cases ho : outerCall? v call with
    | none =>
      rw [hlast ho, wayUp_of_outerCall?_none ho]
      exact ⟨[segment], rfl, by simp [hs]⟩
    | some outer =>
      rw [wayUp_of_outerCall? hv ho] at hlen hsound ⊢
      obtain ⟨blocks, hb, hm⟩ := ih (Nat.le_of_succ_le_succ hlen)
        (fun d hd => hsound d (List.mem_cons_of_mem _ hd))
      refine ⟨segment :: blocks, ?_, ?_⟩
      · rw [ha outer ho, hb]
        rfl
      · rw [List.map_cons, hs, hm, List.map_cons]

end Climb

/-! ## 4. Blocks and paths -/

/-- **What makes a call a block**, one condition after the other. -/
theorem block?_eq_some_iff {b : Block} :
    block? v r call = some b ↔ (enclosingLambda? v call).isSome = true ∧
      ∃ f, calledFunction? v r call = some f ∧ hasBlockArguments v call = true ∧
        extendsBlockReceiver f = true ∧ description? v call = some b.description ∧
        BlockKind.ofFunction? f.name = some b.kind ∧ f.name = b.function := by
  unfold block?
  constructor
  · intro h
    obtain ⟨lambda, hl, h⟩ := Option.bind_eq_some_iff.mp h
    obtain ⟨f, hf, h⟩ := Option.bind_eq_some_iff.mp h
    obtain ⟨_, ha, h⟩ := Option.bind_eq_some_iff.mp h
    obtain ⟨_, he, h⟩ := Option.bind_eq_some_iff.mp h
    obtain ⟨description, hd, h⟩ := Option.bind_eq_some_iff.mp h
    obtain ⟨kind, hk, h⟩ := Option.bind_eq_some_iff.mp h
    obtain rfl : ({ kind, function := f.name, description } : Block) = b := Option.some.inj h
    exact ⟨Option.isSome_iff_exists.mpr ⟨lambda, hl⟩, f, hf, (Option.guard_eq_some' _).mp ha,
      (Option.guard_eq_some' _).mp he, hd, hk, rfl⟩
  · rintro ⟨hl, f, hf, ha, he, hd, hk, hn⟩
    obtain ⟨lambda, hl⟩ := Option.isSome_iff_exists.mp hl
    obtain ⟨kind, function, description⟩ := b
    simp only at hd hk hn
    subst hn
    refine Option.bind_eq_some_iff.mpr ⟨lambda, hl, ?_⟩
    refine Option.bind_eq_some_iff.mpr ⟨f, hf, ?_⟩
    refine Option.bind_eq_some_iff.mpr ⟨(), (Option.guard_eq_some' _).mpr ha, ?_⟩
    refine Option.bind_eq_some_iff.mpr ⟨(), (Option.guard_eq_some' _).mpr he, ?_⟩
    refine Option.bind_eq_some_iff.mpr ⟨description, hd, ?_⟩
    exact Option.bind_eq_some_iff.mpr ⟨kind, hk, rfl⟩

/-- A block has no fault itself: the checks of the climb are among those of a block. -/
theorem fault?_of_block? (h : (block? v r call).isSome = true) : fault? v r call = none := by
  obtain ⟨b, hb⟩ := Option.isSome_iff_exists.mp h
  obtain ⟨hl, f, hf, -, -, hd, -⟩ := block?_eq_some_iff.mp hb
  exact fault?_eq_none_iff.mpr ⟨hl, Option.isSome_iff_exists.mpr ⟨f, hf⟩,
    Option.isSome_iff_exists.mpr ⟨_, hd⟩⟩

/-- A block function opens what the climb takes it for. -/
theorem kind_of_ofFunction? {name : String} {kind : BlockKind}
    (h : BlockKind.ofFunction? name = some kind) :
    (if isTestFunction name then BlockKind.test else .group) = kind := by
  rw [BlockKind.ofFunction?] at h
  split at h
  · next ht => rw [if_pos ht]; exact Option.some.inj h
  · next ht =>
    obtain ⟨-, h⟩ := Option.ite_none_right_eq_some.mp h
    rw [if_neg ht]
    exact Option.some.inj h

/-- **A block contributes its kind and its label.** -/
theorem segment?_of_block? {b : Block} (h : block? v r call = some b) :
    segment? v r call = some ⟨b.kind, b.label⟩ := by
  obtain ⟨-, f, hf, -, -, hd, hk, hn⟩ := block?_eq_some_iff.mp h
  rw [hn] at hk
  simp only [segment?, hf, hd, hn, Option.bind_eq_bind, Option.bind_some, kind_of_ofFunction? hk]
  rfl

theorem pathOf_of_block?_none (h : block? v r call = none) :
    pathOf v r call = .error (.notASpecBlock call) := by
  simp [pathOf, isBlock, h]

/-- The path of a block is where the climb arrives, with the class that owns the block. -/
theorem pathOf_of_ascend {blocks : List BlockSegment} (h : (block? v r call).isSome = true)
    (ha : ascend v r call nestingLimit call = .ok blocks) :
    pathOf v r call =
      match owner? v r call with
      | some spec => .ok ⟨blocks, spec.qualifiedName⟩
      | none => .error (.noOwningSpec call) := by
  rw [pathOf, isBlock, h, if_pos rfl, ha]
  rfl

/-- If the climb fails, so does the path. -/
theorem pathOf_of_ascend_error {e : PathError} (h : (block? v r call).isSome = true)
    (ha : ascend v r call nestingLimit call = .error e) : pathOf v r call = .error e := by
  rw [pathOf, isBlock, h, if_pos rfl, ha]
  rfl

/-- **The answer for a call, by rules.**  A call that is no block has no path.  For a block, the
first fault among the first 256 calls of the way up is the answer; failing that, a longer way is
too long; failing that, the block needs an owner; and then its path has the segments of all the
calls on the way. -/
inductive Outcome (v : View) (r : Resolver) (call : NodeId) : Except PathError Path → Prop
  | notABlock : block? v r call = none → Outcome v r call (.error (.notASpecBlock call))
  | fault {i : Nat} {c : NodeId} {e : PathError} : (block? v r call).isSome = true →
      i < 256 → (wayUp v call)[i]? = some c → fault? v r c = some e →
      (∀ d ∈ (wayUp v call).take i, fault? v r d = none) → Outcome v r call (.error e)
  | tooDeep : (block? v r call).isSome = true →
      (∀ d ∈ (wayUp v call).take 256, fault? v r d = none) → 256 < (wayUp v call).length →
      Outcome v r call (.error (.nestingTooDeep call 256))
  | noOwner : (block? v r call).isSome = true → (∀ d ∈ wayUp v call, fault? v r d = none) →
      (wayUp v call).length ≤ 256 → owner? v r call = none →
      Outcome v r call (.error (.noOwningSpec call))
  | path {blocks : List BlockSegment} {spec : ClassSymbol} : (block? v r call).isSome = true →
      (∀ d ∈ wayUp v call, fault? v r d = none) → (wayUp v call).length ≤ 256 →
      owner? v r call = some spec → (wayUp v call).map (segment? v r) = blocks.map some →
      Outcome v r call (.ok ⟨blocks, spec.qualifiedName⟩)

/-- The rules give only answers of the function. -/
theorem Outcome.pathOf_eq (hv : v.Grounded) {result : Except PathError Path}
    (h : Outcome v r call result) : pathOf v r call = result := by
  cases h with
  | notABlock hb => exact pathOf_of_block?_none hb
  | fault hb hi hc hf hbefore =>
    exact pathOf_of_ascend_error hb (ascend_of_fault? hv call hi hc hf hbefore)
  | tooDeep hb hsound hlen =>
    exact pathOf_of_ascend_error hb (ascend_of_length_lt hv call hlen hsound)
  | noOwner hb hsound hlen ho =>
    obtain ⟨blocks, ha, -⟩ := ascend_of_length_le hv call hlen hsound
    rw [pathOf_of_ascend hb ha, ho]
  | path hb hsound hlen ho hm =>
    obtain ⟨blocks', ha, hm'⟩ := ascend_of_length_le hv call hlen hsound
    have heq := List.map_injective_iff.mpr (fun _ _ => Option.some.inj) (hm'.symm.trans hm)
    rw [pathOf_of_ascend hb ha, ho, heq]

/-- If some call among the first `n` of a list has a fault, there is a first one. -/
theorem exists_first_fault {calls : List NodeId} {n : Nat}
    (h : ¬ ∀ d ∈ calls.take n, fault? v r d = none) :
    ∃ i c e, i < n ∧ calls[i]? = some c ∧ fault? v r c = some e ∧
      ∀ d ∈ calls.take i, fault? v r d = none := by
  induction calls generalizing n with
  | nil => simp at h
  | cons a calls ih =>
    cases n with
    | zero => simp at h
    | succ n =>
      cases hf : fault? v r a with
      | some e => exact ⟨0, a, e, Nat.succ_pos n, rfl, hf, by simp⟩
      | none =>
        obtain ⟨i, c, e, hi, hc, he, hbefore⟩ := ih (n := n) fun hall => h (by
          rw [List.take_succ_cons]
          exact List.forall_mem_cons.mpr ⟨hf, hall⟩)
        refine ⟨i + 1, c, e, Nat.succ_lt_succ hi, hc, he, ?_⟩
        rw [List.take_succ_cons]
        exact List.forall_mem_cons.mpr ⟨hf, hbefore⟩

/-- One of the rules always applies. -/
theorem exists_outcome (hv : v.Grounded) (r : Resolver) (call : NodeId) :
    ∃ result, Outcome v r call result := by
  cases hb : block? v r call with
  | none => exact ⟨_, .notABlock hb⟩
  | some b =>
    have hb' : (block? v r call).isSome = true := by rw [hb]; rfl
    by_cases hsound : ∀ d ∈ (wayUp v call).take 256, fault? v r d = none
    · rcases Nat.lt_or_ge 256 (wayUp v call).length with hlen | hlen
      · exact ⟨_, .tooDeep hb' hsound hlen⟩
      · rw [List.take_of_length_le hlen] at hsound
        cases ho : owner? v r call with
        | none => exact ⟨_, .noOwner hb' hsound hlen ho⟩
        | some spec =>
          obtain ⟨blocks, -, hm⟩ := ascend_of_length_le hv call hlen hsound
          exact ⟨_, .path hb' hsound hlen ho hm⟩
    · -- the first call of the way that has a fault
      obtain ⟨i, c, e, hi, hc, hf, hbefore⟩ := exists_first_fault hsound
      exact ⟨_, .fault hb' hi hc hf hbefore⟩

/-- **Which path a call has.**  It has one exactly if it is a block, no call on the way up has a
fault, the way is short enough, and a spec class owns the block. -/
theorem pathOf_eq_ok_iff (hv : v.Grounded) {p : Path} :
    pathOf v r call = .ok p ↔ (block? v r call).isSome = true ∧
      (∀ d ∈ wayUp v call, fault? v r d = none) ∧ (wayUp v call).length ≤ 256 ∧
      ∃ spec, owner? v r call = some spec ∧ p.spec = spec.qualifiedName ∧
        (wayUp v call).map (segment? v r) = p.blocks.map some := by
  constructor
  · intro h
    obtain ⟨result, hres⟩ := exists_outcome hv r call
    obtain rfl : result = .ok p := (hres.pathOf_eq hv).symm.trans h
    cases hres with
    | path hb hsound hlen ho hm => exact ⟨hb, hsound, hlen, _, ho, rfl, hm⟩
  · rintro ⟨hb, hsound, hlen, spec, ho, hs, hm⟩
    obtain ⟨blocks, name⟩ := p
    simp only at hs hm
    rw [hs]
    exact (Outcome.path hb hsound hlen ho hm).pathOf_eq hv

/-- **The path of a block that stands in blocks only** has their labels. -/
theorem pathOf_of_blocks (hv : v.Grounded) {blocks : List Block} {spec : ClassSymbol}
    (hway : (wayUp v call).map (block? v r) = blocks.map some) (hlen : blocks.length ≤ 256)
    (howner : owner? v r call = some spec) :
    pathOf v r call = .ok ⟨blocks.map fun b => ⟨b.kind, b.label⟩, spec.qualifiedName⟩ := by
  have hblock : ∀ d ∈ wayUp v call, ∃ b, block? v r d = some b := by
    intro d hd
    have hmem : block? v r d ∈ blocks.map some := hway ▸ List.mem_map_of_mem hd
    obtain ⟨b, -, hb⟩ := List.mem_map.mp hmem
    exact ⟨b, hb.symm⟩
  have hsegments : (wayUp v call).map (segment? v r) =
      ((wayUp v call).map (block? v r)).map (Option.map fun b => ⟨b.kind, b.label⟩) := by
    rw [List.map_map]
    refine List.map_congr_left fun d hd => ?_
    obtain ⟨b, hb⟩ := hblock d hd
    rw [segment?_of_block? hb, Function.comp_apply, hb]
    rfl
  refine (pathOf_eq_ok_iff hv).mpr ⟨?_, ?_, ?_, spec, howner, rfl, ?_⟩
  · exact Option.isSome_iff_exists.mpr (hblock call (mem_wayUp_self v call))
  · exact fun d hd => fault?_of_block? (Option.isSome_iff_exists.mpr (hblock d hd))
  · have hlength := congrArg List.length hway
    rw [List.length_map, List.length_map] at hlength
    exact hlength ▸ hlen
  · rw [hsegments, hway, List.map_map, List.map_map]
    rfl

/-- **The path of a block with no call around it** has its segment alone. -/
theorem pathOf_of_outerCall?_none (hv : v.Grounded) {b : Block} {spec : ClassSymbol}
    (hb : block? v r call = some b) (ho : outerCall? v call = none)
    (howner : owner? v r call = some spec) :
    pathOf v r call = .ok ⟨[⟨b.kind, b.label⟩], spec.qualifiedName⟩ := by
  have hway : (wayUp v call).map (block? v r) = [b].map some := by
    rw [wayUp_of_outerCall?_none ho, List.map_singleton, hb]
    rfl
  exact pathOf_of_blocks hv hway (by simp) howner

/-- **The path of a call is what the rules say, errors included.**  The way that the rules speak
of starts at the call and goes on for as long as there is a call around; and the call itself is
never the one at fault. -/
theorem pathOf_eq_iff_outcome (hv : v.Grounded) (r : Resolver) (call : NodeId)
    (result : Except PathError Path) :
    (pathOf v r call = result ↔ Outcome v r call result) ∧
      ((wayUp v call)[0]? = some call ∧
        ∀ i, (wayUp v call)[i + 1]? = (wayUp v call)[i]?.bind (outerCall? v)) ∧
      ((block? v r call).isSome = true → fault? v r call = none) := by
  refine ⟨⟨?_, ?_⟩, ⟨rfl, getElem?_wayUp_succ hv call⟩, fault?_of_block?⟩
  · intro h
    obtain ⟨result', hres⟩ := exists_outcome hv r call
    exact h ▸ hres.pathOf_eq hv ▸ hres
  · intro h
    exact h.pathOf_eq hv

namespace Example

/-- The body `{ run { it("b") { } } }`: a block in the trailing lambda of a call that does not
describe itself. -/
def undescribed : Tree :=
  (Tree.empty .kotlin).graft Tree.root (.lambda {} [.statement (.node .call {}
    [.leaf (.nameRef "run"), .trailingLambda [.blockCall "it" "b" []]])])

/-- A resolver that takes every name for the test function. -/
def allTests : Resolver where
  scopeOf _ := .project
  findClass? _ _ := none
  classOf? _ := none
  inherits _ _ := false
  functionOf? _ :=
    some { name := "it", qualifiedName := "it", receiver? := some (.user "TestContainer") }
  typeNamed? _ _ := none

theorem grounded_undescribed : undescribed.view.Grounded :=
  ((Tree.linked_empty .kotlin).graft (Nat.succ_pos 0) _).grounded

end Example

/-- The block at place ten is blamed on the call around it, which is the second of the way. -/
theorem outcome_undescribed :
    Example.undescribed.view.Grounded ∧
      Outcome Example.undescribed.view Example.allTests 10 (.error (.missingDescription 4)) :=
  ⟨Example.grounded_undescribed,
    (pathOf_eq_iff_outcome Example.grounded_undescribed Example.allTests 10 _).1.mp rfl⟩

/-! ## 5. What a scan makes of a block -/

/-- **A scan makes of a block with an owner its path**, if it has one. -/
theorem findingOf?_of_owner? {t : Tree} (howner : (owner? t.view r call).isSome = true)
    (hblock : (block? t.view r call).isSome = true) :
    findingOf? t r {} call = match pathOf t.view r call with
      | .ok path => some { path, span := t.span call }
      | .error _ => none := by
  have hnone : (owner? t.view r call).isNone = false := by
    rw [← Option.not_isSome, howner]
    rfl
  rw [findingOf?, isBlock, hblock, hnone]
  rfl

/-- What a scan makes of a call is its path, in whatever tree. -/
theorem of_findingOf? {t : Tree} {options : Options} {f : Finding}
    (h : findingOf? t r options call = some f) :
    (options.skipJunit4 && inJunit4Class t.view r call) = false ∧
      pathOf t.view r call = .ok f.path ∧ f.span = t.span call := by
  rw [findingOf?] at h
  split at h
  · cases h
  · next hskip =>
    split at h
    · cases h
    · split at h
      · next p hp =>
        cases h
        exact ⟨Bool.eq_false_iff.mpr hskip, hp, rfl⟩
      · cases h

/-- **What a scan makes of a call**: its path, if it has one and its class is not passed over. -/
theorem findingOf?_eq_some_iff {t : Tree} (ht : t.Linked) {options : Options} {f : Finding} :
    findingOf? t r options call = some f ↔
      (options.skipJunit4 && inJunit4Class t.view r call) = false ∧
        pathOf t.view r call = .ok f.path ∧ f.span = t.span call := by
  refine ⟨of_findingOf?, ?_⟩
  rintro ⟨hskip, hp, hspan⟩
  -- a call with a path passes the two checks that come before the climb
  obtain ⟨hblock, -, -, spec, howner, -⟩ := (pathOf_eq_ok_iff ht.grounded).mp hp
  obtain ⟨path, span⟩ := f
  obtain rfl : span = t.span call := hspan
  rw [findingOf?, hskip, howner, isBlock, hblock, hp]
  rfl

/-- **A scan lists the calls that have a path**, each with its path and its span. -/
theorem mem_scan_iff {t : Tree} (ht : t.Linked) {f : Finding} :
    f ∈ scan t r {} ↔ ∃ call, t.kind? call = some .call ∧ pathOf t.view r call = .ok f.path ∧
      f.span = t.span call := by
  constructor
  · intro hf
    obtain ⟨call, hcall, hf⟩ := List.mem_filterMap.mp hf
    obtain ⟨kind, hk, hc⟩ := ht.mem_findAll.mp hcall
    obtain rfl : kind = .call := by
      cases kind with
      | call => rfl
      | _ => cases hc
    exact ⟨call, hk, ((findingOf?_eq_some_iff ht).mp hf).2⟩
  · rintro ⟨call, hcall, hp, hspan⟩
    exact List.mem_filterMap.mpr ⟨call, ht.mem_findAll.mpr ⟨.call, hcall, rfl⟩,
      (findingOf?_eq_some_iff ht).mpr ⟨rfl, hp, hspan⟩⟩

/-- A call with a path is reported. -/
theorem reported_of_pathOf {t : Tree} (ht : t.Linked) (hcall : t.kind? call = some .call)
    {p : Path} (hp : pathOf t.view r call = .ok p) :
    { path := p, span := t.span call } ∈ scan t r {} :=
  (mem_scan_iff ht).mpr ⟨call, hcall, hp, rfl⟩

end SpecOutline.Suite
