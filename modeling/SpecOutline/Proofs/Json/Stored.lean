/-
# Stored trees and libraries are read back

A tree whose numbers fit the widths that the stored format has for them (`Tree.Storable`) is read
back from what is written of it, and so is every library; the numbers of all that is read fit
(`Tree.storable_of_ofJson`), so that no other tree is.  Written values are plain, hence this holds
of the text in both layouts as well.

The proofs follow the types.  Each record is written with some of the keys that its reader knows,
in their order, and each field is read back as it was written; a kind is read by its tag, which
is the key of no field beside it.
-/
import Mathlib.Tactic.MkIffOfInductiveProp
import SpecOutline.Library.Framework
import SpecOutline.Library.Stored
import SpecOutline.Proofs.Json.Printed
import SpecOutline.Proofs.Json.Records

namespace SpecOutline

open SpecOutline.Json

/-! ## 1. What can be stored -/

/-- The numbers of a span have at most sixty-four bits. -/
@[mk_iff] structure Span.Storable (s : Span) : Prop where
  start : s.start < wordBound
  stop : s.stop < wordBound
  startLine : s.startLine < wordBound
  stopLine : s.stopLine < wordBound
  startColumn : s.startColumn < wordBound
  stopColumn : s.stopColumn < wordBound

/-- The places that a node names have at most thirty-two bits, and its span can be stored. -/
@[mk_iff] structure Node.Storable (n : Node) : Prop where
  parent : ∀ id ∈ n.parent?, id < placeBound
  children : ∀ id ∈ n.children, id < placeBound
  span : n.span.Storable

/-- All nodes and error regions can be stored. -/
@[mk_iff] structure Tree.Storable (t : Tree) : Prop where
  nodes : ∀ n ∈ t.nodes.toList, n.Storable
  errorRegions : ∀ s ∈ t.errorRegions, s.Storable

instance (s : Span) : Decidable s.Storable := decidable_of_iff' _ (Span.storable_iff s)

instance (n : Node) : Decidable n.Storable := decidable_of_iff' _ (Node.storable_iff n)

instance (t : Tree) : Decidable t.Storable := decidable_of_iff' _ (Tree.storable_iff t)

/-! ## 2. Languages, spans, types -/

theorem Language.ofJson_toJson (l : Language) : Language.ofJson l.toJson = .ok l := by
  cases l <;> decide

theorem Span.ofJson_toJson {s : Span} (hs : s.Storable) : Span.ofJson s.toJson = .ok s := by
  have hstart := asNat_nat hs.start
  have hstop := asNat_nat hs.stop
  have hstartLine := asNat_nat hs.startLine
  have hstopLine := asNat_nat hs.stopLine
  have hstartColumn := asNat_nat hs.startColumn
  have hstopColumn := asNat_nat hs.stopColumn
  rw [Span.ofJson, Span.toJson, record_of_sublist]
  case hkeys => exact List.Sublist.refl _
  case hnames => decide
  simp [Record.required, Record.ofEntries, List.lookup_cons, bind, Except.bind, pure,
    Except.pure, hstart, hstop, hstartLine, hstopLine, hstartColumn, hstopColumn]

theorem TypeRef.ofJson_toJson (place : Place) (τ : TypeRef) :
    TypeRef.ofJson place τ.toJson = .ok τ := by
  cases τ <;>
  · rw [TypeRef.ofJson, TypeRef.toJson, record_of_sublist]
    case hkeys => exact List.Sublist.refl _
    case hnames => decide
    simp [Record.required, Record.ofEntries, List.lookup_cons, bind, Except.bind, pure,
      Except.pure, enumeration, memberNamed, Value.asText]

theorem TypeRef.toJson_ne_null (τ : TypeRef) : τ.toJson ≠ .null := by
  cases τ <;> simp [TypeRef.toJson]

/-! ## 3. Imports and heads -/

theorem Import.ofJson_entries (place : Place) (i : Import) :
    Import.ofJson place (.object i.entries) = .ok i := by
  have hkeys : (i.entries.map Prod.fst).Sublist ["path", "alias", "star"] := by
    rw [Import.entries, List.map_append, List.map_append]
    exact ((List.Sublist.refl ["path"]).append (keys_entryIfSome ..)).append (.refl ["star"])
  have hpath : (Record.ofEntries i.entries).required "path" Value.asText = .ok i.path :=
    required_ofEntries (.text i.path) (by simp [Import.entries]) rfl
  have halias : (Record.ofEntries i.entries).optional "alias" Value.asText = .ok i.alias? :=
    optional_ofEntries .text (by simp [Import.entries, List.lookup_append, List.lookup_cons])
      (by simp [Value.asText])
  have hstar : (Record.ofEntries i.entries).orElse "star" false Value.asBool = .ok i.star :=
    orElse_ofEntries (.bool i.star)
      (by simp [Import.entries, List.lookup_append, List.lookup_cons]) rfl
  simp only [Import.ofJson, record_of_sublist hkeys (by decide), hpath, halias, hstar, bind,
    Except.bind]
  rfl

theorem ClassHead.ofJson_entries (place : Place) (h : ClassHead) :
    ClassHead.ofJson place (.object h.entries) = .ok h := by
  have hsupertypes := asList_texts h.supertypes
  rw [ClassHead.ofJson, ClassHead.entries, record_of_sublist]
  case hkeys => exact List.Sublist.refl _
  case hnames => decide
  simp [Record.required, Record.orElse, Record.ofEntries, List.lookup_cons, bind, Except.bind,
    pure, Except.pure, Value.asText, Value.asBool, hsupertypes]

theorem FunctionHead.ofJson_entries (place : Place) (h : FunctionHead) :
    FunctionHead.ofJson place (.object h.entries) = .ok h := by
  have hkeys : (h.entries.map Prod.fst).Sublist ["name", "receiver"] := by
    rw [FunctionHead.entries, List.map_append]
    exact (List.Sublist.refl ["name"]).append (keys_entryIfSome ..)
  have hname : (Record.ofEntries h.entries).required "name" Value.asText = .ok h.name :=
    required_ofEntries (.text h.name) (by simp [FunctionHead.entries]) rfl
  have hreceiver :
      (Record.ofEntries h.entries).optional "receiver" (TypeRef.ofJson place) = .ok h.receiver? :=
    optional_ofEntries TypeRef.toJson (by simp [FunctionHead.entries, List.lookup_cons])
      fun τ _ => ⟨τ.toJson_ne_null, τ.ofJson_toJson place⟩
  simp only [FunctionHead.ofJson, record_of_sublist hkeys (by decide), hname, hreceiver, bind,
    Except.bind]
  rfl

/-! ## 4. Kinds -/

namespace Kind

/-- No field of a kind has the key of the tag. -/
theorem type_notMem_keys (k : Kind) : "type" ∉ k.entries.map Prod.fst := by
  cases k with
  | file package? => cases package? <;> simp [entries, entryIfSome]
  | importing i => cases h : i.alias? <;> simp [entries, Import.entries, entryIfSome, h]
  | function h => cases hr : h.receiver? <;> simp [entries, FunctionHead.entries, entryIfSome, hr]
  | _ => simp [entries, ClassHead.entries]

theorem allCanKeep_texts (room : Nat) (ss : List String) :
    allCanKeep room (ss.map Value.text) = true := by
  induction ss with
  | nil => rfl
  | cons s ss ih => simp [allCanKeep, Value.canKeep, ih]

/-- What stands beside the tag of a kind opens one level at most. -/
theorem canKeep_entries (room : Nat) (k : Kind) : entriesCanKeep (room + 1) k.entries = true := by
  cases k with
  | file package? => cases package? <;> simp [entries, entryIfSome, entriesCanKeep, Value.canKeep]
  | importing i =>
    cases h : i.alias? <;>
      simp [entries, Import.entries, entryIfSome, h, entriesCanKeep, Value.canKeep]
  | function h =>
    rcases hr : h.receiver? with _ | _ | _ <;>
      simp [entries, FunctionHead.entries, entryIfSome, hr, TypeRef.toJson, entriesCanKeep,
        Value.canKeep]
  | _ =>
    simp [entries, ClassHead.entries, Value.texts, entriesCanKeep, Value.canKeep,
      allCanKeep_texts]

theorem textField_entry (name s : String) :
    textField name (.object [(name, .text s)]) = .ok s := by
  have hrecord : record .aside [name] (.object [(name, .text s)]) =
      .ok (.ofEntries [(name, .text s)]) :=
    record_of_sublist (List.Sublist.refl _) (List.nodup_singleton name)
  simp [textField, hrecord, Record.required, Record.ofEntries, bind, Except.bind, Value.asText]

/-- **What stands beside a tag is read back as the kind.** -/
theorem ofTag_entries (k : Kind) : ofTag k.tag (.object k.entries) = .ok k := by
  cases k with
  | file package? =>
    have hpackage : (Record.ofEntries (entryIfSome "package" Value.text package?)).optional
        "package" Value.asText = .ok package? :=
      optional_ofEntries .text (by simp) (by simp [Value.asText])
    simp only [tag, label, entries, ofTag, hpackage, bind, Except.bind,
      record_of_sublist (keys_entryIfSome ..) (List.nodup_singleton _)]
    rfl
  | importing i =>
    simp only [tag, label, entries, ofTag, Import.ofJson_entries]
    rfl
  | classLike h =>
    simp only [tag, label, entries, ofTag, ClassHead.ofJson_entries]
    rfl
  | objectLike h =>
    simp only [tag, label, entries, ofTag, ClassHead.ofJson_entries]
    rfl
  | function h =>
    simp only [tag, label, entries, ofTag, FunctionHead.ofJson_entries]
    rfl
  | annotated _ | nameRef _ | stringTemplate _ | other _ =>
    simp only [tag, label, entries, ofTag, textField_entry]
    rfl
  | _ => rfl

/-- **A kind is read back**, where one more level may open inside it. -/
theorem ofJson_toJson (room : Nat) (k : Kind) : Kind.ofJson (room + 1) k.toJson = .ok k := by
  rw [Kind.ofJson, Kind.toJson, tagged_object k.type_notMem_keys (canKeep_entries room k)]
  exact k.ofTag_entries

end Kind

/-! ## 5. Nodes and trees -/

theorem Node.ofJson_toJson {n : Node} (hn : n.Storable) : Node.ofJson n.toJson = .ok n := by
  obtain ⟨entries, hvalue⟩ : ∃ entries, n.toJson = .object entries := ⟨_, rfl⟩
  have hentries := hvalue
  rw [Node.toJson, Value.object.injEq] at hentries
  have hkeys : (entries.map Prod.fst).Sublist ["kind", "parent", "children", "span"] := by
    rw [← hentries, List.map_append, List.map_append, List.map_append]
    exact (((List.Sublist.refl ["kind"]).append (keys_entryIfSome ..)).append
      (keys_entryIfAny ..)).append (.refl ["span"])
  have hkind : (Record.ofEntries entries).required "kind" (Kind.ofJson (depthBound - 4)) =
      .ok n.kind :=
    required_ofEntries n.kind.toJson (by simp [← hentries]) (n.kind.ofJson_toJson 122)
  have hparent : (Record.ofEntries entries).optional "parent" (Value.asNat placeBound) =
      .ok n.parent? :=
    optional_ofEntries .nat (by simp [← hentries, List.lookup_append, List.lookup_cons])
      fun id hid => ⟨by simp [Value.nat], asNat_nat (hn.parent id hid)⟩
  have hchildren : (Record.ofEntries entries).orElse "children" []
      (Value.asList (Value.asNat placeBound)) = .ok n.children :=
    orElse_list_ofEntries .nat (by simp [← hentries, List.lookup_append, List.lookup_cons])
      fun id hid => asNat_nat (hn.children id hid)
  have hspan : (Record.ofEntries entries).orElse "span" {} Span.ofJson = .ok n.span :=
    orElse_ofEntries n.span.toJson
      (by simp [← hentries, List.lookup_append, List.lookup_cons]) (Span.ofJson_toJson hn.span)
  simp only [Node.ofJson, hvalue, record_of_sublist hkeys (by decide), hkind, hparent, hchildren,
    hspan, bind, Except.bind]
  rfl

/-- **A tree is read back.** -/
theorem Tree.ofJson_toJson {t : Tree} (ht : t.Storable) : Tree.ofJson t.toJson = .ok t := by
  obtain ⟨entries, hvalue⟩ : ∃ entries, t.toJson = .object entries := ⟨_, rfl⟩
  have hentries := hvalue
  rw [Tree.toJson, Value.object.injEq] at hentries
  have hkeys : (entries.map Prod.fst).Sublist ["path", "language", "nodes", "error_regions"] := by
    rw [← hentries, List.map_append, List.map_append]
    exact ((keys_entryIfSome ..).append (.refl ["language", "nodes"])).append (keys_entryIfAny ..)
  have hpath : (Record.ofEntries entries).optional "path" Value.asText = .ok t.path? :=
    optional_ofEntries .text (by simp [← hentries, List.lookup_append, List.lookup_cons])
      (by simp [Value.asText])
  have hlanguage : (Record.ofEntries entries).required "language" Language.ofJson =
      .ok t.language :=
    required_ofEntries t.language.toJson
      (by simp [← hentries, List.lookup_append]) t.language.ofJson_toJson
  have hnodes : (Record.ofEntries entries).required "nodes" (Value.asList Node.ofJson) =
      .ok t.nodes.toList :=
    required_ofEntries (.array (t.nodes.toList.map Node.toJson))
      (by simp [← hentries, List.lookup_append, List.lookup_cons])
      (asList_map fun n hn => Node.ofJson_toJson (ht.nodes n hn))
  have hregions : (Record.ofEntries entries).orElse "error_regions" []
      (Value.asList Span.ofJson) = .ok t.errorRegions :=
    orElse_list_ofEntries Span.toJson
      (by simp [← hentries, List.lookup_append, List.lookup_cons])
      fun s hs => Span.ofJson_toJson (ht.errorRegions s hs)
  simp only [Tree.ofJson, hvalue, record_of_sublist hkeys (by decide), hpath, hlanguage, hnodes,
    hregions, bind, Except.bind]
  rfl

/-! ## 6. Libraries -/

theorem LibraryType.ofJson_toJson (τ : LibraryType) : LibraryType.ofJson τ.toJson = .ok τ := by
  obtain ⟨entries, hvalue⟩ : ∃ entries, τ.toJson = .object entries := ⟨_, rfl⟩
  have hentries := hvalue
  rw [LibraryType.toJson, Value.object.injEq] at hentries
  have hkeys :
      (entries.map Prod.fst).Sublist ["fq_name", "supertypes", "is_abstract", "modules"] := by
    rw [← hentries, List.map_append]
    exact (List.Sublist.refl ["fq_name", "supertypes", "is_abstract"]).append (keys_entryIfAny ..)
  have hname : (Record.ofEntries entries).required "fq_name" Value.asText =
      .ok τ.qualifiedName :=
    required_ofEntries (.text τ.qualifiedName) (by simp [← hentries]) rfl
  have hsupertypes : (Record.ofEntries entries).orElse "supertypes" []
      (Value.asList Value.asText) = .ok τ.supertypes :=
    orElse_ofEntries (.texts τ.supertypes) (by simp [← hentries, List.lookup_cons])
      (asList_texts τ.supertypes)
  have habstract : (Record.ofEntries entries).orElse "is_abstract" false Value.asBool =
      .ok τ.isAbstract :=
    orElse_ofEntries (.bool τ.isAbstract) (by simp [← hentries, List.lookup_cons]) rfl
  have hmodules : (Record.ofEntries entries).orElse "modules" [] (Value.asList Value.asText) =
      .ok τ.modules :=
    orElse_list_ofEntries .text (by simp [← hentries, List.lookup_cons]) fun _ _ => rfl
  simp only [LibraryType.ofJson, hvalue, record_of_sublist hkeys (by decide), hname, hsupertypes,
    habstract, hmodules, bind, Except.bind]
  rfl

theorem LibraryFunction.ofJson_toJson (f : LibraryFunction) :
    LibraryFunction.ofJson f.toJson = .ok f := by
  obtain ⟨entries, hvalue⟩ : ∃ entries, f.toJson = .object entries := ⟨_, rfl⟩
  have hentries := hvalue
  rw [LibraryFunction.toJson, Value.object.injEq] at hentries
  have hkeys : (entries.map Prod.fst).Sublist ["fq_name", "receiver"] := by
    rw [← hentries, List.map_append]
    exact (List.Sublist.refl ["fq_name"]).append (keys_entryIfSome ..)
  have hname : (Record.ofEntries entries).required "fq_name" Value.asText =
      .ok f.qualifiedName :=
    required_ofEntries (.text f.qualifiedName) (by simp [← hentries]) rfl
  have hreceiver : (Record.ofEntries entries).optional "receiver" (TypeRef.ofJson .direct) =
      .ok f.receiver? :=
    optional_ofEntries TypeRef.toJson (by simp [← hentries, List.lookup_cons])
      fun τ _ => ⟨τ.toJson_ne_null, τ.ofJson_toJson .direct⟩
  simp only [LibraryFunction.ofJson, hvalue, record_of_sublist hkeys (by decide), hname,
    hreceiver, bind, Except.bind]
  rfl

/-- **A library is read back.** -/
theorem Library.ofJson_toJson (l : Library) : Library.ofJson l.toJson = .ok l := by
  have htypes : Value.asList LibraryType.ofJson (.array (l.types.map LibraryType.toJson)) =
      .ok l.types := asList_map fun τ _ => τ.ofJson_toJson
  have hfunctions : Value.asList LibraryFunction.ofJson
      (.array (l.functions.map LibraryFunction.toJson)) = .ok l.functions :=
    asList_map fun f _ => f.ofJson_toJson
  rw [Library.ofJson, Library.toJson, record_of_sublist]
  case hkeys => exact List.Sublist.refl _
  case hnames => decide
  simp [Record.orElse, Record.ofEntries, List.lookup_cons, htypes, hfunctions, bind, Except.bind,
    pure, Except.pure]

/-! ## 7. Only storable trees are read -/

theorem Span.storable_of_ofJson {v : Value} {s : Span} (h : Span.ofJson v = .ok s) :
    s.Storable := by
  have hlt : ∀ v n, Value.asNat wordBound v = .ok n → n < wordBound := fun _ _ h => lt_of_asNat h
  unfold Span.ofJson at h
  obtain ⟨r, -, h⟩ := bind_eq_ok h
  obtain ⟨start, hstart, h⟩ := bind_eq_ok h
  obtain ⟨stop, hstop, h⟩ := bind_eq_ok h
  obtain ⟨startLine, hstartLine, h⟩ := bind_eq_ok h
  obtain ⟨stopLine, hstopLine, h⟩ := bind_eq_ok h
  obtain ⟨startColumn, hstartColumn, h⟩ := bind_eq_ok h
  obtain ⟨stopColumn, hstopColumn, h⟩ := bind_eq_ok h
  cases h
  exact ⟨of_required hlt hstart, of_required hlt hstop, of_required hlt hstartLine,
    of_required hlt hstopLine, of_required hlt hstartColumn, of_required hlt hstopColumn⟩

theorem Span.storable_default : ({} : Span).Storable := by
  constructor <;> decide

theorem Node.storable_of_ofJson {v : Value} {n : Node} (h : Node.ofJson v = .ok n) :
    n.Storable := by
  have hlt : ∀ v n, Value.asNat placeBound v = .ok n → n < placeBound := fun _ _ h => lt_of_asNat h
  unfold Node.ofJson at h
  obtain ⟨r, -, h⟩ := bind_eq_ok h
  obtain ⟨kind, -, h⟩ := bind_eq_ok h
  obtain ⟨parent?, hparent, h⟩ := bind_eq_ok h
  obtain ⟨children, hchildren, h⟩ := bind_eq_ok h
  obtain ⟨span, hspan, h⟩ := bind_eq_ok h
  cases h
  exact ⟨of_orElse (fun _ _ => of_asOption hlt) (by simp) hparent,
    of_orElse (fun _ _ => of_asList hlt) (by simp) hchildren,
    of_orElse (fun _ _ => Span.storable_of_ofJson) Span.storable_default hspan⟩

/-- **The numbers of every tree that is read fit.** -/
theorem Tree.storable_of_ofJson {v : Value} {t : Tree} (h : Tree.ofJson v = .ok t) :
    t.Storable := by
  unfold Tree.ofJson at h
  obtain ⟨r, -, h⟩ := bind_eq_ok h
  obtain ⟨path?, -, h⟩ := bind_eq_ok h
  obtain ⟨language, -, h⟩ := bind_eq_ok h
  obtain ⟨nodes, hnodes, h⟩ := bind_eq_ok h
  obtain ⟨regions, hregions, h⟩ := bind_eq_ok h
  cases h
  exact ⟨of_required (fun _ _ => of_asList fun _ _ => Node.storable_of_ofJson) hnodes,
    of_orElse (fun _ _ => of_asList fun _ _ => Span.storable_of_ofJson) (by simp) hregions⟩

/-! ## 8. Written values are plain -/

section Plain

variable {α : Type} {encode : α → Value}

theorem isPlain_array_map {as : List α} (has : ∀ a ∈ as, (encode a).IsPlain) :
    (Value.array (as.map encode)).IsPlain := by
  rw [Value.IsPlain, itemsPlain_iff]
  simpa using has

theorem entriesPlain_append {es fs : List (String × Value)} :
    EntriesPlain (es ++ fs) ↔ EntriesPlain es ∧ EntriesPlain fs := by
  simp only [entriesPlain_iff, List.forall_mem_append]

theorem entriesPlain_entryIfSome {key : String} {a? : Option α}
    (ha : ∀ a ∈ a?, (encode a).IsPlain) : EntriesPlain (entryIfSome key encode a?) := by
  cases a? with
  | none => trivial
  | some a => exact ⟨ha a rfl, trivial⟩

theorem entriesPlain_entryIfAny {key : String} {as : List α}
    (has : ∀ a ∈ as, (encode a).IsPlain) : EntriesPlain (entryIfAny key encode as) := by
  cases as with
  | nil => trivial
  | cons a as => exact ⟨isPlain_array_map has, trivial⟩

end Plain

theorem TypeRef.isPlain_toJson (τ : TypeRef) : τ.toJson.IsPlain := by
  cases τ <;> simp [TypeRef.toJson, Value.IsPlain, EntriesPlain]

theorem Span.isPlain_toJson (s : Span) : s.toJson.IsPlain := by
  simp [Span.toJson, Value.nat, Value.IsPlain, EntriesPlain]

theorem Kind.isPlain_toJson (k : Kind) : k.toJson.IsPlain := by
  have htexts : ∀ ss, (Value.texts ss).IsPlain :=
    fun ss => isPlain_array_map (by simp [Value.IsPlain])
  rw [Kind.toJson, Value.IsPlain, EntriesPlain]
  refine ⟨trivial, ?_⟩
  cases k with
  | file package? => exact entriesPlain_entryIfSome (by simp [Value.IsPlain])
  | importing i =>
    have halias : EntriesPlain (entryIfSome "alias" Value.text i.alias?) :=
      entriesPlain_entryIfSome (by simp [Value.IsPlain])
    simp [Kind.entries, Import.entries, entriesPlain_append, EntriesPlain, Value.IsPlain, halias]
  | function h =>
    have hreceiver : EntriesPlain (entryIfSome "receiver" TypeRef.toJson h.receiver?) :=
      entriesPlain_entryIfSome fun τ _ => τ.isPlain_toJson
    simp [Kind.entries, FunctionHead.entries, EntriesPlain, Value.IsPlain, hreceiver]
  | _ => simp [Kind.entries, ClassHead.entries, EntriesPlain, Value.IsPlain, htexts]

theorem Node.isPlain_toJson (n : Node) : n.toJson.IsPlain := by
  have hparent : EntriesPlain (entryIfSome "parent" Value.nat n.parent?) :=
    entriesPlain_entryIfSome (by simp [Value.nat, Value.IsPlain])
  have hchildren : EntriesPlain (entryIfAny "children" Value.nat n.children) :=
    entriesPlain_entryIfAny (by simp [Value.nat, Value.IsPlain])
  simp [Node.toJson, Value.IsPlain, entriesPlain_append, EntriesPlain, hparent, hchildren,
    n.kind.isPlain_toJson, n.span.isPlain_toJson]

theorem Tree.isPlain_toJson (t : Tree) : t.toJson.IsPlain := by
  have hpath : EntriesPlain (entryIfSome "path" Value.text t.path?) :=
    entriesPlain_entryIfSome (by simp [Value.IsPlain])
  have hnodes : (Value.array (t.nodes.toList.map Node.toJson)).IsPlain :=
    isPlain_array_map fun n _ => n.isPlain_toJson
  have hregions : EntriesPlain (entryIfAny "error_regions" Span.toJson t.errorRegions) :=
    entriesPlain_entryIfAny fun s _ => s.isPlain_toJson
  simpa [Tree.toJson, Value.IsPlain, entriesPlain_append, EntriesPlain, Language.toJson, hpath,
    hregions] using hnodes

theorem LibraryType.isPlain_toJson (τ : LibraryType) : τ.toJson.IsPlain := by
  have hsupertypes : (Value.texts τ.supertypes).IsPlain :=
    isPlain_array_map (by simp [Value.IsPlain])
  have hmodules : EntriesPlain (entryIfAny "modules" Value.text τ.modules) :=
    entriesPlain_entryIfAny (by simp [Value.IsPlain])
  simp [LibraryType.toJson, Value.IsPlain, EntriesPlain, hsupertypes, hmodules]

theorem LibraryFunction.isPlain_toJson (f : LibraryFunction) : f.toJson.IsPlain := by
  have hreceiver : EntriesPlain (entryIfSome "receiver" TypeRef.toJson f.receiver?) :=
    entriesPlain_entryIfSome fun τ _ => τ.isPlain_toJson
  simp [LibraryFunction.toJson, Value.IsPlain, EntriesPlain, hreceiver]

theorem Library.isPlain_toJson (l : Library) : l.toJson.IsPlain := by
  have htypes : (Value.array (l.types.map LibraryType.toJson)).IsPlain :=
    isPlain_array_map fun τ _ => τ.isPlain_toJson
  have hfunctions : (Value.array (l.functions.map LibraryFunction.toJson)).IsPlain :=
    isPlain_array_map fun f _ => f.isPlain_toJson
  rw [Library.toJson, Value.IsPlain]
  exact ⟨htypes, hfunctions, trivial⟩

/-! ## 9. Reading back -/

/-- **Stored trees and libraries are read back**: every library, and exactly the trees whose
numbers fit, from the value that is written of them and from its text in either layout. -/
theorem stored_read_back (t : Tree) (l : Library) :
    (Tree.ofJson t.toJson = .ok t ↔ t.Storable) ∧
    (t.Storable → ∀ text ∈ [t.toJson.compact, t.toJson.pretty],
      (parse text >>= Tree.ofJson) = .ok t) ∧
    Library.ofJson l.toJson = .ok l ∧
    ∀ text ∈ [l.toJson.compact, l.toJson.pretty], Library.ofText text = .ok l := by
  have hparse : ∀ {v : Value}, v.IsPlain → ∀ text ∈ [v.compact, v.pretty], parse text = .ok v := by
    intro v hv text htext
    rcases List.mem_pair.mp htext with rfl | rfl
    · exact parse_compact hv
    · exact (parse_pretty hv).1
  refine ⟨⟨Tree.storable_of_ofJson, Tree.ofJson_toJson⟩, ?_, l.ofJson_toJson, ?_⟩
  · intro ht text htext
    rw [hparse t.isPlain_toJson text htext]
    exact Tree.ofJson_toJson ht
  · intro text htext
    have hread : (parse text >>= Library.ofJson) = .ok l := by
      rw [hparse l.isPlain_toJson text htext]
      exact l.ofJson_toJson
    rw [Library.ofText, hread]

namespace Example

/-- A stored tree with the largest numbers that fit, of a script with links that lead nowhere. -/
def outermost : Tree where
  path? := some "\"a\\b\n"
  language := .kotlinScript
  nodes := #[
    { kind := .file none, children := [1, 2, Nat.pow 2 32 - 1] },
    { kind := .function { name := "f", receiver? := some (.user "Body<T>") }, parent? := some 0 },
    { kind := .other "type", parent? := some (Nat.pow 2 32 - 1),
      span := { start := 3, stop := Nat.pow 2 64 - 1, stopLine := 2 } }]
  errorRegions := [{ startColumn := Nat.pow 2 64 - 1 }]

/-- The tree with the largest numbers is read back, and so are the declarations of the
framework. -/
theorem outermost_read_back :
    outermost.Storable ∧ Tree.ofJson outermost.toJson = .ok outermost ∧
    (parse outermost.toJson.compact >>= Tree.ofJson) = .ok outermost ∧
    Library.ofText Library.framework.toJson.pretty = .ok .framework := by
  have hfits : outermost.Storable := by decide +kernel
  obtain ⟨hvalue, htext, -, hlibrary⟩ := stored_read_back outermost .framework
  exact ⟨hfits, hvalue.mpr hfits, htext hfits _ (by simp), hlibrary _ (by simp)⟩

end Example

end SpecOutline
