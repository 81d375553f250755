import Generics.Proofs.Resolving

/-!
# Paths that can be read

A path is put together from a namespace and declared names, and these may be any texts.  A
reader of type names stops at blanks, brackets and commas, and does not begin without a
character.  So the path of a definition leads back to the definition if none of these stand
in it; if one does, the path is not read, or it is read as the name of something else.

## Main definitions

* `TypeName.IsPlain` — a text that a reader of paths does not stop in.
* `Catalog.PlainPath` — the namespace and the names in a path are such texts.

## Main results

* `WellNested.isPath_path_iff` — a path is one for a reader if its texts are plain.
* `Reachable.resolve_path_iff` — these are the paths that lead back to their definitions.
* `Reachable.not_mentioned` — no text resolves to a type with another definition in it.
* `resolve_path_iff_of_ofJson` — so it is with every definition of a loaded catalog.
-/

namespace Generics

/-! ### Plain texts -/

namespace TypeName

/-- Every character of the text can stand in a path. -/
def IsPlain (text : String) : Prop :=
  ∀ ch ∈ text.toList, isPathChar ch = true

instance : DecidablePred IsPlain := fun text =>
  decidable_of_iff (text.toList.all isPathChar = true) List.all_eq_true

theorem isPlain_append {s t : String} : IsPlain (s ++ t) ↔ IsPlain s ∧ IsPlain t := by
  simp only [IsPlain, String.toList_append, List.forall_mem_append]

theorem isPath_toList_iff {text : String} :
    IsPath text.toList ↔ text ≠ "" ∧ IsPlain text := by
  rw [isPath_iff, ne_eq, String.toList_eq_nil_iff]
  rfl

/-- A text with plain separators is plain if what stands between them is. -/
theorem isPlain_intercalate {separator : String} (h : IsPlain separator) (texts : List String) :
    IsPlain (separator.intercalate texts) ↔ ∀ text ∈ texts, IsPlain text := by
  induction texts with
  | nil => simp [IsPlain]
  | cons text texts ih =>
    cases texts with
    | nil => simp
    | cons next others =>
      rw [String.intercalate_cons_cons, isPlain_append, isPlain_append, ih,
        List.forall_mem_cons (p := IsPlain)]
      simp [h]

end TypeName

namespace Catalog

open Descriptor Generics.TypeName

variable {c : Catalog} {id : DefId}

/-! ### Paths of definitions -/

/-- A reader of type names gets through the path of the definition: the namespace, if there
is one, and the names from the outermost type inwards are plain, and there is something to
read. -/
@[mk_iff]
structure PlainPath (c : Catalog) (id : DefId) : Prop where
  space : ∀ space ∈ (c.definition (c.outermost id)).nameSpace, IsPlain space
  names : ∀ level ∈ c.enclosing id, IsPlain (c.definition level).name
  /-- Only the name of a type that stands alone, in no namespace, is a path by itself. -/
  nonempty : (c.definition id).declaring = none → (c.definition id).nameSpace = none →
    (c.definition id).name ≠ ""

instance (c : Catalog) (id : DefId) : Decidable (c.PlainPath id) :=
  decidable_of_iff' _ (plainPath_iff c id)

/-- The separators of a path are plain, so it is plain if its texts are. -/
theorem isPlain_path (c : Catalog) (id : DefId) : IsPlain (c.path id) ↔
    (∀ space ∈ (c.definition (c.outermost id)).nameSpace, IsPlain space) ∧
      ∀ level ∈ c.enclosing id, IsPlain (c.definition level).name := by
  have hplus : IsPlain "+" := by decide
  have hpoint : IsPlain "." := by decide
  have hnames : IsPlain ("+".intercalate ((c.enclosing id).map fun level =>
      (c.definition level).name)) ↔
        ∀ level ∈ c.enclosing id, IsPlain (c.definition level).name := by
    rw [isPlain_intercalate hplus, List.forall_mem_map]
  unfold path
  cases (c.definition (c.outermost id)).nameSpace with
  | none => simp [hnames]
  | some space => simp [isPlain_append, hpoint, hnames]

theorem WellNested.path_eq_empty_iff (h : c.WellNested) : c.path id = "" ↔
    (c.definition id).declaring = none ∧ (c.definition id).nameSpace = none ∧
      (c.definition id).name = "" := by
  cases hd : (c.definition id).declaring with
  | some outer =>
    rw [h.path_eq hd]
    simp
  | none =>
    rw [path_of_declaring_eq_none hd]
    cases (c.definition id).nameSpace <;> simp [outermostPath]

theorem WellNested.isPath_path_iff (h : c.WellNested) :
    IsPath (c.path id).toList ↔ c.PlainPath id := by
  rw [isPath_toList_iff, isPlain_path, plainPath_iff, ne_eq, h.path_eq_empty_iff]
  simp only [not_and, ne_eq]
  tauto

/-! ### Back from a path -/

/-- The definitions that can be found are those with paths that can be read. -/
theorem WellNested.findable_iff (h : c.WellNested) (hid : c.Declares id) :
    c.Findable id ↔ c.PlainPath id :=
  ⟨fun hfindable => h.isPath_path_iff.1 hfindable.readable,
    fun hpath => ⟨hid, h.isPath_path_iff.2 hpath⟩⟩

section Built

variable (built : c.Reachable) (hid : c.Declares id)

include built hid

/-- No text resolves to a type in which there is a definition with a path that cannot be
read. -/
theorem Reachable.not_mentioned (hpath : ¬ c.PlainPath id) {text : String} {ty : Descriptor}
    (hty : c.resolve text = .ok ty) : ∀ part ∈ ty.parts, part.definition? ≠ some id := by
  intro part hpart hdefinition
  have hfindable : c.Findable id :=
    built.indexed.allFindable_resolve hty part hpart id hdefinition
  exact hpath ((built.wellNested.findable_iff hid).1 hfindable)

/-- A path leads back to its definition if and only if it can be read. -/
theorem Reachable.resolve_path_iff :
    c.resolve (c.path id) = .ok (.named id) ↔ c.PlainPath id := by
  rw [← built.wellNested.findable_iff hid]
  constructor
  · exact fun hresolve => allFindable_named.1 (built.indexed.allFindable_resolve hresolve)
  · intro hfindable
    have hfits : c.ArityCorrect (.named id) := throughout_named.2 trivial
    have hname : c.qualifiedName? (.named id) = some (c.path id) := by rw [qualifiedName?]
    exact built.indexed.resolve_qualifiedName? hfits (allFindable_named.2 hfindable) hname

end Built

/-- What is listed as declared inside a type is a declared definition. -/
theorem Indexed.exists_of_mem_nestedTypes (h : c.Indexed) {filter : NestedFilter}
    {ty inner : Descriptor} (hinner : inner ∈ c.nestedTypes filter ty) :
    ∃ id, inner = .named id ∧ c.Declares id := by
  unfold nestedTypes at hinner
  cases hd : ty.definition? with
  | none =>
    rw [hd] at hinner
    cases hinner
  | some outer =>
    rw [hd] at hinner
    obtain ⟨id, hid, rfl⟩ := List.mem_map.1 hinner
    exact ⟨id, rfl, h.declares_nested (List.mem_filter.1 hid).1⟩

/-- In a loaded catalog, the qualified name of a definition is its path, and it resolves to
the definition again if and only if it can be read: if the namespace and the names in it are
made of characters that can stand in a path, and the path is not empty.  A definition with
another path is in no type that a text resolves to.  All this holds of the definitions that
are listed inside others too. -/
theorem resolve_path_iff_of_ofJson {document : Json} (loaded : ofJson document = .ok c) :
    (∀ id, c.Declares id → c.qualifiedName? (.named id) = some (c.path id) ∧
      (c.resolve (c.path id) = .ok (.named id) ↔ c.PlainPath id) ∧
      (¬ c.PlainPath id → ∀ text ty, c.resolve text = .ok ty →
        ∀ part ∈ ty.parts, part.definition? ≠ some id)) ∧
    ∀ filter ty, ∀ inner ∈ c.nestedTypes filter ty, ∃ id, inner = .named id ∧ c.Declares id := by
  have built : c.Reachable := reachable_ofJson loaded
  refine ⟨fun id hid => ⟨?_, built.resolve_path_iff hid, ?_⟩, ?_⟩
  · rw [qualifiedName?]
  · exact fun hpath text ty hty => built.not_mentioned hid hpath hty
  · exact fun filter ty inner hinner => built.indexed.exists_of_mem_nestedTypes hinner

/-- The path of the type inside ``Map`2`` leads back to it.  The path of the third type is read
as `System.Int32` with an assembly behind it, so the type is never found. -/
theorem resolve_path_iff_of_ofJson_assembly :
    let document : Json := .object [("types", .array
      [.object [("name", .string "Map"),
        ("nested", .array [.object [("name", .string "Entry"), ("params", .array [.string "K"])]]),
        ("params", .array [.string "K", .string "V"])],
       .object [("name", .string "Int32, lib"), ("namespace", .string "System")]])]
    ∃ c, ofJson document = .ok c ∧
      c.nestedTypes .all (.named ⟨17⟩) = [.named ⟨18⟩] ∧
      c.resolve "Map`2+Entry`1" = .ok (.named ⟨18⟩) ∧
      c.qualifiedName? (.named ⟨19⟩) = some "System.Int32, lib" ∧
      c.resolve "System.Int32, lib" = .ok (.named Builtin.int32.id) ∧
      ∀ text, c.resolve text ≠ .ok (.named ⟨19⟩) := by
  intro document
  obtain ⟨c, loaded, ⟨hinner, hplain, hpath⟩, ⟨hother, hnot, hpath'⟩, hnested, hnumber⟩ :=
    exists_ofJson_eq_ok document (P := fun c =>
      (c.Declares ⟨18⟩ ∧ c.PlainPath ⟨18⟩ ∧ c.path ⟨18⟩ = "Map`2+Entry`1") ∧
      (c.Declares ⟨19⟩ ∧ ¬ c.PlainPath ⟨19⟩ ∧ c.path ⟨19⟩ = "System.Int32, lib") ∧
      c.nestedTypes .all (.named ⟨17⟩) = [.named ⟨18⟩] ∧
      (c.resolve "System.Int32, lib").toOption = some (.named Builtin.int32.id)) (by decide +kernel)
  obtain ⟨hall, -⟩ := resolve_path_iff_of_ofJson loaded
  obtain ⟨-, hback, -⟩ := hall ⟨18⟩ hinner
  obtain ⟨hname, -, hnever⟩ := hall ⟨19⟩ hother
  refine ⟨c, loaded, hnested, ?_, ?_, Except.toOption_eq_some.1 hnumber, fun text htext => ?_⟩
  · rw [← hpath]
    exact hback.2 hplain
  · rw [hname, hpath']
  · exact hnever hnot text _ htext _ (mem_parts_self _) rfl

/-- A type inside another one has a qualified name with a blank in it; resolving this name
stops at the blank. -/
theorem path_with_blank_unresolved :
    let document : Json := .object [("types", .array
      [.object [("name", .string "Outer"), ("namespace", .string "N"),
        ("nested", .array [.object [("name", .string "In ner")]])]])]
    let text := "N.Outer+In ner"
    ∃ c, ofJson document = .ok c ∧ c.nestedTypes .all (.named ⟨17⟩) = [.named ⟨18⟩] ∧
      c.qualifiedName? (.named ⟨18⟩) = some text ∧
      c.resolve text = .error (.malformed ⟨text, ⟨['n', 'e', 'r'], .eof⟩⟩) := by
  intro document text
  obtain ⟨c, loaded, hnested, hname, herror⟩ := exists_ofJson_eq_ok document (P := fun c =>
    c.nestedTypes .all (.named ⟨17⟩) = [.named ⟨18⟩] ∧
    c.qualifiedName? (.named ⟨18⟩) = some text ∧
    c.resolve text = .error (.malformed ⟨text, ⟨['n', 'e', 'r'], .eof⟩⟩)) (by decide +kernel)
  exact ⟨c, loaded, hnested, hname, herror⟩

end Catalog

end Generics
