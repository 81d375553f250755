import Mathlib.Data.List.Chain
import Generics.Proofs.Index
import Generics.Proofs.Loading
import Generics.Proofs.Wording

/-!
# The arguments of each level

A type has one list of arguments, and its full source name has one level for each type around
its definition.  Which arguments a level shows is read from the definition of the level, whose
numbers were written when this definition was declared, and a part of the list that would reach
behind its end counts as no arguments.  In a catalog that was built by declarations this does
not happen: the part of a level begins where that of the level outside it ends, and the last one
ends with the list.

## Main definitions

* `Catalog.IsNest` — the levels of a type, outermost first, without a bound on their number.
* `Catalog.ownArguments` — the arguments that a level shows.
* `Catalog.ShowsPart`, `Catalog.PartsMeet` — how these lie in the list of all arguments.

## Main results

* `WellNested.isNest_iff` — a type has exactly one list of levels, and it is the one that names
  and paths are written from.
* `WellNested.partsMeet`, `WellNested.showsPart` — the parts of levels next to each other meet,
  and they lie inside the list of arguments.
* `arguments_by_levels` — **every argument is shown once, in order, at the level that declares
  its parameter.**
-/

namespace Generics

namespace Definition

variable {α : Type} {d : Definition} {args : List α}

/-- Inside the list, the arguments of a definition are those between its bounds. -/
theorem ownSlice_eq_extract (h : d.params.length ≤ args.length) :
    d.ownSlice args = args.extract d.inherited d.params.length := by
  rw [ownSlice, if_pos h, List.drop_take]

/-- There they are as many as the parameters that the definition declares itself. -/
theorem length_ownSlice (h : d.params.length ≤ args.length) :
    (d.ownSlice args).length = d.ownParams.length := by
  rw [ownSlice, if_pos h, ownParams, List.length_drop, List.length_drop, List.length_take,
    Nat.min_eq_left h]

end Definition

namespace Catalog

open Descriptor

variable {c : Catalog} {id : DefId}

/-! ### The levels of a type -/

/-- The levels of a type: the first is not declared inside another one, each further one is
declared in the one before it, and the last is the type itself. -/
structure IsNest (c : Catalog) (id : DefId) (levels : List DefId) : Prop where
  outermost : ∃ level, levels.head? = some level ∧ (c.definition level).declaring = none
  innermost : levels.getLast? = some id
  linked : levels.IsChain fun outer inner => (c.definition inner).declaring = some outer

theorem isNest_singleton (h : (c.definition id).declaring = none) : c.IsNest id [id] where
  outermost := ⟨id, rfl, h⟩
  innermost := rfl
  linked := .singleton id

/-- A level behind those of the type that it is declared in. -/
theorem IsNest.concat {outer : DefId} {levels : List DefId} (h : c.IsNest outer levels)
    (hd : (c.definition id).declaring = some outer) : c.IsNest id (levels ++ [id]) where
  outermost := by
    obtain ⟨level, hhead, hnone⟩ := h.outermost
    exact ⟨level, by rw [List.head?_append, hhead]; rfl, hnone⟩
  innermost := List.getLast?_concat
  linked := by
    refine List.isChain_append.2 ⟨h.linked, .singleton id, fun x hx y hy => ?_⟩
    rw [h.innermost] at hx
    cases hx
    cases hy
    exact hd

/-- The last level stands alone, or in front of it are the levels of the type that it is
declared in. -/
theorem IsNest.cases_last {levels : List DefId} (h : c.IsNest id levels) :
    (levels = [id] ∧ (c.definition id).declaring = none) ∨
      ∃ outer before, levels = before ++ [id] ∧ (c.definition id).declaring = some outer ∧
        c.IsNest outer before := by
  obtain ⟨before, rfl⟩ := List.getLast?_eq_some_iff.1 h.innermost
  obtain ⟨level, hhead, hnone⟩ := h.outermost
  cases hlast : before.getLast? with
  | none =>
    rw [List.getLast?_eq_none_iff] at hlast
    subst hlast
    cases hhead
    exact Or.inl ⟨rfl, hnone⟩
  | some outer =>
    obtain ⟨hbefore, -, hlink⟩ := List.isChain_append.1 h.linked
    have hne : before ≠ [] := by
      rintro rfl
      cases hlast
    rw [List.head?_append_of_ne_nil _ hne] at hhead
    exact Or.inr ⟨outer, before, rfl, hlink outer hlast id rfl, ⟨level, hhead, hnone⟩, hlast,
      hbefore⟩

/-- A type has one list of levels only. -/
theorem WellNested.isNest_iff (h : c.WellNested) {levels : List DefId} :
    c.IsNest id levels ↔ levels = c.enclosing id := by
  induction id using h.induction generalizing levels with
  | alone id hd =>
    rw [enclosing_of_declaring_eq_none hd]
    constructor
    · intro hnest
      rcases hnest.cases_last with ⟨rfl, -⟩ | ⟨outer, before, -, houter, -⟩
      · rfl
      · rw [hd] at houter
        cases houter
    · rintro rfl
      exact isNest_singleton hd
  | inside id outer hd ih =>
    rw [h.enclosing_eq hd]
    constructor
    · intro hnest
      rcases hnest.cases_last with ⟨-, hnone⟩ | ⟨other, before, rfl, hother, hbefore⟩
      · rw [hd] at hnone
        cases hnone
      · rw [hd] at hother
        cases hother
        rw [ih.1 hbefore]
    · rintro rfl
      exact (ih.2 rfl).concat hd

/-! ### The part of each level -/

/-- A definition inherits some of its parameters, or all of them. -/
theorem WellNested.inherited_le (h : c.WellNested) (id : DefId) :
    (c.definition id).inherited ≤ (c.definition id).params.length := by
  cases hd : (c.definition id).declaring with
  | none => rw [h.inherited_outermost hd]; exact Nat.zero_le _
  | some outer =>
    rw [h.inherited_eq hd, h.params_eq_append hd, List.length_append]
    exact Nat.le_add_right _ _

/-- The part of the first level begins at the beginning, and that of each further level where the
part of the level before it ends. -/
structure PartsMeet (c : Catalog) (levels : List DefId) : Prop where
  first : ∀ level ∈ levels.head?, (c.definition level).inherited = 0
  next : levels.IsChain fun outer inner =>
    (c.definition inner).inherited = (c.definition outer).params.length

theorem WellNested.partsMeet (h : c.WellNested) (id : DefId) : c.PartsMeet (c.enclosing id) := by
  obtain ⟨⟨first, hfirst, hnone⟩, -, hlinked⟩ := h.isNest_iff.2 (Eq.refl (c.enclosing id))
  refine ⟨fun level hlevel => ?_, hlinked.imp fun _ _ hd => h.inherited_eq hd⟩
  rw [hfirst] at hlevel
  cases hlevel
  exact h.inherited_outermost hnone

/-- The arguments that a level of a type shows. -/
def ownArguments (c : Catalog) (ty : Descriptor) (level : DefId) : List Descriptor :=
  (c.definition level).ownSlice (c.arguments ty)

/-- The part of the arguments that a level shows lies inside them, and it has an argument for
each parameter that the level declares itself. -/
structure ShowsPart (c : Catalog) (ty : Descriptor) (level : DefId) : Prop where
  inherited_le : (c.definition level).inherited ≤ (c.definition level).params.length
  params_le : (c.definition level).params.length ≤ (c.arguments ty).length
  eq_extract : c.ownArguments ty level = (c.arguments ty).extract
    (c.definition level).inherited (c.definition level).params.length
  length_eq : (c.ownArguments ty level).length = (c.definition level).ownParams.length

theorem WellNested.showsPart (h : c.WellNested) {ty : Descriptor}
    (hargs : (c.arguments ty).length = (c.definition id).params.length) {level : DefId}
    (hlevel : level ∈ c.enclosing id) : c.ShowsPart ty level := by
  have hle : (c.definition level).params.length ≤ (c.arguments ty).length := by
    rw [hargs]
    exact (h.params_prefix hlevel).length_le
  exact ⟨h.inherited_le level, hle, Definition.ownSlice_eq_extract hle,
    Definition.length_ownSlice hle⟩

/-! ### Names -/

/-- The full name of a type that is not shown otherwise shows every level, and behind each level
the arguments of that level. -/
theorem sourceFullName_eq_levels {ty : Descriptor} (hid : ty.definition? = some id)
    (hb : c.builtin? ty = none) (hne : id ≠ .nullable) :
    c.sourceFullName ty = c.spaceText id ++ ".".intercalate ((c.enclosing id).map fun level =>
      bracketedText (stripArity (c.definition level).name)
        ((c.ownArguments ty level).map c.sourceFullName)) := by
  rw [sourceFullName_eq_written, written_eq_applicationText .full hid hb,
    applicationText_of_not fun hone => hne hone.1, levelsText]
  refine congrArg _ (congrArg _ (List.map_congr_left fun level _ => ?_))
  rw [levelText, Definition.ownSlice_map]
  rfl

/-- An optional value, and the definition of optional values, shows its argument with a question
mark. -/
theorem sourceFullName_eq_optional {ty value : Descriptor} (hid : ty.definition? = some .nullable)
    (hb : c.builtin? ty = none) (hargs : c.arguments ty = [value]) :
    c.sourceFullName ty = c.sourceFullName value ++ "?" := by
  rw [sourceFullName_eq_written, written_eq_applicationText .full hid hb, hargs,
    List.map_singleton, applicationText_nullable, sourceFullName_eq_written]

/-- Let `ty` be a definition, or its application to one argument for each parameter.  The levels
of its name are the types around the definition, from one that stands alone to the definition
itself.  The part of the arguments that each level shows lies inside the list of arguments and
is as long as the list of parameters that the level declares; the parts are all arguments, one
after the other, as the parameters declared with the levels are all parameters.  These parts are
what the full source name shows, where it shows levels and not a keyword or a question mark. -/
theorem arguments_by_levels (built : c.Reachable) {ty : Descriptor}
    (hty : ty = .named id ∨
      ∃ args, ty = .constructed id args ∧ args.length = (c.definition id).params.length) :
    (∀ levels, c.IsNest id levels ↔ levels = c.enclosing id) ∧
    (∀ level ∈ c.enclosing id, c.ShowsPart ty level) ∧ c.PartsMeet (c.enclosing id) ∧
    ((c.enclosing id).map (c.ownArguments ty)).flatten = c.arguments ty ∧
    ((c.enclosing id).map fun level => (c.definition level).ownParams).flatten =
      (c.definition id).params ∧
    (∀ builtin, c.builtin? ty = some builtin →
      c.arguments ty = [] ∧ c.sourceFullName ty = builtin.keyword) ∧
    (id = .nullable → ∃ value, c.arguments ty = [value] ∧
      c.sourceFullName ty = c.sourceFullName value ++ "?") ∧
    (c.builtin? ty = none → id ≠ .nullable →
      c.sourceFullName ty = c.spaceText id ++ ".".intercalate ((c.enclosing id).map fun level =>
        bracketedText (stripArity (c.definition level).name)
          ((c.ownArguments ty level).map c.sourceFullName))) := by
  have h : c.WellNested := built.wellNested
  have hid : ty.definition? = some id := by
    rcases hty with rfl | ⟨args, rfl, -⟩ <;> rfl
  have hargs : (c.arguments ty).length = (c.definition id).params.length := by
    rcases hty with rfl | ⟨args, rfl, hargs⟩
    · exact length_arguments_named c id
    · exact hargs
  refine ⟨fun levels => h.isNest_iff, fun level => h.showsPart hargs, h.partsMeet id,
    h.flatten_ownSlice hargs, h.flatten_ownParams id, ?_, ?_, sourceFullName_eq_levels hid⟩
  · intro builtin hb
    -- only a definition is a built-in type
    rcases hty with rfl | ⟨args, rfl, -⟩
    · refine ⟨?_, written_of_builtin .full hb⟩
      rw [← List.length_eq_zero_iff, hargs, h.params_builtin hb, List.length_nil]
    · cases hb
  · rintro rfl
    have hone : (c.definition .nullable).params.length = 1 := by
      rw [built.keepsSystem.params_nullable]
      rfl
    obtain ⟨value, hvalue⟩ := List.length_eq_one_iff.1 (hargs.trans hone)
    have hb : c.builtin? ty = none := by
      rcases hty with rfl | ⟨args, rfl, -⟩
      · exact h.builtin_eq_none (Definition.isGeneric_iff_pos.2 (by rw [hone]; exact Nat.one_pos))
      · rfl
    exact ⟨value, hvalue, sourceFullName_eq_optional hid hb hvalue⟩

/-- Of four levels one declares two parameters and one declares none. -/
theorem arguments_by_levels_deep :
    let document : Json := .object [("types", .array
      [.object [("name", .string "Parent"), ("namespace", .string "N"),
        ("nested", .array [.object [("name", .string "Nested"),
          ("nested", .array [.object [("name", .string "Plain"),
            ("nested", .array [.object [("name", .string "Inner"),
              ("params", .array [.string "W"])]])]]),
          ("params", .array [.string "U", .string "V"])]]),
        ("params", .array [.string "T"])]])]
    let number : Descriptor := .named Builtin.int32.id
    let text : Descriptor := .named Builtin.string.id
    let truth : Descriptor := .named Builtin.boolean.id
    let args := [number, text, number, truth]
    let ty : Descriptor := .constructed ⟨20⟩ args
    ∃ c, ofJson document = .ok c ∧ args.length = (c.definition ⟨20⟩).params.length ∧
      c.IsNest ⟨20⟩ [⟨17⟩, ⟨18⟩, ⟨19⟩, ⟨20⟩] ∧ c.ShowsPart ty ⟨18⟩ ∧ c.ShowsPart ty ⟨19⟩ ∧
      ([⟨17⟩, ⟨18⟩, ⟨19⟩, ⟨20⟩] : List DefId).map (c.ownArguments ty) =
        [[number], [text, number], [], [truth]] ∧
      (([⟨17⟩, ⟨18⟩, ⟨19⟩, ⟨20⟩] : List DefId).map (c.ownArguments ty)).flatten = args ∧
      c.sourceFullName ty = "global::N.Parent<int>.Nested<string, int>.Plain.Inner<bool>" := by
  intro document number text truth args ty
  obtain ⟨c, loaded, hargs, hlevels, hparts, hbuiltin, htext⟩ :=
    exists_ofJson_eq_ok document (P := fun c =>
      args.length = (c.definition ⟨20⟩).params.length ∧
      c.enclosing ⟨20⟩ = [⟨17⟩, ⟨18⟩, ⟨19⟩, ⟨20⟩] ∧
      (c.enclosing ⟨20⟩).map (c.ownArguments ty) = [[number], [text, number], [], [truth]] ∧
      c.builtin? ty = none ∧
      c.spaceText ⟨20⟩ ++ ".".intercalate ((c.enclosing ⟨20⟩).map fun level =>
        bracketedText (stripArity (c.definition level).name)
          ((c.ownArguments ty level).map c.sourceFullName)) =
        "global::N.Parent<int>.Nested<string, int>.Plain.Inner<bool>") (by decide +kernel)
  have hty : ty = .named ⟨20⟩ ∨
      ∃ args, ty = .constructed ⟨20⟩ args ∧ args.length = (c.definition ⟨20⟩).params.length :=
    Or.inr ⟨args, rfl, hargs⟩
  obtain ⟨hnest, hshows, -, hall, -, -, -, hname⟩ := arguments_by_levels (reachable_ofJson loaded) hty
  have hmem : ∀ level ∈ ([⟨17⟩, ⟨18⟩, ⟨19⟩, ⟨20⟩] : List DefId), c.ShowsPart ty level := by
    rw [← hlevels]
    exact hshows
  refine ⟨c, loaded, hargs, (hnest _).2 hlevels.symm, hmem _ (by decide), hmem _ (by decide), ?_,
    ?_, (hname hbuiltin (by decide)).trans htext⟩
  · rw [← hlevels]
    exact hparts
  · rw [← hlevels]
    exact hall

end Catalog

end Generics
