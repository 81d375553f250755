import Generics.Proofs.AcceptedBases
import Generics.Proofs.ScopedNames
import Generics.Proofs.TakingApart

/-!
# Parameters with one name

The parameters of a type come behind those of the types around it, and a name in its scope is
looked up from the front.  So where a type and one around it have parameters of one name, the
name means the outer one, and the type has no name for its own.

## Main definitions

* `Catalog.Hidden` — a type around another one declares a parameter of some name.
* `Catalog.BindsOwn` — names of own parameters are resolved to own parameters.

## Main results

* `WellNested.mem_inherited_iff` — the inherited parameters are those of the types around.
* `WellNested.resolveIn_eq_own_iff`, `WellNested.exists_resolveIn_eq_inherited` — which
  parameter a name means.
* `bindsOwn_iff` — the same for all names in a type name.
* `resolveIn_own_parameter` — which own parameters are usable in the scope of a type.
-/

namespace Generics

namespace Catalog

open Descriptor Generics.TypeName

variable {c : Catalog} {id : DefId}

/-! ### Where parameters come from -/

/-- One of the types around `id` declares a parameter with this name. -/
def Hidden (c : Catalog) (id : DefId) (name : String) : Prop :=
  ∃ outer ∈ c.enclosing id, outer ≠ id ∧ name ∈ (c.definition outer).ownParams

instance (c : Catalog) (id : DefId) (name : String) : Decidable (c.Hidden id name) :=
  inferInstanceAs (Decidable (∃ outer ∈ c.enclosing id, _ ∧ _))

/-- Every parameter is declared with a level. -/
theorem WellNested.mem_params_iff (h : c.WellNested) {name : String} :
    name ∈ (c.definition id).params ↔
      ∃ level ∈ c.enclosing id, name ∈ (c.definition level).ownParams := by
  rw [← h.flatten_ownParams id, ← List.flatMap_def, List.mem_flatMap]

/-- The inherited parameters are those that the types around declare. -/
theorem WellNested.mem_inherited_iff (h : c.WellNested) {name : String} :
    name ∈ (c.definition id).params.take (c.definition id).inherited ↔ c.Hidden id name := by
  unfold Hidden
  cases hd : (c.definition id).declaring with
  | none =>
    rw [enclosing_of_declaring_eq_none hd, h.inherited_outermost hd]
    simp
  | some outer =>
    have hne : ∀ level ∈ c.enclosing outer, level ≠ id := by
      rintro level hlevel rfl
      exact absurd (h.outer_lt hd) (Nat.not_lt.2 (h.index_le_of_mem_enclosing hlevel))
    rw [h.params_eq_append hd, h.inherited_eq hd, List.take_left, h.mem_params_iff,
      h.enclosing_eq hd]
    constructor
    · rintro ⟨level, hlevel, hname⟩
      exact ⟨level, List.mem_append_left _ hlevel, hne level hlevel, hname⟩
    · rintro ⟨level, hlevel, hlevelne, hname⟩
      rcases List.mem_append.1 hlevel with hlevel | hlevel
      · exact ⟨level, hlevel, hname⟩
      · exact absurd (List.mem_singleton.1 hlevel) hlevelne

/-! ### One name -/

/-- A path alone resolves to a placeholder if it names a parameter. -/
theorem resolveIn_leaf_eq_param_iff {scope : Option DefId} {path : String} {owner : DefId}
    {position : Nat} : c.resolveIn scope (.node path []) = .ok (.param owner position) ↔
      c.param? scope path = some (.param owner position) := by
  rw [resolveIn_leaf]
  cases hparam : c.param? scope path with
  | some ty => simp
  | none => simp [resolvePath_eq_ok_iff]

section Name

variable {name : String} {position : Nat}

/-- In front of an own parameter stand the parameters of the types around, and further own
ones. -/
theorem WellNested.mem_take_iff (h : c.WellNested)
    (own : (c.definition id).inherited ≤ position) :
    name ∈ (c.definition id).params.take position ↔ c.Hidden id name ∨
      name ∈ (c.definition id).ownParams.take (position - (c.definition id).inherited) := by
  obtain ⟨more, rfl⟩ := Nat.exists_eq_add_of_le own
  rw [List.take_add, List.mem_append, h.mem_inherited_iff, Nat.add_sub_cancel_left,
    Definition.ownParams]

/-- The name of an own parameter means this parameter if no type around has one of the name. -/
theorem WellNested.resolveIn_eq_own_iff (h : c.WellNested)
    (distinct : (c.definition id).ownParams.Nodup)
    (own : (c.definition id).inherited ≤ position)
    (named : (c.definition id).params[position]? = some name) :
    c.resolveIn (some id) (.node name []) = .ok (.param id position) ↔ ¬ c.Hidden id name := by
  obtain ⟨more, rfl⟩ := Nat.exists_eq_add_of_le own
  have hown : (c.definition id).ownParams[more]? = some name := by
    rw [Definition.ownParams, List.getElem?_drop]
    exact named
  have hnot : name ∉ (c.definition id).ownParams.take more := by
    rw [List.mem_take_iff_getElem]
    rintro ⟨i, hi, he⟩
    have hlt : i < (c.definition id).ownParams.length := by omega
    have hsame : (c.definition id).ownParams[i]? = (c.definition id).ownParams[more]? := by
      rw [hown, List.getElem?_eq_getElem hlt, he]
    have hi' : i = more := (List.getElem?_inj hlt distinct).1 hsame
    omega
  rw [resolveIn_leaf_eq_param_iff, param?_eq_some_iff, h.mem_take_iff own,
    Nat.add_sub_cancel_left]
  simp [named, hnot]

/-- If a type around has a parameter of the name, the name means the first one, which is
inherited. -/
theorem WellNested.exists_resolveIn_eq_inherited (h : c.WellNested) (hidden : c.Hidden id name) :
    ∃ first < (c.definition id).inherited, (c.definition id).params[first]? = some name ∧
      name ∉ (c.definition id).params.take first ∧
      c.resolveIn (some id) (.node name []) = .ok (.param id first) := by
  have hmem := h.mem_inherited_iff.2 hidden
  have hparam : c.param? (some id) name ≠ none := fun hnone =>
    param?_eq_none_iff.1 hnone (List.take_subset _ _ hmem)
  obtain ⟨ty, hty⟩ := Option.ne_none_iff_exists'.1 hparam
  obtain ⟨first, rfl⟩ := param?_scope hty
  obtain ⟨-, hnamed, hfirst⟩ := param?_eq_some_iff.1 hty
  refine ⟨first, ?_, hnamed, hfirst, resolveIn_leaf_eq_param_iff.2 hty⟩
  by_contra hle
  exact hfirst (List.take_subset_take_left _ (Nat.le_of_not_lt hle) hmem)

end Name

/-! ### Names in a type name -/

/-- Wherever the name of an own parameter of `id` stands alone in a type name, an own parameter
with this name stands in the type. -/
inductive BindsOwn (c : Catalog) (id : DefId) : TypeName → Descriptor → Prop
  | own {path : String} {position : Nat} (own : (c.definition id).inherited ≤ position)
    (named : (c.definition id).params[position]? = some path) :
    BindsOwn c id (.node path []) (.param id position)
  | other {path : String} {ty : Descriptor} (notOwn : path ∉ (c.definition id).ownParams) :
    BindsOwn c id (.node path []) ty
  | applied {path : String} {args : List TypeName} {definition : DefId} {tys : List Descriptor}
    (supplied : args ≠ []) (each : List.Forall₂ (BindsOwn c id) args tys) :
    BindsOwn c id (.node path args) (.generic definition tys)

theorem bindsOwn_leaf_iff (h : c.WellNested) (distinct : (c.definition id).ownParams.Nodup)
    {path : String} {ty : Descriptor} (hty : c.resolveIn (some id) (.node path []) = .ok ty) :
    c.BindsOwn id (.node path []) ty ↔
      (path ∈ (c.definition id).ownParams → ¬ c.Hidden id path) := by
  constructor
  · intro hbinds hpath
    cases hbinds with
    | own own named => exact (h.resolveIn_eq_own_iff distinct own named).1 hty
    | other notOwn => exact absurd hpath notOwn
    | applied supplied each => exact absurd rfl supplied
  · intro hshown
    by_cases hpath : path ∈ (c.definition id).ownParams
    · obtain ⟨more, hmore⟩ := List.mem_iff_getElem?.1 hpath
      rw [Definition.ownParams, List.getElem?_drop] at hmore
      have hown : (c.definition id).inherited ≤ (c.definition id).inherited + more :=
        Nat.le_add_right _ _
      rw [(h.resolveIn_eq_own_iff distinct hown hmore).2 (hshown hpath)] at hty
      cases hty
      exact .own hown hmore
    · exact .other hpath

/-- The arguments of an application are its own, also where it is collapsed. -/
theorem generic_inj {other other' : DefId} {tys tys' : List Descriptor}
    (hlength : tys.length = (c.definition other).params.length)
    (hlengths : tys.length = tys'.length)
    (h : Descriptor.generic other tys = .generic other' tys') : other = other' ∧ tys = tys' := by
  have hdefinition := congrArg Descriptor.definition? h
  rw [definition?_generic, definition?_generic] at hdefinition
  obtain rfl := Option.some.inj hdefinition
  have harguments := congrArg c.arguments h
  rw [arguments_generic hlength, arguments_generic (hlengths ▸ hlength)] at harguments
  exact ⟨rfl, harguments⟩

theorem bindsOwn_application_iff {path : String} {args : List TypeName} (supplied : args ≠ [])
    {other : DefId} {tys : List Descriptor} (hargs : args.length = tys.length)
    (hlength : tys.length = (c.definition other).params.length) :
    c.BindsOwn id (.node path args) (.generic other tys) ↔
      List.Forall₂ (c.BindsOwn id) args tys := by
  refine ⟨fun hbinds => ?_, .applied supplied⟩
  generalize hty : Descriptor.generic other tys = ty at hbinds
  cases hbinds with
  | own own named => exact absurd rfl supplied
  | other notOwn => exact absurd rfl supplied
  | applied supplied each =>
    obtain ⟨-, rfl⟩ := generic_inj hlength (hargs.symm.trans each.length_eq) hty
    exact each

/-- The names of own parameters in a type name mean own parameters if no type around has
parameters of these names. -/
theorem bindsOwn_iff (h : c.WellNested) (distinct : (c.definition id).ownParams.Nodup)
    {name : TypeName} {ty : Descriptor} (hty : c.resolveIn (some id) name = .ok ty) :
    c.BindsOwn id name ty ↔
      ∀ path ∈ name.leaves, path ∈ (c.definition id).ownParams → ¬ c.Hidden id path := by
  refine resolveIn_induction (Q := fun name ty => c.BindsOwn id name ty ↔
    ∀ path ∈ name.leaves, path ∈ (c.definition id).ownParams → ¬ c.Hidden id path) ?_ ?_ ?_ hty
  · intro path owner position hparam _
    rw [leaves_leaf, List.forall_mem_singleton]
    exact bindsOwn_leaf_iff h distinct (resolveIn_leaf_eq_param_iff.2 hparam)
  · intro path other hparam hother
    have hresolve : c.resolveIn (some id) (.node path []) = .ok (.named other) := by
      rw [resolveIn_leaf, hparam]
      exact resolvePath_eq_ok_iff.2 ⟨other, hother, rfl⟩
    rw [leaves_leaf, List.forall_mem_singleton]
    exact bindsOwn_leaf_iff h distinct hresolve
  · intro path args other tys _ hgeneric hlength each
    have hargs : args ≠ [] :=
      Definition.ne_nil_of_isGeneric hgeneric (each.length_eq.trans hlength)
    rw [bindsOwn_application_iff hargs each.length_eq hlength, leaves_application path hargs,
      List.forall_mem_flatMap]
    exact each.forall₂_iff

/-! ### Own parameters -/

/-- In the scope of a type whose own parameters have different names, the name of an own
parameter means this parameter if and only if no type around has a parameter of that name;
otherwise it means the first such parameter, which is inherited.  So in what a type name
resolves to, an own parameter stands wherever its name does, if and only if none of these
names is one of a type around.  This goes for the written bases of the type, which are kept as
they resolve. -/
theorem resolveIn_own_parameter (built : c.Reachable)
    (distinct : (c.definition id).ownParams.Nodup) :
    (∀ position name, (c.definition id).inherited ≤ position →
      (c.definition id).params[position]? = some name →
        (c.resolveIn (some id) (.node name []) = .ok (.param id position) ↔
          ¬ c.Hidden id name) ∧
        (c.Hidden id name → ∃ first < (c.definition id).inherited,
          (c.definition id).params[first]? = some name ∧
          name ∉ (c.definition id).params.take first ∧
          c.resolveIn (some id) (.node name []) = .ok (.param id first))) ∧
    (∀ name ty, c.resolveIn (some id) name = .ok ty → (c.BindsOwn id name ty ↔
      ∀ path ∈ name.leaves, path ∈ (c.definition id).ownParams → ¬ c.Hidden id path)) ∧
    ∀ text c', c.Declares id → c.setWrittenBase id text = .ok c' →
      ∃ name base, TypeName.read text = .ok name ∧ c.resolveIn (some id) name = .ok base ∧
        (c'.definition id).base = some base := by
  have h : c.WellNested := built.wellNested
  refine ⟨fun position name own named => ⟨?_, ?_⟩, fun name ty hty => ?_, ?_⟩
  · exact h.resolveIn_eq_own_iff distinct own named
  · exact h.exists_resolveIn_eq_inherited
  · exact bindsOwn_iff h distinct hty
  · intro text c' declared hset
    obtain ⟨name, base, hread, hresolve, hset⟩ := setWrittenBase_eq_ok hset
    obtain ⟨-, rfl⟩ := setBase_eq_ok hset
    refine ⟨name, base, hread, hresolve, ?_⟩
    rw [definition_withBase c declared, if_pos rfl]

/-- Of the parameters of ``Inner`2`` the first one is hidden by that of ``Outer`1``, the second one
is not. -/
theorem resolveIn_own_parameter_inner :
    let document : Json := .object [("types", .array
      [.object [("name", .string "Outer"),
        ("nested", .array [.object [("name", .string "Inner"),
          ("params", .array [.string "T", .string "U"])]]),
        ("params", .array [.string "T"])],
       .object [("name", .string "Seq"), ("params", .array [.string "T"])]])]
    let inner : DefId := ⟨18⟩
    let name : TypeName := .node "Seq`1" [.node "U" []]
    let base : Descriptor := .constructed ⟨19⟩ [.param inner 2]
    ∃ c, ofJson document = .ok c ∧ (c.definition inner).ownParams = ["T", "U"] ∧
      c.resolveIn (some inner) (.node "U" []) = .ok (.param inner 2) ∧
      c.resolveIn (some inner) (.node "T" []) ≠ .ok (.param inner 1) ∧
      (∃ first < 1, c.resolveIn (some inner) (.node "T" []) = .ok (.param inner first)) ∧
      c.resolveIn (some inner) name = .ok base ∧ c.BindsOwn inner name base := by
  intro document inner name base
  obtain ⟨c, loaded, hown, hinherited, ⟨hfirst, hhidden⟩, ⟨hsecond, hshown⟩, hleaves, hbase⟩ :=
    exists_ofJson_eq_ok document (P := fun c =>
      (c.definition inner).ownParams = ["T", "U"] ∧ (c.definition inner).inherited = 1 ∧
      ((c.definition inner).params[1]? = some "T" ∧ c.Hidden inner "T") ∧
      ((c.definition inner).params[2]? = some "U" ∧ ¬ c.Hidden inner "U") ∧
      name.leaves = ["U"] ∧
      (c.resolveIn (some inner) name).toOption = some base) (by decide +kernel)
  have distinct : (c.definition inner).ownParams.Nodup := by rw [hown]; decide
  obtain ⟨hname, hall, -⟩ := resolveIn_own_parameter (reachable_ofJson loaded) distinct
  obtain ⟨hiff, hinstead⟩ := hname 1 "T" (by rw [hinherited]) hfirst
  obtain ⟨first, hlt, -, -, hresolve⟩ := hinstead hhidden
  have hbase : c.resolveIn (some inner) name = .ok base := Except.toOption_eq_some.1 hbase
  refine ⟨c, loaded, hown, ?_, fun h => hiff.1 h hhidden, ⟨first, ?_, hresolve⟩, hbase, ?_⟩
  · exact (hname 2 "U" (by rw [hinherited]; decide) hsecond).1.2 hshown
  · rwa [hinherited] at hlt
  · refine (hall name base hbase).2 fun path hpath _ => ?_
    rw [hleaves, List.mem_singleton] at hpath
    rwa [hpath]

/-- A type inside another one has a parameter `T` of its own, but `T` means that of the other
one, also in its written base, whose argument is then the first argument of the type and not
the second. -/
theorem base_over_inherited_parameter :
    let document : Json := .object [("types", .array
      [.object [("name", .string "Seq"), ("params", .array [.string "T"])],
       .object [("name", .string "Outer"), ("namespace", .string "N"),
        ("nested", .array [.object [("base", .string "Seq`1[T]"), ("name", .string "Inner"),
          ("params", .array [.string "T"])]]),
        ("params", .array [.string "T"])]])]
    let inner : DefId := ⟨19⟩
    let number : Descriptor := .named Builtin.int32.id
    let text : Descriptor := .named Builtin.string.id
    ∃ c, ofJson document = .ok c ∧ (c.definition inner).ownParams = ["T"] ∧
      (c.definition inner).inherited = 1 ∧
      c.resolveIn (some inner) (.node "T" []) = .ok (.param inner 0) ∧
      (c.definition inner).base = some (.constructed ⟨17⟩ [.param inner 0]) ∧
      c.baseType (.constructed inner [number, text]) = some (.constructed ⟨17⟩ [number]) := by
  intro document inner number text
  obtain ⟨c, loaded, hown, hinherited, hname, hbase⟩ :=
    exists_ofJson_eq_ok document (P := fun c => (c.definition inner).ownParams = ["T"] ∧
      (c.definition inner).inherited = 1 ∧
      (c.resolveIn (some inner) (.node "T" [])).toOption = some (.param inner 0) ∧
      (c.definition inner).base = some (.constructed ⟨17⟩ [.param inner 0]) ∧
      c.baseType (.constructed inner [number, text]) =
        some (.constructed ⟨17⟩ [number])) (by decide +kernel)
  exact ⟨c, loaded, hown, hinherited, Except.toOption_eq_some.1 hname, hbase⟩

end Catalog

end Generics
