import Generics.Proofs.Applying
import Generics.Proofs.Requests
import Generics.Proofs.WrittenBases

/-!
# Accepted bases

A base may have free parameters of its own type and of no other.  The check reads them
off the descriptor, and there a generic definition without arguments counts as open
whichever it is, although it stands for its application to its own parameters.  Where
this definition is the one that gets the base, these parameters are the ones that the
base may have.  So beside the bases with parameters of other types, the check refuses
those in which the type stands applied to its own parameters in order.

## Main definitions

* `Catalog.OwnsFree` — the free parameters of a type all belong to one definition.
* `Catalog.AppliedToOwn` — a definition stands in a type applied to its own parameters.
* `TypeName.leaves`, `Catalog.GivesArguments` — names in which every generic type has
  its arguments.

## Main results

* `bindsOnly_iff` — what the check tests.
* `GivesArguments.ownsFree` — which names resolve to types with no other parameters.
* `setBase_decided` — when a base is accepted, and what happens then and otherwise.
-/

namespace Generics

/-- The definition that a placeholder belongs to. -/
def Descriptor.owner? : Descriptor → Option DefId
  | .param owner _ => some owner
  | _ => none

/-- The base and the type in the error about a base with parameters of other types. -/
def LoadError.foreignBase? : LoadError → Option (String × String)
  | .schema (.foreignBase base path) => some (base, path)
  | _ => none

theorem LoadError.foreignBase?_eq_some {e : LoadError} {base path : String} :
    e.foreignBase? = some (base, path) ↔ e = .schema (.foreignBase base path) := by
  unfold foreignBase?
  split
  · simp
  · next hnot => simpa using hnot base path

namespace TypeName

mutual

/-- The paths in a name that have no arguments, from left to right. -/
def leaves : TypeName → List String
  | .node path [] => [path]
  | .node _ (first :: others) => leaves first ++ leavesAll others

/-- The paths without arguments in some names. -/
def leavesAll : List TypeName → List String
  | [] => []
  | name :: names => leaves name ++ leavesAll names

end

theorem leavesAll_eq_flatMap (names : List TypeName) : leavesAll names = names.flatMap leaves := by
  induction names with
  | nil => rfl
  | cons name names ih => rw [leavesAll, ih, List.flatMap_cons]

@[simp] theorem leaves_leaf (path : String) : leaves (.node path []) = [path] := by rw [leaves]

theorem leaves_application (path : String) {args : List TypeName} (h : args ≠ []) :
    leaves (.node path args) = args.flatMap leaves := by
  cases args with
  | nil => exact absurd rfl h
  | cons first others => rw [leaves, leavesAll_eq_flatMap, List.flatMap_cons]

end TypeName

namespace Catalog

open Descriptor

variable {c : Catalog} {id : DefId} {ty : Descriptor}

/-! ### The check -/

/-- The placeholders in the free slots of the type are those of `id`. -/
def OwnsFree (c : Catalog) (id : DefId) (ty : Descriptor) : Prop :=
  ∀ q ∈ c.slotPlaceholders ty, q.owner? = some id

/-- Somewhere in the type the generic definition `id` is applied to its own parameters, in
order, which is kept as the definition alone. -/
def AppliedToOwn (c : Catalog) (id : DefId) (ty : Descriptor) : Prop :=
  (c.definition id).isGeneric = true ∧ .named id ∈ ty.parts

/-- What the check asks of a part. -/
def NodeBound (c : Catalog) (id : DefId) : Descriptor → Prop
  | .named other => (c.definition other).isGeneric = false
  | .param owner _ => owner = id
  | .constructed _ _ => True

instance (c : Catalog) (id : DefId) (ty : Descriptor) : Decidable (c.OwnsFree id ty) :=
  inferInstanceAs (Decidable (∀ q ∈ c.slotPlaceholders ty, q.owner? = some id))

instance (c : Catalog) (id : DefId) (ty : Descriptor) : Decidable (c.AppliedToOwn id ty) :=
  inferInstanceAs (Decidable ((c.definition id).isGeneric = true ∧ .named id ∈ ty.parts))

theorem bindsOnly_iff_throughout : c.bindsOnly id ty = true ↔ ty.Throughout (c.NodeBound id) := by
  induction ty with
  | named other => simp [bindsOnly, NodeBound]
  | param owner position => simp [bindsOnly, NodeBound]
  | constructed other args ih =>
    rw [bindsOnly_constructed, List.all_eq_true, throughout_constructed, NodeBound, true_and]
    exact forall₂_congr ih

theorem ownPlaceholders_of_closed {other : DefId} (h : (c.definition other).isGeneric = false) :
    c.ownPlaceholders (.named other) = [] := by
  have hnone : (c.definition other).params = [] := by simpa [Definition.isGeneric] using h
  rw [ownPlaceholders, hnone, List.length_nil, placeholders_zero]

/-- A part passes if its own placeholders are those of `id`, unless it is `id` itself. -/
theorem nodeBound_iff (part : Descriptor) : c.NodeBound id part ↔
    (∀ q ∈ c.ownPlaceholders part, q.owner? = some id) ∧
      ((c.definition id).isGeneric = true → part ≠ .named id) := by
  cases part with
  | named other =>
    constructor
    · intro hclosed
      refine ⟨by simp [ownPlaceholders_of_closed hclosed], ?_⟩
      rintro hgeneric ⟨⟩
      exact Bool.false_ne_true (hclosed.symm.trans hgeneric)
    · rintro ⟨howns, hnot⟩
      by_contra hnode
      have hgeneric : (c.definition other).isGeneric = true := eq_true_of_ne_false hnode
      -- the first placeholder of `other` belongs to `id`, so `other` is `id`
      have hfirst := howns (.param other 0)
        (mem_placeholders.2 ⟨0, Definition.isGeneric_iff_pos.1 hgeneric, rfl⟩)
      obtain rfl : other = id := Option.some.inj hfirst
      exact hnot hgeneric rfl
  | param owner position => simp [NodeBound, ownPlaceholders, owner?]
  | constructed other args => simp [NodeBound, ownPlaceholders]

/-- The check tests whether the free parameters are those of `id`, and besides whether `id`
itself is applied to them. -/
theorem bindsOnly_iff :
    c.bindsOnly id ty = true ↔ c.OwnsFree id ty ∧ ¬ c.AppliedToOwn id ty := by
  rw [bindsOnly_iff_throughout]
  constructor
  · intro h
    refine ⟨fun q hq => ?_, fun ⟨hgeneric, hpart⟩ => ?_⟩
    · obtain ⟨part, hpart, hq⟩ := List.mem_flatMap.1 hq
      exact ((nodeBound_iff part).1 (h part hpart)).1 q hq
    · exact ((nodeBound_iff _).1 (h _ hpart)).2 hgeneric rfl
  · rintro ⟨howns, hnot⟩ part hpart
    refine (nodeBound_iff part).2 ⟨fun q hq => ?_, ?_⟩
    · exact howns q (List.mem_flatMap.2 ⟨part, hpart, hq⟩)
    · rintro hgeneric rfl
      exact hnot ⟨hgeneric, hpart⟩

/-! ### Written bases -/

theorem ownsFree_param {owner : DefId} {position : Nat} :
    c.OwnsFree id (.param owner position) ↔ owner = id := by
  simp [OwnsFree, owner?]

theorem ownsFree_constructed {other : DefId} {args : List Descriptor} :
    c.OwnsFree id (.constructed other args) ↔ ∀ a ∈ args, c.OwnsFree id a := by
  simp only [OwnsFree, slotPlaceholders_constructed, List.mem_flatMap]
  exact ⟨fun h a ha q hq => h q ⟨a, ha, hq⟩, fun h q ⟨a, ha, hq⟩ => h a ha q hq⟩

/-- The first placeholder is among the arguments of an application that is collapsed. -/
theorem first_mem_of_collapsed {other : DefId} {args : List Descriptor} (hne : args ≠ [])
    (he : args = placeholders other args.length) : .param other 0 ∈ args := by
  rw [he]
  exact mem_placeholders.2 ⟨0, List.length_pos_iff.2 hne, rfl⟩

/-- An application to types with parameters of `id` has no others, also where it is
collapsed. -/
theorem ownsFree_generic {other : DefId} {args : List Descriptor}
    (h : ∀ a ∈ args, c.OwnsFree id a) : c.OwnsFree id (.generic other args) := by
  rcases generic_eq_or other args with ⟨hne, he, hcollapsed⟩ | ⟨-, hkept⟩
  · -- it is collapsed over its own placeholders, and these belong to `id`
    obtain rfl : other = id := ownsFree_param.1 (h _ (first_mem_of_collapsed hne he))
    intro q hq
    rw [hcollapsed, slotPlaceholders_named] at hq
    obtain ⟨i, -, rfl⟩ := mem_placeholders.1 hq
    rfl
  · rw [hkept]
    exact ownsFree_constructed.2 h

/-- Every generic type in the name has arguments: a path without any is a parameter of
`id`, or it belongs to a definition without parameters. -/
def GivesArguments (c : Catalog) (id : DefId) (name : TypeName) : Prop :=
  ∀ path ∈ name.leaves, c.param? (some id) path = none →
    ∀ other, c.lookup? path = some other → (c.definition other).isGeneric = false

/-- A parameter in the scope of a definition is a placeholder of it. -/
theorem param?_scope {path : String} (h : c.param? (some id) path = some ty) :
    ∃ position, ty = .param id position := by
  obtain ⟨position, -, he⟩ := Option.map_eq_some_iff.1 h
  exact ⟨position, he.symm⟩

/-- If every generic type has its arguments, the free parameters are those of the scope. -/
theorem GivesArguments.ownsFree {name : TypeName} (given : c.GivesArguments id name)
    (h : c.resolveIn (some id) name = .ok ty) : c.OwnsFree id ty := by
  induction name generalizing ty with
  | node path args ih =>
    by_cases hargs : args = []
    · subst hargs
      rw [resolveIn_leaf] at h
      split at h
      · next param hparam =>
        cases h
        obtain ⟨position, rfl⟩ := param?_scope hparam
        exact ownsFree_param.2 rfl
      · next hparam =>
        obtain ⟨other, hother, rfl⟩ := resolvePath_eq_ok_iff.1 h
        have hclosed := given path (by simp) hparam other hother
        intro q hq
        rw [slotPlaceholders, parts_named, List.flatMap_singleton,
          ownPlaceholders_of_closed hclosed] at hq
        exact absurd hq List.not_mem_nil
    · rw [resolveIn_application _ _ _ hargs] at h
      obtain ⟨definition, -, h⟩ := Except.bind_eq_ok.1 h
      obtain ⟨tys, htys, h⟩ := Except.bind_eq_ok.1 h
      obtain ⟨other, -, -, -, rfl⟩ := makeGeneric_eq_ok_iff.1 h
      refine ownsFree_generic fun a ha => ?_
      have hall := (List.forall₂_and_left args tys).2
        ⟨fun argument hmem => hmem, Except.mapM_eq_ok_iff.1 htys⟩
      obtain ⟨argument, -, hargument, hresolved⟩ := hall.exists_mem_left ha
      refine ih argument hargument (fun leaf hleaf => given leaf ?_) hresolved
      rw [TypeName.leaves_application path hargs]
      exact List.mem_flatMap.2 ⟨argument, hargument, hleaf⟩

/-! ### Setting a base -/

theorem exists_setBase_eq_ok_iff (base : Descriptor) :
    (∃ c', c.setBase id base = .ok c') ↔ c.bindsOnly id base = true := by
  rw [setBase_eq_ite]
  split
  · next h => exact iff_of_true ⟨_, rfl⟩ h
  · next h => exact iff_of_false nofun h

/-- A written base that resolves is set if its descriptor is accepted. -/
theorem exists_setWrittenBase_eq_ok_iff {text : String} {name : TypeName} {base : Descriptor}
    (hread : TypeName.read text = .ok name) (hresolve : c.resolveIn (some id) name = .ok base) :
    (∃ c', c.setWrittenBase id text = .ok c') ↔ c.bindsOnly id base = true := by
  rw [← exists_setBase_eq_ok_iff]
  refine exists_congr fun c' => ?_
  unfold setWrittenBase
  rw [hread]
  show ((c.resolveIn (some id) name).mapError LoadError.resolve >>= _) = _ ↔ _
  rw [hresolve]
  exact Except.mapError_eq_ok

/-- A base is accepted exactly if its free parameters are those of its type, and the type is
not applied to them, in order, anywhere in it.  An accepted base is the base of its type from
then on, and nothing else changes; for any other one the answer is an error about the
schema, and nothing changes at all.  A written base in which every generic type has its
arguments has no parameters of other types, so it is refused on the second ground only. -/
theorem setBase_decided (declared : c.Declares id) (base : Descriptor) :
    ((∃ c', c.setBase id base = .ok c') ↔ c.OwnsFree id base ∧ ¬ c.AppliedToOwn id base) ∧
    (∀ c', c.setBase id base = .ok c' →
      c.after (.setBase id base) = c' ∧ c.BaseSet id base c') ∧
    ((¬ ∃ c', c.setBase id base = .ok c') →
      c.setBase id base = .error (.foreignBase id base) ∧
      LoadError.ofDefine c (.foreignBase id base) =
        .schema (.foreignBase (c.sourceFullName base) (c.path id)) ∧
      c.after (.setBase id base) = c) ∧
    ∀ text name, TypeName.read text = .ok name → c.resolveIn (some id) name = .ok base →
      c.GivesArguments id name →
      ((∃ c', c.setWrittenBase id text = .ok c') ↔ ¬ c.AppliedToOwn id base) := by
  refine ⟨?_, fun c' hset => ?_, fun hnot => ?_, ?_⟩
  · rw [exists_setBase_eq_ok_iff, bindsOnly_iff]
  · have hanswer : c.answer (.setBase id base) = .ok (none, c') := by
      rw [answer_setBase, hset]
      rfl
    obtain ⟨-, rfl⟩ := setBase_eq_ok hset
    exact ⟨after_of_ok hanswer, size_withBase c id base, definition_withBase c declared base,
      fun _ => rfl, fun _ => rfl⟩
  · rw [exists_setBase_eq_ok_iff] at hnot
    have hset : c.setBase id base = .error (.foreignBase id base) := by
      rw [setBase_eq_ite, if_neg hnot]
    have hanswer : c.answer (.setBase id base) = .error (.foreignBase id base) := by
      rw [answer_setBase, hset]
      rfl
    exact ⟨hset, rfl, after_of_error hanswer⟩
  · intro text name hread hresolve given
    rw [exists_setWrittenBase_eq_ok_iff hread hresolve, bindsOnly_iff]
    exact and_iff_right (given.ownsFree hresolve)

/-- ``Seq`1`` of ``Seq`1`` of its own parameter is a base of ``Sub`1``, also when it is written
so.  With an optional value for the parameter it is not. -/
theorem setBase_decided_sub :
    let document : Json := .object [("types", .array
      [.object [("name", .string "Seq"), ("params", .array [.string "T"])],
       .object [("name", .string "Sub"), ("params", .array [.string "T"])]])]
    let seq : DefId := ⟨17⟩
    let sub : DefId := ⟨18⟩
    let own : Descriptor := .constructed seq [.constructed seq [.param sub 0]]
    let foreign : Descriptor := .constructed seq [.named .nullable]
    ∃ c, ofJson document = .ok c ∧ c.Declares sub ∧
      (∃ c', c.setBase sub own = .ok c' ∧ c.BaseSet sub own c') ∧
      (∃ c', c.setWrittenBase sub "Seq`1[Seq`1[T]]" = .ok c') ∧
      c.setBase sub foreign = .error (.foreignBase sub foreign) ∧
      c.after (.setBase sub foreign) = c := by
  intro document seq sub own foreign
  let name : TypeName := .node "Seq`1" [.node "Seq`1" [.node "T" []]]
  obtain ⟨c, hc, declared, howns, hself, hforeign, hresolve, hparam⟩ :=
    exists_ofJson_eq_ok document (P := fun c =>
      c.Declares sub ∧ c.OwnsFree sub own ∧ ¬ c.AppliedToOwn sub own ∧ ¬ c.OwnsFree sub foreign ∧
      (c.resolveIn (some sub) name).toOption = some own ∧
      c.param? (some sub) "T" = some (.param sub 0)) (by decide +kernel)
  have hread : TypeName.read "Seq`1[Seq`1[T]]" = .ok name :=
    Except.toOption_eq_some.1 (by decide +kernel)
  have hgiven : c.GivesArguments sub name := by
    intro path hpath hnone
    obtain rfl : path = "T" := by simpa [name, TypeName.leaves, TypeName.leavesAll] using hpath
    rw [hparam] at hnone
    cases hnone
  obtain ⟨hiff, hset, -, hwritten⟩ := setBase_decided declared own
  obtain ⟨hiff', -, hrefused, -⟩ := setBase_decided declared foreign
  obtain ⟨c', hc'⟩ := hiff.2 ⟨howns, hself⟩
  obtain ⟨herror, -, hsame⟩ := hrefused fun haccepted => hforeign (hiff'.1 haccepted).1
  have hresolve : c.resolveIn (some sub) name = .ok own := Except.toOption_eq_some.1 hresolve
  exact ⟨c, hc, declared, ⟨c', hc', (hset c' hc').2⟩, (hwritten _ _ hread hresolve hgiven).2 hself,
    herror, hsame⟩

/-- ``Seq`1`` of ``Sub`1`` applied to its own parameter has no other free parameter, and every
generic type in it has its arguments.  It is refused as a base of ``Sub`1`` all the same,
and so is a document that writes it. -/
theorem setBase_refuses_own_parameters :
    let seq : Json := .object [("name", .string "Seq"), ("params", .array [.string "T"])]
    let document : Json := .object [("types", .array [seq,
      .object [("name", .string "Sub"), ("params", .array [.string "T"])]])]
    let written : Json := .object [("types", .array [seq,
      .object [("base", .string "Seq`1[Sub`1[T]]"), ("name", .string "Sub"),
        ("params", .array [.string "T"])]])]
    let sub : DefId := ⟨18⟩
    let base : Descriptor := .constructed ⟨17⟩ [.named sub]
    (∃ c, ofJson document = .ok c ∧ c.Reachable ∧ c.Declares sub ∧ c.WellFormed base ∧
      c.OwnsFree sub base ∧ c.setBase sub base = .error (.foreignBase sub base)) ∧
    ofJson written = .error (.schema (.foreignBase "global::Seq<global::Sub<T>>" "Sub`1")) := by
  intro seq document written sub base
  constructor
  · obtain ⟨c, hc, declared, hty, howns, hbinds⟩ :=
      exists_ofJson_eq_ok document (P := fun c => c.Declares sub ∧ c.WellFormed base ∧
        c.OwnsFree sub base ∧ c.bindsOnly sub base = false) (by decide +kernel)
    refine ⟨c, hc, reachable_ofJson hc, declared, hty, howns, ?_⟩
    rw [setBase_eq_ite, hbinds]
    rfl
  · have hload : (ofJson written).error?.bind LoadError.foreignBase? =
        some ("global::Seq<global::Sub<T>>", "Sub`1") := by decide +kernel
    obtain ⟨e, he, hforeign⟩ := Option.bind_eq_some_iff.1 hload
    rw [Except.error?_eq_some.1 he, LoadError.foreignBase?_eq_some.1 hforeign]

end Catalog

end Generics
