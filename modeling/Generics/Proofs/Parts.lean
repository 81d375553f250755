import Generics.Catalog.Resolve
import Generics.Catalog.WellFormed
import Generics.Proofs.Outcome

/-!
# Conditions that building respects

A catalog builds descriptors in a few ways only, so a condition on parts that these ways
respect holds throughout whatever the catalog returns.

## Main definitions

* `Catalog.Respected` — the conditions that building respects.

## Main results

* `Respected.instantiate`, `Respected.resolve` — what the catalog builds satisfies every
  respected condition.
* `respected_overGeneric`, `respected_fits`, `respected_reduced` — only generic
  definitions are applied, arities are right, nothing is applied to its own placeholders.
-/

namespace Generics

namespace Catalog

open Descriptor

/-- A condition on parts that building descriptors respects.  Applications are
either built with the arity checked, or rebuilt over an application that stands
already, with as many arguments. -/
structure Respected (c : Catalog) (p : Descriptor → Prop) : Prop where
  named : ∀ id, p (.named id)
  param : ∀ {owner position}, position < (c.definition owner).params.length →
    p (.param owner position)
  built : ∀ {id args}, (c.definition id).isGeneric = true →
    args.length = (c.definition id).params.length → (∀ a ∈ args, Throughout p a) →
    Throughout p (.generic id args)
  rebuilt : ∀ {id args args'}, p (.constructed id args) → args'.length = args.length →
    (∀ a ∈ args', Throughout p a) → Throughout p (.generic id args')

/-- A condition that sees of an application only its definition and how many
arguments there are is respected if it holds of applications with the right
arity. -/
theorem Respected.of_shape {c : Catalog} {p : Descriptor → Prop} (named : ∀ id, p (.named id))
    (param : ∀ {owner position}, position < (c.definition owner).params.length →
      p (.param owner position))
    (fits : ∀ {id args}, (c.definition id).isGeneric = true →
      args.length = (c.definition id).params.length → p (.constructed id args))
    (resized : ∀ {id args args'}, p (.constructed id args) → args'.length = args.length →
      p (.constructed id args')) : c.Respected p :=
  ⟨named, param, fun {id _} hg hl h => throughout_generic (named id) (fits hg hl) h,
    fun {id _ _} hp hl h => throughout_generic (named id) (resized hp hl) h⟩

theorem respected_overGeneric (c : Catalog) : c.Respected c.NodeOverGeneric :=
  .of_shape (fun _ => trivial) (fun _ => trivial) (fun hg _ => hg) (fun hp _ => hp)

theorem respected_fits (c : Catalog) : c.Respected c.NodeFits :=
  .of_shape (fun _ => trivial) (fun h => h) (fun hg hl => ⟨hg, hl⟩)
    (fun hp hl => ⟨hp.1, hl.trans hp.2⟩)

theorem respected_reduced (c : Catalog) : c.Respected NodeReduced where
  named _ := trivial
  param _ := trivial
  built _ _ h := isReduced_generic h
  rebuilt _ _ h := isReduced_generic h

/-! ### What the catalog builds -/

section Respected

variable {c : Catalog} {p : Descriptor → Prop}

/-- What is kept when an application is rebuilt over as many arguments is kept when
placeholders are replaced. -/
theorem throughout_instantiate
    (rebuilt : ∀ {id args args'}, p (.constructed id args) → args'.length = args.length →
      (∀ a ∈ args', Throughout p a) → Throughout p (.generic id args'))
    (owner : DefId) {args : List Descriptor} (hargs : ∀ a ∈ args, Throughout p a)
    {ty : Descriptor} (h : Throughout p ty) : Throughout p (instantiate owner args ty) := by
  induction ty with
  | named id => rwa [instantiate_named]
  | param o position =>
    rw [Catalog.instantiate]
    split
    · cases hg : args[position]? with
      | none => exact h
      | some a => exact hargs a (List.mem_of_getElem? hg)
    · exact h
  | constructed id inner ih =>
    -- the arity of an application is not looked at again, but it is kept
    rw [throughout_constructed] at h
    rw [instantiate_constructed]
    refine rebuilt h.1 (List.length_map _) ?_
    intro b hb
    obtain ⟨a, ha, rfl⟩ := List.mem_map.1 hb
    exact ih a ha (h.2 a ha)

/-- Replacing placeholders keeps a respected condition, whatever the arity of the
applications on the way. -/
theorem Respected.instantiate (hp : c.Respected p) (owner : DefId) {args : List Descriptor}
    (hargs : ∀ a ∈ args, Throughout p a) {ty : Descriptor} (h : Throughout p ty) :
    Throughout p (instantiate owner args ty) :=
  throughout_instantiate hp.rebuilt owner hargs h

/-- What a path names in a scope is a placeholder in range of the scope. -/
theorem param?_eq_some {scope : Option DefId} {path : String} {ty : Descriptor}
    (h : c.param? scope path = some ty) : ∃ owner position,
      position < (c.definition owner).params.length ∧ ty = .param owner position := by
  unfold param? at h
  obtain ⟨owner, -, h⟩ := Option.bind_eq_some_iff.1 h
  obtain ⟨position, hposition, rfl⟩ := Option.map_eq_some_iff.1 h
  exact ⟨owner, position, (List.findIdx?_eq_some_iff_getElem.1 hposition).1, rfl⟩

theorem resolvePath_eq_ok_iff {path : String} {ty : Descriptor} :
    c.resolvePath path = .ok ty ↔ ∃ id, c.lookup? path = some id ∧ ty = .named id := by
  unfold resolvePath
  split
  · next h => simp [h]
  · next id h => simp [h, eq_comm]

/-- Induction over what names resolve to: a path alone is a parameter of the scope or a
definition, a path with arguments is a definition applied to what they resolve to. -/
theorem resolveIn_induction {Q : TypeName → Descriptor → Prop} {scope : Option DefId}
    (param : ∀ {path owner position}, c.param? scope path = some (.param owner position) →
      position < (c.definition owner).params.length → Q (.node path []) (.param owner position))
    (named : ∀ {path id}, c.param? scope path = none → c.lookup? path = some id →
      Q (.node path []) (.named id))
    (built : ∀ {path args id tys}, c.lookup? path = some id →
      (c.definition id).isGeneric = true → tys.length = (c.definition id).params.length →
      List.Forall₂ Q args tys → Q (.node path args) (.generic id tys))
    {name : TypeName} {ty : Descriptor} (h : c.resolveIn scope name = .ok ty) : Q name ty := by
  induction name generalizing ty with
  | node path args ih =>
    by_cases hargs : args = []
    · subst hargs
      rw [resolveIn_leaf] at h
      split at h
      · next param hparam =>
        cases h
        obtain ⟨owner, position, hposition, rfl⟩ := param?_eq_some hparam
        exact param hparam hposition
      · next hparam =>
        -- a path that is no parameter of the scope is a definition
        obtain ⟨id, hid, rfl⟩ := resolvePath_eq_ok_iff.1 h
        exact named hparam hid
    · rw [resolveIn_application _ _ _ hargs] at h
      obtain ⟨definition, hdefinition, h⟩ := Except.bind_eq_ok.1 h
      obtain ⟨tys, htys, h⟩ := Except.bind_eq_ok.1 h
      obtain ⟨id, hid, rfl⟩ := resolvePath_eq_ok_iff.1 hdefinition
      obtain ⟨id', he, hg, hl, rfl⟩ := makeGeneric_eq_ok_iff.1 h
      cases he
      refine built hid hg hl ?_
      have hall := (List.forall₂_and_left args tys).2
        ⟨fun argument hmem => hmem, Except.mapM_eq_ok_iff.1 htys⟩
      exact hall.imp fun argument ty hresolved => ih argument hresolved.1 hresolved.2

/-- A name resolves to a descriptor in which every respected condition holds. -/
theorem Respected.resolveIn (hp : c.Respected p) {scope : Option DefId} {name : TypeName}
    {ty : Descriptor} (h : c.resolveIn scope name = .ok ty) : Throughout p ty := by
  refine resolveIn_induction (Q := fun _ ty => Throughout p ty) ?_ ?_ ?_ h
  · exact fun _ hposition => throughout_param.2 (hp.param hposition)
  · exact fun {_ id} _ _ => throughout_named.2 (hp.named id)
  · intro path args id tys _ hg hl hall
    refine hp.built hg hl fun a ha => ?_
    obtain ⟨argument, -, hargument⟩ := hall.exists_mem_left ha
    exact hargument

theorem Respected.resolve (hp : c.Respected p) {text : String} {ty : Descriptor}
    (h : c.resolve text = .ok ty) : Throughout p ty := by
  unfold Catalog.resolve at h
  split at h
  · cases h
  · exact hp.resolveIn h

end Respected

end Catalog

end Generics
