import Generics.Catalog.Shape
import Generics.ResolveError

/-!
# Building descriptors

## Main definitions

* `Catalog.makeGeneric` — a generic definition applied to as many arguments as
  it has parameters.
* `Catalog.instantiate` — the placeholders of one definition replaced by
  arguments.
* `Catalog.baseType` — the base of a type, over the arguments of that type.

## Main results

* `makeGeneric_eq_ok_iff` — exactly when an application can be built.
-/

namespace Generics.Catalog

/-- How an error calls a descriptor: by the declared name of its definition, a
placeholder by its text. -/
def errorName (c : Catalog) (ty : Descriptor) : String :=
  match ty.definition? with
  | some id => (c.definition id).name
  | none => ty.text

/-- A generic definition applied to arguments, one for each parameter. -/
def makeGeneric (c : Catalog) (ty : Descriptor) (args : List Descriptor) :
    Except ResolveError Descriptor :=
  match ty with
  | .named id =>
    if (c.definition id).isGeneric then
      if args.length = (c.definition id).params.length then .ok (.generic id args)
      else .error (.arity (c.definition id).name (c.definition id).params.length args.length)
    else .error (.notGeneric (c.errorName ty))
  | _ => .error (.notGeneric (c.errorName ty))

theorem makeGeneric_eq_ok_iff {c : Catalog} {ty : Descriptor} {args : List Descriptor}
    {result : Descriptor} : c.makeGeneric ty args = .ok result ↔
      ∃ id, ty = .named id ∧ (c.definition id).isGeneric = true ∧
        args.length = (c.definition id).params.length ∧ .generic id args = result := by
  unfold makeGeneric
  split
  · next id =>
    by_cases hg : (c.definition id).isGeneric = true
    · by_cases hl : args.length = (c.definition id).params.length <;> simp [hg, hl]
    · simp [hg]
  · next h =>
    simp only [reduceCtorEq, false_iff, not_exists, not_and]
    intro id hid
    exact absurd hid (h id)

mutual

/-- The placeholders of `owner` in a descriptor replaced by the arguments at
their positions.  Where there is no such argument the placeholder stays, and so
does a definition that is not applied. -/
def instantiate (owner : DefId) (args : List Descriptor) : Descriptor → Descriptor
  | .named id => .named id
  | .param o position =>
    if o = owner then args[position]?.getD (.param o position) else .param o position
  | .constructed definition inner => .generic definition (instantiateAll owner args inner)

/-- The placeholders of `owner` replaced in each of some descriptors. -/
def instantiateAll (owner : DefId) (args : List Descriptor) : List Descriptor → List Descriptor
  | [] => []
  | a :: as => instantiate owner args a :: instantiateAll owner args as

end

theorem instantiateAll_eq_map (owner : DefId) (args inner : List Descriptor) :
    instantiateAll owner args inner = inner.map (instantiate owner args) := by
  induction inner with
  | nil => rfl
  | cons a as ih => rw [instantiateAll, ih, List.map_cons]

@[simp] theorem instantiate_named (owner : DefId) (args : List Descriptor) (id : DefId) :
    instantiate owner args (.named id) = .named id := by simp [instantiate]

@[simp] theorem instantiate_constructed (owner : DefId) (args : List Descriptor) (id : DefId)
    (inner : List Descriptor) : instantiate owner args (.constructed id inner) =
      .generic id (inner.map (instantiate owner args)) := by
  rw [instantiate, instantiateAll_eq_map]

/-- The base of a type.  The base of an application is the declared base with the
arguments put in. -/
def baseType (c : Catalog) : Descriptor → Option Descriptor
  | .named id => (c.definition id).base
  | .param _ _ => none
  | .constructed id args => (c.definition id).base.map (instantiate id args)

end Generics.Catalog
