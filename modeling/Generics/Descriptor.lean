/-!
# Type descriptors

A descriptor names a type of a catalog: a declared type, a parameter of a
declared type, or a declared type applied to arguments.

A generic type and its application to its own parameters, in order, are the same
type.  The first form is the one that is kept: `Descriptor.generic` applies a
definition and returns the definition itself when the arguments are exactly its
own placeholders.

## Main definitions

* `DefId` — the number of a definition in its catalog.
* `Descriptor` — descriptors, with decidable equality.
* `placeholders`, `Descriptor.generic` — a definition's own placeholders, and
  application up to that identity.
* `Descriptor.definition?` — the definition a descriptor is over.
* `Descriptor.text` — the canonical text, such as `#20[#6, #17!0]`.

## Main results

* `Descriptor.induction` — induction with a hypothesis for every argument.
-/

namespace Generics

/-- The number of a definition in its catalog. -/
structure DefId where
  /-- Definitions are numbered from zero, in the order of their declaration. -/
  index : Nat
  deriving DecidableEq, Repr, Inhabited

/-- The text of a number, such as `#6`. -/
def DefId.text (id : DefId) : String :=
  "#" ++ toString id.index

/-- A type of a catalog. -/
inductive Descriptor where
  /-- A declared type; if it has parameters, the generic definition. -/
  | named (id : DefId)
  /-- The parameter of `owner` at `position`, standing for an unknown type. -/
  | param (owner : DefId) (position : Nat)
  /-- A definition applied to arguments. -/
  | constructed (definition : DefId) (args : List Descriptor)
  deriving Repr, Inhabited

namespace Descriptor

/-! ### Induction and equality -/

/-- Induction over descriptors, with a hypothesis for every argument. -/
@[elab_as_elim, induction_eliminator]
theorem induction {motive : Descriptor → Prop} (named : ∀ id, motive (.named id))
    (param : ∀ owner position, motive (.param owner position))
    (constructed : ∀ definition args, (∀ a ∈ args, motive a) →
      motive (.constructed definition args)) (ty : Descriptor) : motive ty :=
  @Descriptor.rec motive (fun args => ∀ a ∈ args, motive a) named param
    (fun definition args ih => constructed definition args ih)
    (fun _ h => absurd h List.not_mem_nil)
    (fun _ _ head tail _ h => (List.mem_cons.1 h).elim (fun e => e ▸ head) (tail _)) ty

mutual

/-- Equality of descriptors is decided by comparing them part by part. -/
def decideEq : (a b : Descriptor) → Decidable (a = b)
  | .named i, .named j => decidable_of_iff (i = j) (by simp)
  | .param o p, .param o' p' => decidable_of_iff (o = o' ∧ p = p') (by simp)
  | .constructed d as, .constructed e bs =>
    have := decideEqAll as bs
    decidable_of_iff (d = e ∧ as = bs) (by simp)
  | .named _, .param _ _ => isFalse (by simp)
  | .named _, .constructed _ _ => isFalse (by simp)
  | .param _ _, .named _ => isFalse (by simp)
  | .param _ _, .constructed _ _ => isFalse (by simp)
  | .constructed _ _, .named _ => isFalse (by simp)
  | .constructed _ _, .param _ _ => isFalse (by simp)

/-- Equality of argument lists. -/
def decideEqAll : (as bs : List Descriptor) → Decidable (as = bs)
  | [], [] => isTrue rfl
  | [], _ :: _ => isFalse (by simp)
  | _ :: _, [] => isFalse (by simp)
  | a :: as, b :: bs =>
    have := decideEq a b
    have := decideEqAll as bs
    decidable_of_iff (a = b ∧ as = bs) (by simp)

end

instance : DecidableEq Descriptor := decideEq

/-! ### Application -/

/-- The placeholders of a definition for its first `count` parameters. -/
def placeholders (definition : DefId) (count : Nat) : List Descriptor :=
  (List.range count).map (.param definition)

/-- A definition applied to arguments.  Applied to its own placeholders in order
it is the definition itself. -/
def generic (definition : DefId) (args : List Descriptor) : Descriptor :=
  if args ≠ [] ∧ args = placeholders definition args.length then .named definition
  else .constructed definition args

/-- The definition a descriptor is over; a placeholder is over none. -/
def definition? : Descriptor → Option DefId
  | .named id => some id
  | .param _ _ => none
  | .constructed id _ => some id

@[simp] theorem length_placeholders (id : DefId) (n : Nat) :
    (placeholders id n).length = n := by simp [placeholders]

@[simp] theorem placeholders_zero (id : DefId) : placeholders id 0 = [] := rfl

theorem mem_placeholders {id : DefId} {n : Nat} {ty : Descriptor} :
    ty ∈ placeholders id n ↔ ∃ i < n, ty = .param id i := by
  simp [placeholders, eq_comm]

theorem generic_placeholders (id : DefId) {n : Nat} (h : 0 < n) :
    generic id (placeholders id n) = .named id := by
  have : placeholders id n ≠ [] := by
    intro e; simp [← List.length_eq_zero_iff] at e; omega
  simp [generic, this]

@[simp] theorem generic_nil (id : DefId) : generic id [] = .constructed id [] := by
  simp [generic]

@[simp] theorem definition?_generic (id : DefId) (args : List Descriptor) :
    (generic id args).definition? = some id := by
  unfold generic; split <;> rfl

/-! ### Text -/

mutual

/-- The canonical text of a descriptor: a definition by its number, a
placeholder by its owner and position, an application with its arguments in
brackets. -/
def text : Descriptor → String
  | .named id => id.text
  | .param owner position => owner.text ++ "!" ++ toString position
  | .constructed definition args =>
    definition.text ++ "[" ++ ", ".intercalate (textAll args) ++ "]"

/-- The texts of some arguments. -/
def textAll : List Descriptor → List String
  | [] => []
  | a :: as => a.text :: textAll as

end

theorem textAll_eq_map (args : List Descriptor) : textAll args = args.map text := by
  induction args with
  | nil => rfl
  | cons a as ih => rw [textAll, ih, List.map_cons]

end Descriptor

end Generics
