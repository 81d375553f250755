import Generics.Catalog.Basic

/-!
# The shape of a descriptor

What can be asked of a descriptor once its catalog is known: whether it is
generic, whether it still contains parameters, which arguments it has.

A definition with parameters counts as applied to its own placeholders: it
contains free parameters, and its arguments are those placeholders.

## Main definitions

* `Catalog.isGenericType`, `Catalog.isGenericDefinition` — has arguments at all,
  is a definition that waits for them.
* `Catalog.hasFree` — contains a free parameter at some depth.
* `Catalog.arguments`, `Catalog.genericDefinition?` — taking an application
  apart.
* `Catalog.nestedTypes` — the types declared inside, all or the public ones.

## Main results

* `anyFree_eq_any` — a list has free parameters when an element has.
-/

namespace Generics

/-- The descriptor is a placeholder. -/
def Descriptor.isParameter : Descriptor → Bool
  | .param _ _ => true
  | _ => false

/-- The descriptor is an optional value, or the definition of optional values. -/
def Descriptor.isNullable (ty : Descriptor) : Bool :=
  ty.definition? == some .nullable

/-- Which nested types are wanted. -/
inductive NestedFilter where
  | all
  | onlyPublic
  deriving DecidableEq, Repr, Inhabited

namespace Catalog

/-- The descriptor has arguments, be they given or its own placeholders. -/
def isGenericType (c : Catalog) : Descriptor → Bool
  | .named id => (c.definition id).isGeneric
  | .constructed _ _ => true
  | .param _ _ => false

/-- The descriptor is a definition with parameters. -/
def isGenericDefinition (c : Catalog) : Descriptor → Bool
  | .named id => (c.definition id).isGeneric
  | _ => false

mutual

/-- The descriptor contains a free parameter. -/
def hasFree (c : Catalog) : Descriptor → Bool
  | .param _ _ => true
  | .named id => (c.definition id).isGeneric
  | .constructed _ args => c.anyFree args

/-- One of the descriptors contains a free parameter. -/
def anyFree (c : Catalog) : List Descriptor → Bool
  | [] => false
  | a :: as => c.hasFree a || c.anyFree as

end

@[simp] theorem hasFree_param (c : Catalog) (owner : DefId) (position : Nat) :
    c.hasFree (.param owner position) = true := by simp [hasFree]

@[simp] theorem hasFree_named (c : Catalog) (id : DefId) :
    c.hasFree (.named id) = (c.definition id).isGeneric := by simp [hasFree]

theorem anyFree_eq_any (c : Catalog) (args : List Descriptor) :
    c.anyFree args = args.any c.hasFree := by
  induction args with
  | nil => rfl
  | cons a as ih => rw [anyFree, ih, List.any_cons]

@[simp] theorem hasFree_constructed (c : Catalog) (id : DefId) (args : List Descriptor) :
    c.hasFree (.constructed id args) = args.any c.hasFree := by
  rw [hasFree, anyFree_eq_any]

/-- The built-in type that a descriptor is. -/
def builtin? (c : Catalog) : Descriptor → Option Builtin
  | .named id => (c.definition id).builtin
  | _ => none

/-- The descriptor is a primitive value type. -/
def isPrimitive (c : Catalog) (ty : Descriptor) : Bool :=
  (c.builtin? ty).any Builtin.isPrimitive

/-- The immediate arguments.  A definition has its own placeholders; a nested
type also has the arguments of the types around it, which come first. -/
def arguments (c : Catalog) : Descriptor → List Descriptor
  | .named id => Descriptor.placeholders id (c.definition id).params.length
  | .constructed _ args => args
  | .param _ _ => []

/-- The definition behind a descriptor that has arguments. -/
def genericDefinition? (c : Catalog) (ty : Descriptor) : Option Descriptor :=
  if c.isGenericType ty then ty.definition?.map .named else none

/-- The namespace of a descriptor's definition, or of a placeholder's owner. -/
def nameSpace? (c : Catalog) : Descriptor → Option String
  | .named id => (c.definition id).nameSpace
  | .param owner _ => (c.definition owner).nameSpace
  | .constructed id _ => (c.definition id).nameSpace

/-- The types declared directly inside a descriptor's definition, as
definitions. -/
def nestedTypes (c : Catalog) (filter : NestedFilter) (ty : Descriptor) : List Descriptor :=
  match ty.definition? with
  | none => []
  | some id =>
    let wanted := (c.nested id).filter fun inner =>
      filter == .all || (c.definition inner).visibility == .isPublic
    wanted.map .named

@[simp] theorem length_arguments_named (c : Catalog) (id : DefId) :
    (c.arguments (.named id)).length = (c.definition id).params.length := by
  simp [arguments]

/-- A descriptor has free parameters when one of its arguments has, a placeholder
apart. -/
theorem hasFree_eq_any_arguments (c : Catalog) {ty : Descriptor} (h : ty.isParameter = false) :
    c.hasFree ty = (c.arguments ty).any c.hasFree := by
  cases ty with
  | named id =>
    rw [hasFree_named, arguments, Bool.eq_iff_iff, List.any_eq_true,
      Definition.isGeneric_iff_pos]
    constructor
    · intro h
      exact ⟨.param id 0, Descriptor.mem_placeholders.2 ⟨0, h, rfl⟩, hasFree_param c id 0⟩
    · rintro ⟨a, ha, -⟩
      obtain ⟨i, hi, -⟩ := Descriptor.mem_placeholders.1 ha
      omega
  | param owner position => simp [Descriptor.isParameter] at h
  | constructed id args => rw [hasFree_constructed, arguments]

end Catalog

end Generics
