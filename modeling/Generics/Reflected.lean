import Generics.Catalog.Define
import Generics.Catalog.WellFormed
import Generics.View

/-!
# Types of the language in a catalog

A type of the language can stand for a type of every catalog.  Which one that is, its
instance says, with a descriptor that is well formed over the system definitions, which
every catalog has.  The basic types stand for built-in types, and an optional value type
for a nullable one.

## Main definitions

* `Reflected` — types that stand for a type of every catalog.
* `ValueType` — those of which there are optional values.  An optional value is not a
  value type itself, so nullable types do not nest.
* `Sketch.of` — what a type stands for, as a sketch.
-/

namespace Generics

open Descriptor Catalog

/-- A type that stands for a type of every catalog. -/
class Reflected (α : Type) where
  /-- What the type stands for. -/
  descriptor : Descriptor
  /-- Generic system definitions are applied in it, with the right arity. -/
  wellFormed : initial.WellFormed descriptor
  /-- Its definitions are system definitions. -/
  findable : initial.AllFindable descriptor

/-- A type that stands for a value type. -/
class ValueType (α : Type) extends Reflected α

namespace Reflected

variable {α : Type}

theorem findable_builtin (b : Builtin) : initial.Findable b.id :=
  ⟨by cases b <;> decide +kernel, by cases b <;> decide +kernel⟩

theorem findable_nullable : initial.Findable .nullable :=
  ⟨by decide +kernel, by decide +kernel⟩

/-- A type that stands for a built-in type. -/
@[reducible] def ofBuiltin (b : Builtin) : Reflected α where
  descriptor := .named b.id
  wellFormed := ⟨throughout_named.2 trivial, throughout_named.2 trivial⟩
  findable := allFindable_named.2 (findable_builtin b)

end Reflected

instance : Reflected Bool := .ofBuiltin .boolean
instance : Reflected UInt8 := .ofBuiltin .byte
instance : Reflected Int8 := .ofBuiltin .sbyte
instance : Reflected Int16 := .ofBuiltin .int16
instance : Reflected UInt16 := .ofBuiltin .uint16
instance : Reflected Char := .ofBuiltin .char
instance : Reflected Int32 := .ofBuiltin .int32
instance : Reflected UInt32 := .ofBuiltin .uint32
instance : Reflected Int64 := .ofBuiltin .int64
instance : Reflected UInt64 := .ofBuiltin .uint64
instance : Reflected Float32 := .ofBuiltin .single
instance : Reflected Float := .ofBuiltin .double
instance : Reflected String := .ofBuiltin .string

instance : ValueType Bool where
instance : ValueType UInt8 where
instance : ValueType Int8 where
instance : ValueType Int16 where
instance : ValueType UInt16 where
instance : ValueType Char where
instance : ValueType Int32 where
instance : ValueType UInt32 where
instance : ValueType Int64 where
instance : ValueType UInt64 where
instance : ValueType Float32 where
instance : ValueType Float where

/-- An optional value stands for the nullable type of what the value stands for. -/
instance (α : Type) [ValueType α] : Reflected (Option α) where
  descriptor := .generic .nullable [Reflected.descriptor α]
  wellFormed := by
    constructor
    case fits =>
      have harity : (initial.definition .nullable).params.length = 1 := by decide +kernel
      exact throughout_generic trivial ⟨by decide +kernel, harity.symm⟩
        (List.forall_mem_singleton.2 Reflected.wellFormed.fits)
    case reduced =>
      exact isReduced_generic (List.forall_mem_singleton.2 Reflected.wellFormed.reduced)
  findable :=
    allFindable_generic Reflected.findable_nullable
      (List.forall_mem_singleton.2 Reflected.findable)

/-- What a type stands for. -/
def Sketch.of (α : Type) [Reflected α] : Sketch :=
  ⟨Reflected.descriptor α⟩

end Generics
