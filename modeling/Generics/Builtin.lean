/-!
# Built-in types

The types a source language writes with a keyword.  Each is declared in the
namespace `System` under a name of its own.

## Main definitions

* `Builtin`, `Builtin.all` — the fifteen of them, in the order in which a
  catalog declares them.
* `Builtin.typeName`, `Builtin.keyword` — the declared name and the keyword.
* `Builtin.isPrimitive` — all but the last three are primitive values.
-/

namespace Generics

/-- A type that source text writes with a keyword. -/
inductive Builtin where
  | boolean
  | byte
  | sbyte
  | int16
  | uint16
  | char
  | int32
  | uint32
  | int64
  | uint64
  | single
  | double
  | decimal
  | string
  | object
  deriving DecidableEq, Repr, Inhabited

namespace Builtin

/-- Every built-in type, in the order of declaration. -/
def all : List Builtin :=
  [boolean, byte, sbyte, int16, uint16, char, int32, uint32, int64, uint64, single, double,
   decimal, string, object]

/-- The place of a built-in type in `all`. -/
def ordinal : Builtin → Nat
  | boolean => 0
  | byte => 1
  | sbyte => 2
  | int16 => 3
  | uint16 => 4
  | char => 5
  | int32 => 6
  | uint32 => 7
  | int64 => 8
  | uint64 => 9
  | single => 10
  | double => 11
  | decimal => 12
  | string => 13
  | object => 14

/-- The name under which a built-in type is declared in `System`. -/
def typeName : Builtin → String
  | boolean => "Boolean"
  | byte => "Byte"
  | sbyte => "SByte"
  | int16 => "Int16"
  | uint16 => "UInt16"
  | char => "Char"
  | int32 => "Int32"
  | uint32 => "UInt32"
  | int64 => "Int64"
  | uint64 => "UInt64"
  | single => "Single"
  | double => "Double"
  | decimal => "Decimal"
  | string => "String"
  | object => "Object"

/-- The keyword that stands for a built-in type in source text. -/
def keyword : Builtin → String
  | boolean => "bool"
  | byte => "byte"
  | sbyte => "sbyte"
  | int16 => "short"
  | uint16 => "ushort"
  | char => "char"
  | int32 => "int"
  | uint32 => "uint"
  | int64 => "long"
  | uint64 => "ulong"
  | single => "float"
  | double => "double"
  | decimal => "decimal"
  | string => "string"
  | object => "object"

/-- Decimals, strings and objects have keywords without being primitive. -/
def isPrimitive : Builtin → Bool
  | decimal | string | object => false
  | _ => true

/-- The built-in type declared under a name. -/
def ofTypeName? (name : String) : Option Builtin :=
  all.find? fun builtin => builtin.typeName == name

@[simp] theorem mem_all (b : Builtin) : b ∈ all := by cases b <;> decide

theorem ordinal_lt (b : Builtin) : b.ordinal < 15 := by cases b <;> decide

@[simp] theorem ofTypeName?_typeName (b : Builtin) : ofTypeName? b.typeName = some b := by
  cases b <;> decide +kernel

end Builtin

end Generics
