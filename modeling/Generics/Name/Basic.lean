import Generics.Name.Qualified
import Generics.Name.Source

/-!
# The names of a type

A type has five names at once, and its identity is the full source name: two
types are the same when they would be written the same.

## Main definitions

* `Name`, `Catalog.name` — the names of a descriptor.
* `Catalog.sameName` — equality of types by their full source names.
* `Name.text` — how a name is shown.
-/

namespace Generics

/-- What a type is called. -/
structure Name where
  /-- The declared name. -/
  value : String
  /-- The name that can be resolved again. -/
  fullName : Option String
  nameSpace : Option String
  sourceName : String
  sourceFullName : String
  deriving DecidableEq, Repr

/-- How a name is shown. -/
def Name.text (name : Name) : String :=
  "Name(" ++ name.sourceFullName ++ ")"

namespace Catalog

/-- The names of a descriptor. -/
def name (c : Catalog) (ty : Descriptor) : Name where
  value := c.simpleName ty
  fullName := c.qualifiedName? ty
  nameSpace := c.nameSpace? ty
  sourceName := c.sourceName ty
  sourceFullName := c.sourceFullName ty

/-- Two descriptors are written the same in source text. -/
def sameName (c : Catalog) (a b : Descriptor) : Bool :=
  c.sourceFullName a == c.sourceFullName b

theorem sameName_iff {c : Catalog} {a b : Descriptor} :
    c.sameName a b = true ↔ c.sourceFullName a = c.sourceFullName b := by
  simp [sameName]

end Catalog

end Generics
