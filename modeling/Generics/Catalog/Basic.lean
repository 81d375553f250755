import Generics.Definition
import Std.Data.TreeMap

/-!
# Catalogs

A catalog holds definitions, numbered in the order of their declaration.  Beside
the definitions it keeps two indexes: which definition is declared directly
inside which, and which path belongs to which definition.

The system definitions stand first in every catalog, so their numbers are fixed:
the built-in types in the order of `Builtin.all`, then `System.DateTime` and
``System.Nullable`1``.

## Main definitions

* `Catalog` — definitions with their nesting and their paths.
* `DefId.sort` — numbers in ascending order.
* `Catalog.definition`, `Catalog.lookup?`, `Catalog.nested` — the three ways to
  read it.
* `Builtin.id`, `DefId.nullable` — the numbers of system definitions.
* `Catalog.withBase` — a base exchanged without any check.
-/

namespace Generics

/-- A collection of type definitions. -/
structure Catalog where
  /-- The definitions, each at its number. -/
  definitions : Array Definition := #[]
  /-- Pairs of a definition and one declared directly inside it, in the order of
  declaration. -/
  nesting : Array (DefId × DefId) := #[]
  /-- The definition that belongs to a path. -/
  paths : Std.TreeMap String DefId := ∅

/-- The number of a built-in type. -/
def Builtin.id (builtin : Builtin) : DefId :=
  ⟨builtin.ordinal⟩

/-- The number of ``System.Nullable`1``, the optional value of its parameter. -/
def DefId.nullable : DefId :=
  ⟨16⟩

/-- The numbers with one more among them, in front of the first that is not smaller. -/
def DefId.insertSorted (id : DefId) : List DefId → List DefId
  | [] => [id]
  | other :: ids =>
    if id.index ≤ other.index then id :: other :: ids else other :: id.insertSorted ids

/-- The numbers in ascending order. -/
def DefId.sort (ids : List DefId) : List DefId :=
  ids.foldr insertSorted []

namespace Catalog

/-- The definition with a given number.  A number that no definition of this
catalog has reads as a nameless definition. -/
def definition (c : Catalog) (id : DefId) : Definition :=
  c.definitions[id.index]?.getD {}

/-- The definition that belongs to a path. -/
def lookup? (c : Catalog) (path : String) : Option DefId :=
  c.paths[path]?

/-- The definitions declared directly inside `id`, as the pairs are walked: the newest
pair comes first. -/
def neighbors (c : Catalog) (id : DefId) : List DefId :=
  (c.nesting.toList.reverse.filter fun edge => edge.1 == id).map Prod.snd

/-- The definitions declared directly inside `id`, sorted by their numbers. -/
def nested (c : Catalog) (id : DefId) : List DefId :=
  DefId.sort (c.neighbors id)

/-- How many definitions there are. -/
def size (c : Catalog) : Nat :=
  c.definitions.size

/-- The number belongs to a definition of this catalog. -/
def Declares (c : Catalog) (id : DefId) : Prop :=
  id.index < c.size

instance (c : Catalog) (id : DefId) : Decidable (c.Declares id) :=
  inferInstanceAs (Decidable (id.index < c.size))

/-- The definition `id` has a parameter at `position`. -/
def hasParam (c : Catalog) (id : DefId) (position : Nat) : Bool :=
  decide (position < (c.definition id).params.length)

/-- The name of a parameter.  A position without a parameter is shown by the
text of its placeholder. -/
def paramName (c : Catalog) (id : DefId) (position : Nat) : String :=
  (c.definition id).params[position]?.getD (Descriptor.param id position).text

/-- The catalog with the base of one definition exchanged, whatever it is. -/
def withBase (c : Catalog) (id : DefId) (base : Descriptor) : Catalog :=
  { c with definitions := c.definitions.modify id.index fun d => { d with base := some base } }

@[simp] theorem size_withBase (c : Catalog) (id : DefId) (base : Descriptor) :
    (c.withBase id base).size = c.size := by
  simp [size, withBase]

@[simp] theorem lookup?_withBase (c : Catalog) (id : DefId) (base : Descriptor) (path : String) :
    (c.withBase id base).lookup? path = c.lookup? path := rfl

@[simp] theorem nested_withBase (c : Catalog) (id : DefId) (base : Descriptor) (outer : DefId) :
    (c.withBase id base).nested outer = c.nested outer := rfl

/-- Exchanging a base changes one definition, in its base alone. -/
theorem definition_withBase (c : Catalog) {id : DefId} (h : c.Declares id) (base : Descriptor)
    (other : DefId) : (c.withBase id base).definition other =
      if other = id then { c.definition id with base := some base } else c.definition other := by
  unfold Declares size at h
  by_cases hne : other = id
  · subst hne
    simp [definition, withBase, Array.getElem_modify, h]
  · have : id.index ≠ other.index := fun e => hne (by cases id; cases other; simp_all)
    simp [definition, withBase, Array.getElem?_modify, this, hne]

end Catalog

end Generics
