import Generics.Catalog.Basic

/-!
# Definition paths

A definition is found by its path, such as ``N.Parent`1+Nested``: the namespace,
a point, and the declared names from the outermost enclosing type inwards, with
`+` between them.

## Main definitions

* `Catalog.enclosing` — a definition and the types around it, outermost first.
* `Catalog.path` — the path of a definition.
-/

namespace Generics.Catalog

/-- A definition and the types around it, innermost first, in at most `bound`
steps outwards. -/
def outward (c : Catalog) : (bound : Nat) → DefId → List DefId
  | 0, id => [id]
  | bound + 1, id =>
    match (c.definition id).declaring with
    | none => [id]
    | some outer => id :: c.outward bound outer

/-- A definition and the types around it, outermost first.  An enclosing type is
declared before the types inside it, so the number of a definition bounds the
depth at which it stands. -/
def enclosing (c : Catalog) (id : DefId) : List DefId :=
  (c.outward id.index id).reverse

/-- The outermost type around a definition. -/
def outermost (c : Catalog) (id : DefId) : DefId :=
  (c.enclosing id).headD id

/-- The path under which a definition is found. -/
def path (c : Catalog) (id : DefId) : String :=
  let names := "+".intercalate ((c.enclosing id).map fun level => (c.definition level).name)
  match (c.definition (c.outermost id)).nameSpace with
  | some space => space ++ "." ++ names
  | none => names

theorem outward_ne_nil (c : Catalog) (bound : Nat) (id : DefId) : c.outward bound id ≠ [] := by
  cases bound with
  | zero => simp [outward]
  | succ bound => unfold outward; split <;> simp

theorem enclosing_ne_nil (c : Catalog) (id : DefId) : c.enclosing id ≠ [] := by
  simp [enclosing, outward_ne_nil]

/-- A type that is not nested in another one stands alone. -/
theorem enclosing_of_declaring_eq_none {c : Catalog} {id : DefId}
    (h : (c.definition id).declaring = none) : c.enclosing id = [id] := by
  unfold enclosing
  cases id.index with
  | zero => rfl
  | succ bound => simp [outward, h]

end Generics.Catalog
