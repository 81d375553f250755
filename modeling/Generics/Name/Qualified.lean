import Generics.Catalog.Path
import Generics.Catalog.Shape

/-!
# Names in a catalog

The names by which a catalog knows a type.  The simple name is the declared one;
the qualified name can be resolved again, and a type without one cannot be found
by name.

## Main definitions

* `Catalog.simpleName` — the declared name.
* `Catalog.qualifiedName?` — the path with the qualified names of the arguments.

## Main results

* `qualifiedNames?_eq_mapM` — the names of some arguments, or none.
-/

namespace Generics.Catalog

/-- The declared name with its arity suffix; a placeholder has the name of its
parameter. -/
def simpleName (c : Catalog) : Descriptor → String
  | .named id => (c.definition id).name
  | .param owner position => c.paramName owner position
  | .constructed id _ => (c.definition id).name

mutual

/-- The name that resolves to a descriptor.  Placeholders have none, nor have
types that contain parameters without being a definition. -/
def qualifiedName? (c : Catalog) : Descriptor → Option String
  | .param _ _ => none
  | .named id => some (c.path id)
  | .constructed id args =>
    if c.anyFree args then none
    else (c.qualifiedNames? args).map fun names =>
      c.path id ++ "[" ++ ",".intercalate (names.map fun name => "[" ++ name ++ "]") ++ "]"

/-- The names of some descriptors, if all have one. -/
def qualifiedNames? (c : Catalog) : List Descriptor → Option (List String)
  | [] => some []
  | a :: as =>
    match c.qualifiedName? a, c.qualifiedNames? as with
    | some name, some names => some (name :: names)
    | _, _ => none

end

theorem qualifiedNames?_eq_mapM (c : Catalog) (args : List Descriptor) :
    c.qualifiedNames? args = args.mapM c.qualifiedName? := by
  induction args with
  | nil => rfl
  | cons a as ih =>
    rw [qualifiedNames?, ih, List.mapM_cons]
    cases c.qualifiedName? a with
    | none => rfl
    | some name => cases List.mapM c.qualifiedName? as <;> rfl

end Generics.Catalog
