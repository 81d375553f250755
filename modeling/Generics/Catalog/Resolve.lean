import Generics.Catalog.Construct

/-!
# Resolving names

A type name becomes a descriptor by looking up the path at every node of it.
Inside the scope of a definition, a path without arguments may also be the name
of one of its parameters; a parameter goes before a type of the same path.

## Main definitions

* `Catalog.param?` — the parameter that a path names in a scope.
* `Catalog.resolveIn` — the descriptor of a type name in a scope.
* `Catalog.resolve` — reading and resolving a text.

## Main results

* `resolveIn_leaf`, `resolveIn_application` — the two kinds of node.
-/

namespace Generics.Catalog

/-- The parameter that a path names in a scope: of several parameters with that
name, the first. -/
def param? (c : Catalog) (scope : Option DefId) (path : String) : Option Descriptor :=
  scope.bind fun owner =>
    ((c.definition owner).params.findIdx? (· == path)).map (.param owner)

/-- The definition with a path, as a descriptor. -/
def resolvePath (c : Catalog) (path : String) : Except ResolveError Descriptor :=
  match c.lookup? path with
  | none => .error (.unknownType path)
  | some id => .ok (.named id)

mutual

/-- The descriptor of a type name.  The path is looked up first, then the
arguments are resolved from left to right, then the application is built. -/
def resolveIn (c : Catalog) (scope : Option DefId) : TypeName → Except ResolveError Descriptor
  | .node path [] =>
    match c.param? scope path with
    | some param => .ok param
    | none => c.resolvePath path
  | .node path (first :: others) => do
    let definition ← c.resolvePath path
    let firstArg ← c.resolveIn scope first
    let otherArgs ← c.resolveAllIn scope others
    c.makeGeneric definition (firstArg :: otherArgs)

/-- The descriptors of some type names. -/
def resolveAllIn (c : Catalog) (scope : Option DefId) :
    List TypeName → Except ResolveError (List Descriptor)
  | [] => .ok []
  | name :: names => do
    let ty ← c.resolveIn scope name
    let tys ← c.resolveAllIn scope names
    .ok (ty :: tys)

end

theorem resolveAllIn_eq_mapM (c : Catalog) (scope : Option DefId) (names : List TypeName) :
    c.resolveAllIn scope names = names.mapM (c.resolveIn scope) := by
  induction names with
  | nil => rfl
  | cons name names ih => rw [resolveAllIn, ih, List.mapM_cons]; rfl

/-- A path alone is a parameter of the scope, or else a definition. -/
theorem resolveIn_leaf (c : Catalog) (scope : Option DefId) (path : String) :
    c.resolveIn scope (.node path []) =
      match c.param? scope path with
      | some param => .ok param
      | none => c.resolvePath path := by rw [resolveIn]

/-- A path with arguments is a definition applied to the resolved arguments. -/
theorem resolveIn_application (c : Catalog) (scope : Option DefId) (path : String)
    {args : List TypeName} (h : args ≠ []) :
    c.resolveIn scope (.node path args) = (do
      let definition ← c.resolvePath path
      let args ← args.mapM (c.resolveIn scope)
      c.makeGeneric definition args) := by
  cases args with
  | nil => exact absurd rfl h
  | cons first others =>
    rw [resolveIn, resolveAllIn_eq_mapM, List.mapM_cons]
    simp only [bind_assoc, pure_bind]

/-- Reads a text as a type name and resolves it outside any scope. -/
def resolve (c : Catalog) (text : String) : Except ResolveError Descriptor :=
  match TypeName.read text with
  | .error cause => .error (.malformed cause)
  | .ok name => c.resolveIn none name

end Generics.Catalog
