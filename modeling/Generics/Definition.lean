import Generics.Builtin
import Generics.Descriptor
import Generics.Visibility

/-!
# Definitions

A definition is what a catalog keeps of a declared type.  A type declared inside
another one takes over the parameters of the enclosing type: they come first in
its parameter list, and `inherited` counts them.

## Main definitions

* `Definition` — a declared type.
* `Definition.ownParams` — the parameters it declares itself.
* `Definition.title`, `Definition.signature` — the texts that describe it.
* `declaredName` — a name with its arity suffix.
-/

namespace Generics

/-- A declared type. -/
structure Definition where
  /-- The namespace of the outermost enclosing type. -/
  nameSpace : Option String := none
  /-- The declared name, with the arity suffix of `declaredName`. -/
  name : String := ""
  /-- The type in which this one is declared. -/
  declaring : Option DefId := none
  /-- The names of all parameters, those of enclosing types first. -/
  params : List String := []
  /-- How many leading entries of `params` come from enclosing types. -/
  inherited : Nat := 0
  visibility : Visibility := .isPublic
  /-- The built-in type this is the declaration of. -/
  builtin : Option Builtin := none
  /-- The base type, over this definition's own placeholders. -/
  base : Option Descriptor := none
  deriving Repr, Inhabited

namespace Definition

/-- The parameters that the definition declares itself. -/
def ownParams (d : Definition) : List String :=
  d.params.drop d.inherited

/-- A definition with parameters is generic, wherever they were declared. -/
def isGeneric (d : Definition) : Bool :=
  !d.params.isEmpty

/-- The name, behind its namespace if the type is not nested in another one. -/
def title (d : Definition) : String :=
  match d.nameSpace, d.declaring with
  | some space, none => space ++ "." ++ d.name
  | _, _ => d.name

/-- The title followed by all parameters. -/
def signature (d : Definition) : String :=
  if d.isGeneric then d.title ++ "<" ++ ", ".intercalate d.params ++ ">" else d.title

theorem isGeneric_eq_true_iff {d : Definition} : d.isGeneric = true ↔ d.params ≠ [] := by
  simp [isGeneric]

theorem isGeneric_iff_pos {d : Definition} : d.isGeneric = true ↔ 0 < d.params.length := by
  rw [isGeneric_eq_true_iff, List.length_pos_iff]

/-- There is something for each parameter, so there is something. -/
theorem ne_nil_of_isGeneric {α : Type} {d : Definition} {args : List α} (h : d.isGeneric = true)
    (hargs : args.length = d.params.length) : args ≠ [] := by
  rw [← List.length_pos_iff, hargs]
  exact isGeneric_iff_pos.1 h

end Definition

/-- The name under which a type is declared: a type with parameters of its own
carries their number behind a backquote, so that types may share a name and
differ in arity. -/
def declaredName (name : String) (ownParams : Nat) : String :=
  if ownParams = 0 then name else name ++ "`" ++ toString ownParams

/-- A name up to its arity suffix. -/
def stripArity (name : String) : String :=
  String.ofList (name.toList.takeWhile (· != '`'))

end Generics
