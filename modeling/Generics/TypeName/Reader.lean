import Generics.Text.Quoted
import Generics.TypeName.Basic
import Generics.TypeName.Parser

/-!
# Reading type names

The written form of a type name:

* a name is a path, and possibly a list of arguments behind it in brackets;
* a path is one or more characters that are neither blank nor a bracket nor a
  comma;
* arguments are separated by a comma, and separators may follow the comma;
* an argument is a name, or a name in brackets with possibly an assembly;
* an assembly is a comma, separators, and one or more characters up to the next
  closing bracket; it is read and dropped;
* the whole may be surrounded by separators and may end with an assembly.

The reader goes from left to right and keeps what it has read: an argument list
or an assembly that does not come to its end is left unread as a whole.

## Main definitions

* `isPathChar`, `IsPath` — what may stand in a path, and what a path is.
* `Reader.name`, `Reader.argument`, `Reader.arguments` — the parsers of the parts.
* `Reader.text` — the parser of a whole text.
* `TypeName.read` — a text as a type name.
* `Malformed` — why a text is not a type name.
-/

namespace Generics

namespace TypeName

/-- The characters of a path. -/
def isPathChar (c : Char) : Bool :=
  !Text.isBlank c && c != '[' && c != ']' && c != ','

/-- A path: one or more characters that are neither blank nor a bracket nor a comma. -/
def IsPath (w : List Char) : Prop :=
  w ≠ [] ∧ ∀ c ∈ w, Text.isBlank c = false ∧ c ≠ '[' ∧ c ≠ ']' ∧ c ≠ ','

theorem isPathChar_eq_true_iff {c : Char} : isPathChar c = true ↔
    Text.isBlank c = false ∧ c ≠ '[' ∧ c ≠ ']' ∧ c ≠ ',' := by
  simp [isPathChar, and_assoc]

theorem isPath_iff {w : List Char} : IsPath w ↔ w ≠ [] ∧ ∀ c ∈ w, isPathChar c = true := by
  simp only [IsPath, isPathChar_eq_true_iff]

instance : DecidablePred IsPath := fun w =>
  decidable_of_iff (w ≠ [] ∧ w.all isPathChar = true) (by rw [isPath_iff, List.all_eq_true])

namespace Reader

open Generics.TypeName.Parser

/-- The path of a definition. -/
def path : Parser String := do
  let w ← takeWhile1 isPathChar
  pure (String.ofList w)

/-- A comma, and the separators behind it. -/
def comma : Parser Unit := do
  let _ ← char ','
  separators

/-- The text of an assembly. -/
def assembly : Parser (List Char) := do
  comma
  takeTill1 (· == ']')

section Arguments

variable (name : Parser TypeName)

/-- An argument in brackets, where `name` reads a name. -/
def bracketedArgument : Parser TypeName := do
  let _ ← char '['
  let t ← name
  let _ ← optional assembly
  let _ ← char ']'
  pure t

/-- One argument. -/
def argument : Parser TypeName :=
  orElse (bracketedArgument name) name

/-- An argument list with its brackets. -/
def arguments : Parser (List TypeName) := do
  let _ ← char '['
  let ts ← separated comma (argument name)
  let _ ← char ']'
  pure ts

end Arguments

/-- A name in which arguments are nested less than `depth` deep. -/
def name : (depth : Nat) → Parser TypeName
  | 0 => fun s => .error ⟨s, .takeWhile1⟩
  | depth + 1 => do
    let head ← path
    let args ← optional (arguments (name depth))
    pure (.node head (args.getD []))

/-- A name, and an assembly that may be absent. -/
def qualified (depth : Nat) : Parser TypeName := do
  let t ← name depth
  let _ ← optional assembly
  pure t

/-- A whole text, which may have separators at both ends. -/
def text (depth : Nat) : Parser TypeName :=
  whole do
    separators
    let t ← qualified depth
    separators
    pure t

end Reader

/-! ### The whole text -/

/-- A text that is not a type name, with the rule that it does not meet. -/
structure Malformed where
  input : String
  miss : Miss
  deriving DecidableEq, Repr, Inhabited

/-- Reads a type name.  A level of nesting takes a bracket from the text, so the
length of the text bounds the depth. -/
def read (input : String) : Except Malformed TypeName :=
  match Reader.text (input.toList.length + 1) input.toList with
  | .ok (t, _) => .ok t
  | .error miss => .error ⟨input, miss⟩

/-- What is wrong, and where. -/
def Malformed.reason (e : Malformed) : String :=
  "Parsing Error: Error \x7b input: " ++ Text.quote (String.ofList e.miss.rest)
    ++ (", code: " ++ e.miss.rule.code ++ " \x7d")

theorem Malformed.reason_mk (input : String) (rest : List Char) (rule : Rule) :
    (mk input ⟨rest, rule⟩).reason = "Parsing Error: Error \x7b input: "
      ++ Text.quote (String.ofList rest) ++ (", code: " ++ rule.code ++ " \x7d") := rfl

/-- The message for a text that is not a type name. -/
def Malformed.message (e : Malformed) : String :=
  "malformed type name `" ++ e.input ++ "`: " ++ e.reason

end TypeName

end Generics
