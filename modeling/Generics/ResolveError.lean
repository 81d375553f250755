import Generics.TypeName.Reader

/-!
# Why a name does not resolve

## Main definitions

* `ResolveError` — the causes.
* `ResolveError.message` — the wording for a reader.
* `ResolveError.record` — the cause with its fields spelt out.
-/

namespace Generics

/-- Why a type name has no descriptor, or an application cannot be built. -/
inductive ResolveError where
  /-- The text is not a type name. -/
  | malformed (cause : TypeName.Malformed)
  /-- No definition has this path. -/
  | unknownType (path : String)
  /-- The definition `name` takes another number of arguments. -/
  | arity (name : String) (expected supplied : Nat)
  /-- What arguments were given to takes none. -/
  | notGeneric (name : String)
  deriving DecidableEq, Repr, Inhabited

namespace ResolveError

/-- The message for a reader. -/
def message : ResolveError → String
  | malformed cause => cause.message
  | unknownType path => "unknown type `" ++ path ++ "`"
  | arity name expected supplied =>
    "`" ++ name ++ "` takes " ++ toString expected ++ " type arguments but "
      ++ toString supplied ++ " were supplied"
  | notGeneric name => "`" ++ name ++ "` is not a generic type definition"

/-- The cause with its fields, texts in quotes. -/
def record : ResolveError → String
  | malformed cause =>
    "Malformed \x7b input: " ++ Text.quote cause.input ++ ", reason: " ++ Text.quote cause.reason
      ++ " \x7d"
  | unknownType path => "UnknownType(" ++ Text.quote path ++ ")"
  | arity name expected supplied =>
    "Arity \x7b name: " ++ Text.quote name ++ ", expected: " ++ toString expected
      ++ ", supplied: " ++ toString supplied ++ " \x7d"
  | notGeneric name => "NotGeneric(" ++ Text.quote name ++ ")"

end ResolveError

end Generics
