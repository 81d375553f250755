/-!
# Visibility

Who may use a declared type.

## Main definitions

* `Visibility` — the five levels.
* `Visibility.text`, `Visibility.ofText?` — their spelling, and reading it back.

## Main results

* `Visibility.ofText?_eq_some_iff` — reading accepts exactly the five spellings.
-/

namespace Generics

/-- Who may use a declared type. -/
inductive Visibility where
  | isPublic
  | isInternal
  | isPrivate
  | isProtected
  | isProtectedInternal
  deriving DecidableEq, Repr, Inhabited

namespace Visibility

/-- The spelling of a visibility. -/
def text : Visibility → String
  | isPublic => "public"
  | isInternal => "internal"
  | isPrivate => "private"
  | isProtected => "protected"
  | isProtectedInternal => "protected internal"

/-- The visibility with a given spelling. -/
def ofText? : String → Option Visibility
  | "public" => some isPublic
  | "internal" => some isInternal
  | "private" => some isPrivate
  | "protected" => some isProtected
  | "protected internal" => some isProtectedInternal
  | _ => none

@[simp] theorem ofText?_text (v : Visibility) : ofText? v.text = some v := by
  cases v <;> rfl

/-- Reading accepts exactly the spellings. -/
theorem ofText?_eq_some_iff {s : String} {v : Visibility} : ofText? s = some v ↔ s = v.text := by
  constructor
  · intro h
    unfold ofText? at h
    split at h <;> first
      | cases h; rfl
      | cases h
  · rintro rfl
    exact ofText?_text v

/-- What is said of a text that is no spelling. -/
def unknownMessage (s : String) : String :=
  "unknown visibility `" ++ s ++ "`"

end Visibility

end Generics
