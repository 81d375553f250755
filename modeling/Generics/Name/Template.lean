import Generics.Descriptor

/-!
# Name templates

The source name of a type that still has parameters is a text with holes: each
hole shows the name of a parameter until an argument takes its place.  A template
keeps the holes apart from the text around them.

## Main definitions

* `Template` — a sequence of pieces, each a text or a hole.
* `Template.holes` — the holes, from left to right.
* `Template.write` — the text, given a name for each hole.
* `Template.separate` — templates put in a row.

## Main results

* `Template.write_append`, `Template.write_separate` — writing goes piece by
  piece.
-/

namespace Generics

/-- A part of a template. -/
inductive Piece where
  | text (s : String)
  /-- The place of a parameter of `owner`. -/
  | hole (owner : DefId) (position : Nat)
  deriving DecidableEq, Repr

/-- A text with holes for parameters. -/
abbrev Template := List Piece

namespace Template

/-- The holes of a template, from left to right. -/
def holes : Template → List (DefId × Nat)
  | [] => []
  | .text _ :: rest => holes rest
  | .hole owner position :: rest => (owner, position) :: holes rest

/-- The text of a template in which each hole shows the name of its parameter. -/
def write (paramName : DefId → Nat → String) : Template → String
  | [] => ""
  | .text s :: rest => s ++ write paramName rest
  | .hole owner position :: rest => paramName owner position ++ write paramName rest

/-- Templates in a row, with a text between neighbours. -/
def separate (between : String) : List Template → Template
  | [] => []
  | [t] => t
  | t :: u :: rest => t ++ .text between :: separate between (u :: rest)

variable (paramName : DefId → Nat → String)

@[simp] theorem write_nil : write paramName [] = "" := rfl

@[simp] theorem write_text (s : String) (rest : Template) :
    write paramName (.text s :: rest) = s ++ write paramName rest := rfl

@[simp] theorem write_hole (owner : DefId) (position : Nat) (rest : Template) :
    write paramName (.hole owner position :: rest)
      = paramName owner position ++ write paramName rest := rfl

@[simp] theorem write_append (t u : Template) :
    write paramName (t ++ u) = write paramName t ++ write paramName u := by
  induction t with
  | nil => simp
  | cons piece rest ih => cases piece <;> simp [ih, String.append_assoc]

theorem write_separate (between : String) (ts : List Template) :
    write paramName (separate between ts)
      = between.intercalate (ts.map (write paramName)) := by
  fun_induction separate between ts with
  | case1 => simp
  | case2 t => simp
  | case3 t u rest ih => simp [ih, String.intercalate_cons_cons, String.append_assoc]

@[simp] theorem holes_nil : holes [] = [] := rfl

@[simp] theorem holes_append (t u : Template) : holes (t ++ u) = holes t ++ holes u := by
  induction t with
  | nil => rfl
  | cons piece rest ih => cases piece <;> simp [holes, ih]

end Template

end Generics
