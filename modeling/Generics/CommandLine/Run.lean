import Generics.Catalog.Load
import Generics.CommandLine.Options
import Generics.View

/-!
# Running a command line

The named type is taken through the steps that the options ask for, always in the
same order: base, unapply, partial application, application.  Then its names are
printed, and its nested types if they are wanted.  What has been printed when a step
fails stays printed, and the cause goes to the other output.

## Main definitions

* `Failure` — why a run fails.
* `Options.view` — the view that the steps lead to.
* `Program`, `printLine` — steps that print, and one line of output.
* `Options.program` — all that a run does.
* `Options.run` — the outcome, given the catalog or why it cannot be loaded.
-/

namespace Generics.CommandLine

/-- Why a run fails once the catalog is there. -/
inductive Failure where
  | resolve (cause : ResolveError)
  | apply (cause : ApplyError)
  | noBase (ty : View)
  | noArguments (ty : View)
  | alreadyClosed (ty : View)
  deriving DecidableEq, Repr

/-- The cause with its fields.  What has no fields is a text in quotes. -/
def Failure.record (c : Catalog) : Failure → String
  | resolve cause => cause.record
  | apply cause => cause.record c
  | noBase ty => Text.quote (ty.text c ++ " has no base type")
  | noArguments ty => Text.quote (ty.text c ++ " has no type arguments to unapply")
  | alreadyClosed ty => Text.quote (ty.text c ++ " is already closed")

namespace Options

/-- The sketches of some names, the first that does not resolve being reported. -/
def sketchAll (c : Catalog) (names : List String) : Except Failure (List Sketch) :=
  names.mapM fun name => (c.sketch name).mapError .resolve

/-- The base, if it is asked for. -/
def baseStep (o : Options) (c : Catalog) (v : View) : Except Failure View :=
  if o.base then
    match v.base c with
    | some base => .ok base
    | none => .error (.noBase v)
  else .ok v

/-- The definition without arguments, if it is asked for. -/
def unapplyStep (o : Options) (c : Catalog) (v : View) : Except Failure View :=
  if o.unapply then
    match v.unapply c with
    | some definition => .ok (.ofOpen definition)
    | none => .error (.noArguments v)
  else .ok v

/-- The slots filled with sketches, if there are any given. -/
def partialStep (o : Options) (c : Catalog) (v : View) : Except Failure View :=
  match o.sketches with
  | none => .ok v
  | some names => do
    let args ← sketchAll c names
    match v.applyPartial? c args with
    | none => .error (.alreadyClosed v)
    | some result => (result.map View.ofSketch).mapError .apply

/-- The slots filled with closed types, if it is asked for. -/
def applyStep (o : Options) (c : Catalog) (v : View) : Except Failure View :=
  match o.closed with
  | none => .ok v
  | some names => do
    let sketches ← sketchAll c names
    let args ← (sketches.mapM fun t : Sketch => t.apply c []).mapError .apply
    ((v.apply c args).map View.ofClosed).mapError .apply

/-- The view that the steps lead to. -/
def view (o : Options) (c : Catalog) : Except Failure View := do
  let sketch ← (c.sketch (o.typeName.getD "")).mapError .resolve
  let v ← o.baseStep c (.ofSketch sketch)
  let v ← o.unapplyStep c v
  let v ← o.partialStep c v
  o.applyStep c v

end Options

/-- The lines that describe a view.  A name that it does not have is shown by a
dash. -/
def viewLines (c : Catalog) (v : View) : List String :=
  let name := c.name v.raw
  ["kind:             " ++ v.kind,
   "name:             " ++ name.value,
   "full name:        " ++ name.fullName.getD "-",
   "namespace:        " ++ name.nameSpace.getD "-",
   "source name:      " ++ name.sourceName,
   "source full name: " ++ name.sourceFullName]

/-- The lines that list the nested types of a view. -/
def nestedLines (c : Catalog) (v : View) : List String :=
  (v.nested c .all).map fun inner => "nested:           " ++ c.sourceFullName inner.raw

/-! ### Output -/

/-- Steps that print.  The state is what has been printed so far, and it is kept when a
step fails with a cause. -/
abbrev Program := EStateM String String

/-- Prints a line. -/
def printLine (line : String) : Program Unit :=
  modify (· ++ (line ++ "\n"))

/-- Prints some lines. -/
def printLines : List String → Program Unit
  | [] => pure ()
  | line :: lines => do
    printLine line
    printLines lines

/-- Prints the lines of a view, and then those of its nested types if they are wanted. -/
def Options.printView (o : Options) (c : Catalog) (v : View) : Program Unit := do
  printLines (viewLines c v)
  if o.nested then printLines (nestedLines c v)

/-- Loads the catalog, takes the steps to the view, and prints it. -/
def Options.program (o : Options) (loaded : Except LoadError Catalog) : Program Unit := do
  let c ← ofExcept (loaded.mapError LoadError.record)
  let v ← ofExcept ((o.view c).mapError (Failure.record c))
  o.printView c v

/-- What a run leaves behind. -/
structure Outcome where
  code : Nat
  stdout : String
  stderr : String
  deriving DecidableEq, Repr

/-- The outcome of a run over a catalog that may not have loaded. -/
def Options.run (o : Options) (loaded : Except LoadError Catalog) : Outcome :=
  match (o.program loaded).run "" with
  | .ok _ out => { code := 0, stdout := out, stderr := "" }
  | .error cause out => { code := 1, stdout := out, stderr := "Error: " ++ cause ++ "\n" }

end Generics.CommandLine
