import Generics.Catalog.Resolve
import Generics.Name.Basic
import Generics.Slot

/-!
# Views of a type

A descriptor may still contain parameters where a concrete type is wanted.  Three
kinds of view tell in their types what is known of it: a *sketch* promises
nothing, a *closed* view has no free parameter, an *open* view is a generic
definition.  A closed view comes from applying arguments, or is the base of a
closed view; an open one comes from taking arguments away.  Neither is made in
another way.

## Main definitions

* `Sketch`, `Closed`, `Open`, `View` — the kinds, and any of them.
* `Catalog.sketch`, `Catalog.sketch?` — the sketch of a written name.
* `View.apply`, `View.applyPartial?` — the free slots filled by closed types, or
  by sketches.
* `View.unapply` — the definition without its arguments.
* `View.base` — the base type.
* `View.nested` — the types declared inside.
-/

namespace Generics

/-- A type of which nothing is promised. -/
structure Sketch where
  raw : Descriptor
  deriving DecidableEq, Repr

/-- A type without free parameters. -/
structure Closed where
  raw : Descriptor
  deriving DecidableEq, Repr

/-- A generic definition. -/
structure Open where
  raw : Descriptor
  deriving DecidableEq, Repr

/-- The sketch of what a name resolves to. -/
def Catalog.sketch (c : Catalog) (name : String) : Except ResolveError Sketch :=
  match c.resolve name with
  | .ok raw => .ok ⟨raw⟩
  | .error cause => .error cause

/-- The sketch of what a name resolves to, if it does. -/
def Catalog.sketch? (c : Catalog) (name : String) : Option Sketch :=
  (c.sketch name).toOption

/-! ### The steps, on descriptors -/

namespace Catalog

/-- The slots filled by closed types: the result is closed. -/
def applyClosed (c : Catalog) (raw : Descriptor) (args : List Closed) : Except ApplyError Closed :=
  match c.apply raw (args.map Closed.raw) with
  | .ok result => .ok ⟨result⟩
  | .error cause => .error cause

/-- The slots filled by types that may have slots themselves.  There must be a
slot to fill. -/
def applySketches (c : Catalog) (raw : Descriptor) (args : List Sketch) :
    Except ApplyError Sketch :=
  if c.hasFree raw then
    match c.apply raw (args.map Sketch.raw) with
    | .ok result => .ok ⟨result⟩
    | .error cause => .error cause
  else .error (.notGeneric raw)

/-- The definition behind a type that has arguments, whatever they are. -/
def unapplied (c : Catalog) (raw : Descriptor) : Option Open :=
  if (c.arguments raw).isEmpty then none
  else (c.genericDefinition? raw).map Open.mk

/-- The types declared inside a type, as sketches. -/
def nestedSketches (c : Catalog) (filter : NestedFilter) (raw : Descriptor) : List Sketch :=
  (c.nestedTypes filter raw).map Sketch.mk

end Catalog

/-! ### The three kinds -/

namespace Sketch

/-- Every free slot filled by a closed type. -/
def apply (c : Catalog) (t : Sketch) (args : List Closed) : Except ApplyError Closed :=
  c.applyClosed t.raw args

/-- Every free slot filled by a sketch. -/
def applyPartial (c : Catalog) (t : Sketch) (args : List Sketch) : Except ApplyError Sketch :=
  c.applySketches t.raw args

/-- The generic definition; a type without arguments has none. -/
def unapply (c : Catalog) (t : Sketch) : Option Open :=
  c.unapplied t.raw

/-- The base type. -/
def base (c : Catalog) (t : Sketch) : Option Sketch :=
  (c.baseType t.raw).map mk

end Sketch

/-- What the base of a closed type can turn out to be. -/
inductive ClosedBase where
  /-- There is no base. -/
  | absent
  /-- The base has free parameters, so it cannot be told of a closed type. -/
  | notClosed (base : Descriptor)
  | found (base : Closed)
  deriving DecidableEq, Repr

/-- The base, if one was found. -/
def ClosedBase.toOption : ClosedBase → Option Closed
  | found base => some base
  | _ => none

namespace Closed

/-- Arguments applied to a closed type; there are no slots for any. -/
def apply (c : Catalog) (t : Closed) (args : List Closed) : Except ApplyError Closed :=
  c.applyClosed t.raw args

/-- The generic definition; a type without arguments has none. -/
def unapply (c : Catalog) (t : Closed) : Option Open :=
  c.unapplied t.raw

/-- What the base of a closed type turns out to be. -/
def findBase (c : Catalog) (t : Closed) : ClosedBase :=
  match c.baseType t.raw with
  | none => .absent
  | some base => if c.hasFree base then .notClosed base else .found ⟨base⟩

/-- The base of a closed type.  A base with free parameters counts as absent. -/
def base (c : Catalog) (t : Closed) : Option Closed :=
  (t.findBase c).toOption

end Closed

namespace Open

/-- Every parameter replaced by a closed type. -/
def apply (c : Catalog) (t : Open) (args : List Closed) : Except ApplyError Closed :=
  c.applyClosed t.raw args

/-- Every parameter replaced by a sketch. -/
def applyPartial (c : Catalog) (t : Open) (args : List Sketch) : Except ApplyError Sketch :=
  c.applySketches t.raw args

/-- The same type with nothing promised. -/
def toSketch (t : Open) : Sketch :=
  ⟨t.raw⟩

end Open

/-! ### Any kind -/

/-- A view of any kind. -/
inductive View where
  | ofSketch (t : Sketch)
  | ofClosed (t : Closed)
  | ofOpen (t : Open)
  deriving DecidableEq, Repr

namespace View

/-- The type that is viewed. -/
def raw : View → Descriptor
  | ofSketch t => t.raw
  | ofClosed t => t.raw
  | ofOpen t => t.raw

/-- The word for the kind of a view. -/
def kind : View → String
  | ofSketch _ => "sketch"
  | ofClosed _ => "closed"
  | ofOpen _ => "open"

/-- The same type with nothing promised. -/
def toSketch (v : View) : Sketch :=
  ⟨v.raw⟩

/-- Every free slot filled by a closed type. -/
def apply (c : Catalog) (v : View) (args : List Closed) : Except ApplyError Closed :=
  match v with
  | ofSketch t => t.apply c args
  | ofClosed t => t.apply c args
  | ofOpen t => t.apply c args

/-- Every free slot filled by a sketch.  A closed view has no such step. -/
def applyPartial? (c : Catalog) (v : View) (args : List Sketch) :
    Option (Except ApplyError Sketch) :=
  match v with
  | ofSketch t => some (t.applyPartial c args)
  | ofClosed _ => none
  | ofOpen t => some (t.applyPartial c args)

/-- The generic definition; an open view is one already. -/
def unapply (c : Catalog) : View → Option Open
  | ofSketch t => t.unapply c
  | ofClosed t => t.unapply c
  | ofOpen t => some t

/-- The base type.  The base of a closed view is closed, any other is a sketch. -/
def base (c : Catalog) : View → Option View
  | ofSketch t => (t.base c).map ofSketch
  | ofClosed t => (t.base c).map ofClosed
  | ofOpen t => (t.toSketch.base c).map ofSketch

/-- The closed type of a view; one that is not closed yet is closed by applying
no arguments. -/
def close (c : Catalog) : View → Except ApplyError Closed
  | ofClosed t => .ok t
  | v => v.apply c []

/-- The types declared inside. -/
def nested (c : Catalog) (filter : NestedFilter) (v : View) : List Sketch :=
  c.nestedSketches filter v.raw

/-- The source text of the type. -/
def text (c : Catalog) (v : View) : String :=
  c.sourceFullName v.raw

/-- The source text with the kind of the view around it. -/
def label (c : Catalog) (v : View) : String :=
  match v with
  | ofSketch _ => "Sketch(TypeSketch(" ++ v.text c ++ "))"
  | ofClosed _ => "Closed(ClosedType(" ++ v.text c ++ "))"
  | ofOpen _ => "Open(OpenType(" ++ v.text c ++ "))"

/-- Two views are the same if they are of one kind and written the same. -/
def same (c : Catalog) (v w : View) : Bool :=
  match v, w with
  | ofSketch s, ofSketch t => c.sameName s.raw t.raw
  | ofClosed s, ofClosed t => c.sameName s.raw t.raw
  | ofOpen s, ofOpen t => c.sameName s.raw t.raw
  | _, _ => false

end View

end Generics
