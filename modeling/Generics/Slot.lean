import Generics.Catalog.Construct
import Generics.Name.Source

/-!
# Slots

The free slots of a descriptor are its free parameters in the order in which they
are written: depth first, from left to right, over the arguments.  A placeholder
is one slot, an argument that contains parameters brings its own slots, and an
argument that contains none is passed over.  A generic definition has the slots
of its placeholders.

## Main definitions

* `Catalog.slots` — how many slots there are.
* `Cursor` — a place in a list of arguments.
* `Catalog.substitute` — the slots filled from a cursor.
* `Catalog.apply` — the slots filled by a list of exactly that length.
* `ApplyError` — why that can fail.

## Main results

* `slots_param`, `slots_named`, `slots_constructed`, `slotsAll_cons` — the slots of
  a descriptor and of a list of arguments, case by case.
-/

namespace Generics

/-! ### Errors -/

/-- Why arguments cannot be put into the slots of a type. -/
inductive ApplyError where
  /-- The type has another number of slots. -/
  | arity (ty : Descriptor) (expected supplied : Nat)
  /-- The type has no slots. -/
  | notGeneric (ty : Descriptor)
  /-- The application cannot be built. -/
  | construct (cause : ResolveError)
  deriving DecidableEq, Repr

namespace ApplyError

/-- The message for a reader, in the catalog of the types. -/
def message (c : Catalog) : ApplyError → String
  | arity ty expected supplied =>
    "`" ++ c.sourceFullName ty ++ "` has " ++ toString expected ++ " free parameter slots but "
      ++ toString supplied ++ " arguments were supplied"
  | notGeneric ty => "`" ++ c.sourceFullName ty ++ "` has no free type parameters"
  | construct cause => cause.message

/-- The cause with its fields, texts in quotes. -/
def record (c : Catalog) : ApplyError → String
  | arity ty expected supplied =>
    "ArityMismatch \x7b name: " ++ Text.quote (c.sourceFullName ty) ++ ", expected: "
      ++ toString expected ++ ", supplied: " ++ toString supplied ++ " \x7d"
  | notGeneric ty => "NotGeneric \x7b name: " ++ Text.quote (c.sourceFullName ty) ++ " \x7d"
  | construct cause => "Catalog(" ++ cause.record ++ ")"

/-- The type that the message names. -/
def subject? : ApplyError → Option Descriptor
  | arity ty _ _ => some ty
  | notGeneric ty => some ty
  | construct _ => none

end ApplyError

/-! ### Cursors -/

/-- A place in a list of arguments: those before it have been taken. -/
structure Cursor where
  args : List Descriptor
  position : Nat := 0
  deriving DecidableEq, Repr

namespace Cursor

/-- The argument at the place of the cursor, and the cursor behind it. -/
def next? (cursor : Cursor) : Option (Descriptor × Cursor) :=
  cursor.args[cursor.position]?.map fun arg => (arg, { cursor with position := cursor.position + 1 })

/-- How many arguments have been taken. -/
def consumed (cursor : Cursor) : Nat :=
  cursor.position

/-- How many arguments are left. -/
def remaining (cursor : Cursor) : Nat :=
  cursor.args.length - cursor.position

/-- How many arguments there are altogether. -/
def length (cursor : Cursor) : Nat :=
  cursor.args.length

/-- There are no arguments at all. -/
def isEmpty (cursor : Cursor) : Bool :=
  cursor.args.isEmpty

end Cursor

namespace Catalog

/-! ### Counting -/

mutual

/-- The number of free slots. -/
def slots (c : Catalog) : Descriptor → Nat
  | .param _ _ => 1
  | .named id => (c.definition id).params.length
  | .constructed _ args => c.slotsAll args

/-- The number of free slots in some arguments: only those with free parameters
are counted. -/
def slotsAll (c : Catalog) : List Descriptor → Nat
  | [] => 0
  | a :: as => (if c.hasFree a then c.slots a else 0) + c.slotsAll as

end

@[simp] theorem slots_param (c : Catalog) (owner : DefId) (position : Nat) :
    c.slots (.param owner position) = 1 := by rw [slots]

@[simp] theorem slots_named (c : Catalog) (id : DefId) :
    c.slots (.named id) = (c.definition id).params.length := by rw [slots]

@[simp] theorem slots_constructed (c : Catalog) (id : DefId) (args : List Descriptor) :
    c.slots (.constructed id args) = c.slotsAll args := by rw [slots]

@[simp] theorem slotsAll_nil (c : Catalog) : c.slotsAll [] = 0 := rfl

theorem slotsAll_cons (c : Catalog) (a : Descriptor) (as : List Descriptor) :
    c.slotsAll (a :: as) = (if c.hasFree a then c.slots a else 0) + c.slotsAll as := by
  rw [slotsAll]

/-! ### Filling -/

/-- Steps that take arguments from a cursor.  The cursor keeps its place when a
step fails. -/
abbrev Filling := EStateM ApplyError Cursor

/-- The next argument, to fill the slot of a placeholder. -/
def fillSlot (owner : DefId) (position : Nat) : Filling Descriptor := fun cursor =>
  match cursor.next? with
  | some (arg, cursor) => .ok arg cursor
  | none => .error (.arity (.param owner position) (cursor.consumed + 1) cursor.length) cursor

/-- The next arguments, to fill the slots of some placeholders of `owner`. -/
def fillSlots (owner : DefId) : List Nat → Filling (List Descriptor)
  | [] => pure []
  | position :: positions => do
    let arg ← fillSlot owner position
    let args ← fillSlots owner positions
    pure (arg :: args)

/-- An application, as a step that takes no argument. -/
def buildGeneric (c : Catalog) (definition : DefId) (args : List Descriptor) :
    Filling Descriptor := fun cursor =>
  match c.makeGeneric (.named definition) args with
  | .ok ty => .ok ty cursor
  | .error cause => .error (.construct cause) cursor

mutual

/-- The slots of a descriptor filled from a cursor.  Every level with parameters
is built anew from its definition; arguments without parameters stay. -/
def substitute (c : Catalog) : Descriptor → Filling Descriptor
  | .param owner position => fillSlot owner position
  | .named id =>
    if (c.definition id).isGeneric then do
      let args ← fillSlots id (List.range (c.definition id).params.length)
      c.buildGeneric id args
    else pure (.named id)
  | .constructed id args => do
    let args ← c.substituteAll args
    c.buildGeneric id args

/-- The slots of some arguments filled from a cursor. -/
def substituteAll (c : Catalog) : List Descriptor → Filling (List Descriptor)
  | [] => pure []
  | a :: as =>
    if c.hasFree a then do
      let arg ← c.substitute a
      let args ← c.substituteAll as
      pure (arg :: args)
    else do
      let args ← c.substituteAll as
      pure (a :: args)

end

/-- A type with its slots filled by `args`, which must be as many.  A type without
slots is left as it is by no arguments. -/
def apply (c : Catalog) (ty : Descriptor) (args : List Descriptor) :
    Except ApplyError Descriptor :=
  if c.slots ty = 0 ∧ args = [] then .ok ty
  else if c.slots ty = args.length then
    match c.substitute ty { args } with
    | .ok result _ => .ok result
    | .error cause _ => .error cause
  else .error (.arity ty (c.slots ty) args.length)

end Catalog

end Generics
