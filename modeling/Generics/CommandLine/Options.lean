/-!
# Command-line options

    --catalog FILE     the catalog to read
    --base             take the base type first
    --unapply          take the arguments away
    --partial TYPE…    fill the slots with types that may have slots themselves
    --apply TYPE…      fill the slots with closed types
    --nested           list the nested types

with one more argument, the name of a type.  The values of `--partial` and
`--apply` are all arguments up to the next one that begins with a dash; both may
be given more than once, and their values add up.  `--apply` may stand without
values, `--partial` may not.  `--option=value` gives a single value, and after
`--` no argument is an option.

## Main definitions

* `Word` — an argument by its form.
* `Options` — what the arguments say.
* `Options.ofArgs?` — reading them; nothing else is accepted.
-/

namespace Generics.CommandLine

/-- An argument by its form. -/
inductive Word where
  | value (text : String)
  /-- Two dashes, after which all arguments are values. -/
  | valuesOnly
  /-- Two dashes and a name, and possibly a value behind an equals sign. -/
  | option (name : String) (attached : Option String)
  /-- A dash and something behind it. -/
  | unknown
  deriving DecidableEq, Repr

/-- The form of an argument.  A dash alone is a value. -/
def Word.ofArg (arg : String) : Word :=
  match arg.toList with
  | ['-', '-'] => valuesOnly
  | '-' :: '-' :: rest =>
    let name := String.ofList (rest.takeWhile (· != '='))
    match rest.dropWhile (· != '=') with
    | _ :: attached => option name (some (String.ofList attached))
    | [] => option name none
  | '-' :: _ :: _ => unknown
  | _ => value arg

/-- What the arguments say. -/
structure Options where
  catalog : Option String := none
  typeName : Option String := none
  base : Bool := false
  unapply : Bool := false
  nested : Bool := false
  /-- The values of `--partial`, if it is given. -/
  sketches : Option (List String) := none
  /-- The values of `--apply`, if it is given. -/
  closed : Option (List String) := none
  deriving DecidableEq, Repr

namespace Options

/-- What the next value belongs to. -/
inductive Taker where
  /-- It is the name of the type. -/
  | typeName
  | catalog
  | closed
  /-- Values of `--partial`; whether there has been one. -/
  | sketches (given : Bool)
  deriving DecidableEq, Repr

/-- No value is missing. -/
def Taker.isSatisfied : Taker → Bool
  | typeName | closed | sketches true => true
  | catalog | sketches false => false

/-- The options with one more value. -/
def take (o : Options) (text : String) : Taker → Option (Options × Taker)
  | .typeName =>
    if o.typeName.isSome then none else some ({ o with typeName := some text }, .typeName)
  | .catalog =>
    if o.catalog.isSome then none else some ({ o with catalog := some text }, .typeName)
  | .closed => some ({ o with closed := some (o.closed.getD [] ++ [text]) }, .closed)
  | .sketches _ =>
    some ({ o with sketches := some (o.sketches.getD [] ++ [text]) }, .sketches true)

/-- The options with an option given, and what takes the values behind it.  A
value that is attached to an option is its only one. -/
def give (o : Options) (name : String) (attached : Option String) : Option (Options × Taker) :=
  match name, attached with
  | "base", none => if o.base then none else some ({ o with base := true }, .typeName)
  | "unapply", none => if o.unapply then none else some ({ o with unapply := true }, .typeName)
  | "nested", none => if o.nested then none else some ({ o with nested := true }, .typeName)
  | "catalog", none => some (o, .catalog)
  | "apply", none => some ({ o with closed := some (o.closed.getD []) }, .closed)
  | "partial", none => some ({ o with sketches := some (o.sketches.getD []) }, .sketches false)
  | "catalog", some text => (o.take text .catalog).map fun (o, _) => (o, .typeName)
  | "apply", some text => (o.take text .closed).map fun (o, _) => (o, .typeName)
  | "partial", some text => (o.take text (.sketches false)).map fun (o, _) => (o, .typeName)
  | _, _ => none

/-- The options with values that belong to no option. -/
def takeValues (o : Options) : List String → Option Options
  | [] => some o
  | text :: rest =>
    match o.take text .typeName with
    | some (o, _) => o.takeValues rest
    | none => none

/-- The options with more arguments, of which the first value goes to `taker`. -/
def takeArgs (o : Options) (taker : Taker) : List String → Option Options
  | [] => if taker.isSatisfied then some o else none
  | arg :: rest =>
    match Word.ofArg arg with
    | .value text =>
      match o.take text taker with
      | some (o, taker) => o.takeArgs taker rest
      | none => none
    | .valuesOnly => if taker.isSatisfied then o.takeValues rest else none
    | .option name attached =>
      if taker.isSatisfied then
        match o.give name attached with
        | some (o, taker) => o.takeArgs taker rest
        | none => none
      else none
    | .unknown => none

/-- The options that some arguments give, which must contain a type name. -/
def ofArgs? (args : List String) : Option Options :=
  (takeArgs {} .typeName args).filter fun o => o.typeName.isSome

end Options

end Generics.CommandLine
