import Generics.Catalog.Path
import Generics.Catalog.Shape
import Generics.Name.Template

/-!
# Source names

The name of a type as an identifier of source text: keywords for built-in types,
`?` behind optional values, arguments in angle brackets.  The short name is the
innermost level alone; the full name shows the namespace behind `global::` and
every enclosing type with the arguments it declared itself.

## Main definitions

* `NameStyle` — short or full.
* `Catalog.ownSlice` — the arguments that belong to one level.
* `Catalog.template` — the source name with holes for its parameters.
* `Catalog.sourceName`, `Catalog.sourceFullName` — the names.
* `Catalog.isNameable` — every parameter to be shown has a name.

## Main results

* `templates_eq_map` — the templates of some descriptors are found one by one.
-/

namespace Generics

/-- How much of a type its source name shows. -/
inductive NameStyle where
  /-- The type alone. -/
  | short
  /-- The type with its namespace and its enclosing types. -/
  | full
  deriving DecidableEq, Repr, Inhabited

/-- The part of a flattened argument list that belongs to the parameters a
definition declares itself.  A list that is too short has no such part. -/
def Definition.ownSlice {α : Type} (d : Definition) (args : List α) : List α :=
  if d.params.length ≤ args.length then (args.take d.params.length).drop d.inherited else []

namespace Catalog

/-- One level of a name: the declared name, and behind it the arguments of that
level.  Enclosing levels take theirs from the same flattened list. -/
def levelTemplate (c : Catalog) (args : List Template) (level : DefId) : Template :=
  let d := c.definition level
  match d.ownSlice args with
  | [] => [.text (stripArity d.name)]
  | own => .text (stripArity d.name) :: .text "<" :: (Template.separate ", " own ++ [.text ">"])

/-- A definition with its arguments, level by level. -/
def levelsTemplate (c : Catalog) (style : NameStyle) (id : DefId) (args : List Template) :
    Template :=
  match style with
  | .short => c.levelTemplate args id
  | .full =>
    let levels := Template.separate "." ((c.enclosing id).map (c.levelTemplate args))
    match (c.definition (c.outermost id)).nameSpace with
    | some space => .text ("global::" ++ space ++ ".") :: levels
    | none => .text "global::" :: levels

/-- A definition with its arguments.  An optional value is its only argument with
a question mark. -/
def applicationTemplate (c : Catalog) (style : NameStyle) (id : DefId) (args : List Template) :
    Template :=
  match args with
  | [value] =>
    if id = .nullable then value ++ [.text "?"] else c.levelsTemplate style id [value]
  | _ => c.levelsTemplate style id args

mutual

/-- The source name of a descriptor, with holes for its parameters. -/
def template (c : Catalog) (style : NameStyle) : Descriptor → Template
  | .param owner position => [.hole owner position]
  | .named id =>
    match (c.definition id).builtin with
    | some builtin => [.text builtin.keyword]
    | none =>
      let holes := (List.range (c.definition id).params.length).map fun i => [Piece.hole id i]
      c.applicationTemplate style id holes
  | .constructed id args => c.applicationTemplate style id (c.templates style args)

/-- The source names of some descriptors. -/
def templates (c : Catalog) (style : NameStyle) : List Descriptor → List Template
  | [] => []
  | a :: as => c.template style a :: c.templates style as

end

theorem templates_eq_map (c : Catalog) (style : NameStyle) (args : List Descriptor) :
    c.templates style args = args.map (c.template style) := by
  induction args with
  | nil => rfl
  | cons a as ih => rw [templates, ih, List.map_cons]

@[simp] theorem template_param (c : Catalog) (style : NameStyle) (owner : DefId) (position : Nat) :
    c.template style (.param owner position) = [.hole owner position] := by rw [template]

theorem template_constructed (c : Catalog) (style : NameStyle) (id : DefId)
    (args : List Descriptor) : c.template style (.constructed id args) =
      c.applicationTemplate style id (args.map (c.template style)) := by
  rw [template, templates_eq_map]

/-- The type without its namespace and its enclosing types, such as
`Nested<T, bool>`. -/
def sourceName (c : Catalog) (ty : Descriptor) : String :=
  (c.template .short ty).write c.paramName

/-- The type with its namespace and its enclosing types, such as
`global::N.Parent<int>.Nested`. -/
def sourceFullName (c : Catalog) (ty : Descriptor) : String :=
  (c.template .full ty).write c.paramName

/-- Every placeholder that the full name shows belongs to a declared parameter.
Only descriptors put together by hand can fail this. -/
def isNameable (c : Catalog) (ty : Descriptor) : Bool :=
  (c.template .full ty).holes.all fun (owner, position) => c.hasParam owner position

end Catalog

end Generics
