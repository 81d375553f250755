import Generics.Catalog.Define
import Generics.Catalog.Resolve
import Generics.Json.Printer
import Generics.Json.Reader

/-!
# Loading catalogs

A catalog can be written as a JSON document: an object whose `types` are entries,
each a type with

* `name`, its declared name without arity suffix;
* `namespace`, for entries that are not nested in another one;
* `params`, the names of its own parameters;
* `visibility`, one of the spellings of `Visibility`;
* `base`, the name of its base type;
* `nested`, the entries of the types inside it.

Only the name is needed.  Types are declared in the order of the document, each
before those inside it.  A base may name a type that is declared later, so bases
are resolved when all types are there, each in the scope of its own type.

## Main definitions

* `SchemaError`, `LoadError` — what can be wrong with a document.
* `Catalog.declareEntry` — one entry with everything inside it.
* `Catalog.ofJson`, `Catalog.ofText` — the catalog that a document describes.
-/

namespace Generics

/-! ### Errors -/

/-- A document that is not as it should be. -/
inductive SchemaError where
  | typesNotArray
  | unnamedEntry (entry : Json)
  | paramsNotArray (name : String)
  | paramNotString (name : String)
  | visibilityNotString (name : String)
  | unknownVisibility (text : String)
  | baseNotString (name : String)
  | nestedNotArray (name : String)
  /-- The base of the type at `path` has free parameters of other types. -/
  | foreignBase (base path : String)

/-- What is wrong with the document. -/
def SchemaError.message : SchemaError → String
  | typesNotArray => "`types` must be an array"
  | unnamedEntry entry => "type entry without a name: " ++ entry.text
  | paramsNotArray name => "`params` of " ++ name ++ " must be an array"
  | paramNotString name => "parameter of " ++ name ++ " must be a string"
  | visibilityNotString name => "`visibility` of " ++ name ++ " must be a string"
  | unknownVisibility text => Visibility.unknownMessage text
  | baseNotString name => "`base` of " ++ name ++ " must be a type name"
  | nestedNotArray name => "`nested` of " ++ name ++ " must be an array"
  | foreignBase base path =>
    "base " ++ base ++ " of " ++ path ++ " has free parameters it does not declare"

/-- Why a catalog cannot be loaded. -/
inductive LoadError where
  /-- There is no such file. -/
  | missingFile
  /-- The text is not JSON. -/
  | malformedJson
  | schema (cause : SchemaError)
  /-- Two types have one path. -/
  | duplicate (path : String)
  /-- The name of a base does not resolve. -/
  | resolve (cause : ResolveError)

namespace LoadError

/-- A refused declaration, in the catalog that refused it. -/
def ofDefine (c : Catalog) : DefineError → LoadError
  | .duplicate path => duplicate path
  | .foreignBase id base => schema (.foreignBase (c.sourceFullName base) (c.path id))

/-- The message for a reader. -/
def message : LoadError → String
  | missingFile => "cannot read catalog: No such file or directory (os error 2)"
  | malformedJson => "invalid catalog json"
  | schema cause => "invalid catalog: " ++ cause.message
  | duplicate path => "type `" ++ path ++ "` is already defined"
  | resolve cause => cause.message

/-- The cause with its fields, texts in quotes. -/
def record : LoadError → String
  | missingFile =>
    "Io(Os \x7b code: 2, kind: NotFound, message: " ++ Text.quote "No such file or directory"
      ++ " \x7d)"
  | malformedJson => "Json"
  | schema cause => "Schema(" ++ Text.quote cause.message ++ ")"
  | duplicate path => "Duplicate(" ++ Text.quote path ++ ")"
  | resolve cause => "Resolve(" ++ cause.record ++ ")"

end LoadError

namespace Catalog

/-! ### Entries -/

/-- What an entry says of its type, apart from its base and the types inside. -/
structure EntryHead where
  name : String
  params : List String
  visibility : Visibility
  deriving DecidableEq, Repr

/-- The names of parameters; `name` is that of the type. -/
def paramNames (name : String) : List Json → Except SchemaError (List String)
  | [] => .ok []
  | .string param :: rest => (paramNames name rest).map (param :: ·)
  | _ :: _ => .error (.paramNotString name)

/-- Name, parameters and visibility of an entry. -/
def readHead (entry : Json) : Except SchemaError EntryHead := do
  let name ←
    match (entry.get? "name").bind Json.string? with
    | some name => .ok name
    | none => .error (.unnamedEntry entry)
  let params ←
    match entry.get? "params" with
    | none => .ok []
    | some (.array params) => paramNames name params
    | some _ => .error (.paramsNotArray name)
  let visibility ←
    match entry.get? "visibility" with
    | none => .ok .isPublic
    | some (.string text) =>
      match Visibility.ofText? text with
      | some visibility => .ok visibility
      | none => .error (.unknownVisibility text)
    | some _ => .error (.visibilityNotString name)
  .ok { name, params, visibility }

/-- The base of an entry, if it has one; `name` is that of the type. -/
def readBase (name : String) (entry : Json) : Except SchemaError (Option String) :=
  match entry.get? "base" with
  | none => .ok none
  | some (.string base) => .ok (some base)
  | some _ => .error (.baseNotString name)

/-! ### Declaring the types of a document -/

/-- A catalog under construction: the types so far, and the bases to be set when
all types are there, in the order of their types. -/
structure Draft where
  catalog : Catalog
  bases : List (DefId × String) := []

/-- Declares the type of an entry without those inside it, and notes its base. -/
def declareHead (draft : Draft) (outer : Option DefId) (entry : Json) :
    Except LoadError (DefId × EntryHead × Draft) := do
  let head ← (readHead entry).mapError .schema
  let (id, catalog) ←
    match outer with
    | none =>
      (draft.catalog.define ((entry.get? "namespace").bind Json.string?) head.name head.params
        head.visibility).mapError (.ofDefine draft.catalog)
    | some outer =>
      (draft.catalog.defineNested outer head.name head.params
        head.visibility).mapError (.ofDefine draft.catalog)
  let base ← (readBase head.name entry).mapError .schema
  .ok (id, head, { catalog, bases := draft.bases ++ (base.map fun base => (id, base)).toList })

mutual

/-- Declares the type of an entry and then the types inside it. -/
def declareEntry (outer : Option DefId) (draft : Draft) : Json → Except LoadError Draft
  | .object fields => do
    let (id, head, draft) ← declareHead draft outer (.object fields)
    declareNested id head.name draft fields
  | entry => .error (.schema (.unnamedEntry entry))

/-- Declares the entries under the key `nested`, if there is one among the fields
of the type `id`. -/
def declareNested (id : DefId) (name : String) (draft : Draft) :
    List (String × Json) → Except LoadError Draft
  | [] => .ok draft
  | (key, .array entries) :: rest =>
    if key = "nested" then declareAll (some id) draft entries
    else declareNested id name draft rest
  | (key, _) :: rest =>
    if key = "nested" then .error (.schema (.nestedNotArray name))
    else declareNested id name draft rest

/-- Declares some entries one after the other. -/
def declareAll (outer : Option DefId) (draft : Draft) : List Json → Except LoadError Draft
  | [] => .ok draft
  | entry :: entries => do
    let draft ← declareEntry outer draft entry
    declareAll outer draft entries

end

/-! ### Bases -/

/-- Resolves the written base of a type in its own scope, and sets it. -/
def setWrittenBase (c : Catalog) (id : DefId) (base : String) : Except LoadError Catalog := do
  let name ← (TypeName.read base).mapError fun cause => .resolve (.malformed cause)
  let ty ← (c.resolveIn (some id) name).mapError .resolve
  (c.setBase id ty).mapError (.ofDefine c)

/-- Sets written bases one after the other. -/
def setWrittenBases (c : Catalog) : List (DefId × String) → Except LoadError Catalog
  | [] => .ok c
  | (id, base) :: rest => do
    let c ← c.setWrittenBase id base
    c.setWrittenBases rest

/-! ### Documents -/

/-- The catalog that a document describes. -/
def ofJson (document : Json) : Except LoadError Catalog :=
  match document.get? "types" with
  | some (.array entries) => do
    let draft ← declareAll none { catalog := initial } entries
    draft.catalog.setWrittenBases draft.bases
  | _ => .error (.schema .typesNotArray)

/-- The catalog that a text describes. -/
def ofText (text : String) : Except LoadError Catalog :=
  match Json.read text with
  | none => .error .malformedJson
  | some document => ofJson document

end Catalog

end Generics
