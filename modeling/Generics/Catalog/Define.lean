import Generics.Name.Source

/-!
# Declaring types

A catalog starts with the system definitions and grows by declarations.  A
declaration is refused when its path is taken; a base is refused when it has free
parameters other than those of the type it is the base of.  Each of them takes several
steps on the catalog, of which the first is the one that can fail.

## Main definitions

* `Catalog.initial` — the system definitions.
* `Declaring` — steps that change a catalog; `Declaring.outcome` and `Declaring.left`,
  what they come to and the catalog that they leave.
* `Declaring.define`, `Declaring.defineNested`, `Declaring.setBase` — the steps of a type
  of its own, of a type inside another one, and of the base of a type.
* `Catalog.define`, `Catalog.defineNested`, `Catalog.setBase` — what they come to.
* `Catalog.Reachable` — what these operations can build.

## Main results

* `Declaring.insert_eq`, `Declaring.setBase_eq` — all steps at once.
* `Catalog.bindsOnly_constructed` — an application binds what its arguments bind.
-/

namespace Generics

/-- Why a declaration is refused. -/
inductive DefineError where
  /-- The path belongs to another definition. -/
  | duplicate (path : String)
  /-- The base of `id` has free parameters that `id` does not declare. -/
  | foreignBase (id : DefId) (base : Descriptor)
  deriving DecidableEq, Repr

namespace Catalog

/-! ### Growing -/

/-- The catalog with one more definition at its end, found by `path` and declared
inside `outer`. -/
def add (c : Catalog) (path : String) (d : Definition) (outer : Option DefId) : Catalog where
  definitions := c.definitions.push d
  nesting :=
    match outer with
    | none => c.nesting
    | some outer => c.nesting.push (outer, ⟨c.size⟩)
  paths := c.paths.insert path ⟨c.size⟩

/-- The definitions that every catalog starts with. -/
def systemDefinitions : List Definition :=
  Builtin.all.map (fun builtin =>
    { nameSpace := some "System", name := builtin.typeName, builtin := some builtin })
  ++ [{ nameSpace := some "System", name := "DateTime" },
      { nameSpace := some "System", name := "Nullable`1", params := ["T"] }]

/-- The catalog of the system definitions. -/
def initial : Catalog :=
  systemDefinitions.foldl (fun c d => c.add ("System." ++ d.name) d none) {}

end Catalog

/-! ### Declarations, step by step -/

/-- Steps that change a catalog.  What a step has changed stays changed when a later one
fails. -/
abbrev Declaring := EStateM DefineError Catalog

namespace Declaring

variable {α : Type}

/-- Goes on if no definition has the path. -/
def checkFree (path : String) : Declaring Unit := fun c =>
  if c.paths.contains path then .error (.duplicate path) c else .ok () c

/-- Puts a definition at the end, and tells its number. -/
def addNode (d : Definition) : Declaring DefId := fun c =>
  .ok ⟨c.size⟩ { c with definitions := c.definitions.push d }

/-- Notes inside which definition another one is declared. -/
def addEdge (outer id : DefId) : Declaring Unit :=
  modify fun c => { c with nesting := c.nesting.push (outer, id) }

/-- Notes by which path a definition is found. -/
def addPath (path : String) (id : DefId) : Declaring Unit :=
  modify fun c => { c with paths := c.paths.insert path id }

/-- Puts a definition in, with its edge and its path, if the path is free. -/
def insert (path : String) (d : Definition) (outer : Option DefId) : Declaring DefId := do
  checkFree path
  let id ← addNode d
  if let some outer := outer then
    addEdge outer id
  addPath path id
  return id

/-- Declares a type that stands alone.  The arity suffix is added to the name
here. -/
def define (nameSpace : Option String) (name : String) (params : List String)
    (visibility : Visibility) : Declaring DefId :=
  let declared := declaredName name params.length
  let path :=
    match nameSpace with
    | some space => space ++ "." ++ declared
    | none => declared
  insert path { nameSpace, name := declared, params, visibility } none

/-- Declares a type inside another one.  It takes over the namespace of the
enclosing type, and its parameters ahead of its own. -/
def defineNested (outer : DefId) (name : String) (params : List String)
    (visibility : Visibility) : Declaring DefId := do
  let c ← get
  let enclosing := c.definition outer
  let declared := declaredName name params.length
  insert (c.path outer ++ "+" ++ declared)
    { nameSpace := enclosing.nameSpace
      name := declared
      declaring := some outer
      params := enclosing.params ++ params
      inherited := enclosing.params.length
      visibility }
    (some outer)

/-- What some steps come to: their result with the catalog as it is then, or why they
stopped. -/
def outcome (steps : Declaring α) (c : Catalog) : Except DefineError (α × Catalog) :=
  match steps c with
  | .ok result c' => .ok (result, c')
  | .error cause _ => .error cause

/-- The catalog that some steps leave, whether they come to their end or stop. -/
def left (steps : Declaring α) (c : Catalog) : Catalog :=
  match steps c with
  | .ok _ c' => c'
  | .error _ c' => c'

theorem outcome_get_bind (f : Catalog → Declaring α) (c : Catalog) :
    outcome (get >>= f) c = (f c).outcome c := rfl

/-- The path is looked up before anything is changed. -/
theorem insert_eq (path : String) (d : Definition) (outer : Option DefId) (c : Catalog) :
    insert path d outer c =
      if c.paths.contains path then .error (.duplicate path) c
      else .ok ⟨c.size⟩ (c.add path d outer) := by
  unfold insert checkFree
  cases htaken : c.paths.contains path with
  | true => simp only [bind, EStateM.bind, htaken, if_true]
  | false =>
    simp only [bind, EStateM.bind, htaken, Bool.false_eq_true, if_false]
    cases outer <;> rfl

end Declaring

namespace Catalog

/-- The catalog with one more definition, and its number, if the path is free. -/
def insert (c : Catalog) (path : String) (d : Definition) (outer : Option DefId) :
    Except DefineError (DefId × Catalog) :=
  (Declaring.insert path d outer).outcome c

/-- The catalog with one more type that stands alone, and its number. -/
def define (c : Catalog) (nameSpace : Option String) (name : String) (params : List String)
    (visibility : Visibility) : Except DefineError (DefId × Catalog) :=
  (Declaring.define nameSpace name params visibility).outcome c

/-- The catalog with one more type inside another one, and its number. -/
def defineNested (c : Catalog) (outer : DefId) (name : String) (params : List String)
    (visibility : Visibility) : Except DefineError (DefId × Catalog) :=
  (Declaring.defineNested outer name params visibility).outcome c

theorem insert_eq_ite (c : Catalog) (path : String) (d : Definition) (outer : Option DefId) :
    c.insert path d outer =
      if c.paths.contains path then .error (.duplicate path)
      else .ok (⟨c.size⟩, c.add path d outer) := by
  unfold insert Declaring.outcome
  rw [Declaring.insert_eq]
  cases c.paths.contains path <;> rfl

/-! ### Bases -/

mutual

/-- Every free parameter is a placeholder of `id`.  A definition that is not
applied counts as open, whichever it is. -/
def bindsOnly (c : Catalog) (id : DefId) : Descriptor → Bool
  | .param owner _ => owner == id
  | .named other => !(c.definition other).isGeneric
  | .constructed _ args => c.bindOnly id args

/-- Every free parameter of some descriptors is a placeholder of `id`. -/
def bindOnly (c : Catalog) (id : DefId) : List Descriptor → Bool
  | [] => true
  | a :: as => c.bindsOnly id a && c.bindOnly id as

end

theorem bindOnly_eq_all (c : Catalog) (id : DefId) (args : List Descriptor) :
    c.bindOnly id args = args.all (c.bindsOnly id) := by
  induction args with
  | nil => rfl
  | cons a as ih => rw [bindOnly, ih, List.all_cons]

@[simp] theorem bindsOnly_constructed (c : Catalog) (id definition : DefId)
    (args : List Descriptor) :
    c.bindsOnly id (.constructed definition args) = args.all (c.bindsOnly id) := by
  rw [bindsOnly, bindOnly_eq_all]

end Catalog

namespace Declaring

/-- Goes on if every free parameter of the base is a placeholder of `id`. -/
def checkBase (id : DefId) (base : Descriptor) : Declaring Unit := fun c =>
  if c.bindsOnly id base then .ok () c else .error (.foreignBase id base) c

/-- Declares the base of a type. -/
def setBase (id : DefId) (base : Descriptor) : Declaring Unit := do
  checkBase id base
  modify fun c => c.withBase id base

/-- The base is looked at before it is stored. -/
theorem setBase_eq (id : DefId) (base : Descriptor) (c : Catalog) :
    setBase id base c =
      if c.bindsOnly id base then .ok () (c.withBase id base)
      else .error (.foreignBase id base) c := by
  unfold setBase checkBase
  cases hbound : c.bindsOnly id base with
  | true =>
    simp only [bind, EStateM.bind, hbound, if_true]
    rfl
  | false => simp only [bind, EStateM.bind, hbound, Bool.false_eq_true, if_false]

end Declaring

namespace Catalog

/-- The catalog with the base of a type declared. -/
def setBase (c : Catalog) (id : DefId) (base : Descriptor) : Except DefineError Catalog :=
  ((Declaring.setBase id base).outcome c).map Prod.snd

theorem setBase_eq_ite (c : Catalog) (id : DefId) (base : Descriptor) :
    c.setBase id base =
      if c.bindsOnly id base then .ok (c.withBase id base) else .error (.foreignBase id base) := by
  unfold setBase Declaring.outcome
  rw [Declaring.setBase_eq]
  cases c.bindsOnly id base <;> rfl

/-! ### What can be built -/

/-- The catalogs that declarations can build from the initial one. -/
inductive Reachable : Catalog → Prop
  | initial : Reachable initial
  | define {c c' : Catalog} {id : DefId} {nameSpace : Option String} {name : String}
      {params : List String} {visibility : Visibility} (before : Reachable c)
      (step : c.define nameSpace name params visibility = .ok (id, c')) : Reachable c'
  | defineNested {c c' : Catalog} {id outer : DefId} {name : String} {params : List String}
      {visibility : Visibility} (before : Reachable c) (declared : c.Declares outer)
      (step : c.defineNested outer name params visibility = .ok (id, c')) : Reachable c'
  | setBase {c c' : Catalog} {id : DefId} {base : Descriptor} (before : Reachable c)
      (declared : c.Declares id) (step : c.setBase id base = .ok c') : Reachable c'

end Catalog

/-- The message for a refused declaration, in the catalog that refused it. -/
def DefineError.message (c : Catalog) : DefineError → String
  | duplicate path => "type `" ++ path ++ "` is already defined"
  | foreignBase id base =>
    "invalid catalog: base " ++ c.sourceFullName base ++ " of " ++ c.path id
      ++ " has free parameters it does not declare"

end Generics
