import Generics.Proofs.Applying

/-!
# Names in a scope

A type name resolves if each of its nodes can stand for something: a path alone for a
parameter of the scope or for a definition, a path with arguments for a generic definition
that takes as many.  If some nodes cannot, the name has several errors, and one of them is
reported: the first that the walk over the name meets.  The walk comes to each node twice,
before its arguments, when the path is looked up, and behind them, when the definition is
applied.

## Main definitions

* `TypeName.nodes`, `TypeName.visits` — the nodes of a name, and the walk over it.
* `Catalog.NodeResolves` — what is asked of a node.
* `Catalog.fault?` — what can be wrong at each point of the walk.
* `Catalog.Denotes` — which type a name stands for, parameters first.

## Main results

* `error?_resolveIn` — the error is the first on the walk.
* `exists_resolveIn_iff` — nothing is wrong on the walk if every node resolves.
* `denotes_of_resolveIn` — what a name resolves to is what it stands for.
* `resolveIn_decided` — when a name resolves, to what, and what is reported otherwise.
-/

namespace Generics

namespace TypeName

/-! ### Nodes, and the walk over them -/

mutual

/-- A name and every name inside it, each before its arguments. -/
def nodes : TypeName → List TypeName
  | .node path args => .node path args :: nodesAll args

/-- The nodes of some names, one after the other. -/
def nodesAll : List TypeName → List TypeName
  | [] => []
  | name :: names => nodes name ++ nodesAll names

end

theorem nodesAll_eq_flatMap (names : List TypeName) : nodesAll names = names.flatMap nodes := by
  induction names with
  | nil => rfl
  | cons name names ih => rw [nodesAll, ih, List.flatMap_cons]

@[simp] theorem nodes_node (path : String) (args : List TypeName) :
    (node path args).nodes = .node path args :: args.flatMap nodes := by
  rw [nodes, nodesAll_eq_flatMap]

/-- A point of the walk over a name: a path and the number of its arguments. -/
inductive Visit where
  /-- In front of the arguments. -/
  | enter (path : String) (supplied : Nat)
  /-- Behind them. -/
  | leave (path : String) (supplied : Nat)
  deriving DecidableEq, Repr

mutual

/-- The walk over a name, the arguments from left to right. -/
def visits : TypeName → List Visit
  | .node path args =>
    .enter path args.length :: (visitsAll args ++ [.leave path args.length])

/-- The walks over some names, one after the other. -/
def visitsAll : List TypeName → List Visit
  | [] => []
  | name :: names => visits name ++ visitsAll names

end

theorem visitsAll_eq_flatMap (names : List TypeName) :
    visitsAll names = names.flatMap visits := by
  induction names with
  | nil => rfl
  | cons name names ih => rw [visitsAll, ih, List.flatMap_cons]

@[simp] theorem visits_node (path : String) (args : List TypeName) :
    (node path args).visits =
      .enter path args.length :: (args.flatMap visits ++ [.leave path args.length]) := by
  rw [visits, visitsAll_eq_flatMap]

/-- The walk comes to each node twice. -/
theorem forall_visits_iff {p : Visit → Prop} (name : TypeName) : (∀ v ∈ name.visits, p v) ↔
    ∀ n ∈ name.nodes, p (.enter n.path n.args.length) ∧ p (.leave n.path n.args.length) := by
  induction name with
  | node path args ih =>
    have hinside : (∀ v ∈ args.flatMap visits, p v) ↔ ∀ n ∈ args.flatMap nodes,
        p (.enter n.path n.args.length) ∧ p (.leave n.path n.args.length) := by
      rw [List.forall_mem_flatMap, List.forall_mem_flatMap]
      exact forall₂_congr ih
    rw [visits_node, nodes_node, List.forall_mem_cons, List.forall_mem_cons,
      List.forall_mem_append, List.forall_mem_singleton, hinside, path_node, args_node]
    tauto

end TypeName

namespace Catalog

open Descriptor Generics.TypeName

variable {c : Catalog} {scope : Option DefId}

/-! ### What is asked of a node -/

/-- The names of the parameters in a scope. -/
def scopeParams (c : Catalog) (scope : Option DefId) : List String :=
  match scope with
  | none => []
  | some owner => (c.definition owner).params

/-- A path alone names a parameter of the scope, or a definition; a path with arguments names
a generic definition with as many parameters. -/
def NodeResolves (c : Catalog) (scope : Option DefId) : TypeName → Prop
  | .node path args =>
    (args = [] ∧ path ∈ c.scopeParams scope) ∨
      ∃ id, c.lookup? path = some id ∧
        (args ≠ [] → (c.definition id).isGeneric = true ∧
          args.length = (c.definition id).params.length)

/-- What is wrong with the application of a definition to so many arguments. -/
def misapplied? (c : Catalog) (id : DefId) (supplied : Nat) : Option ResolveError :=
  if (c.definition id).isGeneric = false then some (.notGeneric (c.definition id).name)
  else if supplied = (c.definition id).params.length then none
  else some (.arity (c.definition id).name (c.definition id).params.length supplied)

/-- What is wrong at a point of the walk over a name.  In front of the arguments it is a path
that names nothing, behind them a definition that cannot be applied to so many. -/
def fault? (c : Catalog) (scope : Option DefId) : Visit → Option ResolveError
  | .enter path supplied =>
    if (supplied = 0 ∧ path ∈ c.scopeParams scope) ∨ (c.lookup? path).isSome then none
    else some (.unknownType path)
  | .leave path supplied =>
    if supplied = 0 then none else (c.lookup? path).bind fun id => c.misapplied? id supplied

/-- The type that a name stands for.  A path alone is the first parameter with this name in
the scope, and only if there is none it is the definition with this path. -/
inductive Denotes (c : Catalog) (scope : Option DefId) : TypeName → Descriptor → Prop
  | param {path : String} {owner : DefId} {position : Nat} (inScope : scope = some owner)
    (named : (c.definition owner).params[position]? = some path)
    (first : path ∉ (c.definition owner).params.take position) :
    Denotes c scope (.node path []) (.param owner position)
  | named {path : String} {id : DefId} (noParam : path ∉ c.scopeParams scope)
    (found : c.lookup? path = some id) : Denotes c scope (.node path []) (.named id)
  | applied {path : String} {args : List TypeName} {id : DefId} {tys : List Descriptor}
    (supplied : args ≠ []) (found : c.lookup? path = some id)
    (each : List.Forall₂ (Denotes c scope) args tys) :
    Denotes c scope (.node path args) (.generic id tys)

/-! ### Parameters of a scope -/

theorem param?_eq_none_iff {path : String} :
    c.param? scope path = none ↔ path ∉ c.scopeParams scope := by
  cases scope with
  | none => simp [param?, scopeParams]
  | some owner =>
    simp only [param?, scopeParams, Option.bind_some, Option.map_eq_none_iff,
      List.findIdx?_eq_none_iff, beq_eq_false_iff_ne]
    exact ⟨fun h hmem => h path hmem rfl, fun h other hother he => h (he ▸ hother)⟩

/-- A path names the first parameter with this name. -/
theorem param?_eq_some_iff {path : String} {owner : DefId} {position : Nat} :
    c.param? scope path = some (.param owner position) ↔ scope = some owner ∧
      (c.definition owner).params[position]? = some path ∧
      path ∉ (c.definition owner).params.take position := by
  cases scope with
  | none => simp [param?]
  | some other =>
    have hfirst : (c.definition other).params.findIdx? (· == path) = some position ↔
        (c.definition other).params[position]? = some path ∧
          path ∉ (c.definition other).params.take position := by
      rw [List.findIdx?_eq_some_iff_getElem, List.mem_take_iff_getElem, List.getElem?_eq_some_iff]
      simp only [beq_iff_eq, not_exists]
      constructor
      · rintro ⟨hlt, hnamed, hfirst⟩
        exact ⟨⟨hlt, hnamed⟩, fun i hi => hfirst i (by omega)⟩
      · rintro ⟨⟨hlt, hnamed⟩, hfirst⟩
        exact ⟨hlt, hnamed, fun i hi => hfirst i (by omega)⟩
    simp only [param?, Option.bind_some, Option.map_eq_some_iff, Descriptor.param.injEq,
      Option.some.injEq]
    constructor
    · rintro ⟨i, hi, rfl, rfl⟩
      exact ⟨rfl, hfirst.1 hi⟩
    · rintro ⟨rfl, hi⟩
      exact ⟨position, hfirst.2 hi, rfl, rfl⟩

/-- What a name resolves to is what it stands for. -/
theorem denotes_of_resolveIn {name : TypeName} {ty : Descriptor}
    (h : c.resolveIn scope name = .ok ty) : c.Denotes scope name ty := by
  refine resolveIn_induction (Q := c.Denotes scope) ?_ ?_ ?_ h
  · intro path owner position hparam _
    obtain ⟨hscope, hnamed, hfirst⟩ := param?_eq_some_iff.1 hparam
    exact .param hscope hnamed hfirst
  · exact fun hparam hid => .named (param?_eq_none_iff.1 hparam) hid
  · intro path args id tys hid hg hl each
    exact .applied (Definition.ne_nil_of_isGeneric hg (each.length_eq.trans hl)) hid each

/-- A placeholder that stands for itself is one of the scope. -/
def NodeInScope (scope : Option DefId) : Descriptor → Prop
  | .param owner _ => scope = some owner
  | _ => True

theorem throughout_nodeInScope {name : TypeName} {ty : Descriptor}
    (h : c.resolveIn scope name = .ok ty) : ty.Throughout (NodeInScope scope) := by
  refine resolveIn_induction (Q := fun _ ty => ty.Throughout (NodeInScope scope)) ?_ ?_ ?_ h
  · exact fun hparam _ => throughout_param.2 (param?_eq_some_iff.1 hparam).1
  · exact fun _ _ => throughout_named.2 trivial
  · intro path args id tys _ _ _ each
    refine throughout_generic trivial trivial fun a ha => ?_
    obtain ⟨argument, -, hargument⟩ := each.exists_mem_left ha
    exact hargument

/-! ### Errors -/

theorem error?_makeGeneric (id : DefId) (args : List Descriptor) :
    (c.makeGeneric (.named id) args).error? = c.misapplied? id args.length := by
  unfold makeGeneric misapplied? errorName
  by_cases hg : (c.definition id).isGeneric = true
  · by_cases hl : args.length = (c.definition id).params.length <;> simp [hg, hl]
  · simp [hg, definition?]

theorem error?_resolveIn_leaf (scope : Option DefId) (path : String) :
    (c.resolveIn scope (.node path [])).error? = c.fault? scope (.enter path 0) := by
  rw [resolveIn_leaf, fault?]
  cases hparam : c.param? scope path with
  | some ty =>
    have hmem : path ∈ c.scopeParams scope := by
      by_contra hnot
      rw [param?_eq_none_iff.2 hnot] at hparam
      cases hparam
    simp [hmem]
  | none =>
    have hnot := param?_eq_none_iff.1 hparam
    unfold resolvePath
    cases hid : c.lookup? path <;> simp [hnot]

/-- The error of a pass over some names is the first on the walk over them. -/
theorem error?_mapM {f : TypeName → Except ResolveError Descriptor}
    {fault : Visit → Option ResolveError} {names : List TypeName}
    (h : ∀ name ∈ names, (f name).error? = name.visits.findSome? fault) :
    (names.mapM f).error? = (names.flatMap visits).findSome? fault := by
  induction names with
  | nil => rfl
  | cons name names ih =>
    obtain ⟨hname, hnames⟩ := List.forall_mem_cons.1 h
    rw [List.mapM_cons, List.flatMap_cons, List.findSome?_append, ← hname, ← ih hnames]
    cases f name with
    | error cause => rfl
    | ok ty => cases names.mapM f <;> rfl

/-- The error is the first on the walk over the name. -/
theorem error?_resolveIn (scope : Option DefId) (name : TypeName) :
    (c.resolveIn scope name).error? = name.visits.findSome? (c.fault? scope) := by
  induction name with
  | node path args ih =>
    rw [visits_node, List.findSome?_cons, List.findSome?_append, List.findSome?_singleton]
    by_cases hargs : args = []
    · subst hargs
      rw [error?_resolveIn_leaf]
      cases c.fault? scope (.enter path 0) <;> rfl
    · have hsome : args.length ≠ 0 := fun h => hargs (List.length_eq_zero_iff.1 h)
      rw [resolveIn_application _ _ _ hargs, ← error?_mapM ih, fault?, fault?, resolvePath]
      cases hid : c.lookup? path with
      | none => simp [hsome, bind, Except.bind]
      | some id =>
        -- behind the arguments the definition is applied to their types
        cases htys : args.mapM (c.resolveIn scope) with
        | error cause => simp [bind, Except.bind]
        | ok tys =>
          have hlength := (Except.mapM_eq_ok_iff.1 htys).length_eq
          rw [hlength] at hsome ⊢
          simpa [hsome, htys, bind, Except.bind] using error?_makeGeneric id tys

theorem misapplied?_eq_none_iff {id : DefId} {supplied : Nat} :
    c.misapplied? id supplied = none ↔ (c.definition id).isGeneric = true ∧
      supplied = (c.definition id).params.length := by
  unfold misapplied?
  by_cases hg : (c.definition id).isGeneric = true <;> simp [hg]

/-- Nothing is wrong in front of the arguments of a node and behind them if it resolves. -/
theorem fault?_eq_none_iff {path : String} {args : List TypeName} :
    c.fault? scope (.enter path args.length) = none ∧
      c.fault? scope (.leave path args.length) = none ↔
        c.NodeResolves scope (.node path args) := by
  unfold fault? NodeResolves
  by_cases hargs : args = []
  · cases hid : c.lookup? path <;> simp [hargs, hid]
  · have hsome : args.length ≠ 0 := fun h => hargs (List.length_eq_zero_iff.1 h)
    cases hid : c.lookup? path <;> simp [hargs, hid, misapplied?_eq_none_iff]

/-- A name resolves if every node of it does. -/
theorem exists_resolveIn_iff {name : TypeName} : (∃ ty, c.resolveIn scope name = .ok ty) ↔
    ∀ node ∈ name.nodes, c.NodeResolves scope node := by
  rw [← Except.error?_eq_none, error?_resolveIn, List.findSome?_eq_none_iff, forall_visits_iff]
  refine forall₂_congr fun node _ => ?_
  cases node with
  | node path args => exact fault?_eq_none_iff

/-! ### Names in a scope -/

/-- A name resolves if each of its nodes is a path alone that names a parameter of the scope,
or has a path that names a definition, which is generic and has as many parameters as there
are arguments, if there are any.  It resolves to a well-formed type, in which parameters go
before definitions and other placeholders do not stand by themselves.  If it does not
resolve, the error is the first on the walk over the name, which looks up the path of a node
before it goes to the arguments, and applies the definition behind them. -/
theorem resolveIn_decided (c : Catalog) (scope : Option DefId) (name : TypeName) :
    ((∃ ty, c.resolveIn scope name = .ok ty) ↔ ∀ node ∈ name.nodes, c.NodeResolves scope node) ∧
    (∀ ty, c.resolveIn scope name = .ok ty → c.WellFormed ty ∧
      (∀ owner position, .param owner position ∈ ty.parts → scope = some owner) ∧
      c.Denotes scope name ty) ∧
    ∀ e, c.resolveIn scope name = .error e ↔
      name.visits.findSome? (c.fault? scope) = some e := by
  refine ⟨exists_resolveIn_iff, fun ty hty => ⟨?_, fun owner position hmem => ?_, ?_⟩, fun e => ?_⟩
  · exact ⟨(respected_fits c).resolveIn hty, (respected_reduced c).resolveIn hty⟩
  · exact throughout_nodeInScope hty _ hmem
  · exact denotes_of_resolveIn hty
  · rw [← error?_resolveIn, Except.error?_eq_some]

/-- In the scope of ``Seq`1`` the path `T` is its parameter, although there is a type `T`;
with an argument it is the type.  Of three errors the one that stands innermost and is met
first is reported. -/
theorem resolveIn_decided_hidden :
    let document : Json := .object [("types", .array [.object [("name", .string "T")],
      .object [("name", .string "Seq"), ("params", .array [.string "T"])]])]
    let seq : DefId := ⟨18⟩
    let hidden : TypeName := .node "Seq`1" [.node "Seq`1" [.node "T" []]]
    let wrong : TypeName := .node "T" [.node "Seq`1" [.node "U" [], .node "T" []]]
    ∃ c, ofJson document = .ok c ∧
      c.Denotes (some seq) hidden (.constructed seq [.named seq]) ∧
      c.resolveIn (some seq) wrong = .error (.unknownType "U") ∧
      c.fault? (some seq) (.leave "Seq`1" 2) = some (.arity "Seq`1" 1 2) ∧
      c.fault? (some seq) (.leave "T" 1) = some (.notGeneric "T") := by
  intro document seq hidden wrong
  obtain ⟨c, hc, hty, herror, harity, hgeneric⟩ :=
    exists_ofJson_eq_ok document (P := fun c =>
      (c.resolveIn (some seq) hidden).toOption = some (.constructed seq [.named seq]) ∧
      wrong.visits.findSome? (c.fault? (some seq)) = some (.unknownType "U") ∧
      c.fault? (some seq) (.leave "Seq`1" 2) = some (.arity "Seq`1" 1 2) ∧
      c.fault? (some seq) (.leave "T" 1) = some (.notGeneric "T")) (by decide +kernel)
  obtain ⟨-, hdenotes, -⟩ := resolveIn_decided c (some seq) hidden
  obtain ⟨-, -, hfirst⟩ := resolveIn_decided c (some seq) wrong
  obtain ⟨-, -, hstands⟩ := hdenotes _ (Except.toOption_eq_some.1 hty)
  exact ⟨c, hc, hstands, (hfirst _).2 herror, harity, hgeneric⟩

end Catalog

end Generics
