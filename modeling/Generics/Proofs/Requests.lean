import Generics.Proofs.Index
import Generics.Proofs.Outcome

/-!
# Requests to a catalog

A catalog is built by requests, of which some are refused: a declaration whose path is
taken, and a base with parameters of other types.  After any sequence of them, refused
ones included, the parts of the catalog agree with each other, and the next request
either does all that it asks for or nothing.

## Main definitions

* `Request`, `Catalog.answer`, `Catalog.after` — what can be asked for, what comes back,
  and the catalog that is left.
* `Declaring.Atomic` — steps that change nothing unless they come to their end.
* `Catalog.Permits`, `Catalog.PermitsAll` — requests about types that are there.
* `Catalog.Consistent` — what always holds of the parts of a catalog.
* `Catalog.Settles` — what a request leads to.

## Main results

* `Declaring.atomic_steps` — a refused request has changed nothing.
* `Reachable.after`, `Reachable.consistent`, `Reachable.settles` — one request.
* `consistent_and_settles` — the same after any sequence of requests.
-/

namespace Generics

/-- What can be asked of a catalog that is being built. -/
inductive Request where
  | define (nameSpace : Option String) (name : String) (params : List String)
    (visibility : Visibility)
  | defineNested (outer : DefId) (name : String) (params : List String)
    (visibility : Visibility)
  | setBase (id : DefId) (base : Descriptor)
  deriving Repr

/-- The steps that are taken for a request.  They come to the number of the new
definition, if one is asked for. -/
def Request.steps : Request → Declaring (Option DefId)
  | define nameSpace name params visibility =>
    some <$> Declaring.define nameSpace name params visibility
  | defineNested outer name params visibility =>
    some <$> Declaring.defineNested outer name params visibility
  | setBase id base => (fun _ => none) <$> Declaring.setBase id base

/-! ### Steps that stop -/

namespace Declaring

variable {α β : Type} {steps : Declaring α} {c : Catalog}

theorem outcome_map (f : α → β) (steps : Declaring α) (c : Catalog) :
    (f <$> steps).outcome c = (steps.outcome c).map (Prod.map f id) := by
  have hmap : (f <$> steps) c = EStateM.map f steps c := rfl
  unfold outcome
  rw [hmap, EStateM.map]
  cases steps c <;> rfl

theorem outcome_eq_ok {result : α} {c' : Catalog} :
    steps.outcome c = .ok (result, c') ↔ steps c = .ok result c' := by
  unfold outcome
  cases steps c with
  | ok other s => simp
  | error cause s => simp

theorem outcome_eq_error {cause : DefineError} :
    steps.outcome c = .error cause ↔ ∃ c', steps c = .error cause c' := by
  unfold outcome
  cases steps c with
  | ok other s => simp
  | error other s => simp

theorem left_of_ok {result : α} {c' : Catalog} (h : steps.outcome c = .ok (result, c')) :
    steps.left c = c' := by
  rw [left, outcome_eq_ok.1 h]

/-- If the steps stop, they have changed nothing. -/
def Atomic (steps : Declaring α) : Prop :=
  ∀ c cause c', steps c = .error cause c' → c' = c

theorem Atomic.left_of_error (h : steps.Atomic) {cause : DefineError}
    (hstop : steps.outcome c = .error cause) : steps.left c = c := by
  obtain ⟨c', hsteps⟩ := outcome_eq_error.1 hstop
  rw [left, hsteps]
  exact h c cause c' hsteps

theorem Atomic.map (h : steps.Atomic) (f : α → β) : (f <$> steps).Atomic := by
  intro c cause c' hmap
  refine h c cause c' ?_
  change EStateM.map f steps c = _ at hmap
  unfold EStateM.map at hmap
  split at hmap
  · cases hmap
  · next hsteps =>
    cases hmap
    exact hsteps

theorem Atomic.get_bind {f : Catalog → Declaring α} (h : ∀ c, (f c).Atomic) :
    (get >>= f : Declaring α).Atomic :=
  fun c => h c c

theorem atomic_insert (path : String) (d : Definition) (outer : Option DefId) :
    (insert path d outer).Atomic := by
  intro c cause c' h
  rw [insert_eq] at h
  split at h
  · cases h
    rfl
  · cases h

theorem atomic_define (nameSpace : Option String) (name : String) (params : List String)
    (visibility : Visibility) : (define nameSpace name params visibility).Atomic := by
  unfold define
  exact atomic_insert _ _ _

theorem atomic_defineNested (outer : DefId) (name : String) (params : List String)
    (visibility : Visibility) : (defineNested outer name params visibility).Atomic := by
  unfold defineNested
  exact .get_bind fun c => atomic_insert _ _ _

theorem atomic_setBase (id : DefId) (base : Descriptor) : (setBase id base).Atomic := by
  intro c cause c' h
  rw [setBase_eq] at h
  split at h
  · cases h
  · cases h
    rfl

/-- A request that is refused has changed nothing. -/
theorem atomic_steps (request : Request) : request.steps.Atomic := by
  cases request with
  | define nameSpace name params visibility => exact (atomic_define _ _ _ _).map some
  | defineNested outer name params visibility => exact (atomic_defineNested _ _ _ _).map some
  | setBase id base => exact (atomic_setBase id base).map _

end Declaring

namespace Catalog

/-! ### Answers -/

/-- The number of the new definition, if one was asked for, and the new catalog; or why
the request is refused. -/
def answer (c : Catalog) (request : Request) : Except DefineError (Option DefId × Catalog) :=
  request.steps.outcome c

/-- The catalog that the steps of a request leave, also if the request is refused. -/
def after (c : Catalog) (request : Request) : Catalog :=
  request.steps.left c

/-- The types that a request is about are there.  Of the types in a base nothing is
asked. -/
def Permits (c : Catalog) : Request → Prop
  | .define .. => True
  | .defineNested outer .. => c.Declares outer
  | .setBase id _ => c.Declares id

/-- Each request of a sequence is about types that are there when its turn comes. -/
def PermitsAll (c : Catalog) : List Request → Prop
  | [] => True
  | request :: requests => c.Permits request ∧ (c.after request).PermitsAll requests

instance (c : Catalog) : DecidablePred c.Permits
  | .define .. => isTrue trivial
  | .defineNested outer .. => inferInstanceAs (Decidable (c.Declares outer))
  | .setBase id _ => inferInstanceAs (Decidable (c.Declares id))

instance decidablePermitsAll (c : Catalog) : (requests : List Request) →
    Decidable (c.PermitsAll requests)
  | [] => isTrue trivial
  | request :: requests =>
    have := decidablePermitsAll (c.after request) requests
    inferInstanceAs (Decidable (c.Permits request ∧ (c.after request).PermitsAll requests))

/-- What always holds of the parts of a catalog: the indexes agree with the definitions,
the types around a type come before it and end with one that stands alone, a type takes
over the parameters and the namespace of those around it, and the system definitions
are what they are. -/
structure Consistent (c : Catalog) : Prop extends Indexed c where
  eq_of_path_eq : ∀ {id other}, c.Declares id → c.Declares other → c.path id = c.path other →
    id = other
  outer_lt : ∀ {id outer}, (c.definition id).declaring = some outer → outer.index < id.index
  declaring_outermost : ∀ id, (c.definition (c.outermost id)).declaring = none
  params_eq : ∀ {id outer}, (c.definition id).declaring = some outer →
    (c.definition id).params = (c.definition outer).params ++ (c.definition id).ownParams
  inherited_eq : ∀ {id outer}, (c.definition id).declaring = some outer →
    (c.definition id).inherited = (c.definition outer).params.length
  inherited_alone : ∀ {id}, (c.definition id).declaring = none → (c.definition id).inherited = 0
  nameSpace_eq : ∀ id, (c.definition id).nameSpace = (c.definition (c.outermost id)).nameSpace
  builtin_iff : ∀ {id b}, (c.definition id).builtin = some b ↔ id = b.id
  params_builtin : ∀ b : Builtin, c.Declares b.id ∧ (c.definition b.id).params = []
  nullable : c.Declares .nullable ∧ (c.definition .nullable).params = ["T"] ∧
    c.path .nullable = "System.Nullable`1"

/-- The catalog `c'` is `c` with the definition `d` at its end, under `path`. -/
structure Grown (c : Catalog) (path : String) (d : Definition) (c' : Catalog) : Prop where
  size : c'.size = c.size + 1
  definition_new : c'.definition ⟨c.size⟩ = d
  path_new : c'.path ⟨c.size⟩ = path
  definition_old : ∀ id, c.Declares id → c'.definition id = c.definition id
  path_old : ∀ id, c.Declares id → c'.path id = c.path id
  lookup? : ∀ other, c'.lookup? other = if other = path then some ⟨c.size⟩ else c.lookup? other
  nested : ∀ id, c'.nested id =
    c.nested id ++ if d.declaring = some id then [⟨c.size⟩] else []

/-- The catalog `c'` is `c` with the base of `id` exchanged. -/
structure BaseSet (c : Catalog) (id : DefId) (base : Descriptor) (c' : Catalog) : Prop where
  size : c'.size = c.size
  definition : ∀ other, c'.definition other =
    if other = id then { c.definition id with base := some base } else c.definition other
  lookup? : ∀ path, c'.lookup? path = c.lookup? path
  nested : ∀ outer, c'.nested outer = c.nested outer

/-- The request is to declare `d` under `path`.  If the path is free, the definition gets
the next number and nothing else changes; if it is taken, nothing changes at all. -/
def SettlesDeclaration (c : Catalog) (request : Request) (path : String) (d : Definition) :
    Prop :=
  (c.lookup? path = none ∧ c.answer request = .ok (some ⟨c.size⟩, c.after request) ∧
      c.Grown path d (c.after request)) ∨
    ((∃ other, c.lookup? path = some other) ∧ c.answer request = .error (.duplicate path) ∧
      c.after request = c)

/-- What a request leads to. -/
def Settles (c : Catalog) (request : Request) : Prop :=
  match request with
  | .define nameSpace name params visibility =>
    c.SettlesDeclaration request (outermostPath nameSpace (declaredName name params.length))
      (outermostDefinition nameSpace name params visibility)
  | .defineNested outer name params visibility =>
    c.SettlesDeclaration request (c.path outer ++ "+" ++ declaredName name params.length)
      (c.innerDefinition outer name params visibility)
  | .setBase id base =>
    (c.bindsOnly id base = true ∧ c.answer request = .ok (none, c.after request) ∧
        c.BaseSet id base (c.after request)) ∨
      (c.bindsOnly id base = false ∧ c.answer request = .error (.foreignBase id base) ∧
        c.after request = c)

variable {c : Catalog}

/-! ### One request -/

theorem after_of_ok {request : Request} {id : Option DefId} {c' : Catalog}
    (h : c.answer request = .ok (id, c')) : c.after request = c' :=
  Declaring.left_of_ok h

theorem after_of_error {request : Request} {cause : DefineError}
    (h : c.answer request = .error cause) : c.after request = c :=
  (Declaring.atomic_steps request).left_of_error h

theorem answer_define (nameSpace : Option String) (name : String) (params : List String)
    (visibility : Visibility) : c.answer (.define nameSpace name params visibility) =
      (c.define nameSpace name params visibility).map (Prod.map some id) :=
  Declaring.outcome_map some _ c

theorem answer_defineNested (outer : DefId) (name : String) (params : List String)
    (visibility : Visibility) : c.answer (.defineNested outer name params visibility) =
      (c.defineNested outer name params visibility).map (Prod.map some id) :=
  Declaring.outcome_map some _ c

theorem answer_setBase (id : DefId) (base : Descriptor) :
    c.answer (.setBase id base) = (c.setBase id base).map fun c' => (none, c') := by
  refine (Declaring.outcome_map _ _ c).trans ?_
  unfold Catalog.setBase
  cases (Declaring.setBase id base).outcome c <;> rfl

/-- A request is answered by an operation that builds catalogs, or it is refused. -/
theorem Reachable.after (h : c.Reachable) {request : Request} (permitted : c.Permits request) :
    (c.after request).Reachable := by
  cases hanswer : c.answer request with
  | error cause => rwa [after_of_error hanswer]
  | ok result =>
    obtain ⟨new, c'⟩ := result
    rw [after_of_ok hanswer]
    cases request with
    | define nameSpace name params visibility =>
      rw [answer_define] at hanswer
      obtain ⟨⟨id, c''⟩, hdefine, he⟩ := Except.map_eq_ok.1 hanswer
      cases he
      exact .define h hdefine
    | defineNested outer name params visibility =>
      rw [answer_defineNested] at hanswer
      obtain ⟨⟨id, c''⟩, hdefine, he⟩ := Except.map_eq_ok.1 hanswer
      cases he
      exact .defineNested h permitted hdefine
    | setBase id base =>
      rw [answer_setBase] at hanswer
      obtain ⟨c'', hset, he⟩ := Except.map_eq_ok.1 hanswer
      cases he
      exact .setBase h permitted hset

theorem Reachable.consistent (h : c.Reachable) : c.Consistent where
  toIndexed := h.indexed
  eq_of_path_eq := h.indexed.eq_of_path_eq
  outer_lt := h.wellNested.outer_lt
  declaring_outermost := h.wellNested.declaring_outermost
  params_eq := h.wellNested.params_eq_append
  inherited_eq := h.wellNested.inherited_eq
  inherited_alone := h.wellNested.inherited_outermost
  nameSpace_eq := h.nameSpace_outermost
  builtin_iff := h.builtin_eq_some_iff
  params_builtin b := by
    have hsize : 17 ≤ c.size := h.keepsSystem.size_le
    have hb : b.ordinal < 15 := b.ordinal_lt
    refine ⟨?_, h.wellNested.params_builtin (h.builtin_eq_some_iff.2 rfl)⟩
    show b.ordinal < c.size
    omega
  nullable := by
    have hsize : 17 ≤ c.size := h.keepsSystem.size_le
    refine ⟨?_, h.keepsSystem.params_nullable, h.keepsSystem.path_nullable⟩
    show 16 < c.size
    omega

theorem Fresh.grown {path : String} {d : Definition} (hf : c.Fresh path d) (hc : c.Reachable)
    (hc' : (c.add path d d.declaring).Reachable) : c.Grown path d (c.add path d d.declaring) where
  size := size_add c path d d.declaring
  definition_new := by rw [definition_add, if_pos rfl]
  path_new := hf.path_add hc.wellNested hc'.wellNested
  definition_old id hid := definition_add_of_declares hid path d d.declaring
  path_old id hid := (keeps_add c path d d.declaring).path hc.wellNested hc'.wellNested hid
  lookup? other := lookup?_add c path d d.declaring other
  nested id := nested_add hc.indexed.declares_nested path d d.declaring

/-- A request that is answered by putting a definition in does so, or is refused. -/
theorem Reachable.settlesDeclaration (h : c.Reachable) {request : Request}
    (permitted : c.Permits request) {path : String} {d : Definition}
    (hanswer : c.answer request =
      (c.insert path d d.declaring).map (Prod.map some id))
    (fresh : c.lookup? path = none → c.Fresh path d) : c.SettlesDeclaration request path d := by
  cases hpath : c.lookup? path with
  | none =>
    rw [insert_of_free hpath] at hanswer
    have hafter : c.after request = c.add path d d.declaring := after_of_ok hanswer
    have hreachable := h.after permitted
    rw [hafter] at hreachable
    refine Or.inl ⟨hpath, ?_, ?_⟩
    · rw [hafter]
      exact hanswer
    · rw [hafter]
      exact (fresh hpath).grown h hreachable
  | some other =>
    rw [insert_of_taken hpath] at hanswer
    exact Or.inr ⟨⟨other, hpath⟩, hanswer, after_of_error hanswer⟩

theorem Reachable.settles (h : c.Reachable) {request : Request} (permitted : c.Permits request) :
    c.Settles request := by
  cases request with
  | define nameSpace name params visibility =>
    refine h.settlesDeclaration permitted ?_ fresh_outermost
    rw [answer_define, define_eq_insert]
    rfl
  | defineNested outer name params visibility =>
    refine h.settlesDeclaration permitted ?_ (fresh_inner permitted)
    rw [answer_defineNested, defineNested_eq_insert]
    rfl
  | setBase id base =>
    cases hbinds : c.bindsOnly id base with
    | true =>
      have hanswer : c.answer (.setBase id base) = .ok (none, c.withBase id base) := by
        rw [answer_setBase, setBase_eq_ite, if_pos hbinds]
        rfl
      have hafter : c.after (.setBase id base) = c.withBase id base := after_of_ok hanswer
      refine Or.inl ⟨hbinds, ?_, ?_⟩
      · rw [hafter]
        exact hanswer
      · rw [hafter]
        exact ⟨size_withBase c id base, definition_withBase c permitted base, fun _ => rfl,
          fun _ => rfl⟩
    | false =>
      have hanswer : c.answer (.setBase id base) = .error (.foreignBase id base) := by
        rw [answer_setBase, setBase_eq_ite, hbinds]
        rfl
      exact Or.inr ⟨hbinds, hanswer, after_of_error hanswer⟩

/-! ### Sequences of requests -/

theorem Reachable.foldl_after (h : c.Reachable) {requests : List Request}
    (permitted : c.PermitsAll requests) : (requests.foldl Catalog.after c).Reachable := by
  induction requests generalizing c with
  | nil => exact h
  | cons request requests ih =>
    obtain ⟨hfirst, hrest⟩ := permitted
    exact ih (h.after hfirst) hrest

/-- After any sequence of requests, answered or refused, the parts of the catalog agree,
and the next request does all that it asks for, or is refused and changes nothing. -/
theorem consistent_and_settles {requests : List Request}
    (permitted : initial.PermitsAll requests) :
    let c := requests.foldl after initial
    c.Consistent ∧ ∀ request, c.Permits request → c.Settles request := by
  intro c
  have hc : c.Reachable := Reachable.foldl_after .initial permitted
  exact ⟨hc.consistent, fun request => hc.settles⟩

/-- The path of a nested type can be taken by a type that stands alone, as its name may
contain any characters.  Whichever comes second is refused, and so is a base with a
parameter of another type. -/
theorem consistent_and_settles_of_refused :
    let outer : DefId := ⟨17⟩
    let inner : DefId := ⟨18⟩
    let requests : List Request := [.define (some "N") "Parent" ["T"] .isPublic,
      .defineNested outer "Nested" ["U"] .isPublic,
      .define none "N.Parent`1+Nested" ["V"] .isPublic,
      .setBase inner (.constructed outer [.param inner 1]),
      .setBase inner (.constructed outer [.param outer 0])]
    let c := requests.foldl after initial
    initial.PermitsAll requests ∧ c.size = 19 ∧ c.path inner = "N.Parent`1+Nested`1" ∧
      (c.definition inner).base = some (.constructed outer [.param inner 1]) ∧ c.Consistent ∧
      ∀ request, c.Permits request → c.Settles request := by
  intro outer inner requests c
  have permitted : initial.PermitsAll requests := by decide +kernel
  have hsize : c.size = 19 := by decide +kernel
  have hpath : c.path inner = "N.Parent`1+Nested`1" := by decide +kernel
  have hbase : (c.definition inner).base = some (.constructed outer [.param inner 1]) := by
    decide +kernel
  exact ⟨permitted, hsize, hpath, hbase, consistent_and_settles permitted⟩

end Catalog

end Generics
