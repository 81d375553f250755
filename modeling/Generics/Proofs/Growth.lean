import Generics.Catalog.Define

/-!
# How catalogs grow

A catalog changes in two ways: a definition is added at its end, or the base of a
definition is exchanged.  What the definitions say of their nesting, their
parameters and their kind is therefore settled when they are declared.

## Main definitions

* `Definition.SameButBase`, `Catalog.Rebased` — definitions, and catalogs, that
  differ in bases alone.
* `Catalog.WellNested` — how the definitions of a catalog depend on those around
  them.
* `Catalog.KeepsSystem` — the system definitions stand first.

## Main results

* `define_eq_ok`, `defineNested_eq_ok`, `setBase_eq_ok` — what a declaration can do.
* `define_of_free`, `defineNested_of_free` — when it does so.
* `Reachable.wellNested`, `Reachable.keepsSystem` — every catalog that declarations
  build is well nested and keeps the system definitions.
-/

namespace Generics

/-- The definitions differ in their bases at most. -/
def Definition.SameButBase (d d' : Definition) : Prop :=
  ∃ base, d' = { d with base }

namespace Definition.SameButBase

variable {d d' : Definition}

theorem refl (d : Definition) : d.SameButBase d :=
  ⟨d.base, rfl⟩

theorem trans {d'' : Definition} (h : d.SameButBase d') (h' : d'.SameButBase d'') :
    d.SameButBase d'' := by
  obtain ⟨base, rfl⟩ := h
  obtain ⟨base', rfl⟩ := h'
  exact ⟨base', rfl⟩

theorem params (h : d.SameButBase d') : d'.params = d.params := by
  obtain ⟨base, rfl⟩ := h; rfl

theorem declaring (h : d.SameButBase d') : d'.declaring = d.declaring := by
  obtain ⟨base, rfl⟩ := h; rfl

theorem inherited (h : d.SameButBase d') : d'.inherited = d.inherited := by
  obtain ⟨base, rfl⟩ := h; rfl

theorem builtin (h : d.SameButBase d') : d'.builtin = d.builtin := by
  obtain ⟨base, rfl⟩ := h; rfl

end Definition.SameButBase

namespace Catalog

/-! ### Adding a definition -/

section Add

variable (c : Catalog) (path : String) (d : Definition) (outer : Option DefId)

@[simp] theorem size_add : (c.add path d outer).size = c.size + 1 := by
  simp [size, add]

theorem definition_add (id : DefId) : (c.add path d outer).definition id =
    if id.index = c.size then d else c.definition id := by
  unfold definition add size
  rw [Array.getElem?_push]
  split <;> rfl

end Add

theorem definition_add_of_declares {c : Catalog} {id : DefId} (h : c.Declares id) (path : String)
    (d : Definition) (outer : Option DefId) :
    (c.add path d outer).definition id = c.definition id := by
  rw [definition_add, if_neg (Nat.ne_of_lt h)]

/-- A number that belongs to no definition reads as a nameless definition. -/
theorem definition_of_not_declares {c : Catalog} {id : DefId} (h : ¬ c.Declares id) :
    c.definition id = {} := by
  unfold definition
  rw [Array.getElem?_eq_none (Nat.le_of_not_lt h)]
  rfl

theorem insert_eq_ok {c c' : Catalog} {path : String} {d : Definition} {outer : Option DefId}
    {id : DefId} (h : c.insert path d outer = .ok (id, c')) :
    c.lookup? path = none ∧ id = ⟨c.size⟩ ∧ c' = c.add path d outer := by
  rw [insert_eq_ite] at h
  split at h
  · cases h
  · next hfree =>
    cases h
    refine ⟨?_, rfl, rfl⟩
    unfold lookup?
    rw [Std.TreeMap.getElem?_eq_none]
    simpa using hfree

theorem insert_of_free {c : Catalog} {path : String} (free : c.lookup? path = none)
    (d : Definition) (outer : Option DefId) :
    c.insert path d outer = .ok (⟨c.size⟩, c.add path d outer) := by
  have hfree : ¬ c.paths.contains path = true := by
    unfold lookup? at free
    simpa using free
  rw [insert_eq_ite, if_neg hfree]

theorem insert_of_taken {c : Catalog} {path : String} {other : DefId}
    (taken : c.lookup? path = some other) (d : Definition) (outer : Option DefId) :
    c.insert path d outer = .error (.duplicate path) := by
  have htaken : c.paths.contains path = true := by
    unfold lookup? at taken
    rw [Std.TreeMap.contains_eq_isSome_getElem?, taken]
    rfl
  rw [insert_eq_ite, if_pos htaken]

/-! ### What a declaration can do -/

/-- The definition of a type that stands alone. -/
def outermostDefinition (nameSpace : Option String) (name : String) (params : List String)
    (visibility : Visibility) : Definition :=
  { nameSpace, name := declaredName name params.length, params, visibility }

/-- The definition of a type declared inside `outer`. -/
def innerDefinition (c : Catalog) (outer : DefId) (name : String) (params : List String)
    (visibility : Visibility) : Definition :=
  { nameSpace := (c.definition outer).nameSpace
    name := declaredName name params.length
    declaring := some outer
    params := (c.definition outer).params ++ params
    inherited := (c.definition outer).params.length
    visibility }

/-- The path of a type that stands alone. -/
def outermostPath (nameSpace : Option String) (name : String) : String :=
  match nameSpace with
  | some space => space ++ "." ++ name
  | none => name

theorem define_eq_insert (c : Catalog) (nameSpace : Option String) (name : String)
    (params : List String) (visibility : Visibility) :
    c.define nameSpace name params visibility =
      c.insert (outermostPath nameSpace (declaredName name params.length))
        (outermostDefinition nameSpace name params visibility) none := by
  unfold define insert Declaring.define
  rfl

theorem defineNested_eq_insert (c : Catalog) (outer : DefId) (name : String)
    (params : List String) (visibility : Visibility) :
    c.defineNested outer name params visibility =
      c.insert (c.path outer ++ "+" ++ declaredName name params.length)
        (c.innerDefinition outer name params visibility) (some outer) := by
  unfold defineNested insert Declaring.defineNested
  rw [Declaring.outcome_get_bind]
  rfl

theorem define_of_free {c : Catalog} {nameSpace : Option String} {name : String}
    {params : List String}
    (free : c.lookup? (outermostPath nameSpace (declaredName name params.length)) = none)
    (visibility : Visibility) : c.define nameSpace name params visibility =
      .ok (⟨c.size⟩, c.add (outermostPath nameSpace (declaredName name params.length))
        (outermostDefinition nameSpace name params visibility) none) := by
  rw [define_eq_insert, insert_of_free free]

theorem defineNested_of_free {c : Catalog} {outer : DefId} {name : String}
    {params : List String}
    (free : c.lookup? (c.path outer ++ "+" ++ declaredName name params.length) = none)
    (visibility : Visibility) : c.defineNested outer name params visibility =
      .ok (⟨c.size⟩, c.add (c.path outer ++ "+" ++ declaredName name params.length)
        (c.innerDefinition outer name params visibility) (some outer)) := by
  rw [defineNested_eq_insert, insert_of_free free]

theorem define_eq_ok {c c' : Catalog} {nameSpace : Option String} {name : String}
    {params : List String} {visibility : Visibility} {id : DefId}
    (h : c.define nameSpace name params visibility = .ok (id, c')) :
    c.lookup? (outermostPath nameSpace (declaredName name params.length)) = none ∧
      id = ⟨c.size⟩ ∧
      c' = c.add (outermostPath nameSpace (declaredName name params.length))
        (outermostDefinition nameSpace name params visibility) none := by
  rw [define_eq_insert] at h
  exact insert_eq_ok h

theorem defineNested_eq_ok {c c' : Catalog} {outer : DefId} {name : String}
    {params : List String} {visibility : Visibility} {id : DefId}
    (h : c.defineNested outer name params visibility = .ok (id, c')) :
    c.lookup? (c.path outer ++ "+" ++ declaredName name params.length) = none ∧
      id = ⟨c.size⟩ ∧
      c' = c.add (c.path outer ++ "+" ++ declaredName name params.length)
        (c.innerDefinition outer name params visibility) (some outer) := by
  rw [defineNested_eq_insert] at h
  exact insert_eq_ok h

theorem setBase_eq_ok {c c' : Catalog} {id : DefId} {base : Descriptor}
    (h : c.setBase id base = .ok c') : c.bindsOnly id base = true ∧ c' = c.withBase id base := by
  rw [setBase_eq_ite] at h
  split at h
  · next hb => cases h; exact ⟨hb, rfl⟩
  · cases h

/-! ### Exchanging bases -/

/-- The catalog `c'` serves the definitions of `c`, possibly with other bases. -/
structure Rebased (c c' : Catalog) : Prop where
  definition : ∀ id, (c.definition id).SameButBase (c'.definition id)
  lookup? : ∀ path, c'.lookup? path = c.lookup? path
  nested : ∀ id, c'.nested id = c.nested id

theorem rebased_withBase (c : Catalog) (id : DefId) (base : Descriptor) :
    c.Rebased (c.withBase id base) where
  lookup? _ := rfl
  nested _ := rfl
  definition other := by
    unfold definition withBase
    rw [Array.getElem?_modify]
    split
    · cases c.definitions[other.index]? with
      | none => exact .refl _
      | some d => exact ⟨some base, rfl⟩
    · exact .refl _

/-! ### Nesting -/

/-- How the definitions of a catalog depend on those around them. -/
structure WellNested (c : Catalog) : Prop where
  /-- A type is declared after the type it is declared in. -/
  outer_lt : ∀ {id outer : DefId}, (c.definition id).declaring = some outer →
    outer.index < id.index
  /-- It takes over the parameters of that type, ahead of its own. -/
  params_eq : ∀ {id outer : DefId}, (c.definition id).declaring = some outer →
    ∃ own, (c.definition id).params = (c.definition outer).params ++ own
  /-- What it counts as inherited are those parameters. -/
  inherited_eq : ∀ {id outer : DefId}, (c.definition id).declaring = some outer →
    (c.definition id).inherited = (c.definition outer).params.length
  /-- A type that stands alone inherits nothing. -/
  inherited_outermost : ∀ {id : DefId}, (c.definition id).declaring = none →
    (c.definition id).inherited = 0
  /-- A built-in type has no parameters. -/
  params_builtin : ∀ {id : DefId} {builtin : Builtin},
    (c.definition id).builtin = some builtin → (c.definition id).params = []

theorem WellNested.rebased {c c' : Catalog} (h : c.WellNested) (hr : c.Rebased c') :
    c'.WellNested where
  outer_lt {id outer} hd := by
    rw [(hr.definition id).declaring] at hd
    exact h.outer_lt hd
  params_eq {id outer} hd := by
    rw [(hr.definition id).declaring] at hd
    rw [(hr.definition id).params, (hr.definition outer).params]
    exact h.params_eq hd
  inherited_eq {id outer} hd := by
    rw [(hr.definition id).declaring] at hd
    rw [(hr.definition id).inherited, (hr.definition outer).params]
    exact h.inherited_eq hd
  inherited_outermost {id} hd := by
    rw [(hr.definition id).declaring] at hd
    rw [(hr.definition id).inherited]
    exact h.inherited_outermost hd
  params_builtin {id builtin} hb := by
    rw [(hr.definition id).builtin] at hb
    rw [(hr.definition id).params]
    exact h.params_builtin hb

/-- Every definition is declared, or is the nameless one, which stands alone and
has nothing. -/
theorem WellNested.declares_outer {c : Catalog} (h : c.WellNested) {id outer : DefId}
    (hd : (c.definition id).declaring = some outer) : c.Declares outer := by
  by_cases hid : c.Declares id
  · exact Nat.lt_trans (h.outer_lt hd) hid
  · rw [definition_of_not_declares hid] at hd
    cases hd

/-- A definition at the end keeps the nesting if it fits what is there already. -/
theorem WellNested.add {c : Catalog} (h : c.WellNested) {path : String} {d : Definition}
    {outer : Option DefId}
    (hnone : d.declaring = none → d.inherited = 0)
    (hsome : ∀ {o}, d.declaring = some o → c.Declares o ∧
      (∃ own, d.params = (c.definition o).params ++ own) ∧
      d.inherited = (c.definition o).params.length)
    (hbuiltin : ∀ {b}, d.builtin = some b → d.params = []) :
    (c.add path d outer).WellNested := by
  -- the definitions around a definition are not the one at the end
  have hold : ∀ {o : DefId}, c.Declares o →
      (c.add path d outer).definition o = c.definition o :=
    fun ho => definition_add_of_declares ho path d outer
  have key : ∀ id : DefId, (id.index = c.size ∧ (c.add path d outer).definition id = d) ∨
      (c.add path d outer).definition id = c.definition id := by
    intro id
    rw [definition_add]
    by_cases hid : id.index = c.size
    · rw [if_pos hid]; exact Or.inl ⟨hid, rfl⟩
    · rw [if_neg hid]; exact Or.inr rfl
  constructor
  case outer_lt =>
    intro id o hd
    rcases key id with ⟨hid, he⟩ | he <;> rw [he] at hd
    · exact hid ▸ (hsome hd).1
    · exact h.outer_lt hd
  case params_eq =>
    intro id o hd
    rcases key id with ⟨hid, he⟩ | he <;> rw [he] at hd ⊢
    · rw [hold (hsome hd).1]
      exact (hsome hd).2.1
    · rw [hold (h.declares_outer hd)]
      exact h.params_eq hd
  case inherited_eq =>
    intro id o hd
    rcases key id with ⟨hid, he⟩ | he <;> rw [he] at hd ⊢
    · rw [hold (hsome hd).1]
      exact (hsome hd).2.2
    · rw [hold (h.declares_outer hd)]
      exact h.inherited_eq hd
  case inherited_outermost =>
    intro id hd
    rcases key id with ⟨hid, he⟩ | he <;> rw [he] at hd ⊢
    · exact hnone hd
    · exact h.inherited_outermost hd
  case params_builtin =>
    intro id b hb
    rcases key id with ⟨hid, he⟩ | he <;> rw [he] at hb ⊢
    · exact hbuiltin hb
    · exact h.params_builtin hb

/-! ### The system definitions -/

theorem definitions_foldl_add (ds : List Definition) (name : Definition → String) (c : Catalog) :
    (ds.foldl (fun c d => c.add (name d) d none) c).definitions = c.definitions ++ ds := by
  induction ds generalizing c with
  | nil => simp
  | cons d ds ih => rw [List.foldl_cons, ih]; simp [add]

theorem definition_initial (id : DefId) :
    initial.definition id = systemDefinitions[id.index]?.getD {} := by
  unfold definition initial
  rw [definitions_foldl_add]
  simp

/-- What holds of the system definitions and of the nameless one holds of every
definition of the initial catalog. -/
theorem definition_initial_induction {P : Definition → Prop} (h : ∀ d ∈ systemDefinitions, P d)
    (hnone : P {}) (id : DefId) : P (initial.definition id) := by
  rw [definition_initial]
  cases hd : systemDefinitions[id.index]? with
  | none => exact hnone
  | some d => exact h d (List.mem_of_getElem? hd)

theorem wellNested_initial : initial.WellNested := by
  have key : ∀ id : DefId, (initial.definition id).declaring = none ∧
      (initial.definition id).inherited = 0 ∧
      ((initial.definition id).builtin = none ∨ (initial.definition id).params = []) :=
    fun id => definition_initial_induction
      (P := fun d => d.declaring = none ∧ d.inherited = 0 ∧ (d.builtin = none ∨ d.params = []))
      (by decide) (by decide) id
  constructor
  -- no system definition is declared inside another one
  case outer_lt | params_eq | inherited_eq =>
    intro id outer hd
    rw [(key id).1] at hd
    cases hd
  case inherited_outermost => exact fun {id} _ => (key id).2.1
  case params_builtin =>
    intro id b hb
    rcases (key id).2.2 with hn | hn
    · rw [hn] at hb; cases hb
    · exact hn

/-- The system definitions stand first, with their bases at most exchanged. -/
structure KeepsSystem (c : Catalog) : Prop where
  size_le : systemDefinitions.length ≤ c.size
  definition : ∀ id : DefId, id.index < systemDefinitions.length →
    (initial.definition id).SameButBase (c.definition id)

theorem keepsSystem_initial : initial.KeepsSystem where
  size_le := by
    unfold size initial
    rw [definitions_foldl_add]
    simp
  definition _ _ := .refl _

theorem KeepsSystem.add {c : Catalog} (h : c.KeepsSystem) (path : String) (d : Definition)
    (outer : Option DefId) : (c.add path d outer).KeepsSystem where
  size_le := Nat.le_trans h.size_le (by rw [size_add]; exact Nat.le_succ _)
  definition id hid := by
    rw [definition_add_of_declares (Nat.lt_of_lt_of_le hid h.size_le)]
    exact h.definition id hid

theorem KeepsSystem.withBase {c : Catalog} (h : c.KeepsSystem) (id : DefId) (base : Descriptor) :
    (c.withBase id base).KeepsSystem where
  size_le := by rw [size_withBase]; exact h.size_le
  definition other hother :=
    (h.definition other hother).trans ((rebased_withBase c id base).definition other)

/-! ### Every catalog that declarations build -/

theorem Reachable.wellNested {c : Catalog} (h : c.Reachable) : c.WellNested := by
  induction h with
  | initial => exact wellNested_initial
  | define before step ih =>
    obtain ⟨-, -, rfl⟩ := define_eq_ok step
    exact ih.add (fun _ => rfl) (fun hd => nomatch hd) (fun hb => nomatch hb)
  | @defineNested c c' id outer name params visibility before declared step ih =>
    obtain ⟨-, -, rfl⟩ := defineNested_eq_ok step
    refine ih.add (fun hd => nomatch hd) (fun hd => ?_) (fun hb => nomatch hb)
    cases hd
    exact ⟨declared, ⟨params, rfl⟩, rfl⟩
  | @setBase c c' id base before declared step ih =>
    obtain ⟨-, rfl⟩ := setBase_eq_ok step
    exact ih.rebased (rebased_withBase c id base)

theorem Reachable.keepsSystem {c : Catalog} (h : c.Reachable) : c.KeepsSystem := by
  induction h with
  | initial => exact keepsSystem_initial
  | define before step ih =>
    obtain ⟨-, -, rfl⟩ := define_eq_ok step
    exact ih.add _ _ none
  | defineNested before declared step ih =>
    obtain ⟨-, -, rfl⟩ := defineNested_eq_ok step
    exact ih.add _ _ _
  | setBase before declared step ih =>
    obtain ⟨-, rfl⟩ := setBase_eq_ok step
    exact ih.withBase _ _

/-- A definition that has parameters in the initial catalog is a system definition, and
has them in every catalog. -/
theorem KeepsSystem.params {c : Catalog} (h : c.KeepsSystem) {id : DefId}
    (hne : (initial.definition id).params ≠ []) :
    (c.definition id).params = (initial.definition id).params := by
  refine (h.definition id (Nat.lt_of_not_le fun hle => hne ?_)).params
  rw [definition_initial, List.getElem?_eq_none hle]
  rfl

/-- ``System.Nullable`1`` has its one parameter. -/
theorem KeepsSystem.params_nullable {c : Catalog} (h : c.KeepsSystem) :
    (c.definition .nullable).params = ["T"] := by
  rw [h.params (by decide +kernel)]
  decide +kernel

/-- Serving a catalog with other bases keeps the system definitions.  The last of them
has a parameter, so none is missing. -/
theorem KeepsSystem.rebased {c c' : Catalog} (h : c.KeepsSystem) (hr : c.Rebased c') :
    c'.KeepsSystem where
  size_le := by
    have hparams : (c'.definition .nullable).params = ["T"] := by
      rw [(hr.definition .nullable).params, h.params_nullable]
    have hlast : c'.Declares .nullable := by
      refine Decidable.byContradiction fun hmissing => ?_
      rw [definition_of_not_declares hmissing] at hparams
      cases hparams
    exact hlast
  definition id hid := (h.definition id hid).trans (hr.definition id)

end Catalog

end Generics
