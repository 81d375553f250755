import Mathlib.Data.List.Nodup
import Generics.Proofs.Known

/-!
# Plans

What an entry of a document asks for can be said before anything is declared: the path
of the type, the path of the type around it, and the definition that it will have.  A
list of entries is declared exactly if all of them can be read in this way and no path
is asked for twice; the catalog then has what was asked for, in the order of the
entries.  So a document can be understood without the numbers that its types get.

## Main definitions

* `Outline`, `Catalog.outline` — a declared type, apart from its number and its base.
* `Plan`, `Catalog.allPlans` — what an entry, or a list of entries, asks for.
* `Draft.Accepts`, `Draft.Follows` — no path is asked for twice; a draft has what was
  asked for.

## Main results

* `outlines_add` — a declaration adds one outline at the end.
* `declareAll_executes` — declaring entries carries out their plans.
* `exists_declareAll_iff` — when it succeeds.
-/

namespace Generics

/-- What is known of a declared type apart from its number and its base. -/
structure Outline where
  path : String
  /-- The path of the type in which it is declared. -/
  outer : Option String
  /-- The definition, without the number of the type around it and without base. -/
  definition : Definition

/-- What an entry asks for. -/
structure Plan where
  outline : Outline
  /-- The base as it is written. -/
  base : Option String

/-- The written base of a plan, with the path of the type it is the base of. -/
def Plan.written (plan : Plan) : List (String × String) :=
  (plan.base.map fun base => (plan.outline.path, base)).toList

namespace Catalog

variable {c : Catalog}

/-! ### Outlines -/

/-- The outline of a definition. -/
def outline (c : Catalog) (id : DefId) : Outline where
  path := c.path id
  outer := (c.definition id).declaring.map c.path
  definition := { c.definition id with declaring := none, base := none }

/-- The outlines of all definitions, in the order of their declaration. -/
def outlines (c : Catalog) : List Outline :=
  c.ids.map c.outline

theorem mem_outlines {o : Outline} : o ∈ c.outlines ↔ ∃ id, c.Declares id ∧ c.outline id = o := by
  unfold outlines
  rw [List.mem_map]
  exact exists_congr fun id => and_congr_left fun _ => mem_ids

/-- What is declared keeps its outline. -/
theorem outline_add {path : String} {d : Definition} (hc : c.WellNested)
    (hc' : (c.add path d d.declaring).WellNested) {id : DefId} (hid : c.Declares id) :
    (c.add path d d.declaring).outline id = c.outline id := by
  have hpath : ∀ {other}, c.Declares other → (c.add path d d.declaring).path other =
      c.path other := fun hother => (keeps_add c path d d.declaring).path hc hc' hother
  unfold outline
  rw [hpath hid, definition_add_of_declares hid]
  cases hd : (c.definition id).declaring with
  | none => rfl
  | some outer => rw [Option.map_some, Option.map_some, hpath (hc.declares_outer hd)]

/-- The outline of a definition that is put in under a path. -/
def newOutline (c : Catalog) (path : String) (d : Definition) : Outline where
  path := path
  outer := d.declaring.map c.path
  definition := { d with declaring := none, base := none }

theorem outline_new {path : String} {d : Definition} (hf : c.Fresh path d)
    (hc : c.WellNested) (hc' : (c.add path d d.declaring).WellNested) :
    (c.add path d d.declaring).outline ⟨c.size⟩ = c.newOutline path d := by
  have hnew : (c.add path d d.declaring).definition ⟨c.size⟩ = d := by
    rw [definition_add, if_pos rfl]
  have houter : d.declaring.map (c.add path d d.declaring).path = d.declaring.map c.path := by
    cases ho : d.declaring with
    | none => rfl
    | some outer =>
      rw [Option.map_some, Option.map_some, ← ho,
        (keeps_add c path d d.declaring).path hc hc' (hf.inside ho).1]
  unfold outline newOutline
  rw [hnew, hf.path_add hc hc', houter]

/-- A declaration adds one outline at the end. -/
theorem outlines_add {path : String} {d : Definition} (hf : c.Fresh path d)
    (hc : c.WellNested) (hc' : (c.add path d d.declaring).WellNested) :
    (c.add path d d.declaring).outlines = c.outlines ++ [c.newOutline path d] := by
  have hold : c.ids.map (c.add path d d.declaring).outline = c.outlines :=
    List.map_congr_left fun id hid => outline_add hc hc' (mem_ids.1 hid)
  rw [outlines, ids_add, List.map_append, hold, List.map_singleton, outline_new hf hc hc']

/-- No two definitions have one path. -/
theorem Indexed.nodup_paths (h : c.Indexed) : (c.outlines.map Outline.path).Nodup := by
  have hids : c.ids.Nodup :=
    List.Nodup.map (fun _ _ he => congrArg DefId.index he) List.nodup_range
  unfold outlines
  rw [List.map_map]
  refine hids.map_on fun id hid other hother he => ?_
  exact h.eq_of_path_eq (mem_ids.1 hid) (mem_ids.1 hother) he

/-- A path that no outline has is free. -/
theorem Indexed.lookup?_eq_none (h : c.Indexed) {path : String}
    (hpath : path ∉ c.outlines.map Outline.path) : c.lookup? path = none := by
  cases hfound : c.lookup? path with
  | none => rfl
  | some id =>
    obtain ⟨hid, he⟩ := h.of_lookup? hfound
    exact absurd (List.mem_map.2 ⟨c.outline id, mem_outlines.2 ⟨id, hid, rfl⟩, he⟩) hpath

/-! ### What entries ask for -/

/-- The plan for a type of its own, or for a type inside another one. -/
def planOf (outer : Option Outline) (nameSpace : Option String) (head : EntryHead)
    (base : Option String) : Plan :=
  let declared := declaredName head.name head.params.length
  match outer with
  | none =>
    { outline :=
        { path := outermostPath nameSpace declared
          outer := none
          definition := outermostDefinition nameSpace head.name head.params head.visibility }
      base }
  | some outer =>
    { outline :=
        { path := outer.path ++ "+" ++ declared
          outer := some outer.path
          definition :=
            { nameSpace := outer.definition.nameSpace
              name := declared
              params := outer.definition.params ++ head.params
              inherited := outer.definition.params.length
              visibility := head.visibility } }
      base }

/-- What an entry asks for, apart from the types inside it. -/
def headPlan (outer : Option Outline) (entry : Json) : Option Plan := do
  let head ← (readHead entry).toOption
  let base ← (readBase head.name entry).toOption
  some (planOf outer ((entry.get? "namespace").bind Json.string?) head base)

mutual

/-- What an entry asks for, and then what the entries inside it ask for. -/
def entryPlans (outer : Option Outline) : Json → Option (List Plan)
  | .object fields => do
    let plan ← headPlan outer (.object fields)
    let inner ← nestedPlans plan.outline fields
    some (plan :: inner)
  | _ => none

/-- What the entries under the key `nested` ask for. -/
def nestedPlans (outer : Outline) : List (String × Json) → Option (List Plan)
  | [] => some []
  | (key, .array entries) :: rest =>
    if key = "nested" then allPlans (some outer) entries else nestedPlans outer rest
  | (key, _) :: rest => if key = "nested" then none else nestedPlans outer rest

/-- What some entries ask for, one after the other. -/
def allPlans (outer : Option Outline) : List Json → Option (List Plan)
  | [] => some []
  | entry :: entries => do
    let first ← entryPlans outer entry
    let others ← allPlans outer entries
    some (first ++ others)

end

/-! ### Carrying plans out -/

namespace Draft

/-- The bases that are to be set, with the paths of their types. -/
def written (draft : Draft) : List (String × String) :=
  draft.bases.map fun entry => (draft.catalog.path entry.1, entry.2)

/-- No path is asked for that is taken, and none twice. -/
def Accepts (draft : Draft) (plans : List Plan) : Prop :=
  ((draft.catalog.outlines ++ plans.map Plan.outline).map Outline.path).Nodup

/-- The draft `draft'` has what `draft` has, and behind it what was asked for. -/
structure Follows (draft : Draft) (plans : List Plan) (draft' : Draft) : Prop where
  sound : draft'.Sound
  keeps : ∀ {id}, draft.catalog.Declares id →
    draft'.catalog.Declares id ∧ draft'.catalog.outline id = draft.catalog.outline id
  outlines : draft'.catalog.outlines = draft.catalog.outlines ++ plans.map Plan.outline
  written : draft'.written = draft.written ++ plans.flatMap Plan.written

variable {draft draft' draft'' : Draft} {plans plans' : List Plan}

theorem Follows.refl (h : draft.Sound) : draft.Follows [] draft where
  sound := h
  keeps hid := ⟨hid, rfl⟩
  outlines := by rw [List.map_nil, List.append_nil]
  written := by rw [List.flatMap_nil, List.append_nil]

theorem Follows.trans (h : draft.Follows plans draft') (h' : draft'.Follows plans' draft'') :
    draft.Follows (plans ++ plans') draft'' where
  sound := h'.sound
  keeps hid := by
    obtain ⟨hid', he⟩ := h.keeps hid
    obtain ⟨hid'', he'⟩ := h'.keeps hid'
    exact ⟨hid'', he'.trans he⟩
  outlines := by rw [h'.outlines, h.outlines, List.map_append, List.append_assoc]
  written := by rw [h'.written, h.written, List.flatMap_append, List.append_assoc]

/-- What was carried out was acceptable. -/
theorem Follows.accepts (h : draft.Follows plans draft') : draft.Accepts plans := by
  unfold Accepts
  rw [← h.outlines]
  exact h.sound.reachable.indexed.nodup_paths

theorem Accepts.left (h : draft.Accepts (plans ++ plans')) : draft.Accepts plans := by
  unfold Accepts at h ⊢
  simp only [List.map_append, ← List.append_assoc] at h ⊢
  exact (List.nodup_append.1 h).1

theorem Accepts.right (h : draft.Accepts (plans ++ plans')) (hf : draft.Follows plans draft') :
    draft'.Accepts plans' := by
  unfold Accepts at h ⊢
  rw [hf.outlines]
  simpa only [List.map_append, ← List.append_assoc] using h

/-- Carrying out the plans leads to `result`: if all entries can be read and the plans are
acceptable there is a draft, and any draft that there is has what was asked for. -/
structure Executes (draft : Draft) (plans : Option (List Plan)) (result : Except LoadError Draft) :
    Prop where
  follows : ∀ {draft'}, result = .ok draft' → ∃ made, plans = some made ∧ draft.Follows made draft'
  succeeds : ∀ {made}, plans = some made → draft.Accepts made → ∃ draft', result = .ok draft'

theorem Executes.done (h : draft.Sound) : draft.Executes (some []) (.ok draft) where
  follows he := by
    cases he
    exact ⟨[], rfl, .refl h⟩
  succeeds _ _ := ⟨draft, rfl⟩

theorem Executes.fail (cause : LoadError) : draft.Executes none (.error cause) where
  follows he := by cases he
  succeeds he := by cases he

/-- Plans that are carried out one after the other are carried out together. -/
theorem Executes.bind {first second : Option (List Plan)} {result : Except LoadError Draft}
    {next : Draft → Except LoadError Draft} (h : draft.Executes first result)
    (hnext : ∀ {made draft'}, draft.Follows made draft' → draft'.Executes second (next draft')) :
    draft.Executes (do let plans ← first; let plans' ← second; some (plans ++ plans'))
      (result >>= next) where
  follows he := by
    obtain ⟨middle, hmiddle, he⟩ := Except.bind_eq_ok.1 he
    obtain ⟨made, rfl, hfollows⟩ := h.follows hmiddle
    obtain ⟨made', rfl, hfollows'⟩ := (hnext hfollows).follows he
    exact ⟨made ++ made', rfl, hfollows.trans hfollows'⟩
  succeeds he haccepts := by
    obtain ⟨made, rfl, hrest⟩ := Option.bind_eq_some_iff.1 he
    obtain ⟨made', rfl, hall⟩ := Option.bind_eq_some_iff.1 hrest
    cases hall
    -- what the second part asks for is still free when the first part is carried out
    obtain ⟨middle, hmiddle⟩ := h.succeeds rfl haccepts.left
    obtain ⟨_, hmade, hfollows⟩ := h.follows hmiddle
    cases hmade
    obtain ⟨last, hlast⟩ := (hnext hfollows).succeeds rfl (haccepts.right hfollows)
    exact ⟨last, Except.bind_eq_ok.2 ⟨middle, hmiddle, hlast⟩⟩

end Draft

/-! ### One entry -/

/-- A draft with one more definition, and perhaps one more base to be set. -/
theorem Draft.Sound.follows_add {draft draft' : Draft} (h : draft.Sound) (h' : draft'.Sound)
    {path : String} {d : Definition} {base : Option String} (hf : draft.catalog.Fresh path d)
    (hcatalog : draft'.catalog = draft.catalog.add path d d.declaring)
    (hbases : draft'.bases = draft.bases ++
      (base.map fun base => (⟨draft.catalog.size⟩, base)).toList) :
    draft.Follows [⟨draft.catalog.newOutline path d, base⟩] draft' := by
  have hc := h.reachable.wellNested
  have hc' := h'.reachable.wellNested
  rw [hcatalog] at hc'
  have hkeeps : ∀ {id}, draft.catalog.Declares id →
      draft'.catalog.Declares id ∧ draft'.catalog.outline id = draft.catalog.outline id := by
    intro id hid
    rw [hcatalog]
    exact ⟨declares_of_size_le (by rw [size_add]; omega) hid, outline_add hc hc' hid⟩
  have hpaths : draft.bases.map (fun entry => (draft'.catalog.path entry.1, entry.2)) =
      draft.written := by
    refine List.map_congr_left fun entry hentry => ?_
    have hkept := (hkeeps (h.declared entry hentry)).2
    exact congrArg (fun o : Outline => (o.path, entry.2)) hkept
  refine ⟨h', hkeeps, ?_, ?_⟩
  · rw [hcatalog]
    exact outlines_add hf hc hc'
  · unfold Draft.written
    rw [hbases, List.map_append, hpaths, hcatalog]
    cases base with
    | none => rfl
    | some text => simp [Plan.written, newOutline, hf.path_add hc hc', Draft.written]

/-- What an entry asks for is a fresh definition, if its path is free. -/
theorem exists_fresh_of_headPlan {outer : Option DefId}
    (declared : ∀ o, outer = some o → c.Declares o) {nameSpace : Option String}
    {head : EntryHead} {base : Option String}
    (hfree : c.lookup? (planOf (outer.map c.outline) nameSpace head base).outline.path = none) :
    ∃ path d, c.Fresh path d ∧
      planOf (outer.map c.outline) nameSpace head base = ⟨c.newOutline path d, base⟩ ∧
      c.declareType outer nameSpace head = .ok (⟨c.size⟩, c.add path d d.declaring) := by
  cases outer with
  | none => exact ⟨_, _, fresh_outermost hfree, rfl, define_of_free hfree _⟩
  | some outer =>
    exact ⟨_, _, fresh_inner (declared outer rfl) hfree, rfl, defineNested_of_free hfree _⟩

/-- A type can be declared only if its path is free. -/
theorem lookup?_of_declareType {c' : Catalog} {outer : Option DefId} {nameSpace : Option String}
    {head : EntryHead} {id : DefId} (h : c.declareType outer nameSpace head = .ok (id, c'))
    (base : Option String) :
    c.lookup? (planOf (outer.map c.outline) nameSpace head base).outline.path = none := by
  cases outer with
  | none => exact (define_eq_ok h).1
  | some outer => exact (defineNested_eq_ok h).1

theorem headPlan_eq_some_iff {outer : Option Outline} {entry : Json} {plan : Plan} :
    headPlan outer entry = some plan ↔ ∃ head base, readHead entry = .ok head ∧
      readBase head.name entry = .ok base ∧
      plan = planOf outer ((entry.get? "namespace").bind Json.string?) head base := by
  unfold headPlan
  constructor
  · intro h
    obtain ⟨head, hhead, h⟩ := Option.bind_eq_some_iff.1 h
    obtain ⟨base, hbase, h⟩ := Option.bind_eq_some_iff.1 h
    cases h
    exact ⟨head, base, Except.toOption_eq_some.1 hhead, Except.toOption_eq_some.1 hbase, rfl⟩
  · rintro ⟨head, base, hhead, hbase, rfl⟩
    rw [hhead]
    refine Option.bind_eq_some_iff.2 ⟨head, rfl, ?_⟩
    rw [hbase]
    rfl

/-- A type that is declared as an entry asks has the outline of the plan. -/
theorem Draft.Sound.follows_declareHead {draft draft' : Draft} (h : draft.Sound)
    {outer : Option DefId} {entry : Json} {id : DefId} {head : EntryHead}
    (declared : ∀ o, outer = some o → draft.catalog.Declares o)
    (step : declareHead draft outer entry = .ok (id, head, draft')) :
    ∃ plan, headPlan (outer.map draft.catalog.outline) entry = some plan ∧
      draft.Follows [plan] draft' ∧ draft'.catalog.Declares id ∧
      draft'.catalog.outline id = plan.outline := by
  have h' : draft'.Sound := h.declare declared step
  obtain ⟨hhead, hdeclare, base, hbase, hbases⟩ := declareHead_eq_ok step
  have hfree := lookup?_of_declareType hdeclare base
  obtain ⟨path, d, hf, hplan, hdeclare'⟩ := exists_fresh_of_headPlan declared hfree
  rw [hdeclare] at hdeclare'
  injection hdeclare' with he
  injection he with hid hcatalog
  have hc' := h'.reachable.wellNested
  rw [hcatalog] at hc'
  refine ⟨_, headPlan_eq_some_iff.2 ⟨head, base, hhead, hbase, rfl⟩, ?_, ?_, ?_⟩
  · rw [hplan]
    rw [hid] at hbases
    exact h.follows_add h' hf hcatalog hbases
  · unfold Declares
    rw [hcatalog, hid, size_add]
    exact Nat.lt_succ_self _
  · rw [hplan, hcatalog, hid]
    exact outline_new hf h.reachable.wellNested hc'

/-- An entry that can be read is declared if its path is free. -/
theorem Draft.Sound.exists_declareHead {draft : Draft} (h : draft.Sound) {outer : Option DefId}
    {entry : Json} (declared : ∀ o, outer = some o → draft.catalog.Declares o) {plan : Plan}
    (hplan : headPlan (outer.map draft.catalog.outline) entry = some plan)
    (haccepts : draft.Accepts [plan]) :
    ∃ id head draft', declareHead draft outer entry = .ok (id, head, draft') := by
  obtain ⟨head, base, hhead, hbase, rfl⟩ := headPlan_eq_some_iff.1 hplan
  have hfree := h.reachable.indexed.lookup?_eq_none fun hmem => by
    unfold Draft.Accepts at haccepts
    rw [List.map_append, List.nodup_append] at haccepts
    exact haccepts.2.2 _ hmem _ (List.mem_singleton.2 rfl) rfl
  obtain ⟨path, d, -, -, hdeclare⟩ := exists_fresh_of_headPlan declared hfree
  let new : DefId := ⟨draft.catalog.size⟩
  let last : Draft :=
    { catalog := draft.catalog.add path d d.declaring
      bases := draft.bases ++ (base.map fun base => (new, base)).toList }
  refine ⟨new, head, last, ?_⟩
  rw [declareHead_eq]
  refine Except.bind_eq_ok.2 ⟨head, Except.mapError_eq_ok.2 hhead, ?_⟩
  refine Except.bind_eq_ok.2 ⟨_, Except.mapError_eq_ok.2 hdeclare, ?_⟩
  exact Except.bind_eq_ok.2 ⟨base, Except.mapError_eq_ok.2 hbase, rfl⟩

/-! ### All entries -/

/-- The type around the types inside it is there, and is what it was. -/
theorem Draft.Follows.outer_map {draft draft' : Draft} {plans : List Plan}
    (h : draft.Follows plans draft') {outer : Option DefId}
    (declared : ∀ o, outer = some o → draft.catalog.Declares o) :
    (∀ o, outer = some o → draft'.catalog.Declares o) ∧
      outer.map draft'.catalog.outline = outer.map draft.catalog.outline := by
  cases outer with
  | none => exact ⟨nofun, rfl⟩
  | some outer =>
    obtain ⟨hdeclared, hsame⟩ := h.keeps (declared outer rfl)
    exact ⟨fun o ho => Option.some.inj ho ▸ hdeclared, congrArg some hsame⟩

/-- An entry is declared with the types inside it, if these are declared as they ask. -/
theorem Draft.Sound.executes_entry {draft : Draft} (h : draft.Sound) {outer : Option DefId}
    {fields : List (String × Json)}
    (declared : ∀ o, outer = some o → draft.catalog.Declares o)
    (inside : ∀ {draft : Draft} {id : DefId} {name : String}, draft.Sound →
      draft.catalog.Declares id →
      draft.Executes (nestedPlans (draft.catalog.outline id) fields)
        (declareNested id name draft fields)) :
    draft.Executes (entryPlans (outer.map draft.catalog.outline) (.object fields))
      (declareEntry outer draft (.object fields)) where
  follows he := by
    rw [declareEntry] at he
    obtain ⟨⟨id, head, middle⟩, hhead, he⟩ := Except.bind_eq_ok.1 he
    obtain ⟨plan, hplan, hfollows, hid, houtline⟩ := h.follows_declareHead declared hhead
    obtain ⟨inner, hinner, hfollows'⟩ := (inside hfollows.sound hid).follows he
    rw [houtline] at hinner
    refine ⟨plan :: inner, ?_, hfollows.trans hfollows'⟩
    rw [entryPlans, hplan, Option.bind_eq_bind, Option.bind_some, hinner]
    rfl
  succeeds he haccepts := by
    rw [entryPlans] at he
    obtain ⟨plan, hplan, hrest⟩ := Option.bind_eq_some_iff.1 he
    obtain ⟨inner, hinner, hall⟩ := Option.bind_eq_some_iff.1 hrest
    cases hall
    have hfirst : draft.Accepts [plan] := Draft.Accepts.left haccepts
    obtain ⟨id, head, middle, hhead⟩ := h.exists_declareHead declared hplan hfirst
    obtain ⟨plan', hplan', hfollows, hid, houtline⟩ := h.follows_declareHead declared hhead
    rw [hplan] at hplan'
    cases hplan'
    rw [← houtline] at hinner
    obtain ⟨last, hlast⟩ := (inside hfollows.sound hid).succeeds hinner
      (Draft.Accepts.right haccepts hfollows)
    rw [declareEntry]
    exact ⟨last, Except.bind_eq_ok.2 ⟨_, hhead, hlast⟩⟩

mutual

theorem declareEntry_executes : ∀ (entry : Json) {outer : Option DefId} {draft : Draft},
    draft.Sound → (∀ o, outer = some o → draft.catalog.Declares o) →
    draft.Executes (entryPlans (outer.map draft.catalog.outline) entry)
      (declareEntry outer draft entry)
  | .object fields, _, _, h, declared =>
    h.executes_entry declared fun h hid => declareNested_executes fields h hid
  | .null, _, _, _, _ => .fail _
  | .bool _, _, _, _, _ => .fail _
  | .int _, _, _, _, _ => .fail _
  | .float _, _, _, _, _ => .fail _
  | .string _, _, _, _, _ => .fail _
  | .array _, _, _, _, _ => .fail _

theorem declareNested_executes : ∀ (fields : List (String × Json)) {draft : Draft} {id : DefId}
    {name : String}, draft.Sound → draft.catalog.Declares id →
    draft.Executes (nestedPlans (draft.catalog.outline id) fields)
      (declareNested id name draft fields)
  | [], _, _, _, h, _ => .done h
  | (key, value) :: rest, draft, id, name, h, hid => by
    -- fields are passed over up to the first one with the key `nested`
    cases value with
    | array entries =>
      rw [nestedPlans, declareNested]
      split_ifs
      · exact declareAll_executes entries h fun o ho => Option.some.inj ho ▸ hid
      · exact declareNested_executes rest h hid
    | _ =>
      simp only [nestedPlans, declareNested]
      split_ifs
      · exact .fail _
      · exact declareNested_executes rest h hid

theorem declareAll_executes : ∀ (entries : List Json) {outer : Option DefId} {draft : Draft},
    draft.Sound → (∀ o, outer = some o → draft.catalog.Declares o) →
    draft.Executes (allPlans (outer.map draft.catalog.outline) entries)
      (declareAll outer draft entries)
  | [], _, _, h, _ => .done h
  | entry :: entries, outer, draft, h, declared => by
    rw [allPlans, declareAll]
    refine (declareEntry_executes entry h declared).bind fun hfollows => ?_
    obtain ⟨declared', hsame⟩ := hfollows.outer_map declared
    rw [← hsame]
    exact declareAll_executes entries hfollows.sound declared'

end

/-! ### Documents -/

/-- The draft with which loading begins. -/
def Draft.start : Draft :=
  { catalog := initial }

/-- A document is loaded by declaring its entries and setting their bases. -/
theorem ofJson_eq {document : Json} {entries : List Json}
    (htypes : document.get? "types" = some (.array entries)) : ofJson document = (do
      let draft ← declareAll none Draft.start entries
      draft.catalog.setWrittenBases draft.bases) := by
  unfold ofJson
  rw [htypes]
  rfl

theorem declareAll_start_executes (entries : List Json) :
    Draft.start.Executes (allPlans none entries) (declareAll none Draft.start entries) := by
  have declared : ∀ o, none = some o → Draft.start.catalog.Declares o := nofun
  exact declareAll_executes entries sound_initial declared

/-- The entries of a document are declared exactly if all of them can be read and no path
is asked for that is taken, or twice. -/
theorem exists_declareAll_iff (entries : List Json) :
    (∃ draft, declareAll none Draft.start entries = .ok draft) ↔
      ∃ plans, allPlans none entries = some plans ∧ Draft.start.Accepts plans := by
  constructor
  · rintro ⟨draft, hdraft⟩
    obtain ⟨plans, hplans, hfollows⟩ := (declareAll_start_executes entries).follows hdraft
    exact ⟨plans, hplans, hfollows.accepts⟩
  · rintro ⟨plans, hplans, haccepts⟩
    exact (declareAll_start_executes entries).succeeds hplans haccepts

end Catalog

end Generics
