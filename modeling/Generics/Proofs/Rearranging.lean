import Generics.Name.Basic
import Generics.Proofs.Plans
import Generics.Proofs.WrittenBases

/-!
# The order of declarations

The entries of a document may stand in any order.  If the same entries stand in another
order, at the top or inside an entry, the same plans are made in another order, and
whether they can be carried out depends on their paths alone.  The two catalogs have the
same definitions under other numbers, so the same bases are found in both, and all that
can be asked of a type by its name is answered alike.

## Main definitions

* `Rearranged` — two lists of entries that differ in the order of entries at any depth.
* `SameUpToOrder` — two documents whose types are such lists.
* `Catalog.renumbering` — the number that the definition with the same path has in
  another catalog.

## Main results

* `Rearranged.samePlans` — the plans are the same up to their order.
* `renumbers_of_perm` — so are the definitions up to their numbers.
* `Matches.findBases`, `Matches.base_eq` — and the bases.
* `ofJson_sameUpToOrder` — the catalogs answer alike.
-/

namespace Generics

/-! ### Entries in another order -/

/-- The same entries in another order, also inside other entries. -/
inductive Rearranged : List Json → List Json → Prop
  | nil : Rearranged [] []
  | cons (entry : Json) {entries entries' : List Json} (others : Rearranged entries entries') :
    Rearranged (entry :: entries) (entry :: entries')
  | inside {inner inner' : List Json} (before after : List (String × Json))
    (entries : List Json) (nested : Rearranged inner inner') :
    Rearranged (.object (before ++ ("nested", .array inner) :: after) :: entries)
      (.object (before ++ ("nested", .array inner') :: after) :: entries)
  | swap (first second : Json) (entries : List Json) :
    Rearranged (first :: second :: entries) (second :: first :: entries)
  | trans {entries entries' entries'' : List Json} (left : Rearranged entries entries')
    (right : Rearranged entries' entries'') : Rearranged entries entries''

/-- The same document, or one with the same types in another order. -/
inductive SameUpToOrder : Json → Json → Prop
  | same (document : Json) : SameUpToOrder document document
  | types {entries entries' : List Json} (before after : List (String × Json))
    (rearranged : Rearranged entries entries') :
    SameUpToOrder (.object (before ++ ("types", .array entries) :: after))
      (.object (before ++ ("types", .array entries') :: after))

theorem Rearranged.refl (entries : List Json) : Rearranged entries entries := by
  induction entries with
  | nil => exact .nil
  | cons entry entries ih => exact .cons entry ih

theorem Rearranged.symm {entries entries' : List Json} (h : Rearranged entries entries') :
    Rearranged entries' entries := by
  induction h with
  | nil => exact .nil
  | cons entry _ ih => exact .cons entry ih
  | inside before after entries _ ih => exact .inside before after entries ih
  | swap first second entries => exact .swap second first entries
  | trans _ _ left right => exact .trans right left

/-- A field between others is looked up under its own key at most. -/
theorem lookup_between_of_ne {key other : String} (h : other ≠ key) (v v' : Json)
    (before after : List (String × Json)) :
    (before ++ (key, v) :: after).lookup other = (before ++ (key, v') :: after).lookup other := by
  have hne : (other == key) = false := by simpa using h
  simp [List.lookup_append, List.lookup_cons, hne]

/-- Of several fields with one key the first is looked up. -/
theorem lookup_between_self (key : String) (v : Json) (before after : List (String × Json)) :
    (before ++ (key, v) :: after).lookup key = ((before.lookup key).getD v) := by
  rw [List.lookup_append, List.lookup_cons_self]
  cases before.lookup key <;> rfl

theorem SameUpToOrder.types_eq {document document' : Json} (h : SameUpToOrder document document')
    {entries : List Json} (htypes : document.get? "types" = some (.array entries)) :
    ∃ entries', document'.get? "types" = some (.array entries') ∧ Rearranged entries entries' := by
  cases h with
  | same => exact ⟨entries, htypes, .refl entries⟩
  | @types listed listed' before after rearranged =>
    rw [Json.get?_object, lookup_between_self] at htypes ⊢
    cases hbefore : before.lookup "types" with
    | none =>
      rw [hbefore] at htypes
      cases htypes
      exact ⟨listed', rfl, rearranged⟩
    | some value =>
      rw [hbefore] at htypes
      exact ⟨entries, htypes, .refl entries⟩

theorem SameUpToOrder.symm {document document' : Json} (h : SameUpToOrder document document') :
    SameUpToOrder document' document := by
  cases h with
  | same => exact .same document
  | types before after rearranged => exact .types before after rearranged.symm

namespace Catalog

open Descriptor

/-! ### The same plans -/

/-- Entries that cannot be read on both sides, or the same plans up to their order. -/
def SamePlans : Option (List Plan) → Option (List Plan) → Prop :=
  Option.Rel List.Perm

theorem SamePlans.refl : (plans : Option (List Plan)) → SamePlans plans plans
  | none => .none
  | some plans => .some (.refl plans)

theorem SamePlans.trans {plans plans' plans'' : Option (List Plan)} (h : SamePlans plans plans')
    (h' : SamePlans plans' plans'') : SamePlans plans plans'' := by
  cases h with
  | none => exact h'
  | some h =>
    cases h' with
    | some h' => exact .some (h.trans h')

/-- Plans behind other plans, if both can be made. -/
def appendPlans (first second : Option (List Plan)) : Option (List Plan) := do
  let plans ← first
  let plans' ← second
  some (plans ++ plans')

theorem allPlans_cons (outer : Option Outline) (entry : Json) (entries : List Json) :
    allPlans outer (entry :: entries) =
      appendPlans (entryPlans outer entry) (allPlans outer entries) := by
  rw [allPlans, appendPlans]

theorem SamePlans.append {first first' second second' : Option (List Plan)}
    (h : SamePlans first first') (h' : SamePlans second second') :
    SamePlans (appendPlans first second) (appendPlans first' second') := by
  cases h with
  | none => exact .none
  | some h =>
    cases h' with
    | none => exact .none
    | some h' => exact .some (h.append h')

/-- Plans can be made in either order. -/
theorem SamePlans.swap (first second others : Option (List Plan)) :
    SamePlans (appendPlans first (appendPlans second others))
      (appendPlans second (appendPlans first others)) := by
  cases first with
  | none => cases second <;> exact .none
  | some a =>
    cases second with
    | none => exact .none
    | some b =>
      cases others with
      | none => exact .none
      | some c =>
        refine .some ?_
        rw [← List.append_assoc, ← List.append_assoc]
        exact List.perm_append_comm.append_right c

/-- The types inside are found like any other field. -/
theorem nestedPlans_eq (outer : Outline) (fields : List (String × Json)) :
    nestedPlans outer fields = match fields.lookup "nested" with
      | none => some []
      | some (.array entries) => allPlans (some outer) entries
      | some _ => none := by
  induction fields with
  | nil => rfl
  | cons field rest ih =>
    obtain ⟨key, value⟩ := field
    by_cases h : key = "nested"
    · subst h
      rw [List.lookup_cons_self]
      cases value <;> simp [nestedPlans]
    · have hne : ("nested" == key) = false := by simpa using Ne.symm h
      rw [List.lookup_cons, hne]
      cases value <;> simp [nestedPlans, h, ih]

/-- What an entry says of its own type does not depend on the types inside. -/
theorem headPlan_congr (outer : Option Outline) (entry entry' : Json)
    (h : ∀ key, key ≠ "nested" → entry.get? key = entry'.get? key) :
    headPlan outer entry = headPlan outer entry' := by
  have hhead : (readHead entry).toOption = (readHead entry').toOption := by
    unfold readHead
    rw [h "name" (by decide), h "params" (by decide), h "visibility" (by decide)]
    cases (entry'.get? "name").bind Json.string? <;> rfl
  have hbase : ∀ name, readBase name entry = readBase name entry' := by
    intro name
    unfold readBase
    rw [h "base" (by decide)]
  unfold headPlan
  rw [hhead, h "namespace" (by decide)]
  simp only [hbase]

/-- An entry with the entries inside it in another order makes the same plans. -/
theorem samePlans_inside {inner inner' : List Json} (before after : List (String × Json))
    (h : ∀ outer, SamePlans (allPlans outer inner) (allPlans outer inner'))
    (outer : Option Outline) :
    SamePlans (entryPlans outer (.object (before ++ ("nested", .array inner) :: after)))
      (entryPlans outer (.object (before ++ ("nested", .array inner') :: after))) := by
  have hhead := headPlan_congr outer (.object (before ++ ("nested", .array inner) :: after))
    (.object (before ++ ("nested", .array inner') :: after))
    fun key hkey => lookup_between_of_ne hkey _ _ before after
  have hnested : ∀ o, SamePlans (nestedPlans o (before ++ ("nested", .array inner) :: after))
      (nestedPlans o (before ++ ("nested", .array inner') :: after)) := by
    intro o
    rw [nestedPlans_eq, nestedPlans_eq, lookup_between_self, lookup_between_self]
    -- an earlier field with this key hides the one that differs
    cases before.lookup "nested" with
    | none => exact h (some o)
    | some value => exact .refl _
  rw [entryPlans, entryPlans, hhead]
  cases headPlan outer (.object (before ++ ("nested", .array inner') :: after)) with
  | none => exact .none
  | some plan =>
    have hone : SamePlans (some [plan]) (some [plan]) := .refl _
    exact hone.append (hnested plan.outline)

/-- The same entries in another order make the same plans in another order. -/
theorem samePlans_of_rearranged {entries entries' : List Json} (h : Rearranged entries entries')
    (outer : Option Outline) : SamePlans (allPlans outer entries) (allPlans outer entries') := by
  induction h generalizing outer with
  | nil => exact .refl _
  | cons entry _ ih =>
    rw [allPlans_cons, allPlans_cons]
    exact (SamePlans.refl _).append (ih outer)
  | inside before after entries _ ih =>
    rw [allPlans_cons, allPlans_cons]
    exact (samePlans_inside before after ih outer).append (.refl _)
  | swap first second entries =>
    simp only [allPlans_cons]
    exact .swap _ _ _
  | trans _ _ left right => exact (left outer).trans (right outer)

/-! ### The same definitions -/

variable {c c' : Catalog}

/-- The number that the definition with the path of `id` has in `c'`. -/
def renumbering (c c' : Catalog) (id : DefId) : DefId :=
  (c'.lookup? (c.path id)).getD id

theorem renumbering_eq (hc' : c'.Reachable) {id id' : DefId} (hid' : c'.Declares id')
    (hpath : c'.path id' = c.path id) : c.renumbering c' id = id' := by
  rw [renumbering, ← hpath, hc'.indexed.lookup?_path hid', Option.getD_some]

/-- Catalogs with the same outlines have the same definitions under other numbers. -/
theorem exists_renumbering (hc' : c'.Reachable) (h : c.outlines ⊆ c'.outlines) {id : DefId}
    (hid : c.Declares id) : c'.Declares (c.renumbering c' id) ∧
      c'.outline (c.renumbering c' id) = c.outline id := by
  obtain ⟨id', hid', he⟩ := mem_outlines.1 (h (mem_outlines.2 ⟨id, hid, rfl⟩))
  rw [renumbering_eq hc' hid' (congrArg Outline.path he)]
  exact ⟨hid', he⟩

/-- The types around a definition have the same path, so one is the number of the other. -/
theorem declaring_renumbering (hc' : c'.Reachable) (h : c.outlines ⊆ c'.outlines) {id : DefId}
    (hid : c.Declares id) : (c'.definition (c.renumbering c' id)).declaring =
      (c.definition id).declaring.map (c.renumbering c') := by
  have houter : (c'.definition (c.renumbering c' id)).declaring.map c'.path =
      (c.definition id).declaring.map c.path :=
    congrArg Outline.outer (exists_renumbering hc' h hid).2
  cases hd : (c.definition id).declaring with
  | none =>
    rw [hd, Option.map_none, Option.map_eq_none_iff] at houter
    rw [houter, Option.map_none]
  | some outer =>
    rw [hd, Option.map_some] at houter
    obtain ⟨outer', hd', hpath⟩ := Option.map_eq_some_iff.1 houter
    rw [hd', Option.map_some, renumbering_eq hc' (hc'.wellNested.declares_outer hd') hpath]

theorem definition_renumbering (hc' : c'.Reachable) (h : c.outlines ⊆ c'.outlines) {id : DefId}
    (hid : c.Declares id) : ((c.definition id).renumber (c.renumbering c')).SameButBase
      (c'.definition (c.renumbering c' id)) := by
  have hdefinition : { c'.definition (c.renumbering c' id) with declaring := none, base := none }
      = { c.definition id with declaring := none, base := none } :=
    congrArg Outline.definition (exists_renumbering hc' h hid).2
  refine ⟨(c'.definition (c.renumbering c' id)).base, ?_⟩
  unfold Definition.renumber
  rw [← declaring_renumbering hc' h hid]
  cases hnew : c'.definition (c.renumbering c' id) with
  | mk nameSpace name declaring params inherited visibility builtin base =>
    rw [hnew] at hdefinition
    simpa using hdefinition

/-- Optional values have the same path, and so the same number, in all catalogs. -/
theorem renumbering_eq_nullable_iff (hc : c.Reachable) (hc' : c'.Reachable)
    (h : c.outlines ⊆ c'.outlines) {id : DefId} (hid : c.Declares id) :
    c.renumbering c' id = .nullable ↔ id = .nullable := by
  have hdeclared : ∀ {d : Catalog}, d.Reachable → d.Declares .nullable := fun hd =>
    Nat.lt_of_lt_of_le (by decide) hd.keepsSystem.size_le
  have hpath : c'.path .nullable = c.path .nullable := by
    rw [hc'.keepsSystem.path_nullable, hc.keepsSystem.path_nullable]
  have hnumber : c.renumbering c' .nullable = .nullable :=
    renumbering_eq hc' (hdeclared hc') hpath
  constructor
  · intro he
    have hsame : c'.path (c.renumbering c' id) = c.path id :=
      congrArg Outline.path (exists_renumbering hc' h hid).2
    rw [he, hpath] at hsame
    exact hc.indexed.eq_of_path_eq hid (hdeclared hc) hsame.symm
  · rintro rfl
    exact hnumber

theorem renumbers_of_subset (hc : c.Reachable) (hc' : c'.Reachable)
    (h : c.outlines ⊆ c'.outlines) : Renumbers (c.renumbering c') c c' where
  wellNested := hc.wellNested
  wellNested' := hc'.wellNested
  declares hid := (exists_renumbering hc' h hid).1
  injective {id other} hid hother he := by
    have hpath := congrArg Outline.path (exists_renumbering hc' h hid).2
    rw [he, (exists_renumbering hc' h hother).2] at hpath
    exact (hc.indexed.eq_of_path_eq hother hid hpath).symm
  definition hid := definition_renumbering hc' h hid
  nullable hid := renumbering_eq_nullable_iff hc hc' h hid

/-- What is found under a path has the same path in both catalogs. -/
theorem foundUnder_of_perm (hc : c.Reachable) (hc' : c'.Reachable)
    (h : c.outlines.Perm c'.outlines) :
    FoundUnder (c.renumbering c') c c' fun _ => False where
  unknown h := h.elim
  lookup? {path} _ := by
    cases hfound : c.lookup? path with
    | some id =>
      obtain ⟨hid, rfl⟩ := hc.indexed.of_lookup? hfound
      obtain ⟨hid', he⟩ := exists_renumbering hc' h.subset hid
      have hpath : c'.path (c.renumbering c' id) = c.path id := congrArg Outline.path he
      rw [← hpath, hc'.indexed.lookup?_path hid', Option.map_some]
    | none =>
      rw [Option.map_none]
      refine hc'.indexed.lookup?_eq_none fun hmem => ?_
      -- a path that `c'` knows belongs to an outline of `c`
      obtain ⟨o, ho, rfl⟩ := List.mem_map.1 hmem
      obtain ⟨id, hid, rfl⟩ := mem_outlines.1 (h.symm.subset ho)
      have hsome : c.lookup? (c.outline id).path = some id := hc.indexed.lookup?_path hid
      rw [hsome] at hfound
      cases hfound

/-! ### The same bases -/

/-- Two drafts with the same definitions, and the same bases to be set, in any order. -/
structure Matches (draft draft' : Draft) : Prop where
  sound : draft.Sound
  sound' : draft'.Sound
  outlines : draft.catalog.outlines.Perm draft'.catalog.outlines
  written : draft.written.Perm draft'.written

namespace Matches

variable {draft draft' : Draft} (h : Matches draft draft')

include h

theorem symm : Matches draft' draft :=
  ⟨h.sound', h.sound, h.outlines.symm, h.written.symm⟩

theorem renumbers : Renumbers (draft.catalog.renumbering draft'.catalog) draft.catalog
    draft'.catalog :=
  renumbers_of_subset h.sound.reachable h.sound'.reachable h.outlines.subset

theorem foundUnder : FoundUnder (draft.catalog.renumbering draft'.catalog) draft.catalog
    draft'.catalog fun _ => False :=
  foundUnder_of_perm h.sound.reachable h.sound'.reachable h.outlines

/-- A base that is to be set is to be set for the renumbered definition, too. -/
theorem mem_bases {entry : DefId × String} (hentry : entry ∈ draft.bases) :
    (draft.catalog.renumbering draft'.catalog entry.1, entry.2) ∈ draft'.bases := by
  have hwritten : (draft.catalog.path entry.1, entry.2) ∈ draft'.written :=
    h.written.subset (List.mem_map.2 ⟨entry, hentry, rfl⟩)
  obtain ⟨entry', hentry', he⟩ := List.mem_map.1 hwritten
  injection he with hpath htext
  rw [renumbering_eq h.sound'.reachable (h.sound'.declared entry' hentry') hpath, ← htext]
  exact hentry'

/-- Every definition of the second catalog is a renumbered one of the first. -/
theorem exists_renumbered {id' : DefId} (hid' : draft'.catalog.Declares id') :
    ∃ id, draft.catalog.Declares id ∧ draft.catalog.renumbering draft'.catalog id = id' := by
  obtain ⟨id, hid, he⟩ :=
    mem_outlines.1 (h.outlines.symm.subset (mem_outlines.2 ⟨id', hid', rfl⟩))
  exact ⟨id, hid, renumbering_eq h.sound'.reachable hid' (congrArg Outline.path he).symm⟩

theorem writtenBase? {entry : DefId × String} (hentry : entry ∈ draft.bases) :
    draft'.catalog.writtenBase? (draft.catalog.renumbering draft'.catalog entry.1) entry.2 =
      (draft.catalog.writtenBase? entry.1 entry.2).map
        (renumber (draft.catalog.renumbering draft'.catalog)) :=
  h.foundUnder.writtenBase? h.renumbers h.sound.reachable.indexed
    (h.sound.declared entry hentry) entry.2

/-- If all bases of the second draft can be found, so can those of the first. -/
theorem exists_findBases {found' : List (DefId × Descriptor)}
    (hfound' : draft'.catalog.findBases draft'.bases = some found') :
    ∃ found, draft.catalog.findBases draft.bases = some found := by
  refine exists_findBases_iff.2 fun entry hentry => ?_
  obtain ⟨base', hbase'⟩ := exists_findBases_iff.1 ⟨found', hfound'⟩ _ (h.mem_bases hentry)
  rw [h.writtenBase? hentry] at hbase'
  obtain ⟨base, hbase, -⟩ := Option.map_eq_some_iff.1 hbase'
  exact ⟨base, hbase⟩

end Matches

/-- The bases that there are when all written ones are set. -/
theorem Draft.Sound.base_withBases {draft : Draft} (h : draft.Sound)
    (hnodup : (draft.bases.map Prod.fst).Nodup) {found : List (DefId × Descriptor)}
    (hfound : draft.catalog.findBases draft.bases = some found) :
    (∀ entry ∈ draft.bases, ((draft.catalog.withBases found).definition entry.1).base =
        draft.catalog.writtenBase? entry.1 entry.2) ∧
      ∀ id, id ∉ draft.bases.map Prod.fst →
        ((draft.catalog.withBases found).definition id).base = none := by
  obtain ⟨hids, hmem⟩ := findBases_eq_some hfound
  have declared : ∀ result ∈ found, draft.catalog.Declares result.1 := by
    intro result hresult
    have hid : result.1 ∈ draft.bases.map Prod.fst := hids ▸ List.mem_map_of_mem hresult
    obtain ⟨entry, hentry, he⟩ := List.mem_map.1 hid
    exact he ▸ h.declared entry hentry
  rw [← hids] at hnodup ⊢
  refine ⟨fun entry hentry => ?_, fun id hid => ?_⟩
  · obtain ⟨base, hbase, hresult⟩ := hmem entry hentry
    rw [hbase, base_withBases_of_mem declared hnodup hresult]
  · rw [base_withBases_of_not_mem declared hid, h.unbased id]

/-- The definitions of both catalogs have the same bases, up to renumbering. -/
theorem Matches.base_eq {draft draft' : Draft} (h : Matches draft draft')
    (hnodup : (draft.bases.map Prod.fst).Nodup) (hnodup' : (draft'.bases.map Prod.fst).Nodup)
    {found found' : List (DefId × Descriptor)}
    (hfound : draft.catalog.findBases draft.bases = some found)
    (hfound' : draft'.catalog.findBases draft'.bases = some found') {id : DefId}
    (hid : draft.catalog.Declares id) :
    ((draft'.catalog.withBases found').definition
        (draft.catalog.renumbering draft'.catalog id)).base =
      ((draft.catalog.withBases found).definition id).base.map
        (renumber (draft.catalog.renumbering draft'.catalog)) := by
  obtain ⟨hset, hunset⟩ := h.sound.base_withBases hnodup hfound
  obtain ⟨hset', hunset'⟩ := h.sound'.base_withBases hnodup' hfound'
  by_cases hmem : id ∈ draft.bases.map Prod.fst
  · obtain ⟨entry, hentry, rfl⟩ := List.mem_map.1 hmem
    rw [hset entry hentry, ← h.writtenBase? hentry]
    exact hset' _ (h.mem_bases hentry)
  · rw [hunset id hmem, Option.map_none]
    refine hunset' _ fun hmem' => hmem ?_
    -- a base of the renumbered definition would be written for the definition itself
    obtain ⟨entry', hentry', he⟩ := List.mem_map.1 hmem'
    have hback := h.symm.mem_bases hentry'
    rw [he, renumbering_eq h.sound.reachable hid (h.renumbers.path hid).symm] at hback
    exact List.mem_map.2 ⟨_, hback, rfl⟩

/-! ### Loading -/

/-- No type has two bases to be set. -/
theorem nodup_bases {draft : Draft} {plans : List Plan} (h : Draft.start.Follows plans draft) :
    (draft.bases.map Prod.fst).Nodup := by
  have hplans : (plans.map fun plan => plan.outline.path).Nodup := by
    have haccepts := h.accepts
    unfold Draft.Accepts at haccepts
    rw [List.map_append, List.map_map] at haccepts
    exact (List.nodup_append.1 haccepts).2.1
  have hsublist : ((plans.flatMap Plan.written).map Prod.fst).Sublist
      (plans.map fun plan => plan.outline.path) := by
    clear h hplans
    induction plans with
    | nil => exact .slnil
    | cons plan plans ih =>
      rw [List.flatMap_cons, List.map_append, List.map_cons, ← List.singleton_append]
      refine List.Sublist.append ?_ ih
      cases hbase : plan.base <;> simp [Plan.written, hbase]
  have hwritten : (draft.bases.map Prod.fst).map draft.catalog.path =
      (plans.flatMap Plan.written).map Prod.fst := by
    have hall : draft.written = plans.flatMap Plan.written := h.written
    rw [← hall, Draft.written, List.map_map, List.map_map]
    rfl
  refine List.Nodup.of_map draft.catalog.path ?_
  rw [hwritten]
  exact hplans.sublist hsublist

/-- Drafts of the same entries in another order match, and there is one of them if there
is the other. -/
theorem declareAll_rearranged {entries entries' : List Json} (h : Rearranged entries entries') :
    ((∃ draft, declareAll none Draft.start entries = .ok draft) →
        ∃ draft, declareAll none Draft.start entries' = .ok draft) ∧
      ∀ draft draft', declareAll none Draft.start entries = .ok draft →
        declareAll none Draft.start entries' = .ok draft' →
        Matches draft draft' ∧ (draft.bases.map Prod.fst).Nodup ∧
          (draft'.bases.map Prod.fst).Nodup := by
  have hplans := samePlans_of_rearranged h none
  constructor
  · rw [exists_declareAll_iff, exists_declareAll_iff]
    rintro ⟨plans, hmade, haccepts⟩
    rw [hmade] at hplans
    cases hmade' : allPlans none entries' with
    | none => rw [hmade'] at hplans; cases hplans
    | some plans' =>
      rw [hmade'] at hplans
      obtain ⟨hperm⟩ := hplans
      refine ⟨plans', rfl, ?_⟩
      -- acceptable is what has no path twice, in whatever order
      have hpaths := ((hperm.map Plan.outline).append_left initial.outlines).map Outline.path
      exact hpaths.nodup_iff.1 haccepts
  · intro draft draft' hdraft hdraft'
    obtain ⟨plans, hmade, hfollows⟩ := (declareAll_start_executes entries).follows hdraft
    obtain ⟨plans', hmade', hfollows'⟩ := (declareAll_start_executes entries').follows hdraft'
    rw [hmade, hmade'] at hplans
    obtain ⟨hperm⟩ := hplans
    refine ⟨⟨hfollows.sound, hfollows'.sound, ?_, ?_⟩, nodup_bases hfollows, nodup_bases hfollows'⟩
    · rw [hfollows.outlines, hfollows'.outlines]
      exact (hperm.map Plan.outline).append_left _
    · rw [hfollows.written, hfollows'.written]
      exact (hperm.flatMap_right Plan.written).append_left _

/-- What a document is loaded from: drafts of its entries, and bases that can be found. -/
theorem ofJson_eq_ok_iff {document : Json} {entries : List Json}
    (htypes : document.get? "types" = some (.array entries)) {c : Catalog} :
    ofJson document = .ok c ↔ ∃ draft found, declareAll none Draft.start entries = .ok draft ∧
      draft.catalog.findBases draft.bases = some found ∧ c = draft.catalog.withBases found := by
  rw [ofJson_eq htypes, Except.bind_eq_ok]
  refine exists_congr fun draft => ?_
  constructor
  · rintro ⟨hdraft, hset⟩
    obtain ⟨_, _, hfollows⟩ := (declareAll_start_executes entries).follows hdraft
    have hall := toOption_setWrittenBases hfollows.sound.reachable.wellNested
      hfollows.sound.reachable.indexed hfollows.sound.declared
    rw [hset] at hall
    obtain ⟨found, hfound, hc⟩ := Option.map_eq_some_iff.1 hall.symm
    exact ⟨found, hdraft, hfound, hc.symm⟩
  · rintro ⟨found, hdraft, hfound, rfl⟩
    obtain ⟨_, _, hfollows⟩ := (declareAll_start_executes entries).follows hdraft
    have hall := toOption_setWrittenBases hfollows.sound.reachable.wellNested
      hfollows.sound.reachable.indexed hfollows.sound.declared
    rw [hfound] at hall
    exact ⟨hdraft, Except.toOption_eq_some.1 hall⟩

/-- A document loads if it does with its types in another order. -/
theorem exists_ofJson_of_sameUpToOrder {document document' : Json}
    (h : SameUpToOrder document document') {c : Catalog} (loaded : ofJson document = .ok c) :
    ∃ c', ofJson document' = .ok c' := by
  obtain ⟨entries, _, htypes, -⟩ := ofJson_eq_ok loaded
  obtain ⟨entries', htypes', hrearranged⟩ := h.types_eq htypes
  obtain ⟨draft, found, hdraft, hfound, rfl⟩ := (ofJson_eq_ok_iff htypes).1 loaded
  obtain ⟨hexists, hmatches⟩ := declareAll_rearranged hrearranged
  obtain ⟨draft', hdraft'⟩ := hexists ⟨draft, hdraft⟩
  obtain ⟨found', hfound'⟩ := (hmatches draft draft' hdraft hdraft').1.symm.exists_findBases hfound
  exact ⟨_, (ofJson_eq_ok_iff htypes').2 ⟨draft', found', hdraft', hfound', rfl⟩⟩

/-- Two documents with the same types in another order describe the same definitions with
the same bases, up to numbers. -/
theorem exists_renumbers_of_sameUpToOrder {document document' : Json}
    (h : SameUpToOrder document document') (loaded : ofJson document = .ok c)
    (loaded' : ofJson document' = .ok c') :
    ∃ f, Renumbers f c c' ∧ FoundUnder f c c' (fun _ => False) ∧
      (∀ {id'}, c'.Declares id' → ∃ id, c.Declares id ∧ f id = id') ∧
      ∀ {id}, c.Declares id →
        (c'.definition (f id)).base = (c.definition id).base.map (renumber f) := by
  obtain ⟨entries, _, htypes, -⟩ := ofJson_eq_ok loaded
  obtain ⟨entries', htypes', hrearranged⟩ := h.types_eq htypes
  obtain ⟨draft, found, hdraft, hfound, rfl⟩ := (ofJson_eq_ok_iff htypes).1 loaded
  obtain ⟨draft', found', hdraft', hfound', rfl⟩ := (ofJson_eq_ok_iff htypes').1 loaded'
  obtain ⟨hmatches, hnodup, hnodup'⟩ := (declareAll_rearranged hrearranged).2 _ _ hdraft hdraft'
  obtain ⟨hrebased, hsize⟩ := rebased_withBases draft.catalog found
  obtain ⟨hrebased', hsize'⟩ := rebased_withBases draft'.catalog found'
  -- the draft declares what the catalog declares, since bases declare nothing
  have declares : ∀ {id}, (draft.catalog.withBases found).Declares id ↔
      draft.catalog.Declares id := by
    intro id
    unfold Declares
    rw [hsize]
  refine ⟨draft.catalog.renumbering draft'.catalog,
    hmatches.renumbers.rebased hrebased hsize hrebased' hsize',
    hmatches.foundUnder.rebased hrebased hrebased', fun {id'} hid' => ?_, fun {id} hid => ?_⟩
  · have hdeclared : draft'.catalog.Declares id' := by
      unfold Declares at hid' ⊢
      rwa [hsize'] at hid'
    obtain ⟨id, hid, he⟩ := hmatches.exists_renumbered hdeclared
    exact ⟨id, declares.2 hid, he⟩
  · exact hmatches.base_eq hnodup hnodup' hfound hfound' (declares.1 hid)

/-- A document loads exactly if it does with its types in another order.  Then there is a
renumbering by paths between the two catalogs, and every text resolves to the renumbered
type, or fails with the same error.  The type has the same names, the same number of
slots, and the renumbered base, with the same names. -/
theorem ofJson_sameUpToOrder {document document' : Json}
    (h : SameUpToOrder document document') :
    ((∃ c, ofJson document = .ok c) ↔ ∃ c', ofJson document' = .ok c') ∧
    ∀ c c', ofJson document = .ok c → ofJson document' = .ok c' →
      ∃ f : DefId → DefId,
        (∀ id, c.Declares id → c'.Declares (f id) ∧ c'.path (f id) = c.path id) ∧
        (∀ id', c'.Declares id' → ∃ id, c.Declares id ∧ f id = id') ∧
        (∀ text, c'.resolve text = (c.resolve text).map (renumber f)) ∧
        ∀ text ty, c.resolve text = .ok ty →
          c'.name (ty.renumber f) = c.name ty ∧ c'.slots (ty.renumber f) = c.slots ty ∧
          c'.baseType (ty.renumber f) = (c.baseType ty).map (renumber f) ∧
          (c'.baseType (ty.renumber f)).map c'.name = (c.baseType ty).map c.name := by
  refine ⟨⟨?_, ?_⟩, ?_⟩
  · exact fun ⟨c, loaded⟩ => exists_ofJson_of_sameUpToOrder h loaded
  · exact fun ⟨c', loaded'⟩ => exists_ofJson_of_sameUpToOrder h.symm loaded'
  intro c c' loaded loaded'
  have hindexed : c.Indexed := (reachable_ofJson loaded).indexed
  have hknown : c.BasesKnown := basesKnown_ofJson loaded
  obtain ⟨f, hr, hfound, honto, hbases⟩ := exists_renumbers_of_sameUpToOrder h loaded loaded'
  refine ⟨f, fun id hid => ⟨hr.declares hid, hr.path hid⟩, fun id' hid' => honto hid', ?_, ?_⟩
  · intro text
    rcases hfound.resolve hr hindexed text with hsame | ⟨_, hnever, -⟩
    · exact hsame
    · exact hnever.elim
  · intro text ty hresolve
    have hty : c.Knows ty := hindexed.knows_resolve hresolve
    have hbase := hr.baseType hbases hknown hty
    refine ⟨hr.name hty, hr.slots hty, hbase, ?_⟩
    rw [hbase, Option.map_map]
    exact Option.map_congr fun base hmem => hr.name (hty.baseType hknown hmem)

/-- A leaf with a base that comes later, and two types inside another one that are bases of
each other.  In the second document the types come the other way around at both levels, so
their numbers are other ones.  What a text is resolved to is called the same. -/
theorem ofJson_sameUpToOrder_mutual :
    let leaf : Json := .object [("base", .string "Outer`1+First[Leaf]"), ("name", .string "Leaf")]
    let first : Json := .object [("base", .string "Outer`1+Last[T]"), ("name", .string "First")]
    let last : Json := .object [("base", .string "Outer`1+First[T]"), ("name", .string "Last")]
    let outer (inner : List Json) : Json := .object [("name", .string "Outer"),
      ("nested", .array inner), ("params", .array [.string "T"])]
    let document : Json := .object [("types", .array [leaf, outer [first, last]])]
    let document' : Json := .object [("types", .array [outer [last, first], leaf])]
    ∃ c c', ofJson document = .ok c ∧ ofJson document' = .ok c' ∧
      [17, 18, 19, 20].map (fun i => c.path ⟨i⟩) =
        ["Leaf", "Outer`1", "Outer`1+First", "Outer`1+Last"] ∧
      [17, 18, 19, 20].map (fun i => c'.path ⟨i⟩) =
        ["Outer`1", "Outer`1+Last", "Outer`1+First", "Leaf"] ∧
      ∀ text ty, c.resolve text = .ok ty → ∃ ty', c'.resolve text = .ok ty' ∧
        c'.name ty' = c.name ty ∧
        (c'.baseType ty').map c'.name = (c.baseType ty).map c.name := by
  intro leaf first last outer document document'
  obtain ⟨c, loaded, hpaths⟩ := exists_ofJson_eq_ok document (P := fun c =>
    [17, 18, 19, 20].map (fun i => c.path ⟨i⟩) =
      ["Leaf", "Outer`1", "Outer`1+First", "Outer`1+Last"]) (by decide +kernel)
  obtain ⟨c', loaded', hpaths'⟩ := exists_ofJson_eq_ok document' (P := fun c =>
    [17, 18, 19, 20].map (fun i => c.path ⟨i⟩) =
      ["Outer`1", "Outer`1+Last", "Outer`1+First", "Leaf"]) (by decide +kernel)
  have inside : Rearranged [outer [first, last], leaf] [outer [last, first], leaf] :=
    .inside [("name", .string "Outer")] [("params", .array [.string "T"])] [leaf]
      (.swap first last [])
  have rearranged : SameUpToOrder document document' :=
    .types [] [] (.trans (.swap leaf (outer [first, last]) []) inside)
  refine ⟨c, c', loaded, loaded', hpaths, hpaths', fun text ty hresolve => ?_⟩
  obtain ⟨f, -, -, hresolved, hcalled⟩ :=
    (ofJson_sameUpToOrder rearranged).2 c c' loaded loaded'
  obtain ⟨hname, -, -, hbase⟩ := hcalled text ty hresolve
  refine ⟨ty.renumber f, ?_, hname, hbase⟩
  rw [hresolved, hresolve]
  rfl

end Catalog

end Generics
