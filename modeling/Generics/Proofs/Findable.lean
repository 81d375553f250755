import Generics.Proofs.Applying
import Generics.Proofs.Grammar
import Generics.Proofs.Index

/-!
# Types that can be found by name

A catalog takes any text for the name of a definition, also one that no reader of names
accepts.  But a definition that was found by name once has a path that can be read, and
so have the definitions in all types that are made from such types: filling slots,
replacing parameters and taking bases bring in no other definitions.

## Main definitions

* `Catalog.BasesFindable` — the definitions in every base can be found.
* `View.NamedStep`, `View.NamedRun` — the operations on views that begin with names and do
  not look inside definitions.

## Main results

* `AllFindable.fill`, `AllFindable.instantiate`, `Indexed.allFindable_resolve` — types
  are built from findable definitions.
* `KeepsSystem.allFindable` — so are the types over system definitions, in every catalog.
* `basesFindable_ofJson` — so are the bases of a loaded catalog.
* `NamedRun.allFindable` — so are the types viewed in a run.
-/

namespace Generics

namespace Catalog

open Descriptor

variable {c : Catalog}

theorem AllFindable.definition? {ty : Descriptor} (h : c.AllFindable ty) {id : DefId}
    (hid : ty.definition? = some id) : c.Findable id :=
  h ty (mem_parts_self ty) id hid

/-! ### Building types -/

/-- Replacing placeholders brings in the definitions of the arguments at most. -/
theorem AllFindable.instantiate {ty : Descriptor} (h : c.AllFindable ty) (owner : DefId)
    {args : List Descriptor} (hargs : ∀ a ∈ args, c.AllFindable a) :
    c.AllFindable (instantiate owner args ty) :=
  throughout_instantiate (fun hnode _ => allFindable_generic (nodeFindable_constructed.1 hnode))
    owner hargs h

/-- Each of some filled types is one of the types, filled with some of the arguments. -/
theorem exists_fill_of_mem_fillAll {as xs : List Descriptor} {b : Descriptor}
    (h : b ∈ c.fillAll as xs) : ∃ a ∈ as, ∃ ys, ys ⊆ xs ∧ b = c.fill a ys := by
  induction as generalizing xs with
  | nil =>
    rw [fillAll_nil] at h
    exact absurd h List.not_mem_nil
  | cons a as ih =>
    rw [fillAll] at h
    rcases List.mem_cons.1 h with rfl | h
    · exact ⟨a, List.mem_cons_self, _, List.take_subset _ _, rfl⟩
    · obtain ⟨a', ha', ys, hys, rfl⟩ := ih h
      exact ⟨a', List.mem_cons_of_mem a ha', ys, fun y hy => List.drop_subset _ _ (hys hy), rfl⟩

theorem AllFindable.fill {ty : Descriptor} (h : c.AllFindable ty) {xs : List Descriptor}
    (hxs : ∀ x ∈ xs, c.AllFindable x) : c.AllFindable (c.fill ty xs) := by
  induction ty generalizing xs with
  | named id =>
    rw [Catalog.fill]
    split
    · exact allFindable_generic (allFindable_named.1 h) hxs
    · exact h
  | param owner position =>
    rw [Catalog.fill]
    cases xs with
    | nil => exact h
    | cons x xs => exact hxs x List.mem_cons_self
  | constructed id args ih =>
    obtain ⟨hid, hargs⟩ := allFindable_constructed.1 h
    rw [fill_constructed]
    refine allFindable_generic hid fun b hb => ?_
    obtain ⟨a, ha, ys, hys, rfl⟩ := exists_fill_of_mem_fillAll hb
    exact ih a ha (hargs a ha) fun y hy => hxs y (hys hy)

/-- What is found by a readable path can be found. -/
theorem Indexed.findable (h : c.Indexed) {path : String} {id : DefId}
    (hfound : c.lookup? path = some id) (hpath : TypeName.IsPath path.toList) :
    c.Findable id := by
  obtain ⟨hdeclares, he⟩ := h.of_lookup? hfound
  refine ⟨hdeclares, ?_⟩
  rw [he]
  exact hpath

theorem Indexed.allFindable_resolveIn (h : c.Indexed) {scope : Option DefId} {name : TypeName}
    (hname : name.Readable) {ty : Descriptor} (hty : c.resolveIn scope name = .ok ty) :
    c.AllFindable ty := by
  refine resolveIn_induction (Q := fun name ty => name.Readable → c.AllFindable ty) ?_ ?_ ?_
    hty hname
  · exact fun _ _ _ => allFindable_param
  · rintro path id - hid ⟨hpath, -⟩
    exact allFindable_named.2 (h.findable hid hpath)
  · rintro path args id tys hid - - hall ⟨hpath, hreadable⟩
    refine allFindable_generic (h.findable hid hpath) fun a ha => ?_
    obtain ⟨argument, hmem, hargument⟩ := hall.exists_mem_left ha
    exact hargument (hreadable argument hmem)

/-- What a text resolves to is made of definitions that can be found. -/
theorem Indexed.allFindable_resolve (h : c.Indexed) {text : String} {ty : Descriptor}
    (hty : c.resolve text = .ok ty) : c.AllFindable ty := by
  unfold Catalog.resolve at hty
  split at hty
  · cases hty
  · next name hread => exact h.allFindable_resolveIn (TypeName.readable_of_read hread) hty

/-! ### The system definitions and the bases -/

/-- The system definitions can be found in every catalog. -/
theorem KeepsSystem.findable (h : c.KeepsSystem) {id : DefId} (hid : initial.Findable id) :
    c.Findable id := by
  have hlt : id.index < systemDefinitions.length := hid.declared
  refine ⟨Nat.lt_of_lt_of_le hlt h.size_le, ?_⟩
  rw [h.path hlt]
  exact hid.readable

theorem KeepsSystem.allFindable (h : c.KeepsSystem) {ty : Descriptor}
    (hty : initial.AllFindable ty) : c.AllFindable ty :=
  hty.imp fun _ hs id hid => h.findable (hs id hid)

/-- The definitions in every base can be found. -/
def BasesFindable (c : Catalog) : Prop :=
  ∀ {id base}, (c.definition id).base = some base → c.AllFindable base

theorem Findable.withBase {id other : DefId} {base : Descriptor} (h : c.Findable other)
    (hc : c.WellNested) : (c.withBase id base).Findable other := by
  have hwithBase : (c.withBase id base).WellNested := hc.rebased (rebased_withBase c id base)
  constructor
  · unfold Declares
    rw [size_withBase]
    exact h.declared
  · rw [(keeps_withBase c id base).path hc hwithBase h.declared]
    exact h.readable

theorem BasesFindable.setWrittenBase {c' : Catalog} (h : c.BasesFindable) (hc : c.Reachable)
    {id : DefId} {text : String} (declared : c.Declares id)
    (hset : c.setWrittenBase id text = .ok c') : c'.BasesFindable := by
  obtain ⟨name, base, hread, hresolve, hset⟩ := setWrittenBase_eq_ok hset
  obtain ⟨-, rfl⟩ := setBase_eq_ok hset
  have hbase : c.AllFindable base :=
    hc.indexed.allFindable_resolveIn (TypeName.readable_of_read hread) hresolve
  intro other stored hstored
  have hold : c.AllFindable stored := by
    rw [definition_withBase c declared] at hstored
    split at hstored
    · cases hstored
      exact hbase
    · exact h hstored
  exact fun s hs found hfound => (hold s hs found hfound).withBase hc.wellNested

/-- The written bases of a document are found by their names. -/
theorem basesFindable_ofJson {document : Json} (loaded : ofJson document = .ok c) :
    c.BasesFindable := by
  refine (ofJson_rule (P := BasesFindable) ?_ ?_ loaded).2
  · intro c _ hunbased id base hbase
    rw [hunbased id] at hbase
    cases hbase
  · intro c c' id text hc declared hset hbases
    exact hbases.setWrittenBase hc declared hset

theorem AllFindable.baseType {ty base : Descriptor} (h : c.AllFindable ty)
    (hbases : c.BasesFindable) (hbase : c.baseType ty = some base) : c.AllFindable base := by
  cases ty with
  | named id => exact hbases hbase
  | param owner position => cases hbase
  | constructed id args =>
    obtain ⟨declared, hdeclared, rfl⟩ := Option.map_eq_some_iff.1 hbase
    exact (hbases hdeclared).instantiate id (allFindable_constructed.1 h).2

end Catalog

/-! ### Runs that begin with names -/

namespace View

open Catalog

/-- One operation makes a view from a name, from a type of the language, or from views
made before.  Types are not taken from inside other types. -/
inductive NamedStep (c : Catalog) (made : List View) : View → Prop
  | named {text : String} {t : Sketch} (resolved : c.sketch text = .ok t) :
    NamedStep c made (ofSketch t)
  | reflected (α : Type) [Reflected α] : NamedStep c made (ofSketch (Sketch.of α))
  | apply {v : View} {args : List Closed} {t : Closed} (viewed : v ∈ made)
    (arguments : ∀ a ∈ args, ofClosed a ∈ made) (applied : v.apply c args = .ok t) :
    NamedStep c made (ofClosed t)
  | applyPartial {v : View} {args : List Sketch} {t : Sketch} (viewed : v ∈ made)
    (arguments : ∀ a ∈ args, ofSketch a ∈ made) (applied : v.applyPartial? c args = some (.ok t)) :
    NamedStep c made (ofSketch t)
  | unapply {v : View} {t : Open} (viewed : v ∈ made) (taken : v.unapply c = some t) :
    NamedStep c made (ofOpen t)
  | base {v w : View} (viewed : v ∈ made) (found : v.base c = some w) : NamedStep c made w
  | toSketch {v : View} (viewed : v ∈ made) : NamedStep c made (ofSketch v.toSketch)

/-- The views that a sequence of such operations has made. -/
inductive NamedRun (c : Catalog) : List View → Prop
  | start : NamedRun c []
  | step {made : List View} {v : View} (before : NamedRun c made) (makes : NamedStep c made v) :
    NamedRun c (made ++ [v])

variable {c : Catalog} {made : List View}

theorem NamedStep.step {w : View} (h : NamedStep c made w) : Step c (fun _ => False) made w := by
  cases h with
  | named resolved => exact .named resolved
  | reflected α => exact .reflected α
  | apply viewed arguments applied => exact .apply viewed arguments applied
  | applyPartial viewed arguments applied => exact .applyPartial viewed arguments applied
  | unapply viewed taken => exact .unapply viewed taken
  | base viewed found => exact .base viewed found
  | toSketch viewed => exact .toSketch viewed

theorem NamedRun.run (h : NamedRun c made) : Run c (fun _ => False) made := by
  induction h with
  | start => exact .start
  | step before makes ih => exact .step ih makes.step

/-- A filled type is made of what the type and the arguments are made of. -/
theorem allFindable_apply {ty t : Descriptor} {args : List Descriptor}
    (h : c.apply ty args = .ok t) (hfits : c.ArityCorrect ty) (hty : c.AllFindable ty)
    (hargs : ∀ a ∈ args, c.AllFindable a) : c.AllFindable t := by
  by_cases hn : args.length = c.slots ty
  · rw [apply_eq_fill hfits hn] at h
    cases h
    exact hty.fill hargs
  · rw [apply_of_length_ne hn] at h
    cases h

theorem NamedStep.allFindable (hc : c.Reachable) (hbases : c.BasesFindable)
    (hfits : ∀ v ∈ made, c.ArityCorrect v.raw) (before : ∀ v ∈ made, c.AllFindable v.raw)
    {w : View} (h : NamedStep c made w) : c.AllFindable w.raw := by
  cases h with
  | named resolved => exact hc.indexed.allFindable_resolve (sketch_eq_ok resolved)
  | reflected α => exact hc.keepsSystem.allFindable Reflected.findable
  | apply viewed arguments applied =>
    refine allFindable_apply (view_apply_eq_ok applied) (hfits _ viewed) (before _ viewed) ?_
    intro a ha
    obtain ⟨t, ht, rfl⟩ := List.mem_map.1 ha
    exact before _ (arguments t ht)
  | applyPartial viewed arguments applied =>
    refine allFindable_apply (view_applyPartial_eq_ok applied) (hfits _ viewed)
      (before _ viewed) ?_
    intro a ha
    obtain ⟨t, ht, rfl⟩ := List.mem_map.1 ha
    exact before _ (arguments t ht)
  | @unapply v t viewed taken =>
    rcases view_unapply_eq_some taken with rfl | hu
    · exact before _ viewed
    · obtain ⟨id, hid, hraw, -⟩ := unapplied_eq_some hu
      show c.AllFindable t.raw
      rw [hraw]
      exact allFindable_named.2 ((before v viewed).definition? hid)
  | base viewed found =>
    exact (before _ viewed).baseType hbases (view_base_eq_some found).1
  | @toSketch v viewed => exact before v viewed

/-- The types viewed in a run that begins with names are made of definitions that can be
found. -/
theorem NamedRun.allFindable {document : Json} (loaded : ofJson document = .ok c)
    (h : NamedRun c made) : ∀ v ∈ made, c.AllFindable v.raw := by
  induction h with
  | start => exact fun v hv => absurd hv List.not_mem_nil
  | step before makes ih =>
    intro v hv
    rcases List.mem_append.1 hv with hv | hv
    · exact ih v hv
    · rw [List.mem_singleton.1 hv]
      exact makes.allFindable (reachable_ofJson loaded) (basesFindable_ofJson loaded)
        (fun v hv => (before.run.wellFormed loaded v hv).fits) ih

end View

end Generics
