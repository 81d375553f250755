import Generics.Reflected
import Generics.Proofs.Growth
import Generics.Proofs.Slots

/-!
# Runs of view operations

A program obtains views by naming types, by handing in descriptors of its own, and
by asking the views it has for further ones.  Whatever it does in whatever order,
a closed view never shows a type with free parameters, and an open view always
shows a generic definition.

## Main definitions

* `View.Step` — the views that one operation can make, given those made before.
* `View.Run` — the views made so far, by any sequence of operations.
* `View.Promise` — what the kind of a view tells of its type.

## Main results

* `Step.throughout`, `Run.throughout` — a respected condition on the descriptors
  handed in, on the bases and on what the types of the language stand for holds of every
  type that is viewed.
* `Step.promise`, `Run.promise` — every operation makes views that keep their
  promise, if its own do.
* `promises_kept` — in catalogs that declarations build, with any bases.
-/

namespace Generics

namespace View

/-- One operation makes a view.  It works on views made before, or on a descriptor
handed in. -/
inductive Step (c : Catalog) (given : Descriptor → Prop) (made : List View) : View → Prop
  | raw {ty : Descriptor} (handed : given ty) : Step c given made (ofSketch ⟨ty⟩)
  | named {text : String} {t : Sketch} (resolved : c.sketch text = .ok t) :
    Step c given made (ofSketch t)
  | reflected (α : Type) [Reflected α] : Step c given made (ofSketch (Sketch.of α))
  | apply {v : View} {args : List Closed} {t : Closed} (viewed : v ∈ made)
    (arguments : ∀ a ∈ args, ofClosed a ∈ made) (applied : v.apply c args = .ok t) :
    Step c given made (ofClosed t)
  | applyPartial {v : View} {args : List Sketch} {t : Sketch} (viewed : v ∈ made)
    (arguments : ∀ a ∈ args, ofSketch a ∈ made) (applied : v.applyPartial? c args = some (.ok t)) :
    Step c given made (ofSketch t)
  | unapply {v : View} {t : Open} (viewed : v ∈ made) (taken : v.unapply c = some t) :
    Step c given made (ofOpen t)
  | base {v w : View} (viewed : v ∈ made) (found : v.base c = some w) : Step c given made w
  | toSketch {v : View} (viewed : v ∈ made) : Step c given made (ofSketch v.toSketch)
  | nested {v : View} {filter : NestedFilter} {t : Sketch} (viewed : v ∈ made)
    (inside : t ∈ v.nested c filter) : Step c given made (ofSketch t)

/-- The views that a sequence of operations has made. -/
inductive Run (c : Catalog) (given : Descriptor → Prop) : List View → Prop
  | start : Run c given []
  | step {made : List View} {v : View} (before : Run c given made)
    (makes : Step c given made v) : Run c given (made ++ [v])

/-- What the kind of a view tells of its type. -/
def Promise (c : Catalog) : View → Prop
  | ofSketch _ => True
  | ofClosed t => c.hasFree t.raw = false
  | ofOpen t => c.isGenericDefinition t.raw = true

end View

namespace Catalog

open Descriptor View

variable {c : Catalog}

/-! ### One operation after the other -/

theorem isGenericDefinition_iff {ty : Descriptor} : c.isGenericDefinition ty = true ↔
    ∃ id, ty = .named id ∧ (c.definition id).isGeneric = true := by
  cases ty with
  | named id => simp [isGenericDefinition]
  | param owner position => simp [isGenericDefinition]
  | constructed id args => simp [isGenericDefinition]

theorem sketch_eq_ok {text : String} {t : Sketch} (h : c.sketch text = .ok t) :
    c.resolve text = .ok t.raw := by
  unfold sketch at h
  split at h
  · next hr => cases h; exact hr
  · cases h

/-- Whichever kind the view is of, applying closed types fills the slots of the
viewed type. -/
theorem view_apply_eq_ok {v : View} {args : List Closed} {t : Closed}
    (h : v.apply c args = .ok t) : c.apply v.raw (args.map Closed.raw) = .ok t.raw := by
  have happly : v.apply c args = c.applyClosed v.raw args := by cases v <;> rfl
  rw [happly] at h
  unfold applyClosed at h
  split at h
  · next hr => cases h; exact hr
  · cases h

theorem view_applyPartial_eq_ok {v : View} {args : List Sketch} {t : Sketch}
    (h : v.applyPartial? c args = some (.ok t)) :
    c.apply v.raw (args.map Sketch.raw) = .ok t.raw := by
  have key : ∀ {raw : Descriptor}, c.applySketches raw args = .ok t →
      c.apply raw (args.map Sketch.raw) = .ok t.raw := by
    intro raw h
    unfold applySketches at h
    split at h
    · split at h
      · next hr => cases h; exact hr
      · cases h
    · cases h
  cases v with
  | ofSketch s => exact key (Option.some.inj h)
  | ofClosed s => cases h
  | ofOpen s => exact key (Option.some.inj h)

/-- The definition behind a type is taken from a generic type only. -/
theorem unapplied_eq_some {raw : Descriptor} {t : Open} (h : c.unapplied raw = some t) :
    ∃ id, raw.definition? = some id ∧ t.raw = .named id ∧ c.isGenericType raw = true := by
  unfold unapplied genericDefinition? at h
  split at h
  · cases h
  · split at h
    · next hg =>
      obtain ⟨definition, hd, rfl⟩ := Option.map_eq_some_iff.1 h
      obtain ⟨id, hid, rfl⟩ := Option.map_eq_some_iff.1 hd
      exact ⟨id, hid, rfl, hg⟩
    · cases h

/-- The definition is taken from a type that has arguments. -/
theorem unapplied_eq_some_iff {raw : Descriptor} {t : Open} : c.unapplied raw = some t ↔
    c.arguments raw ≠ [] ∧ raw.definition?.map .named = some t.raw := by
  unfold unapplied
  by_cases hnone : c.arguments raw = []
  · simp [hnone]
  · have hgeneric : c.isGenericType raw = true := by
      cases raw with
      | named id =>
        refine Definition.isGeneric_iff_pos.2 ?_
        rw [← length_arguments_named c id]
        exact List.length_pos_iff.2 hnone
      | param owner position => exact absurd rfl hnone
      | constructed id args => rfl
    rw [if_neg (by simpa using hnone), genericDefinition?, if_pos hgeneric, Option.map_eq_some_iff]
    constructor
    · rintro ⟨definition, hdefinition, rfl⟩
      exact ⟨hnone, hdefinition⟩
    · rintro ⟨-, hdefinition⟩
      exact ⟨t.raw, hdefinition, rfl⟩

theorem view_unapply_eq_some {v : View} {t : Open} (h : v.unapply c = some t) :
    v = .ofOpen t ∨ c.unapplied v.raw = some t := by
  cases v with
  | ofSketch s => exact Or.inr h
  | ofClosed s => exact Or.inr h
  | ofOpen s => cases h; exact Or.inl rfl

/-- The base of a view shows the base of the viewed type; if it is closed, this was
looked at. -/
theorem view_base_eq_some {v w : View} (h : v.base c = some w) :
    c.baseType v.raw = some w.raw ∧ w.Promise c := by
  cases v with
  | ofSketch s =>
    obtain ⟨t, ht, rfl⟩ := Option.map_eq_some_iff.1 h
    obtain ⟨base, hbase, rfl⟩ := Option.map_eq_some_iff.1 ht
    exact ⟨hbase, trivial⟩
  | ofOpen s =>
    obtain ⟨t, ht, rfl⟩ := Option.map_eq_some_iff.1 h
    obtain ⟨base, hbase, rfl⟩ := Option.map_eq_some_iff.1 ht
    exact ⟨hbase, trivial⟩
  | ofClosed s =>
    obtain ⟨t, ht, rfl⟩ := Option.map_eq_some_iff.1 h
    unfold Closed.base Closed.findBase at ht
    cases hbase : c.baseType s.raw with
    | none => simp [hbase, ClosedBase.toOption] at ht
    | some base =>
      simp only [hbase] at ht
      split at ht
      · cases ht
      · next hfree =>
        cases ht
        exact ⟨hbase, Bool.eq_false_iff.2 hfree⟩

theorem mem_view_nested {v : View} {filter : NestedFilter} {t : Sketch}
    (h : t ∈ v.nested c filter) : ∃ id, t.raw = .named id := by
  obtain ⟨ty, hty, rfl⟩ := List.mem_map.1 h
  unfold nestedTypes at hty
  split at hty
  · exact absurd hty List.not_mem_nil
  · obtain ⟨id, -, rfl⟩ := List.mem_map.1 hty
    exact ⟨id, rfl⟩

/-! ### Conditions on all types viewed -/

variable {p : Descriptor → Prop}

/-- The base of a type satisfies a respected condition if the type and the declared
bases do. -/
theorem Respected.baseType (hp : c.Respected p)
    (bases : ∀ {id base}, (c.definition id).base = some base → Throughout p base)
    {ty base : Descriptor} (h : c.baseType ty = some base) (hty : Throughout p ty) :
    Throughout p base := by
  cases ty with
  | named id => exact bases h
  | param owner position => cases h
  | constructed id args =>
    obtain ⟨declared, hdeclared, rfl⟩ := Option.map_eq_some_iff.1 h
    exact hp.instantiate id (throughout_constructed.1 hty).2 (bases hdeclared)

/-! ### What the types of the language stand for -/

/-- A descriptor with the right arities over the system definitions has them in every
catalog. -/
theorem KeepsSystem.arityCorrect (h : c.KeepsSystem) {ty : Descriptor}
    (hty : initial.ArityCorrect ty) : c.ArityCorrect ty := by
  refine hty.imp fun s hs => ?_
  cases s with
  | named id => trivial
  | param owner position =>
    show position < (c.definition owner).params.length
    rwa [h.params (List.ne_nil_of_length_pos (Nat.zero_lt_of_lt hs))]
  | constructed id args =>
    have hparams := h.params (Definition.isGeneric_eq_true_iff.1 hs.1)
    exact ⟨by rw [Definition.isGeneric_eq_true_iff, hparams]
              exact Definition.isGeneric_eq_true_iff.1 hs.1, hparams ▸ hs.2⟩

/-- What has the right arities is over generic definitions. -/
theorem ArityCorrect.overGeneric {ty : Descriptor} (h : c.ArityCorrect ty) : c.OverGeneric ty := by
  refine h.imp fun s hs => ?_
  cases s with
  | constructed id args => exact hs.1
  | named | param => trivial

end Catalog

namespace View

open Descriptor Catalog

variable {c : Catalog} {given p : Descriptor → Prop} {made : List View}

theorem Step.throughout (hp : c.Respected p)
    (reflected : ∀ (α : Type) [Reflected α], Throughout p (Reflected.descriptor α))
    (bases : ∀ {id base}, (c.definition id).base = some base → Throughout p base)
    (handed : ∀ ty, given ty → Throughout p ty) (before : ∀ v ∈ made, Throughout p v.raw)
    {w : View} (h : Step c given made w) : Throughout p w.raw := by
  cases h with
  | raw h => exact handed _ h
  | named resolved => exact hp.resolve (sketch_eq_ok resolved)
  | reflected α => exact reflected α
  | apply viewed arguments applied =>
    refine hp.apply (view_apply_eq_ok applied) (before _ viewed) ?_
    intro a ha
    obtain ⟨t, ht, rfl⟩ := List.mem_map.1 ha
    exact before _ (arguments t ht)
  | applyPartial viewed arguments applied =>
    refine hp.apply (view_applyPartial_eq_ok applied) (before _ viewed) ?_
    intro a ha
    obtain ⟨t, ht, rfl⟩ := List.mem_map.1 ha
    exact before _ (arguments t ht)
  | @unapply v t viewed taken =>
    rcases view_unapply_eq_some taken with rfl | hu
    · exact before _ viewed
    · obtain ⟨id, -, hraw, -⟩ := unapplied_eq_some hu
      show Throughout p t.raw
      rw [hraw]
      exact throughout_named.2 (hp.named id)
  | base viewed found => exact hp.baseType bases (view_base_eq_some found).1 (before _ viewed)
  | @toSketch v viewed => exact before v viewed
  | @nested v filter t viewed inside =>
    obtain ⟨id, hraw⟩ := mem_view_nested inside
    show Throughout p t.raw
    rw [hraw]
    exact throughout_named.2 (hp.named id)

/-- What holds throughout the descriptors handed in, throughout the bases and throughout
what the types of the language stand for, and is respected by building, holds throughout
every type that is viewed in a run. -/
theorem Run.throughout (hp : c.Respected p)
    (reflected : ∀ (α : Type) [Reflected α], Throughout p (Reflected.descriptor α))
    (bases : ∀ {id base}, (c.definition id).base = some base → Throughout p base)
    (handed : ∀ ty, given ty → Throughout p ty) (h : Run c given made) :
    ∀ v ∈ made, Throughout p v.raw := by
  induction h with
  | start => exact fun v hv => absurd hv List.not_mem_nil
  | step before makes ih =>
    intro v hv
    rcases List.mem_append.1 hv with hv | hv
    · exact ih v hv
    · rw [List.mem_singleton.1 hv]
      exact makes.throughout hp reflected bases handed ih

/-- An operation on views that keep their promise makes such a view.  Taking
arguments away needs more: the type whose definition is taken must be over a
generic one. -/
theorem Step.promise (generic : ∀ v ∈ made, c.OverGeneric v.raw)
    (before : ∀ v ∈ made, v.Promise c) {w : View} (h : Step c given made w) : w.Promise c := by
  cases h with
  | raw | named | reflected | applyPartial | toSketch | nested => trivial
  | apply viewed arguments applied =>
    refine hasFree_apply (view_apply_eq_ok applied) ?_
    intro a ha
    obtain ⟨t, ht, rfl⟩ := List.mem_map.1 ha
    exact before _ (arguments t ht)
  | @unapply v t viewed taken =>
    rcases view_unapply_eq_some taken with rfl | hu
    · exact before _ viewed
    · obtain ⟨id, hid, hraw, hgeneric⟩ := unapplied_eq_some hu
      -- of an application only the condition on its node tells that it is generic
      refine isGenericDefinition_iff.2 ⟨id, hraw, ?_⟩
      have hover : c.OverGeneric v.raw := generic v viewed
      cases hv : v.raw with
      | named other =>
        rw [hv] at hid hgeneric
        cases hid
        exact hgeneric
      | param owner position => rw [hv] at hid; cases hid
      | constructed other args =>
        rw [hv] at hid hover
        cases hid
        exact (throughout_constructed.1 hover).1
  | base viewed found => exact (view_base_eq_some found).2

/-- Every view of a run keeps its promise. -/
theorem Run.promise (system : c.KeepsSystem)
    (bases : ∀ {id base}, (c.definition id).base = some base → c.OverGeneric base)
    (handed : ∀ ty, given ty → c.OverGeneric ty) (h : Run c given made) :
    ∀ v ∈ made, v.Promise c := by
  induction h with
  | start => exact fun v hv => absurd hv List.not_mem_nil
  | step before makes ih =>
    intro v hv
    rcases List.mem_append.1 hv with hv | hv
    · exact ih v hv
    · rw [List.mem_singleton.1 hv]
      refine makes.promise (before.throughout (respected_overGeneric c) ?_ bases handed) ih
      exact fun _ _ => (system.arityCorrect Reflected.wellFormed.fits).overGeneric

/-- Take a catalog that declarations build, and serve it with any bases that apply
generic definitions only.  In every run that is handed such descriptors, whatever
the number of arguments in them, closed views have no free parameters and open
views are generic definitions. -/
theorem promises_kept {c₀ : Catalog} (built : c₀.Reachable) (served : c₀.Rebased c)
    (bases : ∀ {id base}, (c.definition id).base = some base → c.OverGeneric base)
    (run : Run c c.OverGeneric made) :
    (∀ t, ofClosed t ∈ made → c.hasFree t.raw = false) ∧
      ∀ t, ofOpen t ∈ made →
        c.isGenericDefinition t.raw = true ∧
          ∃ id, t.raw = .named id ∧ (c.definition id).isGeneric = true := by
  have kept : ∀ v ∈ made, v.Promise c :=
    run.promise (built.keepsSystem.rebased served) bases fun _ h => h
  refine ⟨fun t ht => kept _ ht, fun t ht => ?_⟩
  have hopen : c.isGenericDefinition t.raw = true := kept _ ht
  exact ⟨hopen, isGenericDefinition_iff.1 hopen⟩

/-- ``System.Nullable`1`` with two arguments is closed by applying nothing; its
definition is then applied to the ill-formed type, and the base of the result, which
is ill-formed in turn, is closed. -/
theorem promises_kept_of_wrong_arity :
    let two : Descriptor :=
      .constructed .nullable [.named Builtin.int32.id, .named Builtin.string.id]
    let c := initial.withBase .nullable (.constructed .nullable [.param .nullable 0, two])
    let applied : Descriptor := .constructed .nullable [two]
    let base : Descriptor := .constructed .nullable [two, two]
    let made := [ofSketch ⟨two⟩, ofClosed ⟨two⟩, ofOpen ⟨.named .nullable⟩, ofClosed ⟨applied⟩,
      ofClosed ⟨base⟩]
    Run c c.OverGeneric made ∧ (∀ t, ofClosed t ∈ made → c.hasFree t.raw = false) ∧
      ∀ t, ofOpen t ∈ made → c.isGenericDefinition t.raw = true ∧
        ∃ id, t.raw = .named id ∧ (c.definition id).isGeneric = true := by
  intro two c applied base made
  have hnullable : c.Declares .nullable := by decide +kernel
  have bases : ∀ {id base}, (c.definition id).base = some base → c.OverGeneric base := by
    intro id base hbase
    rw [definition_withBase initial hnullable] at hbase
    split at hbase
    · cases hbase
      decide +kernel
    · rw [definition_initial_induction (P := fun d => d.base = none) (by decide) rfl id] at hbase
      cases hbase
  have handed : Run c c.OverGeneric [ofSketch ⟨two⟩] :=
    Run.step .start (.raw (by decide +kernel))
  have happly : (ofSketch ⟨two⟩).apply c [] = .ok ⟨two⟩ := by rfl
  have hunapply : (ofClosed ⟨two⟩).unapply c = some ⟨.named .nullable⟩ := by decide +kernel
  have hagain : (ofOpen ⟨.named .nullable⟩).apply c [⟨two⟩] = .ok ⟨applied⟩ := by rfl
  have hbase : (ofClosed ⟨applied⟩).base c = some (ofClosed ⟨base⟩) := by decide +kernel
  have run : Run c c.OverGeneric made := by
    refine .step (.step (.step (.step handed ?_) ?_) ?_) ?_
    · exact .apply (.head _) (fun a ha => absurd ha List.not_mem_nil) happly
    · exact .unapply (.tail _ (.head _)) hunapply
    · refine .apply (.tail _ (.tail _ (.head _))) ?_ hagain
      intro a ha
      rw [List.mem_singleton.1 ha]
      exact .tail _ (.head _)
    · exact .base (.tail _ (.tail _ (.tail _ (.head _)))) hbase
  exact ⟨run, promises_kept .initial (rebased_withBase initial _ _) bases run⟩

end View

end Generics
