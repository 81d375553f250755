import Generics.Proofs.ClosedBases

/-!
# Taking types apart

A type with arguments is its definition applied to its immediate arguments, in whichever of
the two forms it is kept: a generic definition has its own placeholders for arguments, and
applied to these in order it is itself again.  So a well-formed type can be taken apart and
put together, with the same result, and what was put together can be taken apart.

## Main results

* `generic_arguments`, `arguments_generic` — a type and its arguments, in both directions.
* `View.unapply_eq` — taking the arguments away gives the definition, from every kind of view.
* `applyPartial_open`, `apply_open` — an open view applied to one argument for each parameter.
* `unapply_apply_inverse` — the two are inverse to each other.
-/

namespace Generics

namespace Catalog

open Descriptor

variable {c : Catalog} {id : DefId} {ty : Descriptor} {args : List Descriptor}

/-! ### A type and its arguments -/

/-- A type is its definition applied to its arguments, if no definition is applied to its own
placeholders there already. -/
theorem generic_arguments (hid : ty.definition? = some id) (hgeneric : c.isGenericType ty = true)
    (hreduced : ty.IsReduced) : Descriptor.generic id (c.arguments ty) = ty := by
  cases ty with
  | named other =>
    cases hid
    rw [arguments, generic_placeholders _ (Definition.isGeneric_iff_pos.1 hgeneric)]
  | param owner position => cases hid
  | constructed other args =>
    cases hid
    rw [arguments, generic_of_reduced (throughout_constructed.1 hreduced).1]

/-- An application has the arguments it was built with, also where it is collapsed. -/
theorem arguments_generic (h : args.length = (c.definition id).params.length) :
    c.arguments (.generic id args) = args := by
  rcases generic_eq_or id args with ⟨-, he, hcollapsed⟩ | ⟨-, hkept⟩
  · rw [hcollapsed, arguments, ← h, ← he]
  · rw [hkept, arguments]

/-- What is generic has an argument: there are parameters for which it stands. -/
theorem arguments_ne_nil (hid : ty.definition? = some id)
    (hgeneric : (c.definition id).isGeneric = true) (hty : c.ArityCorrect ty) :
    c.arguments ty ≠ [] :=
  Definition.ne_nil_of_isGeneric hgeneric (length_arguments hid hty)

theorem isGeneric_of_isGenericType (hid : ty.definition? = some id)
    (hgeneric : c.isGenericType ty = true) (hty : c.ArityCorrect ty) :
    (c.definition id).isGeneric = true := by
  cases ty with
  | named other =>
    cases hid
    exact hgeneric
  | param owner position => cases hid
  | constructed other args =>
    cases hid
    exact (throughout_constructed.1 hty).1.1

end Catalog

/-! ### Away from the arguments -/

namespace View

open Catalog

variable {c : Catalog} {id : DefId}

/-- Whichever kind a view is of, what is left without the arguments is the definition.  An
open view of a generic type shows the definition already. -/
theorem unapply_eq {v : View} (hid : v.raw.definition? = some id)
    (hargs : c.arguments v.raw ≠ []) (promise : v.Promise c) :
    v.unapply c = some ⟨.named id⟩ := by
  have htaken : c.unapplied v.raw = some ⟨.named id⟩ :=
    unapplied_eq_some_iff.2 ⟨hargs, by rw [hid]; rfl⟩
  cases v with
  | ofSketch t => exact htaken
  | ofClosed t => exact htaken
  | ofOpen t =>
    obtain ⟨other, hraw, -⟩ := isGenericDefinition_iff.1 promise
    obtain ⟨raw⟩ := t
    obtain rfl : raw = .named other := hraw
    obtain rfl : other = id := Option.some.inj hid
    rfl

end View

/-! ### Back to them -/

namespace Catalog

open Descriptor

variable {c : Catalog} {id : DefId} {args : List Descriptor}
  (hgeneric : (c.definition id).isGeneric = true)
  (hargs : args.length = (c.definition id).params.length)

include hgeneric hargs

theorem apply_named : c.apply (.named id) args = .ok (.generic id args) := by
  have hfits : c.ArityCorrect (.named id) := throughout_named.2 trivial
  rw [apply_eq_fill hfits (by rw [slots_named, hargs]), fill_named_of_generic hgeneric]

/-- An open view can be applied to one sketch for each parameter. -/
theorem applyPartial_open :
    (Open.mk (.named id)).applyPartial c (args.map .mk) = .ok ⟨.generic id args⟩ := by
  have hraw : (args.map Sketch.mk).map Sketch.raw = args := by
    rw [List.map_map]
    exact List.map_id args
  have hfree : c.hasFree (.named id) = true := by rw [hasFree_named, hgeneric]
  rw [Open.applyPartial, applySketches, if_pos hfree, hraw, apply_named hgeneric hargs]

/-- It can be applied to one closed type for each parameter. -/
theorem apply_open : (Open.mk (.named id)).apply c (args.map .mk) = .ok ⟨.generic id args⟩ := by
  have hraw : (args.map Closed.mk).map Closed.raw = args := by
    rw [List.map_map]
    exact List.map_id args
  rw [Open.apply, applyClosed, hraw, apply_named hgeneric hargs]

end Catalog

/-! ### There and back -/

namespace Catalog

open Descriptor View

/-- From any view of a well-formed generic type the arguments can be taken away, which leaves
its definition; this, applied to the arguments of the type in order, is the type again, and
so it is if they are applied as closed types, when the type is closed.  In the other
direction, a generic definition can be applied to any types, one for each parameter: the
result is well-formed if they are, it has just these arguments, and without them it is the
definition again. -/
theorem unapply_apply_inverse (c : Catalog) :
    (∀ {ty : Descriptor} {id : DefId}, ty.definition? = some id → c.isGenericType ty = true →
      c.WellFormed ty →
        (∀ v : View, v.raw = ty → v.Promise c → v.unapply c = some ⟨.named id⟩) ∧
        (Open.mk (.named id)).applyPartial c ((c.arguments ty).map .mk) = .ok ⟨ty⟩ ∧
        (c.hasFree ty = false → (∀ a ∈ c.arguments ty, c.hasFree a = false) ∧
          (Open.mk (.named id)).apply c ((c.arguments ty).map .mk) = .ok ⟨ty⟩)) ∧
    ∀ {id : DefId} {args : List Descriptor}, (c.definition id).isGeneric = true →
      args.length = (c.definition id).params.length → (∀ a ∈ args, c.WellFormed a) →
        ∃ ty, (Open.mk (.named id)).applyPartial c (args.map .mk) = .ok ⟨ty⟩ ∧
          c.WellFormed ty ∧ c.arguments ty = args ∧
          (∀ v : View, v.raw = ty → v.Promise c → v.unapply c = some ⟨.named id⟩) ∧
          ((∀ a ∈ args, c.hasFree a = false) → c.hasFree ty = false ∧
            (Open.mk (.named id)).apply c (args.map .mk) = .ok ⟨ty⟩) := by
  refine ⟨fun {ty id} hid htype hty => ?_, fun {id args} hgeneric hargs hwell => ?_⟩
  · have hgeneric : (c.definition id).isGeneric = true :=
      isGeneric_of_isGenericType hid htype hty.fits
    have hlength : (c.arguments ty).length = (c.definition id).params.length :=
      length_arguments hid hty.fits
    have hback : Descriptor.generic id (c.arguments ty) = ty :=
      generic_arguments hid htype hty.reduced
    refine ⟨?_, ?_, fun hclosed => ⟨hasFree_arguments hclosed, ?_⟩⟩
    · rintro v rfl promise
      exact unapply_eq hid (arguments_ne_nil hid hgeneric hty.fits) promise
    · rw [applyPartial_open hgeneric hlength, hback]
    · rw [apply_open hgeneric hlength, hback]
  · have hid : (Descriptor.generic id args).definition? = some id := definition?_generic id args
    have hfits : c.ArityCorrect (.generic id args) :=
      (respected_fits c).built hgeneric hargs fun a ha => (hwell a ha).fits
    have hreduced : (Descriptor.generic id args).IsReduced :=
      isReduced_generic fun a ha => (hwell a ha).reduced
    refine ⟨.generic id args, applyPartial_open hgeneric hargs, ⟨hfits, hreduced⟩,
      arguments_generic hargs, ?_, fun hclosed => ⟨?_, apply_open hgeneric hargs⟩⟩
    · intro v hv promise
      rw [← hv] at hid hfits
      exact unapply_eq hid (arguments_ne_nil hid hgeneric hfits) promise
    · exact hasFree_generic_of_closed hclosed

/-- ``Parent`1+Nested`1`` has a parameter of its own behind the one of ``Parent`1``.  Applied
to the placeholder of ``Parent`1`` and to its own second one it is no longer the definition;
applied to its own two it is. -/
theorem unapply_apply_inverse_nested :
    let document : Json := .object [("types", .array
      [.object [("name", .string "Parent"),
        ("nested", .array [.object [("name", .string "Nested"),
          ("params", .array [.string "U"])]]),
        ("params", .array [.string "T"])]])]
    let nested : DefId := ⟨18⟩
    let number : Descriptor := .named Builtin.int32.id
    let mixed : Descriptor := .constructed nested [.param ⟨17⟩ 0, .param nested 1]
    let closed : Descriptor := .constructed nested [number, .constructed .nullable [number]]
    ∃ c, ofJson document = .ok c ∧
      (ofSketch ⟨mixed⟩).unapply c = some ⟨.named nested⟩ ∧
      (Open.mk (.named nested)).applyPartial c [⟨.param ⟨17⟩ 0⟩, ⟨.param nested 1⟩] =
        .ok ⟨mixed⟩ ∧
      (ofClosed ⟨closed⟩).unapply c = some ⟨.named nested⟩ ∧
      (Open.mk (.named nested)).apply c [⟨number⟩, ⟨.constructed .nullable [number]⟩] =
        .ok ⟨closed⟩ ∧
      ∃ ty, (Open.mk (.named nested)).applyPartial c
          [⟨.param nested 0⟩, ⟨.param nested 1⟩] = .ok ⟨ty⟩ ∧
        c.arguments ty = [.param nested 0, .param nested 1] := by
  intro document nested number mixed closed
  obtain ⟨c, hc, hmixed, hclosed, hfree, hgeneric, hown, hlength⟩ :=
    exists_ofJson_eq_ok document (P := fun c =>
      c.WellFormed mixed ∧ c.WellFormed closed ∧ c.hasFree closed = false ∧
      (c.definition nested).isGeneric = true ∧
      (∀ a ∈ placeholders nested 2, c.WellFormed a) ∧
      (placeholders nested 2).length = (c.definition nested).params.length) (by decide +kernel)
  obtain ⟨hthere, hback⟩ := unapply_apply_inverse c
  obtain ⟨hopen, hagain, -⟩ := @hthere mixed nested rfl rfl hmixed
  obtain ⟨hopen', -, hclose⟩ := @hthere closed nested rfl rfl hclosed
  obtain ⟨ty, happly, -, harguments, -⟩ := hback hgeneric hlength hown
  exact ⟨c, hc, hopen _ rfl trivial, hagain, hopen' _ rfl hfree, (hclose hfree).2, ty, happly,
    harguments⟩

end Catalog

end Generics
