import Generics.Proofs.Filling
import Generics.Proofs.Loading

/-!
# Bases of filled types

The base of a type is found by replacing the parameters of its definition, each as
often as the declared base mentions it; the slots of a type are filled one by one.
The two ways of substitution meet in the base of a filled type: it is the base of the
type, filled with the same arguments, repeated or left out as the declared base does
with the parameters they belong to.

## Main definitions

* `Descriptor.occurrences` — the positions of the placeholders in a descriptor.

## Main results

* `fill_instantiate` — filling after replacing is replacing by filled arguments.
* `baseType_generic` — the base of an application, also where it is collapsed.
* `baseType_apply` — the base of a filled type is the filled base.
-/

namespace Generics

/-- The position that a placeholder stands for. -/
def Descriptor.position? : Descriptor → Option Nat
  | .param _ position => some position
  | _ => none

/-- The positions of the placeholders in a descriptor, depth first from left to
right. -/
def Descriptor.occurrences (ty : Descriptor) : List Nat :=
  ty.parts.filterMap position?

namespace Descriptor

@[simp] theorem occurrences_named (id : DefId) : occurrences (.named id) = [] := by
  simp [occurrences, position?]

@[simp] theorem occurrences_param (owner : DefId) (position : Nat) :
    occurrences (.param owner position) = [position] := by
  simp [occurrences, position?]

@[simp] theorem occurrences_constructed (id : DefId) (args : List Descriptor) :
    occurrences (.constructed id args) = args.flatMap occurrences := by
  have hnode : position? (.constructed id args) = none := rfl
  rw [occurrences, parts_constructed, List.filterMap_cons_none hnode, List.filterMap_flatMap]
  rfl

end Descriptor

namespace Catalog

open Descriptor

variable {c : Catalog}

/-! ### Replacing parameters by filled arguments -/

/-- Arguments for the parameters of `id`, a block to fill each of them, and what they
are filled to. -/
def FilledBy (c : Catalog) (id : DefId) (as : List Descriptor) (block : Nat → List Descriptor)
    (filled : List Descriptor) : Prop :=
  ∀ p < (c.definition id).params.length, ∃ a, as[p]? = some a ∧
    (block p).length = c.slots a ∧ filled[p]? = some (c.fill a (block p))

/-- A placeholder of `id` in range is replaced by the argument at its position. -/
theorem instantiate_param {id : DefId} {args : List Descriptor} {p : Nat} {a : Descriptor}
    (h : args[p]? = some a) : instantiate id args (.param id p) = a := by
  rw [instantiate, if_pos rfl, h, Option.getD_some]

/-- A bound placeholder belongs to the type that binds it. -/
theorem eq_of_bindsOnly_param {id owner : DefId} {position : Nat}
    (h : c.bindsOnly id (.param owner position) = true) : owner = id := by
  rw [bindsOnly] at h
  simpa using h

/-- A bound definition is not generic. -/
theorem hasFree_of_bindsOnly_named {id other : DefId}
    (h : c.bindsOnly id (.named other) = true) : c.hasFree (.named other) = false := by
  rw [bindsOnly] at h
  simpa using h

section FilledBy

variable {id : DefId} {as filled : List Descriptor} {block : Nat → List Descriptor}
  (h : c.FilledBy id as block filled)

include h

/-- A placeholder that the base mentions several times brings the slots of its
argument several times. -/
theorem slots_instantiate {base : Descriptor} (hbound : c.bindsOnly id base = true)
    (hfits : c.ArityCorrect base) :
    (base.occurrences.flatMap block).length = c.slots (instantiate id as base) := by
  induction base with
  | named other =>
    rw [instantiate_named, slots_eq_zero_of_closed (hasFree_of_bindsOnly_named hbound),
      occurrences_named]
    rfl
  | param owner p =>
    obtain rfl := eq_of_bindsOnly_param hbound
    obtain ⟨a, ha, hblock, -⟩ := h p (throughout_param.1 hfits)
    rw [instantiate_param ha, occurrences_param, List.flatMap_singleton, hblock]
  | constructed other inner ih =>
    rw [bindsOnly_constructed, List.all_eq_true] at hbound
    obtain ⟨⟨-, hl⟩, hinner⟩ := throughout_constructed.1 hfits
    rw [instantiate_constructed, slots_generic (by rw [List.length_map, hl]), List.map_map,
      occurrences_constructed, List.flatMap_assoc, List.length_flatMap]
    exact congrArg List.sum
      (List.map_congr_left fun a ha => ih a ha (hbound a ha) (hinner a ha))

/-- Filling after replacing parameters is replacing them by the filled arguments. -/
theorem fill_instantiate {base : Descriptor} (hbound : c.bindsOnly id base = true)
    (hfits : c.ArityCorrect base) :
    c.fill (instantiate id as base) (base.occurrences.flatMap block) =
      instantiate id filled base := by
  induction base with
  | named other =>
    rw [instantiate_named, instantiate_named, occurrences_named]
    exact fill_of_closed (hasFree_of_bindsOnly_named hbound)
  | param owner p =>
    obtain rfl := eq_of_bindsOnly_param hbound
    obtain ⟨a, ha, -, hfilled⟩ := h p (throughout_param.1 hfits)
    rw [instantiate_param ha, instantiate_param hfilled, occurrences_param,
      List.flatMap_singleton]
  | constructed other inner ih =>
    -- occurrences come argument by argument, and so do the slots they bring
    rw [bindsOnly_constructed, List.all_eq_true] at hbound
    obtain ⟨⟨hg, -⟩, hinner⟩ := throughout_constructed.1 hfits
    have hblocks : ∀ a ∈ inner,
        (a.occurrences.flatMap block).length = c.slots (instantiate id as a) :=
      fun a ha => slots_instantiate h (hbound a ha) (hinner a ha)
    have hsum : (inner.flatMap fun a => a.occurrences.flatMap block).length =
        ((inner.map (instantiate id as)).map c.slots).sum := by
      rw [List.length_flatMap, List.map_map]
      exact congrArg List.sum (List.map_congr_left hblocks)
    rw [instantiate_constructed, instantiate_constructed, occurrences_constructed,
      List.flatMap_assoc, fill_generic hg hsum, fillAll_flatMap hblocks]
    exact congrArg (Descriptor.generic other)
      (List.map_congr_left fun a ha => ih a ha (hbound a ha) (hinner a ha))

end FilledBy

/-- The blocks into which the arguments of a filling are split fill the arguments of
the type. -/
theorem filledBy_splitLengths {id : DefId} {as bs : List Descriptor}
    (has : as.length = (c.definition id).params.length) (hbs : bs.length = (as.map c.slots).sum) :
    c.FilledBy id as (fun p => ((as.map c.slots).splitLengths bs).getD p []) (c.fillAll as bs) := by
  have key : ∀ (as bs : List Descriptor), bs.length = (as.map c.slots).sum →
      ∀ p < as.length, ∃ a, as[p]? = some a ∧
        (((as.map c.slots).splitLengths bs).getD p []).length = c.slots a ∧
        (c.fillAll as bs)[p]? =
          some (c.fill a (((as.map c.slots).splitLengths bs).getD p [])) := by
    intro as
    induction as with
    | nil => intro bs _ p hp; exact absurd hp (Nat.not_lt_zero p)
    | cons a as ih =>
      intro bs hbs p hp
      rw [List.map_cons, List.sum_cons] at hbs
      obtain ⟨bs, bs', rfl, hfirst, hrest⟩ := exists_append_of_length hbs
      rw [fillAll_cons_append hfirst, List.map_cons, List.splitLengths_cons, ← hfirst,
        List.take_left, List.drop_left]
      cases p with
      | zero => exact ⟨a, rfl, hfirst, rfl⟩
      | succ p => exact ih bs' hrest p (Nat.lt_of_succ_lt_succ hp)
  intro p hp
  exact key as bs hbs p (has.symm ▸ hp)

/-! ### The base of an application -/

/-- A settled base is unchanged when its parameters are replaced by themselves. -/
theorem SettledBase.instantiate_placeholders {id : DefId} {base : Descriptor}
    (h : c.SettledBase id base) (n : Nat) : instantiate id (placeholders id n) base = base := by
  obtain ⟨hbound, -, hreduced⟩ := h
  induction base with
  | named other => rw [instantiate_named]
  | param owner p =>
    obtain rfl := eq_of_bindsOnly_param hbound
    -- a position without an argument keeps its placeholder
    by_cases hp : p < n
    · exact instantiate_param (by simp [placeholders, hp])
    · have hnone : (placeholders owner n)[p]? = none := by simp [placeholders, hp]
      rw [instantiate, if_pos rfl, hnone, Option.getD_none]
  | constructed other inner ih =>
    rw [bindsOnly_constructed, List.all_eq_true] at hbound
    obtain ⟨hnode, hinner⟩ := throughout_constructed.1 hreduced
    have hsame : inner.map (instantiate id (placeholders id n)) = inner := by
      rw [List.map_congr_left fun a ha => ih a ha (hbound a ha) (hinner a ha), List.map_id']
    rw [instantiate_constructed, hsame, generic_of_reduced hnode]

/-- The base of an application, which may be collapsed to its definition. -/
theorem baseType_generic {id : DefId} {base : Descriptor}
    (hbase : (c.definition id).base = some base) (h : c.SettledBase id base)
    (args : List Descriptor) :
    c.baseType (.generic id args) = some (instantiate id args base) := by
  rcases generic_eq_or id args with ⟨-, he, hcollapsed⟩ | ⟨-, hkept⟩
  · rw [hcollapsed, he, h.instantiate_placeholders]
    exact hbase
  · rw [hkept, baseType, hbase, Option.map_some]

/-- The parts of the base of a generic type come from the arguments of the type, also
where these are its own placeholders. -/
theorem baseType_eq {id : DefId} {base ty : Descriptor}
    (hbase : (c.definition id).base = some base) (h : c.SettledBase id base)
    (hid : ty.definition? = some id) :
    c.baseType ty = some (instantiate id (c.arguments ty) base) := by
  cases ty with
  | named other =>
    cases hid
    rw [arguments, h.instantiate_placeholders]
    exact hbase
  | param owner position => cases hid
  | constructed other args =>
    cases hid
    rw [arguments, baseType, hbase, Option.map_some]

/-! ### Generic types and their arguments -/

section Arguments

variable {id : DefId} {ty : Descriptor} (hid : ty.definition? = some id)
  (hgeneric : c.isGenericType ty = true) (hty : c.ArityCorrect ty)

include hid hty

theorem length_arguments : (c.arguments ty).length = (c.definition id).params.length := by
  cases ty with
  | named other => cases hid; exact length_arguments_named c id
  | param owner position => cases hid
  | constructed other args =>
    cases hid
    exact (throughout_constructed.1 hty).1.2

theorem arityCorrect_arguments : ∀ a ∈ c.arguments ty, c.ArityCorrect a := by
  cases ty with
  | named other =>
    intro a ha
    obtain ⟨i, hi, rfl⟩ := mem_placeholders.1 ha
    exact throughout_param.2 hi
  | param owner position => cases hid
  | constructed other args => exact (throughout_constructed.1 hty).2

include hgeneric

theorem fill_eq_generic {bs : List Descriptor} (hbs : bs.length = c.slots ty) :
    c.fill ty bs = .generic id (c.fillAll (c.arguments ty) bs) := by
  cases ty with
  | named other =>
    cases hid
    rw [slots_named] at hbs
    rw [fill_named_of_generic hgeneric, arguments, fillAll_placeholders hbs]
  | param owner position => cases hid
  | constructed other args =>
    cases hid
    rw [fill_constructed, arguments]

end Arguments

/-- In a loaded catalog, fill a generic type with `bs`, and its base with the blocks of
`bs` that belong to the arguments which the declared base mentions, one block for each
time it does.  The filled base is the base of the filled type. -/
theorem baseType_apply {document : Json} (loaded : ofJson document = .ok c) {id : DefId}
    {base ty : Descriptor} (hbase : (c.definition id).base = some base)
    (hid : ty.definition? = some id) (hgeneric : c.isGenericType ty = true)
    (hty : c.ArityCorrect ty) {bs : List Descriptor} (hbs : bs.length = c.slots ty) :
    let blocks := ((c.arguments ty).map c.slots).splitLengths bs
    let cs := base.occurrences.flatMap fun p => blocks.getD p []
    ∃ b t b', c.baseType ty = some b ∧ c.apply ty bs = .ok t ∧ c.apply b cs = .ok b' ∧
      c.baseType t = some b' := by
  intro blocks cs
  have hsettled : c.SettledBase id base := basesSettled_ofJson loaded hbase
  have hlen : (c.arguments ty).length = (c.definition id).params.length :=
    length_arguments hid hty
  have hfilled : c.FilledBy id (c.arguments ty) (fun p => blocks.getD p [])
      (c.fillAll (c.arguments ty) bs) :=
    filledBy_splitLengths hlen (hbs.trans (slots_eq_sum_arguments hid))
  have hfits : c.ArityCorrect (instantiate id (c.arguments ty) base) :=
    (respected_fits c).instantiate id (arityCorrect_arguments hid hty) hsettled.fits
  have hcs : cs.length = c.slots (instantiate id (c.arguments ty) base) :=
    slots_instantiate hfilled hsettled.bound hsettled.fits
  refine ⟨_, _, _, baseType_eq hbase hsettled hid, apply_eq_fill hty hbs,
    apply_eq_fill hfits hcs, ?_⟩
  rw [fill_eq_generic hid hgeneric hty hbs, baseType_generic hbase hsettled,
    fill_instantiate hfilled hsettled.bound hsettled.fits]

/-- ``Twin`2`` with parameters `K` and `V` has the base ``Pair`2[V,V]``: what fills the
argument for `K` is left out, and what fills the one for `V` is repeated. -/
theorem baseType_apply_twin :
    let document : Json := .object [("types", .array
      [.object [("name", .string "Pair"), ("params", .array [.string "K", .string "V"])],
       .object [("base", .string "Pair`2[V,V]"), ("name", .string "Twin"),
         ("params", .array [.string "K", .string "V"])]])]
    let ty : Descriptor := .constructed ⟨18⟩ [.named .nullable, .named ⟨17⟩]
    ∃ c, ofJson document = .ok c ∧ ∀ x y z : Descriptor, ∃ b t b',
      c.baseType ty = some b ∧ c.apply ty [x, y, z] = .ok t ∧ c.apply b [y, z, y, z] = .ok b' ∧
        c.baseType t = some b' := by
  intro document ty
  have hload : ((ofJson document).toOption.any fun c => decide
      ((c.definition ⟨18⟩).base = some (.constructed ⟨17⟩ [.param ⟨18⟩ 1, .param ⟨18⟩ 1]) ∧
        c.ArityCorrect ty ∧ (c.arguments ty).map c.slots = [1, 2])) = true := by decide +kernel
  cases hc : ofJson document with
  | error cause => rw [hc] at hload; cases hload
  | ok c =>
    rw [hc] at hload
    obtain ⟨hbase, hty, hslots⟩ := of_decide_eq_true hload
    refine ⟨c, rfl, fun x y z => ?_⟩
    have hbs : [x, y, z].length = c.slots ty := by
      rw [slots_eq_sum_arguments rfl, hslots]
      rfl
    obtain ⟨b, t, b', hb, ht, hb', htb⟩ := baseType_apply hc hbase rfl rfl hty hbs
    refine ⟨b, t, b', hb, ht, ?_, htb⟩
    rw [hslots] at hb'
    exact hb'

end Catalog

end Generics
