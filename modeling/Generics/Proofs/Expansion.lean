import Generics.Proofs.Slots

/-!
# Generic definitions written out

A generic definition stands for its application to its own placeholders.  If this is written out
wherever a generic definition stands in a type, all free parameters of the type can be seen in
it, and its free slots can be counted by looking for placeholders.  The count that is made
without writing anything out, and without looking into arguments that have no free parameters,
comes to the same number: what it leaves out has no slots.

None of this asks a type to fit its catalog.  An application may have any number of arguments,
also none at all, and a placeholder may stand for a parameter that nobody declares.

## Main definitions

* `Catalog.expand` — a type with every generic definition in it applied to its own placeholders.

## Main results

* `any_isGenericDefinition_expand` — no generic definition is left.
* `filter_parts_expand` — the placeholders that are then in the type are those in its slots, in
  the same order.
* `sum_slots_filter` — arguments without free parameters need not be left out.
* `slots_eq_countP` — **the slots are as many as these placeholders, and there are none exactly
  if the type has no free parameter.**
-/

namespace Generics.Catalog

open Descriptor

mutual

/-- The type with every generic definition in it, at any depth, applied to its own
placeholders.  The definitions that have arguments already keep them. -/
def expand (c : Catalog) : Descriptor → Descriptor
  | .named id =>
    if (c.definition id).isGeneric then
      .constructed id (placeholders id (c.definition id).params.length)
    else .named id
  | .param owner position => .param owner position
  | .constructed id args => .constructed id (c.expandAll args)

/-- The same for some types. -/
def expandAll (c : Catalog) : List Descriptor → List Descriptor
  | [] => []
  | a :: as => c.expand a :: c.expandAll as

end

theorem expandAll_eq_map (c : Catalog) (args : List Descriptor) :
    c.expandAll args = args.map c.expand := by
  induction args with
  | nil => rfl
  | cons a as ih => rw [expandAll, ih, List.map_cons]

variable {c : Catalog}

theorem expand_named_of_generic {id : DefId} (h : (c.definition id).isGeneric = true) :
    c.expand (.named id) =
      .constructed id (placeholders id (c.definition id).params.length) := by
  rw [expand, if_pos h]

theorem expand_named_of_not {id : DefId} (h : ¬ (c.definition id).isGeneric = true) :
    c.expand (.named id) = .named id := by
  rw [expand, if_neg h]

@[simp] theorem expand_param (owner : DefId) (position : Nat) :
    c.expand (.param owner position) = .param owner position := by rw [expand]

@[simp] theorem expand_constructed (id : DefId) (args : List Descriptor) :
    c.expand (.constructed id args) = .constructed id (args.map c.expand) := by
  rw [expand, expandAll_eq_map]

/-! ### What stands in the type then -/

/-- Placeholders have no parts but themselves. -/
theorem flatMap_parts_placeholders (id : DefId) (n : Nat) :
    (placeholders id n).flatMap parts = placeholders id n := by
  unfold placeholders
  rw [List.flatMap_map, List.map_eq_flatMap]
  simp only [parts_param]

/-- The parts of a generic definition that is written out. -/
theorem parts_expand_named {id : DefId} (h : (c.definition id).isGeneric = true) :
    (c.expand (.named id)).parts =
      .constructed id (placeholders id (c.definition id).params.length) ::
        placeholders id (c.definition id).params.length := by
  rw [expand_named_of_generic h, parts_constructed, flatMap_parts_placeholders]

/-- Every generic definition is written out. -/
theorem any_isGenericDefinition_expand (ty : Descriptor) :
    (c.expand ty).parts.any c.isGenericDefinition = false := by
  rw [List.any_eq_false]
  induction ty with
  | named id =>
    intro s hs
    by_cases h : (c.definition id).isGeneric = true
    · rw [parts_expand_named h, List.mem_cons] at hs
      rcases hs with rfl | hs
      · exact Bool.false_ne_true
      · obtain ⟨i, -, rfl⟩ := mem_placeholders.1 hs
        exact Bool.false_ne_true
    · rw [expand_named_of_not h, parts_named, List.mem_singleton] at hs
      rw [hs]
      exact h
  | param owner position =>
    intro s hs
    rw [expand_param, parts_param, List.mem_singleton] at hs
    rw [hs]
    exact Bool.false_ne_true
  | constructed id args ih =>
    intro s hs
    rw [expand_constructed, parts_constructed, List.mem_cons, List.flatMap_map,
      List.mem_flatMap] at hs
    rcases hs with rfl | ⟨a, ha, hs⟩
    · exact Bool.false_ne_true
    · exact ih a ha s hs

theorem filter_isParameter_placeholders (id : DefId) (n : Nat) :
    (placeholders id n).filter isParameter = placeholders id n := by
  rw [List.filter_eq_self]
  intro a ha
  obtain ⟨i, -, rfl⟩ := mem_placeholders.1 ha
  rfl

/-- The placeholders in the type that is written out are those in the slots of the type. -/
theorem filter_parts_expand (ty : Descriptor) :
    (c.expand ty).parts.filter isParameter = c.slotPlaceholders ty := by
  induction ty with
  | named id =>
    rw [slotPlaceholders_named]
    by_cases h : (c.definition id).isGeneric = true
    · rw [parts_expand_named h, List.filter_cons_of_neg Bool.false_ne_true,
        filter_isParameter_placeholders]
    · -- a definition without parameters has no placeholders either
      have hnone : (c.definition id).params.length = 0 := by
        rw [Definition.isGeneric_iff_pos] at h
        omega
      rw [expand_named_of_not h, hnone, placeholders_zero]
      rfl
  | param owner position =>
    rw [expand_param, slotPlaceholders_param]
    rfl
  | constructed id args ih =>
    rw [expand_constructed, parts_constructed, List.filter_cons_of_neg Bool.false_ne_true,
      List.flatMap_map, List.filter_flatMap, slotPlaceholders_constructed, List.flatMap_def,
      List.flatMap_def]
    exact congrArg List.flatten (List.map_congr_left ih)

/-! ### Counting -/

/-- The count looks only into arguments that have free parameters. -/
theorem slotsAll_eq_sum_filter (args : List Descriptor) :
    c.slotsAll args = ((args.filter c.hasFree).map c.slots).sum := by
  induction args with
  | nil => rfl
  | cons a as ih =>
    rw [slotsAll_cons, ih]
    cases ha : c.hasFree a <;> simp [ha]

/-- Looking into the others as well changes nothing: they have no slots. -/
theorem sum_slots_filter (args : List Descriptor) :
    ((args.filter c.hasFree).map c.slots).sum = (args.map c.slots).sum := by
  rw [← slotsAll_eq_sum_filter, slotsAll_eq_sum]

/-- For every type of every catalog, whether or not it fits the catalog: a placeholder is one slot,
any other type has the slots of those of its arguments that have free parameters, and counting
the others as well gives the same number.  The number is that of the placeholders that stand in
the type if every generic definition in it is applied to its own placeholders, which leaves no
generic definition; and it is zero exactly if the type has no free parameter. -/
theorem slots_eq_countP (c : Catalog) (ty : Descriptor) :
    (c.slots ty = if ty.isParameter then 1
      else (((c.arguments ty).filter c.hasFree).map c.slots).sum) ∧
    (((c.arguments ty).filter c.hasFree).map c.slots).sum = ((c.arguments ty).map c.slots).sum ∧
    c.slots ty = (c.expand ty).parts.countP isParameter ∧
    (c.expand ty).parts.any c.isGenericDefinition = false ∧
    (c.slots ty = 0 ↔ c.hasFree ty = false) := by
  refine ⟨?_, sum_slots_filter _, ?_, any_isGenericDefinition_expand ty, slots_eq_zero_iff⟩
  · cases ty with
    | named id =>
      rw [sum_slots_filter, slots_eq_sum_arguments rfl]
      rfl
    | param owner position => exact slots_param c owner position
    | constructed id args =>
      rw [sum_slots_filter, slots_eq_sum_arguments rfl]
      rfl
  · rw [List.countP_eq_length_filter, filter_parts_expand, length_slotPlaceholders]

end Generics.Catalog
