import Mathlib.Algebra.GroupWithZero.Nat
import Generics.Slot
import Generics.Proofs.Parts

/-!
# Counting and filling slots

How the number of slots, the test for free parameters and the placeholders in the
slots belong together, and what can be said of a type whose slots were filled
before anything is known of its arity.

## Main definitions

* `Catalog.slotPlaceholders` — the placeholders in the free slots, in their order.

## Main results

* `slots_eq_zero_iff` — a type has no slots exactly when it has no free parameter.
* `length_slotPlaceholders`, `param_mem_slotPlaceholders_iff` — there is one placeholder
  for each slot, and where it comes from.
* `substitute_induction`, `apply_induction` — what holds of the arguments and of
  the closed parts, and is kept by applications, holds of the filled type.
* `hasFree_apply`, `Respected.apply` — filled with closed types, a type is closed;
  filled with types that satisfy a respected condition, it satisfies it.
-/

namespace Generics.Catalog

open Descriptor

variable {c : Catalog}

/-! ### How many slots there are -/

theorem slots_eq_zero_iff {ty : Descriptor} : c.slots ty = 0 ↔ c.hasFree ty = false := by
  induction ty with
  | named id => simp [Definition.isGeneric]
  | param owner position => simp
  | constructed id args ih =>
    -- the count leaves closed arguments out, so the arguments are taken one by one
    rw [slots_constructed, hasFree_constructed, List.any_eq_false]
    induction args with
    | nil => simp
    | cons a as ihs =>
      have iha : c.slots a = 0 ↔ c.hasFree a = false := ih a List.mem_cons_self
      have ihas := ihs fun b hb => ih b (List.mem_cons_of_mem a hb)
      rw [slotsAll_cons, Nat.add_eq_zero_iff, ihas, List.forall_mem_cons]
      refine and_congr_left fun _ => ?_
      cases ha : c.hasFree a with
      | false => simp
      | true => simpa [ha] using iha

theorem slots_eq_zero_of_closed {ty : Descriptor} (h : c.hasFree ty = false) : c.slots ty = 0 :=
  slots_eq_zero_iff.2 h

/-- Arguments without free parameters need not be left out of the count. -/
theorem slotsAll_eq_sum (args : List Descriptor) :
    c.slotsAll args = (args.map c.slots).sum := by
  induction args with
  | nil => rfl
  | cons a as ih =>
    rw [slotsAll_cons, ih, List.map_cons, List.sum_cons]
    cases ha : c.hasFree a with
    | false => simp [slots_eq_zero_of_closed ha]
    | true => simp

/-- The placeholders that a part brings by itself.  A generic definition stands for
its application to its own placeholders. -/
def ownPlaceholders (c : Catalog) : Descriptor → List Descriptor
  | .named id => placeholders id (c.definition id).params.length
  | .param owner position => [.param owner position]
  | .constructed _ _ => []

/-- The placeholders in the free slots of a type, in the order of the slots. -/
def slotPlaceholders (c : Catalog) (ty : Descriptor) : List Descriptor :=
  ty.parts.flatMap c.ownPlaceholders

@[simp] theorem slotPlaceholders_named (id : DefId) :
    c.slotPlaceholders (.named id) = placeholders id (c.definition id).params.length := by
  simp [slotPlaceholders, ownPlaceholders]

@[simp] theorem slotPlaceholders_param (owner : DefId) (position : Nat) :
    c.slotPlaceholders (.param owner position) = [.param owner position] := by
  simp [slotPlaceholders, ownPlaceholders]

@[simp] theorem slotPlaceholders_constructed (id : DefId) (args : List Descriptor) :
    c.slotPlaceholders (.constructed id args) = args.flatMap c.slotPlaceholders := by
  rw [slotPlaceholders, parts_constructed, List.flatMap_cons, ownPlaceholders, List.nil_append,
    List.flatMap_assoc]
  rfl

/-- A placeholder fills a slot if it stands in the type, or if its owner stands there
without arguments. -/
theorem param_mem_slotPlaceholders_iff {ty : Descriptor} {owner : DefId} {position : Nat} :
    .param owner position ∈ c.slotPlaceholders ty ↔ .param owner position ∈ ty.parts ∨
      .named owner ∈ ty.parts ∧ position < (c.definition owner).params.length := by
  unfold slotPlaceholders
  rw [List.mem_flatMap]
  constructor
  · rintro ⟨s, hs, hown⟩
    cases s with
    | named id =>
      obtain ⟨i, hi, he⟩ := mem_placeholders.1 hown
      cases he
      exact Or.inr ⟨hs, hi⟩
    | param o p =>
      rw [ownPlaceholders, List.mem_singleton] at hown
      exact Or.inl (hown ▸ hs)
    | constructed id args => exact absurd hown List.not_mem_nil
  · rintro (h | ⟨h, hp⟩)
    · exact ⟨_, h, List.mem_singleton_self _⟩
    · exact ⟨_, h, mem_placeholders.2 ⟨position, hp, rfl⟩⟩

theorem length_slotPlaceholders (ty : Descriptor) :
    (c.slotPlaceholders ty).length = c.slots ty := by
  induction ty with
  | named id => simp
  | param owner position => simp
  | constructed id args ih =>
    rw [slotPlaceholders_constructed, slots_constructed, slotsAll_eq_sum, List.length_flatMap]
    exact congrArg List.sum (List.map_congr_left ih)

/-! ### Applications -/

/-- An application is closed exactly if all its arguments are. -/
theorem hasFree_constructed_eq_false_iff {id : DefId} {args : List Descriptor} :
    c.hasFree (.constructed id args) = false ↔ ∀ a ∈ args, c.hasFree a = false := by
  rw [hasFree_constructed, List.any_eq_false]
  exact forall₂_congr fun a _ => Bool.not_eq_true _ ▸ Iff.rfl

/-- An application to closed types is closed: it is not collapsed, since no closed
type is a placeholder. -/
theorem generic_of_closed {id : DefId} {args : List Descriptor}
    (h : ∀ a ∈ args, c.hasFree a = false) : Descriptor.generic id args = .constructed id args := by
  rcases generic_eq_or id args with ⟨hne, he, -⟩ | ⟨-, hg⟩
  · -- were it collapsed, its first argument would be a placeholder
    obtain ⟨a, ha⟩ := List.exists_mem_of_ne_nil args hne
    rw [he] at ha
    obtain ⟨i, -, rfl⟩ := mem_placeholders.1 ha
    have := h (.param id i) (he ▸ ha)
    rw [hasFree_param] at this
    cases this
  · exact hg

theorem hasFree_generic_of_closed {id : DefId} {args : List Descriptor}
    (h : ∀ a ∈ args, c.hasFree a = false) : c.hasFree (.generic id args) = false := by
  rw [generic_of_closed h]
  exact hasFree_constructed_eq_false_iff.2 h

/-- Each placeholder is one slot. -/
theorem sum_slots_placeholders (id : DefId) (n : Nat) :
    ((placeholders id n).map c.slots).sum = n := by
  have hone : (placeholders id n).map c.slots = List.replicate n 1 := by
    refine List.eq_replicate_iff.2 ⟨by simp, ?_⟩
    intro m hm
    obtain ⟨a, ha, rfl⟩ := List.mem_map.1 hm
    obtain ⟨i, -, rfl⟩ := mem_placeholders.1 ha
    exact slots_param c id i
  rw [hone, List.sum_replicate_nat, Nat.mul_one]

/-- A type that is no placeholder has the slots of its arguments, where the arguments of a
definition are its own placeholders. -/
theorem slots_eq_sum_arguments {ty : Descriptor} {id : DefId} (hid : ty.definition? = some id) :
    c.slots ty = ((c.arguments ty).map c.slots).sum := by
  cases ty with
  | named other => rw [slots_named, arguments, sum_slots_placeholders]
  | param owner position => cases hid
  | constructed other args => rw [slots_constructed, slotsAll_eq_sum, arguments]

/-- The slots of an application are those of its arguments, also where the
application is collapsed to its definition. -/
theorem slots_generic {id : DefId} {args : List Descriptor}
    (h : args.length = (c.definition id).params.length) :
    c.slots (.generic id args) = (args.map c.slots).sum := by
  rcases generic_eq_or id args with ⟨-, he, hg⟩ | ⟨-, hg⟩
  · rw [hg, slots_named, he, sum_slots_placeholders, h]
  · rw [hg, slots_constructed, slotsAll_eq_sum]

/-! ### Filled types -/

section Induction

variable {Q : Descriptor → Prop}

theorem fillSlot_eq_ok {owner : DefId} {position : Nat} {cursor cursor' : Cursor}
    {ty : Descriptor} (h : fillSlot owner position cursor = .ok ty cursor') :
    cursor.args[cursor.position]? = some ty ∧
      cursor' = { cursor with position := cursor.position + 1 } := by
  unfold fillSlot Cursor.next? at h
  cases hg : cursor.args[cursor.position]? with
  | none => simp [hg] at h
  | some arg =>
    simp only [hg, Option.map_some, EStateM.Result.ok.injEq] at h
    exact ⟨congrArg some h.1, h.2.symm⟩

theorem buildGeneric_eq_ok {id : DefId} {args : List Descriptor} {cursor cursor' : Cursor}
    {ty : Descriptor} (h : c.buildGeneric id args cursor = .ok ty cursor') :
    ((c.definition id).isGeneric = true ∧ args.length = (c.definition id).params.length ∧
      ty = .generic id args) ∧ cursor' = cursor := by
  unfold buildGeneric at h
  split at h
  · next hm =>
    cases h
    obtain ⟨_, he, hg, hl, rfl⟩ := makeGeneric_eq_ok_iff.1 hm
    cases he
    exact ⟨⟨hg, hl, rfl⟩, rfl⟩
  · cases h

theorem fillSlots_induction {owner : DefId} {positions : List Nat} {cursor cursor' : Cursor}
    {tys : List Descriptor} (h : fillSlots owner positions cursor = .ok tys cursor')
    (hargs : ∀ a ∈ cursor.args, Q a) :
    (∀ t ∈ tys, Q t) ∧ cursor'.args = cursor.args := by
  induction positions generalizing cursor tys with
  | nil =>
    rw [fillSlots] at h
    cases h
    exact ⟨fun t ht => absurd ht List.not_mem_nil, rfl⟩
  | cons position positions ih =>
    rw [fillSlots, EStateM.bind_eq_ok] at h
    obtain ⟨arg, middle, harg, h⟩ := h
    rw [EStateM.bind_eq_ok] at h
    obtain ⟨args, last, hrest, h⟩ := h
    cases h
    obtain ⟨hget, rfl⟩ := fillSlot_eq_ok harg
    obtain ⟨hQ, he⟩ := ih hrest hargs
    refine ⟨?_, he⟩
    rw [List.forall_mem_cons]
    exact ⟨hargs arg (List.mem_of_getElem? hget), hQ⟩

/-- The arguments of an application are filled one after the other, each from where
the cursor then stands. -/
theorem substituteAll_induction {inner : List Descriptor}
    (step : ∀ a ∈ inner, ∀ (cursor cursor' : Cursor) (result : Descriptor),
      c.substitute a cursor = .ok result cursor' → (∀ x ∈ cursor.args, Q x) →
      Q result ∧ cursor'.args = cursor.args)
    (closed : ∀ a ∈ inner, c.hasFree a = false → Q a) {cursor cursor' : Cursor}
    {results : List Descriptor} (h : c.substituteAll inner cursor = .ok results cursor')
    (hargs : ∀ x ∈ cursor.args, Q x) :
    (∀ r ∈ results, Q r) ∧ cursor'.args = cursor.args := by
  induction inner generalizing cursor results with
  | nil =>
    rw [substituteAll] at h
    cases h
    exact ⟨fun r hr => absurd hr List.not_mem_nil, rfl⟩
  | cons a as ih =>
    obtain ⟨hstep, hsteps⟩ := List.forall_mem_cons.1 step
    obtain ⟨hclosed, hcloseds⟩ := List.forall_mem_cons.1 closed
    rw [substituteAll] at h
    split at h
    · rw [EStateM.bind_eq_ok] at h
      obtain ⟨first, middle, hfirst, h⟩ := h
      rw [EStateM.bind_eq_ok] at h
      obtain ⟨rest, last, hrest, h⟩ := h
      cases h
      obtain ⟨hQ, he⟩ := hstep _ _ _ hfirst hargs
      obtain ⟨hQs, hes⟩ := ih hsteps hcloseds hrest (he ▸ hargs)
      exact ⟨List.forall_mem_cons.2 ⟨hQ, hQs⟩, hes.trans he⟩
    · next hfree =>
      rw [EStateM.bind_eq_ok] at h
      obtain ⟨rest, last, hrest, h⟩ := h
      cases h
      obtain ⟨hQs, hes⟩ := ih hsteps hcloseds hrest hargs
      exact ⟨List.forall_mem_cons.2 ⟨hclosed (by simpa using hfree), hQs⟩, hes⟩

/-- What holds of the arguments on the cursor and of the closed parts of a type,
and is kept by applications of the right arity, holds of the filled type. -/
theorem substitute_induction
    (built : ∀ {id args}, (c.definition id).isGeneric = true →
      args.length = (c.definition id).params.length → (∀ a ∈ args, Q a) → Q (.generic id args))
    {ty : Descriptor} (closed : ∀ s ∈ ty.parts, c.hasFree s = false → Q s)
    {cursor cursor' : Cursor} {result : Descriptor}
    (h : c.substitute ty cursor = .ok result cursor') (hargs : ∀ a ∈ cursor.args, Q a) :
    Q result ∧ cursor'.args = cursor.args := by
  induction ty generalizing cursor cursor' result with
  | param owner position =>
    rw [substitute] at h
    obtain ⟨hget, rfl⟩ := fillSlot_eq_ok h
    exact ⟨hargs result (List.mem_of_getElem? hget), rfl⟩
  | named id =>
    rw [substitute] at h
    split at h
    · rw [EStateM.bind_eq_ok] at h
      obtain ⟨args, middle, hslots, h⟩ := h
      obtain ⟨⟨hg, hl, rfl⟩, rfl⟩ := buildGeneric_eq_ok h
      obtain ⟨hQ, he⟩ := fillSlots_induction hslots hargs
      exact ⟨built hg hl hQ, he⟩
    · next hg =>
      cases h
      exact ⟨closed _ (mem_parts_self _) (by simpa using hg), rfl⟩
  | constructed id inner ih =>
    rw [substitute, EStateM.bind_eq_ok] at h
    obtain ⟨args, middle, hall, h⟩ := h
    obtain ⟨⟨hg, hl, rfl⟩, rfl⟩ := buildGeneric_eq_ok h
    have hparts : ∀ a ∈ inner, ∀ s ∈ a.parts, c.hasFree s = false → Q s := by
      intro a ha s hs
      refine closed s ?_
      rw [parts_constructed]
      exact List.mem_cons_of_mem _ (List.mem_flatMap.2 ⟨a, ha, hs⟩)
    obtain ⟨hQ, he⟩ := substituteAll_induction (fun a ha _ _ _ => ih a ha (hparts a ha))
      (fun a ha => hparts a ha a (mem_parts_self a)) hall hargs
    exact ⟨built hg hl hQ, he⟩

/-- The same for a type that is filled by a list of arguments. -/
theorem apply_induction
    (built : ∀ {id args}, (c.definition id).isGeneric = true →
      args.length = (c.definition id).params.length → (∀ a ∈ args, Q a) → Q (.generic id args))
    {ty : Descriptor} (closed : ∀ s ∈ ty.parts, c.hasFree s = false → Q s)
    {args : List Descriptor} {result : Descriptor} (h : c.apply ty args = .ok result)
    (hargs : ∀ a ∈ args, Q a) : Q result := by
  unfold Catalog.apply at h
  split at h
  · -- nothing is filled in, so nothing is known of `ty` but that it is closed
    next hz =>
    cases h
    exact closed ty (mem_parts_self ty) (slots_eq_zero_iff.1 hz.1)
  · split at h
    · split at h
      · next hs =>
        cases h
        exact (substitute_induction built closed hs hargs).1
      · cases h
    · cases h

end Induction

/-- A type filled with closed types is closed. -/
theorem hasFree_apply {ty : Descriptor} {args : List Descriptor} {result : Descriptor}
    (h : c.apply ty args = .ok result) (hargs : ∀ a ∈ args, c.hasFree a = false) :
    c.hasFree result = false :=
  apply_induction (fun _ _ => hasFree_generic_of_closed) (fun _ _ h => h) h hargs

theorem Respected.apply {p : Descriptor → Prop} (hp : c.Respected p) {ty : Descriptor}
    {args : List Descriptor} {result : Descriptor} (h : c.apply ty args = .ok result)
    (hty : Throughout p ty) (hargs : ∀ a ∈ args, Throughout p a) : Throughout p result :=
  apply_induction hp.built (fun _ hs _ => hty.of_mem hs) h hargs

end Generics.Catalog
