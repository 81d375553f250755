import Mathlib.Logic.Relation
import Generics.Proofs.Wording

/-!
# A cursor over the slots

The slots of a type are filled from a cursor that may stand anywhere in its list.  If
the arguments in front of it are enough, the cursor moves over as many of them as there
are slots, and the type is filled by those and no others.  If they are not, it moves to
the end of the list, and the first slot that gets no argument is the one that is
reported.

## Main definitions

* `Cursor.ahead` — the arguments that are taken next.
* `Cursor.Reaches` — the places that a cursor comes to by taking arguments.
* `Cursor.ranOut` — the outcome at a slot without an argument.

## Main results

* `Reaches.consumed_add_remaining` — on its way a cursor loses no argument.
* `substitute_eq_ranOut` — the slot at which a cursor runs out.
* `substitute_from_cursor` — what comes of a cursor at any place.
-/

namespace Generics

namespace Cursor

/-! ### Places -/

/-- The next arguments, as many as there are up to `count`. -/
def ahead (cursor : Cursor) (count : Nat) : List Descriptor :=
  (cursor.args.drop cursor.position).take count

/-- Taking arguments one after the other leads from one place to another. -/
def Reaches : Cursor → Cursor → Prop :=
  Relation.ReflTransGen fun cursor cursor' => ∃ arg, cursor.next? = some (arg, cursor')

/-- A slot without an argument is reported with the number of arguments, and with one
more as the number that is expected. -/
def ranOut {α : Type} (args : List Descriptor) (ty : Descriptor) :
    EStateM.Result ApplyError Cursor α :=
  .error (.arity ty (args.length + 1) args.length) { args, position := args.length }

theorem next?_eq_some {cursor cursor' : Cursor} {arg : Descriptor} :
    cursor.next? = some (arg, cursor') ↔ cursor.args[cursor.position]? = some arg ∧
      cursor' = { cursor with position := cursor.position + 1 } := by
  unfold next?
  rw [Option.map_eq_some_iff]
  constructor
  · rintro ⟨_, hget, he⟩
    cases he
    exact ⟨hget, rfl⟩
  · rintro ⟨hget, rfl⟩
    exact ⟨arg, hget, rfl⟩

/-- Taking an argument from a place inside the list leads to a place inside it. -/
theorem next?_inside {cursor cursor' : Cursor} {arg : Descriptor}
    (h : cursor.next? = some (arg, cursor')) :
    cursor'.args = cursor.args ∧ cursor'.position ≤ cursor'.length := by
  obtain ⟨hget, rfl⟩ := next?_eq_some.1 h
  exact ⟨rfl, (List.getElem?_eq_some_iff.1 hget).1⟩

theorem Reaches.inside {cursor later : Cursor} (h : cursor.Reaches later)
    (hinside : cursor.position ≤ cursor.length) :
    later.args = cursor.args ∧ later.position ≤ later.length := by
  induction h with
  | refl => exact ⟨rfl, hinside⟩
  | tail _ step ih =>
    obtain ⟨arg, hnext⟩ := step
    obtain ⟨hargs, hposition⟩ := next?_inside hnext
    exact ⟨hargs.trans ih.1, hposition⟩

/-- Wherever the cursor comes to, what is taken and what is left are all there is. -/
theorem Reaches.consumed_add_remaining {cursor later : Cursor} (h : cursor.Reaches later)
    (hinside : cursor.position ≤ cursor.length) :
    later.consumed + later.remaining = later.length := by
  have hlater : later.position ≤ later.args.length := (h.inside hinside).2
  unfold consumed remaining length
  omega

/-- A cursor comes to every place between its own and the end of the list. -/
theorem reaches_add (cursor : Cursor) {count : Nat} (h : cursor.position + count ≤ cursor.length) :
    cursor.Reaches { cursor with position := cursor.position + count } := by
  induction count with
  | zero => exact .refl
  | succ count ih =>
    have hlt : cursor.position + count < cursor.args.length := h
    refine (ih (Nat.le_of_lt hlt)).tail ⟨cursor.args[cursor.position + count], ?_⟩
    exact next?_eq_some.2 ⟨List.getElem?_eq_getElem hlt, rfl⟩

/-- A place inside the list cuts it in two. -/
theorem exists_append {cursor : Cursor} (h : cursor.position ≤ cursor.length) :
    ∃ pre rest, cursor = { args := pre ++ rest, position := pre.length } := by
  refine ⟨cursor.args.take cursor.position, cursor.args.drop cursor.position, ?_⟩
  have hlength : (cursor.args.take cursor.position).length = cursor.position :=
    List.length_take_of_le h
  rw [List.take_append_drop, hlength]

@[simp] theorem ahead_append (pre rest : List Descriptor) (count : Nat) :
    ahead { args := pre ++ rest, position := pre.length } count = rest.take count := by
  rw [ahead, List.drop_left]

@[simp] theorem remaining_append (pre rest : List Descriptor) :
    remaining { args := pre ++ rest, position := pre.length } = rest.length := by
  rw [remaining, List.length_append, Nat.add_sub_cancel_left]

end Cursor

namespace Catalog

open Descriptor Cursor

variable {c : Catalog}

/-! ### Running out -/

theorem fillSlot_eq_ranOut (owner : DefId) (position : Nat) (args : List Descriptor) :
    fillSlot owner position { args, position := args.length } =
      ranOut args (.param owner position) := by
  simp [fillSlot, next?, ranOut, consumed, Cursor.length]

theorem fillSlots_eq_ranOut (owner : DefId) {positions : List Nat} {xs : List Descriptor}
    (h : xs.length < positions.length) (pre : List Descriptor) :
    ∃ q, (positions.map (.param owner))[xs.length]? = some q ∧
      fillSlots owner positions { args := pre ++ xs, position := pre.length } =
        ranOut (pre ++ xs) q := by
  induction positions generalizing pre xs with
  | nil => exact absurd h (Nat.not_lt_zero _)
  | cons position positions ih =>
    cases xs with
    | nil =>
      refine ⟨.param owner position, rfl, ?_⟩
      rw [fillSlots, List.append_nil]
      exact EStateM.bind_eq_error.2 (Or.inl (fillSlot_eq_ranOut owner position pre))
    | cons x xs =>
      have hread : fillSlot owner position { args := pre ++ x :: xs, position := pre.length } =
          .ok x { args := pre ++ x :: xs, position := pre.length + 1 } := by
        simp [fillSlot, next?]
      obtain ⟨q, hq, hrest⟩ := ih (Nat.lt_of_succ_lt_succ h) (pre ++ [x])
      rw [List.append_assoc, List.length_append] at hrest
      refine ⟨q, hq, ?_⟩
      rw [fillSlots]
      exact EStateM.bind_eq_error.2
        (Or.inr ⟨x, _, hread, EStateM.bind_eq_error.2 (Or.inl hrest)⟩)

/-- Among the arguments of an application the cursor runs out in the first one whose
block is cut short.  Those before it are filled, those behind it are not looked at. -/
theorem substituteAll_eq_ranOut {args xs : List Descriptor}
    (hargs : ∀ a ∈ args, c.ArityCorrect a) (h : xs.length < (args.map c.slots).sum)
    (step : ∀ a ∈ args, ∀ xs pre : List Descriptor, xs.length < c.slots a →
      ∃ q, (c.slotPlaceholders a)[xs.length]? = some q ∧
        c.substitute a { args := pre ++ xs, position := pre.length } = ranOut (pre ++ xs) q)
    (pre : List Descriptor) : ∃ q, (args.flatMap c.slotPlaceholders)[xs.length]? = some q ∧
      c.substituteAll args { args := pre ++ xs, position := pre.length } =
        ranOut (pre ++ xs) q := by
  induction args generalizing xs pre with
  | nil => exact absurd h (Nat.not_lt_zero _)
  | cons a as ih =>
    obtain ⟨ha, has⟩ := List.forall_mem_cons.1 hargs
    obtain ⟨stepa, steps⟩ := List.forall_mem_cons.1 step
    have hblock : (c.slotPlaceholders a).length = c.slots a := length_slotPlaceholders a
    rw [List.map_cons, List.sum_cons] at h
    rw [List.flatMap_cons, substituteAll]
    by_cases hshort : xs.length < c.slots a
    · -- an argument with a slot is not closed
      have hfree : c.hasFree a = true := by
        by_contra hclosed
        rw [slots_eq_zero_of_closed (Bool.eq_false_iff.2 hclosed)] at hshort
        exact Nat.not_lt_zero _ hshort
      obtain ⟨q, hq, hfirst⟩ := stepa xs pre hshort
      refine ⟨q, ?_, ?_⟩
      · rwa [List.getElem?_append_left (hblock.symm ▸ hshort)]
      · rw [if_pos hfree]
        exact EStateM.bind_eq_error.2 (Or.inl hfirst)
    · -- the block of `a` is there, so the cursor runs out behind it
      obtain ⟨ys, zs, rfl, hys, -⟩ :=
        exists_append_of_length (Nat.add_sub_cancel' (Nat.le_of_not_lt hshort)).symm
      have hrest : zs.length < (as.map c.slots).sum := by
        rw [List.length_append] at h
        omega
      obtain ⟨q, hq, hlast⟩ := ih has hrest steps (pre ++ ys)
      rw [List.append_assoc, List.length_append] at hlast
      refine ⟨q, ?_, ?_⟩
      · have hindex : (ys ++ zs).length = (c.slotPlaceholders a).length + zs.length := by
          rw [List.length_append, hblock, hys]
        rwa [hindex, List.getElem?_append_right (Nat.le_add_right _ _), Nat.add_sub_cancel_left]
      · split
        · have hfirst := substitute_eq_ok ha hys pre zs
          exact EStateM.bind_eq_error.2
            (Or.inr ⟨_, _, hfirst, EStateM.bind_eq_error.2 (Or.inl hlast)⟩)
        · next hfree =>
          rw [eq_nil_of_closed (Bool.eq_false_iff.2 hfree) hys] at hlast ⊢
          exact EStateM.bind_eq_error.2 (Or.inl hlast)

/-- With fewer arguments than slots, the cursor runs out at the slot whose number is the
number of these arguments. -/
theorem substitute_eq_ranOut {ty : Descriptor} (hty : c.ArityCorrect ty) {xs : List Descriptor}
    (h : xs.length < c.slots ty) (pre : List Descriptor) :
    ∃ q, (c.slotPlaceholders ty)[xs.length]? = some q ∧
      c.substitute ty { args := pre ++ xs, position := pre.length } = ranOut (pre ++ xs) q := by
  induction ty generalizing xs pre with
  | param owner position =>
    rw [slots_param, Nat.lt_one_iff, List.length_eq_zero_iff] at h
    subst h
    refine ⟨.param owner position, by simp, ?_⟩
    rw [substitute, List.append_nil, fillSlot_eq_ranOut]
  | named id =>
    rw [slots_named] at h
    have hg : (c.definition id).isGeneric = true := Definition.isGeneric_iff_pos.2 (by omega)
    obtain ⟨q, hq, hslots⟩ := fillSlots_eq_ranOut id (h.trans_eq List.length_range.symm) pre
    refine ⟨q, by rw [slotPlaceholders_named]; exact hq, ?_⟩
    rw [substitute, if_pos hg]
    exact EStateM.bind_eq_error.2 (Or.inl hslots)
  | constructed id args ih =>
    have hargs := (throughout_constructed.1 hty).2
    rw [slots_constructed, slotsAll_eq_sum] at h
    obtain ⟨q, hq, hall⟩ := substituteAll_eq_ranOut hargs h
      (fun a ha xs pre hxs => ih a ha (hargs a ha) hxs pre) pre
    refine ⟨q, by rwa [slotPlaceholders_constructed], ?_⟩
    rw [substitute]
    exact EStateM.bind_eq_error.2 (Or.inl hall)

/-! ### A cursor at any place -/

/-- The slots of a well-formed type are filled from a cursor at any place of its list.  If
there are arguments enough, the cursor moves over one for each slot, and the result is the
type with these applied to it; a type without slots is left as it is.  If there are not,
the cursor ends behind the last argument, and the first slot without one is reported by
the declared name of its placeholder.  Either way the cursor only goes forward and loses
no argument, and nothing else can fail. -/
theorem substitute_from_cursor {ty : Descriptor} (hty : c.ArityCorrect ty) {cursor : Cursor}
    (inside : cursor.position ≤ cursor.length) :
    (c.slots ty ≤ cursor.remaining → ∃ t last, c.substitute ty cursor = .ok t last ∧
      last = { cursor with position := cursor.position + c.slots ty } ∧ cursor.Reaches last ∧
      c.apply ty (cursor.ahead (c.slots ty)) = .ok t ∧ (c.slots ty = 0 → t = ty)) ∧
    (cursor.remaining < c.slots ty → ∃ owner position last,
      (c.slotPlaceholders ty)[cursor.remaining]? = some (.param owner position) ∧
      (c.definition owner).params[position]? = some (c.sourceFullName (.param owner position)) ∧
      c.substitute ty cursor =
        .error (.arity (.param owner position) (cursor.length + 1) cursor.length) last ∧
      last = { cursor with position := cursor.length } ∧ cursor.Reaches last) ∧
    (∀ cause last, c.substitute ty cursor ≠ .error (.construct cause) last) ∧
    ∀ later, cursor.Reaches later → later.consumed + later.remaining = later.length := by
  have hfilled : c.slots ty ≤ cursor.remaining → c.substitute ty cursor =
      .ok (c.fill ty (cursor.ahead (c.slots ty)))
        { cursor with position := cursor.position + c.slots ty } := by
    intro h
    obtain ⟨pre, rest, rfl⟩ := exists_append inside
    rw [remaining_append] at h
    obtain ⟨xs, post, rfl, hxs, -⟩ := exists_append_of_length (Nat.add_sub_cancel' h).symm
    have hs := substitute_eq_ok hty hxs pre post
    rw [ahead_append, ← hxs, List.take_left]
    exact hs
  have hshort : cursor.remaining < c.slots ty →
      ∃ q, (c.slotPlaceholders ty)[cursor.remaining]? = some q ∧
        c.substitute ty cursor = ranOut cursor.args q := by
    intro h
    obtain ⟨pre, rest, rfl⟩ := exists_append inside
    rw [remaining_append] at h ⊢
    exact substitute_eq_ranOut hty h pre
  have hlength : cursor.position + cursor.remaining = cursor.length :=
    Nat.add_sub_cancel' inside
  refine ⟨fun h => ?_, fun h => ?_, ?_, fun later hlater => hlater.consumed_add_remaining inside⟩
  · have hahead : (cursor.ahead (c.slots ty)).length = c.slots ty := by
      rw [ahead, List.length_take, List.length_drop]
      exact Nat.min_eq_left h
    refine ⟨_, _, hfilled h, rfl, cursor.reaches_add (by omega), apply_eq_fill hty hahead, ?_⟩
    intro hzero
    rw [List.eq_nil_of_length_eq_zero (hahead.trans hzero)]
    exact fill_of_closed (slots_eq_zero_iff.1 hzero)
  · obtain ⟨q, hq, hs⟩ := hshort h
    obtain ⟨owner, position, rfl, hname⟩ :=
      exists_param_of_mem_slotPlaceholders hty (List.mem_of_getElem? hq)
    refine ⟨owner, position, _, hq, ?_, hs, rfl, ?_⟩
    · rwa [sourceFullName_eq_written, written_param]
    · have hreaches := cursor.reaches_add (Nat.le_of_eq hlength)
      rwa [hlength] at hreaches
  · intro cause last he
    rcases Nat.lt_or_ge cursor.remaining (c.slots ty) with h | h
    · obtain ⟨q, -, hs⟩ := hshort h
      rw [hs] at he
      cases he
    · rw [hfilled h] at he
      cases he

/-- A pair of an optional value and another pair has two slots.  From the second place of
three arguments it is filled with the last two; from the second place of two, the slot of
`V` gets none. -/
theorem substitute_from_cursor_pair :
    let pair : DefId := ⟨17⟩
    let c := initial.add "N.Pair`2"
      { nameSpace := some "N", name := "Pair`2", params := ["K", "V"] } none
    let number : Descriptor := .named Builtin.int32.id
    let word : Descriptor := .named Builtin.string.id
    let ty : Descriptor := .constructed pair
      [.named .nullable, .constructed pair [number, .param pair 1]]
    let long : Cursor := { args := [number, word, number], position := 1 }
    let short : Cursor := { args := [number, word], position := 1 }
    c.ArityCorrect ty ∧ long.position ≤ long.length ∧ short.position ≤ short.length ∧
      (∃ t, c.substitute ty long = .ok t { long with position := 3 } ∧
        c.apply ty [word, number] = .ok t) ∧
      c.substitute ty short = .error (.arity (.param pair 1) 3 2) { short with position := 2 } ∧
      c.sourceFullName (.param pair 1) = "V" := by
  intro pair c number word ty long short
  have hty : c.ArityCorrect ty := by decide +kernel
  have hlong : long.position ≤ long.length := by decide
  have hshort : short.position ≤ short.length := by decide
  have hslots : c.slots ty = 2 := by decide +kernel
  refine ⟨hty, hlong, hshort, ?_, ?_, by decide +kernel⟩
  · obtain ⟨t, last, hs, hlast, -, happly, -⟩ :=
      (substitute_from_cursor hty hlong).1 (by rw [hslots]; decide)
    rw [hslots] at hlast happly
    exact ⟨t, hlast ▸ hs, happly⟩
  · obtain ⟨owner, position, last, hq, -, hs, hlast, -⟩ :=
      (substitute_from_cursor hty hshort).2.1 (by rw [hslots]; decide)
    have hplaceholder : (c.slotPlaceholders ty)[short.remaining]? = some (.param pair 1) := by
      decide +kernel
    rw [hplaceholder] at hq
    cases hq
    exact hlast ▸ hs

end Catalog

end Generics
