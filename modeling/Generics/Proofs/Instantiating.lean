import Generics.Proofs.AcceptedBases
import Generics.Proofs.Bases

/-!
# Replacing the parameters of a definition

Replacing the placeholders of a definition by arguments goes through an application to
its arguments, and the result is put together as an application again.  The exception is
the definition itself.  Applied to its own parameters, in order, it is kept without
arguments, and nothing is replaced in it: what stands for these placeholders is not seen
as a placeholder.  So replacing commutes with applying in all cases but this one, and this
one is what is left of the placeholders when all arguments are closed.

## Main results

* `instantiate_generic_iff` — when replacing goes through an application.
* `param_not_mem_instantiate`, `named_mem_instantiate_iff` — what is left of the
  placeholders when closed types are put in.
* `instantiate_makeGeneric` — both for applications that a catalog builds.
-/

namespace Generics.Catalog

open Descriptor

variable {c : Catalog} {owner d : DefId} {args xs : List Descriptor}

/-! ### Replacing in an application -/

/-- The placeholders of another definition stay. -/
theorem instantiate_param_of_ne (h : d ≠ owner) (position : Nat) :
    instantiate owner args (.param d position) = .param d position := by
  rw [instantiate, if_neg h]

theorem map_instantiate_placeholders_of_ne (h : d ≠ owner) (n : Nat) :
    (placeholders d n).map (instantiate owner args) = placeholders d n := by
  refine (List.map_congr_left fun a ha => ?_).trans (List.map_id _)
  obtain ⟨i, -, rfl⟩ := mem_placeholders.1 ha
  exact instantiate_param_of_ne h i

/-- In place of all placeholders of a definition, in order, come the arguments. -/
theorem map_instantiate_placeholders :
    (placeholders owner args.length).map (instantiate owner args) = args := by
  refine List.ext_getElem (by simp) fun i hi hi' => ?_
  have hget : args[i]? = some args[i] := List.getElem?_eq_getElem hi'
  simp only [placeholders, List.getElem_map, List.getElem_range]
  exact instantiate_param hget

/-- An application is kept as the definition alone over its own placeholders only. -/
theorem generic_eq_named_iff {id : DefId} :
    generic id xs = .named id ↔ xs ≠ [] ∧ xs = placeholders id xs.length := by
  rcases generic_eq_or id xs with ⟨hne, he, hcollapsed⟩ | ⟨hnot, hkept⟩
  · exact iff_of_true hcollapsed ⟨hne, he⟩
  · rw [hkept]
    exact iff_of_false (by simp) fun ⟨hne, he⟩ => hne (hnot he)

/-- Replacing goes through an application, unless it is the definition of the placeholders
applied to them in order, and the arguments are not these placeholders again. -/
theorem instantiate_generic_iff (hxs : xs ≠ []) (hargs : d = owner → args.length = xs.length) :
    instantiate owner args (.generic d xs) = .generic d (xs.map (instantiate owner args)) ↔
      ¬ (d = owner ∧ xs = placeholders owner xs.length ∧ args ≠ xs) := by
  rcases generic_eq_or d xs with ⟨-, he, hcollapsed⟩ | ⟨hnot, hkept⟩
  · rw [hcollapsed, instantiate_named]
    by_cases hd : d = owner
    · subst hd
      -- the arguments come in place of the placeholders, and they are collapsed or not
      have hlength := hargs rfl
      have hmap : xs.map (instantiate d args) = args := by
        rw [he, ← hlength, map_instantiate_placeholders]
      have hne : args ≠ [] := List.ne_nil_of_length_pos (hlength ▸ List.length_pos_iff.2 hxs)
      rw [hmap, eq_comm, generic_eq_named_iff, hlength, ← he]
      simp [hne]
    · have hmap : xs.map (instantiate owner args) = xs := by
        rw [he, map_instantiate_placeholders_of_ne hd]
      rw [hmap, hcollapsed]
      simp [hd]
  · rw [hkept, instantiate_constructed]
    refine iff_of_true rfl ?_
    rintro ⟨rfl, he, -⟩
    exact hxs (hnot he)

/-! ### Putting closed types in -/

theorem slotPlaceholders_of_closed {ty : Descriptor} (h : c.hasFree ty = false) :
    c.slotPlaceholders ty = [] := by
  rw [← List.length_eq_zero_iff, length_slotPlaceholders, slots_eq_zero_of_closed h]

/-- There is no placeholder in a closed type. -/
theorem param_not_mem_of_closed {ty : Descriptor} (h : c.hasFree ty = false) (position : Nat) :
    .param owner position ∉ ty.parts := by
  intro hmem
  have hslot := param_mem_slotPlaceholders_iff (c := c).2 (Or.inl hmem)
  rw [slotPlaceholders_of_closed h] at hslot
  exact absurd hslot List.not_mem_nil

/-- There is no generic definition without arguments in a closed type. -/
theorem named_not_mem_of_closed {ty : Descriptor} (h : c.hasFree ty = false)
    (hgeneric : (c.definition owner).isGeneric = true) : .named owner ∉ ty.parts := by
  intro hmem
  have hslot := param_mem_slotPlaceholders_iff.2
    (Or.inr ⟨hmem, Definition.isGeneric_iff_pos.1 hgeneric⟩)
  rw [slotPlaceholders_of_closed h] at hslot
  exact absurd hslot List.not_mem_nil

/-- A placeholder in an application is one in an argument. -/
theorem param_mem_parts_generic {id : DefId} {position : Nat}
    (h : .param owner position ∈ (generic id xs).parts) :
    ∃ a ∈ xs, .param owner position ∈ a.parts := by
  rcases generic_eq_or id xs with ⟨-, -, hcollapsed⟩ | ⟨-, hkept⟩
  · rw [hcollapsed] at h
    simp at h
  · rw [hkept] at h
    simpa using h

/-- A definition without arguments in an application is one in an argument, or the
application is collapsed to it. -/
theorem named_mem_parts_generic_iff {id : DefId} : .named owner ∈ (generic id xs).parts ↔
    (∃ a ∈ xs, .named owner ∈ a.parts) ∨
      owner = id ∧ xs ≠ [] ∧ xs = placeholders id xs.length := by
  rcases generic_eq_or id xs with ⟨hne, he, hcollapsed⟩ | ⟨hnot, hkept⟩
  · rw [hcollapsed, parts_named, List.mem_singleton, Descriptor.named.injEq]
    constructor
    · exact fun hid => Or.inr ⟨hid, hne, he⟩
    · rintro (⟨a, ha, hmem⟩ | ⟨hid, -, -⟩)
      · -- the arguments are placeholders
        rw [he] at ha
        obtain ⟨i, -, rfl⟩ := mem_placeholders.1 ha
        simp at hmem
      · exact hid
  · have himpossible : ¬ (owner = id ∧ xs ≠ [] ∧ xs = placeholders id xs.length) :=
      fun ⟨_, hne, he⟩ => hne (hnot he)
    rw [hkept, or_iff_left himpossible]
    simp

section Closed

variable (hargs : args.length = (c.definition owner).params.length)
  (closed : ∀ a ∈ args, c.hasFree a = false)

include hargs closed

/-- A closed type comes in place of each placeholder in range. -/
theorem hasFree_instantiate_param {position : Nat}
    (hposition : position < (c.definition owner).params.length) :
    c.hasFree (instantiate owner args (.param owner position)) = false := by
  have hlt : position < args.length := hargs ▸ hposition
  rw [instantiate_param (List.getElem?_eq_getElem hlt)]
  exact closed _ (List.getElem_mem hlt)

/-- None of the placeholders is left. -/
theorem param_not_mem_instantiate {ty : Descriptor} (hty : c.ArityCorrect ty) (position : Nat) :
    .param owner position ∉ (instantiate owner args ty).parts := by
  induction ty with
  | named id => simp
  | param o p =>
    by_cases ho : o = owner
    · subst ho
      exact param_not_mem_of_closed
        (hasFree_instantiate_param hargs closed (throughout_param.1 hty)) position
    · rw [instantiate_param_of_ne ho]
      simp [Ne.symm ho]
  | constructed id inner ih =>
    rw [instantiate_constructed]
    intro hmem
    obtain ⟨b, hb, hmem⟩ := param_mem_parts_generic hmem
    obtain ⟨a, ha, rfl⟩ := List.mem_map.1 hb
    exact ih a ha ((throughout_constructed.1 hty).2 a ha) hmem

/-- Where the definition stands without arguments, it is left so; and nothing else becomes
the definition without arguments. -/
theorem named_mem_instantiate_iff (hgeneric : (c.definition owner).isGeneric = true)
    {ty : Descriptor} (hty : c.ArityCorrect ty) :
    .named owner ∈ (instantiate owner args ty).parts ↔ .named owner ∈ ty.parts := by
  induction ty with
  | named id => rw [instantiate_named]
  | param o p =>
    by_cases ho : o = owner
    · subst ho
      have hclosed := hasFree_instantiate_param hargs closed (throughout_param.1 hty)
      exact iff_of_false (named_not_mem_of_closed hclosed hgeneric) (by simp)
    · rw [instantiate_param_of_ne ho]
  | constructed id inner ih =>
    have hinner := (throughout_constructed.1 hty).2
    -- an application is collapsed over placeholders, of which none is left
    have hkept : ¬ (owner = id ∧ inner.map (instantiate owner args) ≠ [] ∧
        inner.map (instantiate owner args) =
          placeholders id (inner.map (instantiate owner args)).length) := by
      rintro ⟨rfl, hne, he⟩
      obtain ⟨a, ha, hfirst⟩ := List.mem_map.1 (first_mem_of_collapsed hne he)
      refine param_not_mem_instantiate hargs closed (hinner a ha) 0 ?_
      rw [hfirst]
      exact mem_parts_self _
    rw [instantiate_constructed, named_mem_parts_generic_iff, or_iff_left hkept]
    simp only [List.mem_map, exists_exists_and_eq_and, parts_constructed, List.mem_cons,
      List.mem_flatMap, reduceCtorEq, false_or]
    exact exists_congr fun a => and_congr_right fun ha => ih a ha (hinner a ha)

end Closed

/-! ### What a catalog builds -/

/-- Apply a generic definition and then replace the placeholders of `owner`, or replace them
first.  Both give the same type, unless `owner` is applied to its own placeholders in order
and the arguments are other types: then the first leaves `owner` as it is, and the second
applies it to the arguments.  When closed types are put in a type, none of the
placeholders is left in it, and `owner` is left without arguments exactly where it was. -/
theorem instantiate_makeGeneric (hargs : args.length = (c.definition owner).params.length)
    (hgeneric : (c.definition d).isGeneric = true)
    (hxs : xs.length = (c.definition d).params.length) :
    (∃ t t', c.makeGeneric (.named d) xs = .ok t ∧
      c.makeGeneric (.named d) (xs.map (instantiate owner args)) = .ok t' ∧
      (instantiate owner args t = t' ↔
        ¬ (d = owner ∧ xs = placeholders owner xs.length ∧ args ≠ xs)) ∧
      (d = owner → xs = placeholders owner xs.length →
        instantiate owner args t = .named owner ∧ t' = .generic owner args)) ∧
    ((∀ a ∈ args, c.hasFree a = false) → ∀ ty, c.ArityCorrect ty →
      (∀ position, .param owner position ∉ (instantiate owner args ty).parts) ∧
      ((∃ position, .param owner position ∈ c.slotPlaceholders (instantiate owner args ty)) ↔
        c.AppliedToOwn owner ty)) := by
  have hpos : 0 < xs.length := hxs ▸ Definition.isGeneric_iff_pos.1 hgeneric
  have hne : xs ≠ [] := List.length_pos_iff.1 hpos
  refine ⟨⟨.generic d xs, .generic d (xs.map (instantiate owner args)), ?_, ?_, ?_, ?_⟩,
    fun closed ty hty => ⟨param_not_mem_instantiate hargs closed hty, ?_⟩⟩
  · exact makeGeneric_eq_ok_iff.2 ⟨d, rfl, hgeneric, hxs, rfl⟩
  · exact makeGeneric_eq_ok_iff.2 ⟨d, rfl, hgeneric, by rwa [List.length_map], rfl⟩
  · refine instantiate_generic_iff hne ?_
    rintro rfl
    rw [hargs, hxs]
  · rintro rfl he
    have hlength : args.length = xs.length := hargs.trans hxs.symm
    refine ⟨?_, ?_⟩
    · rw [generic_eq_named_iff.2 ⟨hne, he⟩, instantiate_named]
    · rw [he, ← hlength, map_instantiate_placeholders]
  · have hleft := param_not_mem_instantiate hargs closed hty
    simp only [param_mem_slotPlaceholders_iff, hleft, false_or, AppliedToOwn]
    constructor
    · rintro ⟨position, hmem, hposition⟩
      have howner := Definition.isGeneric_iff_pos.2 (Nat.zero_lt_of_lt hposition)
      exact ⟨howner, (named_mem_instantiate_iff hargs closed howner hty).1 hmem⟩
    · rintro ⟨howner, hmem⟩
      exact ⟨0, (named_mem_instantiate_iff hargs closed howner hty).2 hmem,
        Definition.isGeneric_iff_pos.1 howner⟩

/-- Exchanging the parameters of a pair of the second and the first gives the pair itself.
Closed types come in place of the parameters of a pair, but not of a pair without
arguments inside it. -/
theorem instantiate_makeGeneric_pair :
    let pair : DefId := ⟨17⟩
    let c := initial.add "N.Pair`2"
      { nameSpace := some "N", name := "Pair`2", params := ["K", "V"] } none
    let number : Descriptor := .named Builtin.int32.id
    let word : Descriptor := .named Builtin.string.id
    let exchanged := [Descriptor.param pair 1, .param pair 0]
    let nested : Descriptor := .constructed pair [.named pair, .param pair 1]
    let filled : Descriptor := .constructed pair [.named pair, word]
    c.makeGeneric (.named pair) exchanged = .ok (.constructed pair exchanged) ∧
      instantiate pair exchanged (.constructed pair exchanged) = .named pair ∧
      c.makeGeneric (.named pair) (exchanged.map (instantiate pair exchanged)) =
        .ok (.named pair) ∧
      instantiate pair [number, word] nested = filled ∧
      (∀ position, .param pair position ∉ filled.parts) ∧
      ∃ position, .param pair position ∈ c.slotPlaceholders filled := by
  intro pair c number word exchanged nested filled
  have hgeneric : (c.definition pair).isGeneric = true := by decide +kernel
  have hexchanged : exchanged.length = (c.definition pair).params.length := by decide +kernel
  have hclosed : [number, word].length = (c.definition pair).params.length := by decide +kernel
  have hfilled : instantiate pair [number, word] nested = filled := by decide +kernel
  obtain ⟨⟨t, t', ht, ht', hiff, -⟩, -⟩ :=
    instantiate_makeGeneric hexchanged hgeneric hexchanged
  obtain ⟨-, hleft⟩ := instantiate_makeGeneric hclosed hgeneric hexchanged
  obtain ⟨hparam, hslot⟩ := hleft (by decide +kernel) nested (by decide +kernel)
  have hbuilt : c.makeGeneric (.named pair) exchanged = .ok (.constructed pair exchanged) :=
    Except.toOption_eq_some.1 (by decide +kernel)
  obtain rfl : .constructed pair exchanged = t := Except.ok.inj (hbuilt.symm.trans ht)
  have hsame : instantiate pair exchanged (.constructed pair exchanged) = t' :=
    hiff.2 (by decide +kernel)
  have hpair : instantiate pair exchanged (.constructed pair exchanged) = .named pair := by
    decide +kernel
  rw [hfilled] at hparam hslot
  exact ⟨hbuilt, hpair, by rw [ht', ← hsame, hpair], hfilled, hparam,
    hslot.2 (by decide +kernel)⟩

/-- Applied to its own parameter, ``Nullable`1`` is kept as the definition alone, and a closed
type that is put in for the parameter is lost.  Put in first, it is kept, and no parameter
is left. -/
theorem instantiate_keeps_own_parameters :
    let number : Descriptor := .named Builtin.int32.id
    let own : Descriptor := .param .nullable 0
    let optional : Descriptor := .constructed .nullable [number]
    initial.Reachable ∧ (initial.definition .nullable).params.length = 1 ∧
      initial.WellFormed own ∧ initial.WellFormed number ∧ initial.hasFree number = false ∧
      initial.makeGeneric (.named .nullable) [own] = .ok (.named .nullable) ∧
      initial.makeGeneric (.named .nullable) [instantiate .nullable [number] own] =
        .ok optional ∧
      instantiate .nullable [number] (.named .nullable) = .named .nullable ∧
      Descriptor.named .nullable ≠ optional ∧
      own ∈ initial.slotPlaceholders (instantiate .nullable [number] (.named .nullable)) := by
  intro number own optional
  have hbuilt : initial.makeGeneric (.named .nullable) [own] = .ok (.named .nullable) :=
    Except.toOption_eq_some.1 (by decide +kernel)
  have hreplaced : initial.makeGeneric (.named .nullable) [instantiate .nullable [number] own] =
      .ok optional := Except.toOption_eq_some.1 (by decide +kernel)
  exact ⟨.initial, by decide +kernel, by decide +kernel, by decide +kernel, by decide +kernel,
    hbuilt, hreplaced, instantiate_named _ _ _, by decide +kernel, by decide +kernel⟩

end Generics.Catalog
