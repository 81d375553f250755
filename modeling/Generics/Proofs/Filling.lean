import Mathlib.Data.List.SplitLengths
import Generics.Catalog.Define
import Generics.Proofs.Slots

/-!
# Filling slots, without the cursor

The slots of a well-formed type are filled by cutting the arguments into blocks,
one for each part, where the cursor would stand when it reaches that part.  Said
this way, filling is a function of the type and the arguments, and its laws are
those of substitution: filling a filled type is filling with filled arguments, and
the placeholders of a type fill it to itself.

## Main definitions

* `Catalog.fill`, `Catalog.fillAll` — a type, and a list of types, with the slots
  filled.

## Main results

* `apply_eq_fill` — on a well-formed type and as many arguments as it has slots,
  `Catalog.apply` succeeds and is `Catalog.fill`.
* `slots_fill` — the slots of the filled type are those of the arguments.
* `fill_fill`, `fill_slotPlaceholders` — associativity, and an identity.
* `apply_assoc` — the same laws for `Catalog.apply`.
-/

namespace Generics.Catalog

open Descriptor

variable {c : Catalog}

mutual

/-- A type with its slots filled by `xs`, which are as many. -/
def fill (c : Catalog) : Descriptor → List Descriptor → Descriptor
  | .param owner position, xs => xs.headD (.param owner position)
  | .named id, xs => if (c.definition id).isGeneric then .generic id xs else .named id
  | .constructed id args, xs => .generic id (c.fillAll args xs)

/-- Some types with their slots filled, each by the block of `xs` that belongs to
it. -/
def fillAll (c : Catalog) : List Descriptor → List Descriptor → List Descriptor
  | [], _ => []
  | a :: as, xs => c.fill a (xs.take (c.slots a)) :: c.fillAll as (xs.drop (c.slots a))

end

@[simp] theorem fill_param (owner : DefId) (position : Nat) (x : Descriptor) :
    c.fill (.param owner position) [x] = x := by rw [fill, List.headD_cons]

theorem fill_named_of_generic {id : DefId} (h : (c.definition id).isGeneric = true)
    (xs : List Descriptor) : c.fill (.named id) xs = .generic id xs := by
  rw [fill, if_pos h]

theorem fill_constructed (id : DefId) (args xs : List Descriptor) :
    c.fill (.constructed id args) xs = .generic id (c.fillAll args xs) := by rw [fill]

@[simp] theorem fillAll_nil (xs : List Descriptor) : c.fillAll [] xs = [] := by rw [fillAll]

/-! ### Blocks of arguments -/

/-- A list cut where its length is a sum. -/
theorem exists_append_of_length {α : Type} {xs : List α} {m n : Nat} (h : xs.length = m + n) :
    ∃ ys zs, xs = ys ++ zs ∧ ys.length = m ∧ zs.length = n := by
  refine ⟨xs.take m, xs.drop m, (List.take_append_drop m xs).symm, ?_, ?_⟩
  · rw [List.length_take, h]; omega
  · rw [List.length_drop, h]; omega

theorem fillAll_cons_append {a : Descriptor} {xs : List Descriptor} (h : xs.length = c.slots a)
    (as ys : List Descriptor) :
    c.fillAll (a :: as) (xs ++ ys) = c.fill a xs :: c.fillAll as ys := by
  rw [fillAll, ← h, List.take_left, List.drop_left]

theorem length_fillAll (as xs : List Descriptor) : (c.fillAll as xs).length = as.length := by
  induction as generalizing xs with
  | nil => rw [fillAll_nil]
  | cons a as ih => rw [fillAll, List.length_cons, ih, List.length_cons]

theorem fillAll_append {as xs : List Descriptor} (h : xs.length = (as.map c.slots).sum)
    (bs ys : List Descriptor) :
    c.fillAll (as ++ bs) (xs ++ ys) = c.fillAll as xs ++ c.fillAll bs ys := by
  induction as generalizing xs with
  | nil =>
    rw [List.eq_nil_of_length_eq_zero h]
    simp
  | cons a as ih =>
    rw [List.map_cons, List.sum_cons] at h
    obtain ⟨xs, xs', rfl, ha, has⟩ := exists_append_of_length h
    rw [List.cons_append, List.append_assoc, fillAll_cons_append ha, fillAll_cons_append ha,
      ih has, List.cons_append]

/-- Blocks put in a row are taken apart again. -/
theorem fillAll_flatMap {args : List Descriptor} {ty : Descriptor → Descriptor}
    {block : Descriptor → List Descriptor} (h : ∀ a ∈ args, (block a).length = c.slots (ty a)) :
    c.fillAll (args.map ty) (args.flatMap block) = args.map fun a => c.fill (ty a) (block a) := by
  induction args with
  | nil => rw [List.map_nil, fillAll_nil, List.map_nil]
  | cons a as ih =>
    obtain ⟨ha, has⟩ := List.forall_mem_cons.1 h
    rw [List.map_cons, List.flatMap_cons, fillAll_cons_append ha, ih has, List.map_cons]

/-- Placeholders are replaced one by one. -/
theorem fillAll_placeholders {id : DefId} {n : Nat} {xs : List Descriptor} (h : xs.length = n) :
    c.fillAll (placeholders id n) xs = xs := by
  have key : ∀ (positions : List Nat) (xs : List Descriptor), xs.length = positions.length →
      c.fillAll (positions.map (.param id)) xs = xs := by
    intro positions
    induction positions with
    | nil =>
      intro xs h
      rw [List.eq_nil_of_length_eq_zero h, List.map_nil, fillAll_nil]
    | cons position positions ih =>
      intro xs h
      cases xs with
      | nil => cases h
      | cons x xs =>
        have hx : [x].length = c.slots (.param id position) := by rw [slots_param]; rfl
        show c.fillAll (.param id position :: positions.map (.param id)) ([x] ++ xs) = x :: xs
        rw [fillAll_cons_append hx, fill_param, ih xs (Nat.succ.inj h)]
  exact key (List.range n) xs (by rw [h, List.length_range])

/-! ### Closed types -/

/-- There is nothing to fill in a closed type. -/
theorem fill_of_closed {ty : Descriptor} (h : c.hasFree ty = false) : c.fill ty [] = ty := by
  induction ty with
  | param owner position => rw [hasFree_param] at h; cases h
  | named id =>
    rw [hasFree_named] at h
    rw [fill, if_neg (by rw [h]; exact Bool.false_ne_true)]
  | constructed id args ih =>
    have hclosed := hasFree_constructed_eq_false_iff.1 h
    have hall : c.fillAll args [] = args := by
      clear h
      induction args with
      | nil => rw [fillAll_nil]
      | cons a as ihs =>
        obtain ⟨ha, has⟩ := List.forall_mem_cons.1 ih
        obtain ⟨hca, hcas⟩ := List.forall_mem_cons.1 hclosed
        rw [fillAll, List.take_nil, List.drop_nil, ha hca, ihs has hcas]
    rw [fill_constructed, hall, generic_of_closed hclosed]

/-- The block of a closed type is empty. -/
theorem eq_nil_of_closed {ty : Descriptor} {xs : List Descriptor} (h : c.hasFree ty = false)
    (hxs : xs.length = c.slots ty) : xs = [] := by
  rw [slots_eq_zero_of_closed h] at hxs
  exact List.eq_nil_of_length_eq_zero hxs

/-! ### The cursor reads blocks -/

theorem fillSlots_eq_ok (owner : DefId) {positions : List Nat} {xs : List Descriptor}
    (h : xs.length = positions.length) (pre post : List Descriptor) :
    fillSlots owner positions { args := pre ++ (xs ++ post), position := pre.length } =
      .ok xs { args := pre ++ (xs ++ post), position := pre.length + xs.length } := by
  induction positions generalizing pre xs with
  | nil =>
    rw [List.eq_nil_of_length_eq_zero h]
    rfl
  | cons position positions ih =>
    cases xs with
    | nil => cases h
    | cons x xs =>
      have hread : fillSlot owner position
          { args := pre ++ (x :: xs ++ post), position := pre.length } =
          .ok x { args := pre ++ (x :: xs ++ post), position := pre.length + 1 } := by
        simp [fillSlot, Cursor.next?]
      have hrest := ih (Nat.succ.inj h) (pre ++ [x])
      rw [List.append_assoc, List.length_append] at hrest
      rw [fillSlots, List.length_cons, Nat.add_comm xs.length 1, ← Nat.add_assoc]
      exact EStateM.bind_eq_ok.2 ⟨x, _, hread, EStateM.bind_eq_ok.2 ⟨xs, _, hrest, rfl⟩⟩

theorem buildGeneric_of_fits {id : DefId} {args : List Descriptor}
    (hg : (c.definition id).isGeneric = true)
    (hl : args.length = (c.definition id).params.length) (cursor : Cursor) :
    c.buildGeneric id args cursor = .ok (.generic id args) cursor := by
  have hm : c.makeGeneric (.named id) args = .ok (.generic id args) :=
    makeGeneric_eq_ok_iff.2 ⟨id, rfl, hg, hl, rfl⟩
  rw [buildGeneric, hm]

/-- The arguments of an application are filled by one block after the other, if each
is filled by the block that belongs to it. -/
theorem substituteAll_eq_ok {args xs : List Descriptor} (h : xs.length = (args.map c.slots).sum)
    (step : ∀ a ∈ args, ∀ xs pre post : List Descriptor, xs.length = c.slots a →
      c.substitute a { args := pre ++ (xs ++ post), position := pre.length } =
        .ok (c.fill a xs) { args := pre ++ (xs ++ post), position := pre.length + xs.length })
    (pre post : List Descriptor) :
    c.substituteAll args { args := pre ++ (xs ++ post), position := pre.length } =
      .ok (c.fillAll args xs)
        { args := pre ++ (xs ++ post), position := pre.length + xs.length } := by
  induction args generalizing xs pre with
  | nil =>
    rw [List.eq_nil_of_length_eq_zero h]
    rfl
  | cons a as ih =>
    obtain ⟨stepa, steps⟩ := List.forall_mem_cons.1 step
    rw [List.map_cons, List.sum_cons] at h
    obtain ⟨xs, ys, rfl, hxs, hys⟩ := exists_append_of_length h
    have hrest := ih hys steps (pre ++ xs)
    rw [List.append_assoc, List.length_append] at hrest
    rw [substituteAll, fillAll_cons_append hxs, List.append_assoc, List.length_append,
      ← Nat.add_assoc]
    split
    · have hfirst := stepa xs pre (ys ++ post) hxs
      exact EStateM.bind_eq_ok.2 ⟨_, _, hfirst, EStateM.bind_eq_ok.2 ⟨_, _, hrest, rfl⟩⟩
    · -- a closed argument is passed over, and its block is empty
      next hfree =>
      have hclosed : c.hasFree a = false := Bool.eq_false_iff.2 hfree
      rw [eq_nil_of_closed hclosed hxs] at hrest ⊢
      rw [fill_of_closed hclosed]
      exact EStateM.bind_eq_ok.2 ⟨_, _, hrest, rfl⟩

/-- The cursor takes exactly the block that belongs to the type. -/
theorem substitute_eq_ok {ty : Descriptor} (hty : c.ArityCorrect ty) {xs : List Descriptor}
    (h : xs.length = c.slots ty) (pre post : List Descriptor) :
    c.substitute ty { args := pre ++ (xs ++ post), position := pre.length } =
      .ok (c.fill ty xs) { args := pre ++ (xs ++ post), position := pre.length + xs.length } := by
  induction ty generalizing xs pre post with
  | param owner position =>
    rw [slots_param] at h
    obtain ⟨x, rfl⟩ := List.length_eq_one_iff.1 h
    rw [substitute, fill_param]
    simp [fillSlot, Cursor.next?]
  | named id =>
    rw [substitute]
    split
    · next hg =>
      rw [slots_named] at h
      have hread := fillSlots_eq_ok id (h.trans List.length_range.symm) pre post
      rw [fill_named_of_generic hg]
      exact EStateM.bind_eq_ok.2 ⟨xs, _, hread, buildGeneric_of_fits hg h _⟩
    · next hg =>
      have hclosed : c.hasFree (.named id) = false := Bool.eq_false_iff.2 hg
      rw [eq_nil_of_closed hclosed h, fill_of_closed hclosed]
      rfl
  | constructed id args ih =>
    obtain ⟨⟨hg, hl⟩, hargs⟩ := throughout_constructed.1 hty
    rw [slots_constructed, slotsAll_eq_sum] at h
    have hall := substituteAll_eq_ok h
      (fun a ha xs pre post hxs => ih a ha (hargs a ha) hxs pre post) pre post
    -- the application is built anew, over as many arguments as before
    rw [substitute, fill_constructed]
    refine EStateM.bind_eq_ok.2 ⟨_, _, hall, buildGeneric_of_fits hg ?_ _⟩
    rw [length_fillAll, hl]

/-- A well-formed type is filled by as many arguments as it has slots, whatever they
are. -/
theorem apply_eq_fill {ty : Descriptor} (hty : c.ArityCorrect ty) {xs : List Descriptor}
    (h : xs.length = c.slots ty) : c.apply ty xs = .ok (c.fill ty xs) := by
  unfold Catalog.apply
  split
  · next hz => rw [hz.2, fill_of_closed (slots_eq_zero_iff.1 hz.1)]
  · have hs := substitute_eq_ok hty h [] []
    rw [List.nil_append, List.append_nil] at hs
    rw [if_pos h.symm]
    simp only [List.length_nil] at hs
    rw [hs]

/-! ### Laws of filling -/

theorem sum_slots_fillAll {args xs : List Descriptor} (h : xs.length = (args.map c.slots).sum)
    (step : ∀ a ∈ args, ∀ xs : List Descriptor, xs.length = c.slots a →
      c.slots (c.fill a xs) = (xs.map c.slots).sum) :
    ((c.fillAll args xs).map c.slots).sum = (xs.map c.slots).sum := by
  induction args generalizing xs with
  | nil => rw [List.eq_nil_of_length_eq_zero h, fillAll_nil]
  | cons a as ih =>
    obtain ⟨stepa, steps⟩ := List.forall_mem_cons.1 step
    rw [List.map_cons, List.sum_cons] at h
    obtain ⟨xs, ys, rfl, hxs, hys⟩ := exists_append_of_length h
    rw [fillAll_cons_append hxs, List.map_cons, List.sum_cons, stepa xs hxs, ih hys steps,
      List.map_append, List.sum_append_nat]

/-- The slots of a filled type are those of the arguments. -/
theorem slots_fill {ty : Descriptor} (hty : c.ArityCorrect ty) {xs : List Descriptor}
    (h : xs.length = c.slots ty) : c.slots (c.fill ty xs) = (xs.map c.slots).sum := by
  induction ty generalizing xs with
  | param owner position =>
    rw [slots_param] at h
    obtain ⟨x, rfl⟩ := List.length_eq_one_iff.1 h
    simp
  | named id =>
    by_cases hg : (c.definition id).isGeneric = true
    · rw [slots_named] at h
      rw [fill_named_of_generic hg, slots_generic h]
    · have hclosed : c.hasFree (.named id) = false := Bool.eq_false_iff.2 hg
      rw [eq_nil_of_closed hclosed h, fill_of_closed hclosed, slots_eq_zero_of_closed hclosed]
      rfl
  | constructed id args ih =>
    obtain ⟨⟨-, hl⟩, hargs⟩ := throughout_constructed.1 hty
    rw [slots_constructed, slotsAll_eq_sum] at h
    rw [fill_constructed, slots_generic (by rw [length_fillAll, hl]),
      sum_slots_fillAll h fun a ha _ hxs => ih a ha (hargs a ha) hxs]

/-- An application is filled argument by argument, also where it is collapsed to its
definition. -/
theorem fill_generic {id : DefId} {args xs : List Descriptor}
    (hg : (c.definition id).isGeneric = true) (h : xs.length = (args.map c.slots).sum) :
    c.fill (.generic id args) xs = .generic id (c.fillAll args xs) := by
  rcases generic_eq_or id args with ⟨-, he, hcollapsed⟩ | ⟨-, hkept⟩
  · -- the arguments of a collapsed application are placeholders, each one slot
    rw [he, sum_slots_placeholders] at h
    rw [hcollapsed, fill_named_of_generic hg, he, fillAll_placeholders h]
  · rw [hkept, fill_constructed]

theorem fillAll_fillAll {args as bs : List Descriptor}
    (hargs : ∀ a ∈ args, c.ArityCorrect a) (has : as.length = (args.map c.slots).sum)
    (hbs : bs.length = (as.map c.slots).sum)
    (step : ∀ a ∈ args, ∀ xs ys : List Descriptor, xs.length = c.slots a →
      ys.length = (xs.map c.slots).sum → c.fill (c.fill a xs) ys = c.fill a (c.fillAll xs ys)) :
    c.fillAll (c.fillAll args as) bs = c.fillAll args (c.fillAll as bs) := by
  induction args generalizing as bs with
  | nil => simp
  | cons a args ih =>
    obtain ⟨ha, hrest⟩ := List.forall_mem_cons.1 hargs
    obtain ⟨stepa, steps⟩ := List.forall_mem_cons.1 step
    -- cut off what fills `a`, and then what fills that
    rw [List.map_cons, List.sum_cons] at has
    obtain ⟨as, as', rfl, has, has'⟩ := exists_append_of_length has
    rw [List.map_append, List.sum_append_nat] at hbs
    obtain ⟨bs, bs', rfl, hbs, hbs'⟩ := exists_append_of_length hbs
    have hblock : bs.length = c.slots (c.fill a as) := by rw [slots_fill ha has, hbs]
    have hfilled : (c.fillAll as bs).length = c.slots a := by rw [length_fillAll, has]
    rw [fillAll_cons_append has, fillAll_cons_append hblock, fillAll_append hbs,
      fillAll_cons_append hfilled, stepa as bs has hbs, ih hrest has' hbs' steps]

/-- Filling a filled type is filling the type with filled arguments. -/
theorem fill_fill {ty : Descriptor} (hty : c.ArityCorrect ty) {as bs : List Descriptor}
    (has : as.length = c.slots ty) (hbs : bs.length = (as.map c.slots).sum) :
    c.fill (c.fill ty as) bs = c.fill ty (c.fillAll as bs) := by
  induction ty generalizing as bs with
  | param owner position =>
    rw [slots_param] at has
    obtain ⟨a, rfl⟩ := List.length_eq_one_iff.1 has
    have hblock : bs.length = c.slots a := by simpa using hbs
    rw [← List.append_nil bs, fillAll_cons_append hblock, fill_param, fillAll_nil, fill_param,
      List.append_nil]
  | named id =>
    by_cases hg : (c.definition id).isGeneric = true
    · rw [fill_named_of_generic hg, fill_named_of_generic hg, fill_generic hg hbs]
    · have hclosed : c.hasFree (.named id) = false := Bool.eq_false_iff.2 hg
      rw [eq_nil_of_closed hclosed has] at hbs ⊢
      rw [List.eq_nil_of_length_eq_zero hbs, fillAll_nil, fill_of_closed hclosed,
        fill_of_closed hclosed]
  | constructed id args ih =>
    obtain ⟨⟨hg, -⟩, hargs⟩ := throughout_constructed.1 hty
    rw [slots_constructed, slotsAll_eq_sum] at has
    have hsum : bs.length = ((c.fillAll args as).map c.slots).sum := by
      rw [hbs, sum_slots_fillAll has fun a ha _ hxs => slots_fill (hargs a ha) hxs]
    have hall : c.fillAll (c.fillAll args as) bs = c.fillAll args (c.fillAll as bs) :=
      fillAll_fillAll hargs has hbs fun a ha xs ys => ih a ha (hargs a ha)
    rw [fill_constructed, fill_constructed, fill_generic hg hsum, hall]

/-- The placeholders of a reduced type fill it to itself. -/
theorem fill_slotPlaceholders {ty : Descriptor} (h : ty.IsReduced) :
    c.fill ty (c.slotPlaceholders ty) = ty := by
  induction ty with
  | param owner position => rw [slotPlaceholders_param, fill_param]
  | named id =>
    by_cases hg : (c.definition id).isGeneric = true
    · rw [slotPlaceholders_named, fill_named_of_generic hg,
        generic_placeholders id (Definition.isGeneric_iff_pos.1 hg)]
    · rw [fill, if_neg hg]
  | constructed id args ih =>
    obtain ⟨hreduced, hargs⟩ := throughout_constructed.1 h
    have hall : c.fillAll args (args.flatMap c.slotPlaceholders) = args := by
      have hfilled : c.fillAll (args.map fun a => a) (args.flatMap c.slotPlaceholders) =
          args.map fun a => c.fill a (c.slotPlaceholders a) :=
        fillAll_flatMap fun a _ => length_slotPlaceholders a
      rw [List.map_congr_left fun a ha => ih a ha (hargs a ha), List.map_id'] at hfilled
      exact hfilled
    rw [slotPlaceholders_constructed, fill_constructed, hall, generic_of_reduced hreduced]

/-! ### Laws of application -/

/-- Each type filled by its own block. -/
theorem zipWith_apply {as bs : List Descriptor} (has : ∀ a ∈ as, c.ArityCorrect a)
    (h : bs.length = (as.map c.slots).sum) :
    List.zipWith c.apply as ((as.map c.slots).splitLengths bs) = (c.fillAll as bs).map .ok := by
  induction as generalizing bs with
  | nil => rfl
  | cons a as ih =>
    obtain ⟨ha, hrest⟩ := List.forall_mem_cons.1 has
    rw [List.map_cons, List.sum_cons] at h
    obtain ⟨bs, bs', rfl, hbs, hbs'⟩ := exists_append_of_length h
    rw [List.map_cons, List.splitLengths_cons, List.zipWith_cons_cons, fillAll_cons_append hbs,
      ← hbs, List.take_left, List.drop_left, List.map_cons, apply_eq_fill ha hbs, ih hrest hbs']

/-- Let `as` be one well-formed type for each slot of `ty`.  Filling `ty` with `as`
succeeds, the slots add up, and filling the result with `bs` is filling `ty` with
each of `as` filled by its own block of `bs`.  A reduced type is filled to itself by
the placeholders in its slots. -/
theorem apply_assoc {ty : Descriptor} (hty : c.ArityCorrect ty) {as : List Descriptor}
    (has : ∀ a ∈ as, c.ArityCorrect a) (hlen : as.length = c.slots ty) :
    (∃ t₁, c.apply ty as = .ok t₁ ∧ c.slots t₁ = (as.map c.slots).sum ∧
      ∀ bs : List Descriptor, bs.length = (as.map c.slots).sum →
        ∃ t₂ cs, c.apply t₁ bs = .ok t₂ ∧
          List.zipWith c.apply as ((as.map c.slots).splitLengths bs) = cs.map .ok ∧
          c.apply ty cs = .ok t₂) ∧
      (ty.IsReduced → c.apply ty (c.slotPlaceholders ty) = .ok ty) := by
  have hfirst : c.apply ty as = .ok (c.fill ty as) := apply_eq_fill hty hlen
  have hslots : c.slots (c.fill ty as) = (as.map c.slots).sum := slots_fill hty hlen
  have hfits : c.ArityCorrect (c.fill ty as) := (respected_fits c).apply hfirst hty has
  refine ⟨⟨c.fill ty as, hfirst, hslots, ?_⟩, ?_⟩
  · intro bs hbs
    have hcs : (c.fillAll as bs).length = c.slots ty := by rw [length_fillAll, hlen]
    refine ⟨c.fill (c.fill ty as) bs, c.fillAll as bs, ?_, zipWith_apply has hbs, ?_⟩
    · exact apply_eq_fill hfits (hbs.trans hslots.symm)
    · rw [apply_eq_fill hty hcs, fill_fill hty hlen hbs]
  · intro hreduced
    rw [apply_eq_fill hty (length_slotPlaceholders ty), fill_slotPlaceholders hreduced]

/-- A pair of an optional value and a value, filled with a pair and with a closed
type, has the two slots of that pair. -/
theorem apply_assoc_pair :
    let pair : DefId := ⟨17⟩
    let c := initial.add "N.Pair`2"
      { nameSpace := some "N", name := "Pair`2", params := ["K", "V"] } none
    let ty : Descriptor := .constructed pair [.named .nullable, .param pair 1]
    let as : List Descriptor := [.named pair, .named Builtin.int32.id]
    (∃ t₁, c.apply ty as = .ok t₁ ∧ c.slots t₁ = 2 ∧
      ∀ bs : List Descriptor, bs.length = 2 →
        ∃ t₂ cs, c.apply t₁ bs = .ok t₂ ∧
          List.zipWith c.apply as [bs.take 2, (bs.drop 2).take 0] = cs.map .ok ∧
          c.apply ty cs = .ok t₂) ∧
      c.apply ty [.param .nullable 0, .param pair 1] = .ok ty := by
  intro pair c ty as
  have hty : c.ArityCorrect ty := by decide +kernel
  have has : ∀ a ∈ as, c.ArityCorrect a := by decide +kernel
  have hlen : as.length = c.slots ty := by decide +kernel
  have hslots : as.map c.slots = [2, 0] := by decide +kernel
  obtain ⟨⟨t₁, happly, hsum, hassoc⟩, hself⟩ := apply_assoc hty has hlen
  have hplaceholders : c.slotPlaceholders ty = [.param .nullable 0, .param pair 1] := by
    decide +kernel
  rw [hslots] at hsum hassoc
  rw [hplaceholders] at hself
  simp only [List.splitLengths_cons, List.splitLengths_nil] at hassoc
  exact ⟨⟨t₁, happly, hsum, hassoc⟩, hself (by decide)⟩

end Generics.Catalog
