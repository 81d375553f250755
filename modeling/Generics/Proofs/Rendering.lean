import Generics.Name.Qualified
import Generics.Proofs.Filling
import Generics.Proofs.Levels

/-!
# Rendering filled types

The source name of a type is a template with holes for its parameters.  Where a
catalog is well nested, filling the slots of a type fills the holes of its template:
the levels of a name show the arguments in the order in which they are flattened,
each of them once.

## Main definitions

* `Template.graft` — a template with templates in its holes.
* `Template.lead`, `Template.gaps` — the text before the first hole, and the texts
  behind each hole.

## Main results

* `Template.write_graft` — what is written around the holes does not depend on what
  is in them.
* `WellNested.holes_template` — the holes are the free slots, in their order.
* `WellNested.template_fill` — the template of a filled type.
* `sourceFullName_apply` — rendering commutes with application.
-/

namespace Generics

namespace Template

/-! ### Templates in the holes of a template -/

/-- A template with a template in each hole, from left to right.  Holes for which
there is none stay. -/
def graft : Template → List Template → Template
  | [], _ => []
  | .text s :: rest, ts => .text s :: graft rest ts
  | .hole owner position :: rest, [] => .hole owner position :: graft rest []
  | .hole _ _ :: rest, t :: ts => t ++ graft rest ts

@[simp] theorem graft_nil (ts : List Template) : graft [] ts = [] := by rw [graft]

@[simp] theorem graft_text (s : String) (rest : Template) (ts : List Template) :
    graft (.text s :: rest) ts = .text s :: graft rest ts := by rw [graft]

@[simp] theorem graft_hole (owner : DefId) (position : Nat) (rest t : Template)
    (ts : List Template) :
    graft (.hole owner position :: rest) (t :: ts) = t ++ graft rest ts := by rw [graft]

theorem graft_without (t : Template) : graft t [] = t := by
  induction t with
  | nil => rfl
  | cons piece rest ih => cases piece <;> rw [graft, ih]

@[simp] theorem holes_text (s : String) (rest : Template) :
    holes (.text s :: rest) = holes rest := rfl

@[simp] theorem holes_hole (owner : DefId) (position : Nat) (rest : Template) :
    holes (.hole owner position :: rest) = (owner, position) :: holes rest := rfl

theorem graft_append {t : Template} {ts : List Template} (h : ts.length = t.holes.length)
    (u : Template) (us : List Template) :
    graft (t ++ u) (ts ++ us) = graft t ts ++ graft u us := by
  induction t generalizing ts with
  | nil =>
    rw [List.eq_nil_of_length_eq_zero h]
    rfl
  | cons piece rest ih =>
    cases piece with
    | text s =>
      rw [List.cons_append, graft_text, graft_text, ih h, List.cons_append]
    | hole owner position =>
      cases ts with
      | nil => cases h
      | cons t ts =>
        rw [List.cons_append, List.cons_append, graft_hole, graft_hole, ih (Nat.succ.inj h),
          List.append_assoc]

/-- Blocks of templates that fit some templates: one for each hole. -/
def Fits (tss : List (List Template)) (ls : List Template) : Prop :=
  tss.map List.length = ls.map fun t => t.holes.length

theorem fits_nil_iff {tss : List (List Template)} : Fits tss [] ↔ tss = [] := by
  simp [Fits]

theorem fits_cons_iff {tss : List (List Template)} {t : Template} {ls : List Template} :
    Fits tss (t :: ls) ↔
      ∃ ts rest, tss = ts :: rest ∧ ts.length = t.holes.length ∧ Fits rest ls := by
  constructor
  · intro h
    cases tss with
    | nil => cases h
    | cons ts rest =>
      obtain ⟨hts, hrest⟩ := List.cons.inj h
      exact ⟨ts, rest, rfl, hts, hrest⟩
  · rintro ⟨ts, rest, rfl, hts, hrest⟩
    exact List.cons_eq_cons.2 ⟨hts, hrest⟩

theorem holes_separate (between : String) (ls : List Template) :
    (separate between ls).holes = ls.flatMap holes := by
  fun_induction separate between ls with
  | case1 => rfl
  | case2 t => simp
  | case3 t u rest ih => rw [holes_append, holes_text, ih]; rfl

theorem graft_separate (between : String) {ls : List Template} {tss : List (List Template)}
    (h : Fits tss ls) :
    graft (separate between ls) tss.flatten = separate between (List.zipWith graft ls tss) := by
  fun_induction separate between ls generalizing tss with
  | case1 => rw [fits_nil_iff.1 h]; rfl
  | case2 t =>
    obtain ⟨ts, rest, rfl, hts, hrest⟩ := fits_cons_iff.1 h
    rw [fits_nil_iff.1 hrest, List.flatten_singleton]
    rfl
  | case3 t u ls ih =>
    obtain ⟨ts, rest, rfl, hts, hrest⟩ := fits_cons_iff.1 h
    obtain ⟨us, rest, rfl, hus, hrest'⟩ := fits_cons_iff.1 hrest
    rw [List.flatten_cons, graft_append hts, graft_text, ih hrest]
    rfl

/-- A name with some templates in angle brackets, or without any. -/
def bracketed (name : String) : List Template → Template
  | [] => [.text name]
  | own => .text name :: .text "<" :: (separate ", " own ++ [.text ">"])

theorem holes_bracketed (name : String) (ls : List Template) :
    (bracketed name ls).holes = ls.flatMap holes := by
  cases ls with
  | nil => rfl
  | cons t ls =>
    rw [bracketed, holes_text, holes_text, holes_append, holes_separate, holes_text, holes_nil,
      List.append_nil]
    exact List.cons_ne_nil t ls

theorem graft_bracketed (name : String) {ls : List Template} {tss : List (List Template)}
    (h : Fits tss ls) :
    graft (bracketed name ls) tss.flatten = bracketed name (List.zipWith graft ls tss) := by
  cases ls with
  | nil => rw [fits_nil_iff.1 h]; rfl
  | cons t ls =>
    -- the closing bracket takes no templates
    have hlen : tss.flatten.length = (separate ", " (t :: ls)).holes.length := by
      rw [holes_separate, List.length_flatten, h, List.length_flatMap]
    have hbody := graft_append hlen [.text ">"] []
    rw [List.append_nil, graft_separate ", " h] at hbody
    obtain ⟨ts, rest, rfl, -, -⟩ := fits_cons_iff.1 h
    rw [bracketed, graft_text, graft_text, hbody]
    · rfl
    · exact List.cons_ne_nil t ls

/-- The holes of the templates in the holes are the holes that remain. -/
theorem holes_graft {t : Template} {ts : List Template} (h : ts.length = t.holes.length) :
    (graft t ts).holes = ts.flatMap holes := by
  induction t generalizing ts with
  | nil =>
    rw [List.eq_nil_of_length_eq_zero h]
    rfl
  | cons piece rest ih =>
    cases piece with
    | text s => rw [graft_text, holes_text, ih h]
    | hole owner position =>
      cases ts with
      | nil => cases h
      | cons u us => rw [graft_hole, holes_append, ih (Nat.succ.inj h), List.flatMap_cons]

/-! ### The text around the holes -/

/-- The text before the first hole. -/
def lead : Template → String
  | [] => ""
  | .text s :: rest => s ++ lead rest
  | .hole _ _ :: _ => ""

/-- The text between each hole and the next one, and behind the last one. -/
def gaps : Template → List String
  | [] => []
  | .text _ :: rest => gaps rest
  | .hole _ _ :: rest => lead rest :: gaps rest

theorem write_eq_gaps (paramName : DefId → Nat → String) (t : Template) : t.write paramName =
    t.lead ++ String.join
      (List.zipWith (· ++ ·) (t.holes.map fun hole => paramName hole.1 hole.2) t.gaps) := by
  induction t with
  | nil => rfl
  | cons piece rest ih =>
    cases piece with
    | text s => rw [write_text, ih, lead, gaps, String.append_assoc, holes_text]
    | hole owner position =>
      rw [write_hole, ih, lead, gaps, holes_hole, List.map_cons, List.zipWith_cons_cons,
        String.join_cons, String.empty_append, String.append_assoc]

theorem length_gaps (t : Template) : t.gaps.length = t.holes.length := by
  induction t with
  | nil => rfl
  | cons piece rest ih =>
    cases piece with
    | text s => exact ih
    | hole owner position => exact congrArg Nat.succ ih

/-- Around the templates in the holes stands the same text, whatever they are. -/
theorem write_graft (paramName : DefId → Nat → String) {t : Template} {ts : List Template}
    (h : ts.length = t.holes.length) : (graft t ts).write paramName =
      t.lead ++ String.join (List.zipWith (· ++ ·) (ts.map (write paramName)) t.gaps) := by
  induction t generalizing ts with
  | nil =>
    rw [List.eq_nil_of_length_eq_zero h]
    rfl
  | cons piece rest ih =>
    cases piece with
    | text s => rw [graft_text, write_text, ih h, lead, gaps, String.append_assoc]
    | hole owner position =>
      cases ts with
      | nil => cases h
      | cons u us =>
        rw [graft_hole, write_append, ih (Nat.succ.inj h), lead, gaps, List.map_cons,
          List.zipWith_cons_cons, String.join_cons, String.empty_append, String.append_assoc]

end Template

/-! ### The arguments of one level -/

namespace Definition

variable {α β γ : Type} (d : Definition)

theorem ownSlice_map (f : α → β) (args : List α) :
    d.ownSlice (args.map f) = (d.ownSlice args).map f := by
  unfold ownSlice
  rw [List.length_map]
  split
  · rw [← List.map_take, ← List.map_drop]
  · rfl

theorem ownSlice_zipWith (f : α → β → γ) {as : List α} {bs : List β}
    (h : as.length = bs.length) :
    d.ownSlice (List.zipWith f as bs) = List.zipWith f (d.ownSlice as) (d.ownSlice bs) := by
  unfold ownSlice
  rw [List.length_zipWith, h, Nat.min_self]
  split
  · rw [List.take_zipWith, List.drop_zipWith]
  · rfl

end Definition

theorem Template.Fits.ownSlice {tss : List (List Template)} {ls : List Template} (h : Fits tss ls)
    (d : Definition) : Fits (d.ownSlice tss) (d.ownSlice ls) := by
  unfold Fits
  rw [← d.ownSlice_map, h, d.ownSlice_map]

namespace Catalog

open Descriptor Template

variable {c : Catalog}

theorem levelTemplate_eq (args : List Template) (level : DefId) : c.levelTemplate args level =
    bracketed (stripArity (c.definition level).name) ((c.definition level).ownSlice args) := rfl

theorem holes_levelTemplate (args : List Template) (level : DefId) :
    (c.levelTemplate args level).holes = ((c.definition level).ownSlice args).flatMap holes := by
  rw [levelTemplate_eq, holes_bracketed]

/-- Templates are grafted into the arguments of each level. -/
theorem graft_levelTemplate {args : List Template} {tss : List (List Template)}
    (h : Fits tss args) (level : DefId) :
    graft (c.levelTemplate args level) ((c.definition level).ownSlice tss).flatten =
      c.levelTemplate (List.zipWith graft args tss) level := by
  have hlen : args.length = tss.length := by simpa using (congrArg List.length h).symm
  rw [levelTemplate_eq, levelTemplate_eq, Definition.ownSlice_zipWith _ _ hlen]
  exact graft_bracketed _ (h.ownSlice _)

/-! ### All levels -/

/-- The full name of an application: a fixed text, and the levels behind it. -/
theorem exists_levelsTemplate_eq (id : DefId) : ∃ s, ∀ args,
    c.levelsTemplate .full id args =
      .text s :: separate "." ((c.enclosing id).map (c.levelTemplate args)) := by
  unfold levelsTemplate
  cases (c.definition (c.outermost id)).nameSpace with
  | none => exact ⟨_, fun _ => rfl⟩
  | some space => exact ⟨_, fun _ => rfl⟩

theorem WellNested.holes_levelsTemplate (h : c.WellNested) {id : DefId} {args : List Template}
    (hargs : args.length = (c.definition id).params.length) :
    (c.levelsTemplate .full id args).holes = args.flatMap holes := by
  obtain ⟨s, hs⟩ := exists_levelsTemplate_eq (c := c) id
  have hlevels : ((c.enclosing id).map (c.levelTemplate args)).flatMap holes =
      ((c.enclosing id).map fun level => (c.definition level).ownSlice args).flatten.flatMap
        holes := by
    rw [List.flatMap_map, ← List.flatMap_def, List.flatMap_assoc]
    simp only [holes_levelTemplate]
  rw [hs, holes_text, holes_separate, hlevels, h.flatten_ownSlice hargs]

theorem WellNested.graft_levelsTemplate (h : c.WellNested) {id : DefId} {args : List Template}
    {tss : List (List Template)} (hargs : args.length = (c.definition id).params.length)
    (hfits : Fits tss args) : graft (c.levelsTemplate .full id args) tss.flatten =
      c.levelsTemplate .full id (List.zipWith graft args tss) := by
  obtain ⟨s, hs⟩ := exists_levelsTemplate_eq (c := c) id
  have hlen : tss.length = args.length := by simpa using congrArg List.length hfits
  -- what is grafted into a level are the blocks of the arguments it owns
  let blocks : DefId → List Template := fun level => ((c.definition level).ownSlice tss).flatten
  have hblocks : ((c.enclosing id).map blocks).flatten = tss.flatten := by
    rw [← h.flatten_ownSlice (hlen.trans hargs), List.flatten_flatten, List.map_map]
    rfl
  have hlevels :
      Fits ((c.enclosing id).map blocks) ((c.enclosing id).map (c.levelTemplate args)) := by
    unfold Fits
    rw [List.map_map, List.map_map]
    refine List.map_congr_left fun level _ => ?_
    show (blocks level).length = (c.levelTemplate args level).holes.length
    rw [holes_levelTemplate, List.length_flatten, hfits.ownSlice, List.length_flatMap]
  rw [hs, hs, graft_text, ← hblocks, graft_separate "." hlevels, List.zipWith_map,
    List.zipWith_self]
  congr 2
  exact List.map_congr_left fun level _ => graft_levelTemplate hfits level

/-! ### Applications -/

theorem applicationTemplate_nullable (style : NameStyle) (value : Template) :
    c.applicationTemplate style .nullable [value] = value ++ [.text "?"] := by
  rw [applicationTemplate, if_pos rfl]

theorem applicationTemplate_of_not {style : NameStyle} {id : DefId} {args : List Template}
    (h : ¬ (id = .nullable ∧ args.length = 1)) :
    c.applicationTemplate style id args = c.levelsTemplate style id args := by
  unfold applicationTemplate
  split
  · next value => rw [if_neg fun hid => h ⟨hid, rfl⟩]
  · rfl

theorem WellNested.holes_applicationTemplate (h : c.WellNested) {id : DefId}
    {args : List Template} (hargs : args.length = (c.definition id).params.length) :
    (c.applicationTemplate .full id args).holes = args.flatMap holes := by
  by_cases hone : id = .nullable ∧ args.length = 1
  · obtain ⟨rfl, hlen⟩ := hone
    obtain ⟨value, rfl⟩ := List.length_eq_one_iff.1 hlen
    rw [applicationTemplate_nullable, holes_append, holes_text, holes_nil, List.flatMap_singleton,
      List.append_nil]
  · rw [applicationTemplate_of_not hone, h.holes_levelsTemplate hargs]

/-- Grafting the arguments of an application is grafting the application. -/
theorem WellNested.graft_applicationTemplate (h : c.WellNested) {id : DefId}
    {args : List Template} {tss : List (List Template)}
    (hargs : args.length = (c.definition id).params.length) (hfits : Fits tss args) :
    graft (c.applicationTemplate .full id args) tss.flatten =
      c.applicationTemplate .full id (List.zipWith graft args tss) := by
  have hlen : tss.length = args.length := by simpa using congrArg List.length hfits
  by_cases hone : id = .nullable ∧ args.length = 1
  · -- the only argument of an optional value is written first
    obtain ⟨rfl, hvalue⟩ := hone
    obtain ⟨value, rfl⟩ := List.length_eq_one_iff.1 hvalue
    obtain ⟨ts, rest, rfl, hts, hrest⟩ := fits_cons_iff.1 hfits
    rw [fits_nil_iff.1 hrest, List.flatten_singleton, List.zipWith_cons_cons,
      List.zipWith_nil_left, applicationTemplate_nullable, applicationTemplate_nullable,
      ← List.append_nil ts, graft_append hts, List.append_nil]
    rfl
  · have hzip : (List.zipWith graft args tss).length = args.length := by
      rw [List.length_zipWith, hlen, Nat.min_self]
    rw [applicationTemplate_of_not hone, h.graft_levelsTemplate hargs hfits,
      applicationTemplate_of_not (by rw [hzip]; exact hone)]

/-! ### Types -/

theorem WellNested.builtin_eq_none (h : c.WellNested) {id : DefId}
    (hg : (c.definition id).isGeneric = true) : (c.definition id).builtin = none := by
  cases hb : (c.definition id).builtin with
  | none => rfl
  | some builtin =>
    rw [Definition.isGeneric_eq_true_iff] at hg
    exact absurd (h.params_builtin hb) hg

/-- A definition is written like its application to its own placeholders. -/
theorem template_named (style : NameStyle) {id : DefId}
    (hb : (c.definition id).builtin = none) : c.template style (.named id) =
      c.applicationTemplate style id
        ((placeholders id (c.definition id).params.length).map (c.template style)) := by
  rw [template, hb, placeholders, List.map_map]
  show c.applicationTemplate style id _ = c.applicationTemplate style id _
  congr 1

/-- The text of an application does not show whether it was collapsed. -/
theorem WellNested.template_generic (h : c.WellNested) (style : NameStyle) {id : DefId}
    {args : List Descriptor} (hg : (c.definition id).isGeneric = true)
    (hl : args.length = (c.definition id).params.length) : c.template style (.generic id args) =
      c.applicationTemplate style id (args.map (c.template style)) := by
  rcases generic_eq_or id args with ⟨-, he, hcollapsed⟩ | ⟨-, hkept⟩
  · rw [hcollapsed, template_named style (h.builtin_eq_none hg), ← hl, ← he]
  · rw [hkept, template_constructed]

/-- The placeholder that a hole stands for. -/
def holePlaceholder (hole : DefId × Nat) : Descriptor :=
  .param hole.1 hole.2

/-- The holes of a template are the free slots of the type, in their order. -/
theorem WellNested.holes_template (h : c.WellNested) {ty : Descriptor} (hty : c.ArityCorrect ty) :
    (c.template .full ty).holes.map holePlaceholder = c.slotPlaceholders ty := by
  induction ty with
  | param owner position => rw [template_param, slotPlaceholders_param]; rfl
  | named id =>
    rw [slotPlaceholders_named]
    cases hb : (c.definition id).builtin with
    | some builtin => rw [template, hb, h.params_builtin hb]; rfl
    | none =>
      rw [template_named .full hb, h.holes_applicationTemplate (by simp), List.flatMap_map,
        List.map_flatMap, placeholders, List.flatMap_map, List.map_eq_flatMap]
      simp only [template_param]
      rfl
  | constructed id args ih =>
    obtain ⟨⟨-, hl⟩, hargs⟩ := throughout_constructed.1 hty
    rw [template_constructed, h.holes_applicationTemplate (by rw [List.length_map, hl]),
      slotPlaceholders_constructed, List.flatMap_map, List.map_flatMap]
    rw [List.flatMap_def, List.flatMap_def]
    exact congrArg List.flatten (List.map_congr_left fun a ha => ih a ha (hargs a ha))

theorem WellNested.length_holes_template (h : c.WellNested) {ty : Descriptor}
    (hty : c.ArityCorrect ty) : (c.template .full ty).holes.length = c.slots ty := by
  rw [← length_slotPlaceholders, ← h.holes_template hty, List.length_map]

/-- The blocks by which the arguments are filled fit their templates. -/
theorem WellNested.exists_blocks (h : c.WellNested) {args xs : List Descriptor}
    (hargs : ∀ a ∈ args, c.ArityCorrect a) (hxs : xs.length = (args.map c.slots).sum)
    (step : ∀ a ∈ args, ∀ xs : List Descriptor, xs.length = c.slots a →
      c.template .full (c.fill a xs) =
        graft (c.template .full a) (xs.map (c.template .full))) :
    ∃ tss, Fits tss (args.map (c.template .full)) ∧ tss.flatten = xs.map (c.template .full) ∧
      (c.fillAll args xs).map (c.template .full) =
        List.zipWith graft (args.map (c.template .full)) tss := by
  induction args generalizing xs with
  | nil =>
    rw [List.eq_nil_of_length_eq_zero hxs]
    exact ⟨[], rfl, rfl, by rw [fillAll_nil]; rfl⟩
  | cons a as ih =>
    obtain ⟨ha, has⟩ := List.forall_mem_cons.1 hargs
    obtain ⟨stepa, steps⟩ := List.forall_mem_cons.1 step
    rw [List.map_cons, List.sum_cons] at hxs
    obtain ⟨xs, ys, rfl, hxs, hys⟩ := exists_append_of_length hxs
    obtain ⟨tss, hfits, hflatten, hzip⟩ := ih has hys steps
    refine ⟨xs.map (c.template .full) :: tss, ?_, ?_, ?_⟩
    · refine fits_cons_iff.2 ⟨_, _, rfl, ?_, hfits⟩
      rw [List.length_map, hxs, h.length_holes_template ha]
    · rw [List.flatten_cons, hflatten, List.map_append]
    · rw [fillAll_cons_append hxs, List.map_cons, List.map_cons, List.zipWith_cons_cons, hzip,
        stepa xs hxs]

theorem template_fill_param (owner : DefId) (position : Nat) {xs : List Descriptor}
    (hxs : xs.length = c.slots (.param owner position)) :
    c.template .full (c.fill (.param owner position) xs) =
      graft (c.template .full (.param owner position)) (xs.map (c.template .full)) := by
  rw [slots_param] at hxs
  obtain ⟨x, rfl⟩ := List.length_eq_one_iff.1 hxs
  rw [fill_param, template_param, List.map_singleton, graft_hole, graft_nil, List.append_nil]

/-- The template of a filled type is the template of the type with those of the
arguments grafted in. -/
theorem WellNested.template_fill (h : c.WellNested) {ty : Descriptor} (hty : c.ArityCorrect ty)
    {xs : List Descriptor} (hxs : xs.length = c.slots ty) :
    c.template .full (c.fill ty xs) =
      graft (c.template .full ty) (xs.map (c.template .full)) := by
  induction ty generalizing xs with
  | param owner position => exact template_fill_param owner position hxs
  | named id =>
    by_cases hg : (c.definition id).isGeneric = true
    · -- a definition is filled like its application to its own placeholders
      rw [slots_named] at hxs
      have hargs : ∀ a ∈ placeholders id (c.definition id).params.length, c.ArityCorrect a := by
        intro a ha
        obtain ⟨i, hi, rfl⟩ := mem_placeholders.1 ha
        exact throughout_param.2 hi
      obtain ⟨tss, hfits, hflatten, hzip⟩ :=
        h.exists_blocks hargs (by rw [sum_slots_placeholders, hxs]) fun a ha xs hblock => by
          obtain ⟨i, -, rfl⟩ := mem_placeholders.1 ha
          exact template_fill_param id i hblock
      rw [fillAll_placeholders hxs] at hzip
      calc c.template .full (c.fill (.named id) xs)
          = c.applicationTemplate .full id (xs.map (c.template .full)) := by
            rw [fill_named_of_generic hg, h.template_generic .full hg hxs]
        _ = c.applicationTemplate .full id (List.zipWith graft
              ((placeholders id (c.definition id).params.length).map (c.template .full)) tss) := by
            rw [hzip]
        _ = graft (c.applicationTemplate .full id
              ((placeholders id (c.definition id).params.length).map (c.template .full)))
              tss.flatten := (h.graft_applicationTemplate (by simp) hfits).symm
        _ = graft (c.template .full (.named id)) (xs.map (c.template .full)) := by
            rw [hflatten, template_named .full (h.builtin_eq_none hg)]
    · have hclosed : c.hasFree (.named id) = false := Bool.eq_false_iff.2 hg
      rw [eq_nil_of_closed hclosed hxs, fill_of_closed hclosed, List.map_nil, graft_without]
  | constructed id args ih =>
    obtain ⟨⟨hg, hl⟩, hargs⟩ := throughout_constructed.1 hty
    rw [slots_constructed, slotsAll_eq_sum] at hxs
    obtain ⟨tss, hfits, hflatten, hzip⟩ :=
      h.exists_blocks hargs hxs fun a ha _ hblock => ih a ha (hargs a ha) hblock
    rw [fill_constructed, h.template_generic .full hg (by rw [length_fillAll, hl]), hzip,
      template_constructed, ← hflatten,
      h.graft_applicationTemplate (by rw [List.length_map, hl]) hfits]

/-! ### Names -/

/-- The placeholders in the slots of a well-formed type are those of declared
parameters. -/
theorem exists_param_of_mem_slotPlaceholders {ty q : Descriptor} (hty : c.ArityCorrect ty)
    (hq : q ∈ c.slotPlaceholders ty) : ∃ owner position, q = .param owner position ∧
      (c.definition owner).params[position]? = some (c.simpleName q) := by
  have declared : ∀ {owner : DefId} {position : Nat},
      position < (c.definition owner).params.length →
      (c.definition owner).params[position]? = some (c.simpleName (.param owner position)) := by
    intro owner position hposition
    show _ = some (c.paramName owner position)
    rw [paramName, List.getElem?_eq_getElem hposition, Option.getD_some]
  induction ty with
  | param owner position =>
    rw [slotPlaceholders_param, List.mem_singleton] at hq
    exact ⟨owner, position, hq, hq ▸ declared (throughout_param.1 hty)⟩
  | named id =>
    rw [slotPlaceholders_named] at hq
    obtain ⟨i, hi, rfl⟩ := mem_placeholders.1 hq
    exact ⟨id, i, rfl, declared hi⟩
  | constructed id args ih =>
    rw [slotPlaceholders_constructed] at hq
    obtain ⟨a, ha, hqa⟩ := List.mem_flatMap.1 hq
    exact ih a ha ((throughout_constructed.1 hty).2 a ha) hqa

theorem WellNested.sourceFullName_eq (h : c.WellNested) {ty : Descriptor}
    (hty : c.ArityCorrect ty) : c.sourceFullName ty =
      (c.template .full ty).lead ++ String.join (List.zipWith (· ++ ·)
        ((c.slotPlaceholders ty).map c.simpleName) (c.template .full ty).gaps) := by
  rw [sourceFullName, write_eq_gaps, ← h.holes_template hty, List.map_map]
  rfl

theorem WellNested.sourceFullName_fill (h : c.WellNested) {ty : Descriptor}
    (hty : c.ArityCorrect ty) {xs : List Descriptor} (hxs : xs.length = c.slots ty) :
    c.sourceFullName (c.fill ty xs) =
      (c.template .full ty).lead ++ String.join (List.zipWith (· ++ ·)
        (xs.map c.sourceFullName) (c.template .full ty).gaps) := by
  have hholes : (xs.map (c.template .full)).length = (c.template .full ty).holes.length := by
    rw [List.length_map, hxs, h.length_holes_template hty]
  rw [sourceFullName, h.template_fill hty hxs, write_graft _ hholes, List.map_map]
  rfl

/-- The names of a type show only parameters that are declared. -/
theorem WellNested.isNameable_of_fits (h : c.WellNested) {ty : Descriptor} (hty : c.ArityCorrect ty) :
    c.isNameable ty = true := by
  unfold Catalog.isNameable
  rw [List.all_eq_true]
  intro hole hhole
  have hslot : holePlaceholder hole ∈ c.slotPlaceholders ty := by
    rw [← h.holes_template hty]
    exact List.mem_map_of_mem hhole
  obtain ⟨owner, position, he, hparam⟩ := exists_param_of_mem_slotPlaceholders hty hslot
  cases he
  exact decide_eq_true (List.getElem?_eq_some_iff.1 hparam).1

/-- If all arguments can be named, so can the filled type. -/
theorem WellNested.isNameable_fill (h : c.WellNested) {ty : Descriptor}
    (hty : c.ArityCorrect ty) {xs : List Descriptor} (hxs : xs.length = c.slots ty)
    (hnameable : ∀ x ∈ xs, c.isNameable x = true) : c.isNameable (c.fill ty xs) = true := by
  have hholes : (xs.map (c.template .full)).length = (c.template .full ty).holes.length := by
    rw [List.length_map, hxs, h.length_holes_template hty]
  unfold isNameable
  rw [h.template_fill hty hxs, holes_graft hholes, List.flatMap_map, List.all_flatMap,
    List.all_eq_true]
  exact hnameable

/-- In the name of a type, the names of the placeholders in its slots stand between
texts that belong to the type alone.  Each argument of an application is written
where the placeholder of its slot was written. -/
theorem sourceFullName_apply (built : c.Reachable) {ty : Descriptor} (hty : c.ArityCorrect ty) :
    ∃ (lead : String) (gaps : List String), gaps.length = c.slots ty ∧
      (∀ q ∈ c.slotPlaceholders ty, ∃ owner position, q = .param owner position ∧
        (c.definition owner).params[position]? = some (c.simpleName q)) ∧
      c.sourceFullName ty = lead ++ String.join
        (List.zipWith (· ++ ·) ((c.slotPlaceholders ty).map c.simpleName) gaps) ∧
      (∀ args : List Descriptor, args.length = c.slots ty → ∃ t, c.apply ty args = .ok t ∧
        c.sourceFullName t = lead ++ String.join
          (List.zipWith (· ++ ·) (args.map c.sourceFullName) gaps) ∧
        ((∀ a ∈ args, c.isNameable a = true) → c.isNameable t = true)) ∧
      ∀ args args' : List Descriptor, args.length = c.slots ty →
        args.map c.sourceFullName = args'.map c.sourceFullName →
        ∃ t t', c.apply ty args = .ok t ∧ c.apply ty args' = .ok t' ∧
          c.sourceFullName t = c.sourceFullName t' := by
  have h : c.WellNested := built.wellNested
  refine ⟨(c.template .full ty).lead, (c.template .full ty).gaps, ?_, ?_, ?_, ?_, ?_⟩
  · rw [length_gaps, h.length_holes_template hty]
  · exact fun q hq => exists_param_of_mem_slotPlaceholders hty hq
  · exact h.sourceFullName_eq hty
  · intro args hargs
    exact ⟨_, apply_eq_fill hty hargs, h.sourceFullName_fill hty hargs,
      h.isNameable_fill hty hargs⟩
  · intro args args' hargs hnames
    have hargs' : args'.length = c.slots ty := by
      rw [← hargs]
      simpa using (congrArg List.length hnames).symm
    refine ⟨_, _, apply_eq_fill hty hargs, apply_eq_fill hty hargs', ?_⟩
    rw [h.sourceFullName_fill hty hargs, h.sourceFullName_fill hty hargs', hnames]

/-- ``N.Parent`1+Nested`1``, with an optional value for the parameter that is declared
inside, shows its two arguments on two levels. -/
theorem sourceFullName_apply_nested :
    let outer := initial.add "N.Parent`1"
      (outermostDefinition (some "N") "Parent" ["T"] .isPublic) none
    let c := outer.add (outer.path ⟨17⟩ ++ "+" ++ declaredName "Nested" 1)
      (outer.innerDefinition ⟨17⟩ "Nested" ["U"] .isPublic) (some ⟨17⟩)
    let ty : Descriptor := .constructed ⟨18⟩ [.param ⟨17⟩ 0, .constructed .nullable [.param ⟨18⟩ 1]]
    c.Reachable ∧ c.ArityCorrect ty ∧ c.sourceFullName ty = "global::N.Parent<T>.Nested<U?>" ∧
      ∃ (lead : String) (gaps : List String),
        c.sourceFullName ty = lead ++ String.join (List.zipWith (· ++ ·) ["T", "U"] gaps) ∧
        ∀ args : List Descriptor, args.length = 2 → ∃ t, c.apply ty args = .ok t ∧
          c.sourceFullName t =
            lead ++ String.join (List.zipWith (· ++ ·) (args.map c.sourceFullName) gaps) := by
  intro outer c ty
  have hdefine : initial.define (some "N") "Parent" ["T"] .isPublic = .ok (⟨17⟩, outer) := by rfl
  have hnested : outer.defineNested ⟨17⟩ "Nested" ["U"] .isPublic = .ok (⟨outer.size⟩, c) :=
    defineNested_of_free (by decide +kernel) .isPublic
  have built : c.Reachable :=
    .defineNested (.define .initial hdefine) (by decide +kernel) hnested
  have hty : c.ArityCorrect ty := by decide +kernel
  have hslots : c.slots ty = 2 := by decide +kernel
  have hnames : (c.slotPlaceholders ty).map c.simpleName = ["T", "U"] := by decide +kernel
  obtain ⟨lead, gaps, -, -, hname, happly, -⟩ := sourceFullName_apply built hty
  have htext : c.sourceFullName ty = "global::N.Parent<T>.Nested<U?>" := by decide +kernel
  rw [hnames] at hname
  refine ⟨built, hty, htext, lead, gaps, hname, fun args hargs => ?_⟩
  obtain ⟨t, ht, hwritten, -⟩ := happly args (hargs.trans hslots.symm)
  exact ⟨t, ht, hwritten⟩

end Catalog

end Generics
