import Generics.CommandLine.Run
import Generics.Proofs.Resolving
import Generics.Proofs.Rendering

/-!
# Successful runs of the command line

Each step of a run can fail: a name may not resolve, a type may have no base or no
arguments, and the slots of a type may be more or fewer than the types given for them.
Over a loaded catalog there is nothing else that can go wrong: every type on the way is
well formed, so a run succeeds exactly if the numbers of slots and of given types agree.
Nothing is printed before all steps are done.

## Main definitions

* `Catalog.ResolvesAll` — what some names resolve to.
* `Catalog.FoundByName` — what is known of every type in a run.
* `Options.Starts`, `Options.FillsSlots`, `Options.ClosesSlots` — what the steps ask for.
* `Options.WorksOut` — all of it together.

## Main results

* `view_eq_ok_iff`, `partialStep_eq_ok_iff`, `applyStep_eq_ok_iff` — the steps, one after
  the other.
* `exists_view_iff` — when they all succeed.
* `run_succeeds_iff` — when a run succeeds, and what it prints.
-/

namespace Generics

/-! ### What is known of the types -/

namespace Catalog

open Descriptor

variable {c : Catalog}

/-- Each of some names resolves to the type at its place. -/
def ResolvesAll (c : Catalog) (names : List String) (tys : List Descriptor) : Prop :=
  List.Forall₂ (fun name ty => c.resolve name = .ok ty) names tys

/-- The arities in the type are right, and its definitions can be found. -/
structure FoundByName (c : Catalog) (ty : Descriptor) : Prop where
  fits : c.ArityCorrect ty
  found : c.AllFindable ty

theorem Indexed.foundByName (h : c.Indexed) {text : String} {ty : Descriptor}
    (hty : c.resolve text = .ok ty) : c.FoundByName ty :=
  ⟨(respected_fits c).resolve hty, h.allFindable_resolve hty⟩

theorem Indexed.foundByName_of_resolvesAll (h : c.Indexed) {names : List String}
    {tys : List Descriptor} (htys : c.ResolvesAll names tys) : ∀ ty ∈ tys, c.FoundByName ty := by
  intro ty hty
  obtain ⟨name, -, hname⟩ := htys.exists_mem_left hty
  exact h.foundByName hname

theorem FoundByName.baseType {ty base : Descriptor} (h : c.FoundByName ty)
    (settled : c.BasesSettled) (findable : c.BasesFindable) (hbase : c.baseType ty = some base) :
    c.FoundByName base where
  fits := (respected_fits c).baseType (fun hstored => (settled hstored).fits) hbase h.fits
  found := h.found.baseType findable hbase

theorem FoundByName.definition? {ty : Descriptor} (h : c.FoundByName ty) {id : DefId}
    (hid : ty.definition? = some id) : c.FoundByName (.named id) where
  fits := throughout_named.2 trivial
  found := allFindable_named.2 (h.found.definition? hid)

theorem FoundByName.fill {ty : Descriptor} (h : c.FoundByName ty) {xs : List Descriptor}
    (hlength : xs.length = c.slots ty) (hxs : ∀ x ∈ xs, c.FoundByName x) :
    c.FoundByName (c.fill ty xs) where
  fits := (respected_fits c).apply (apply_eq_fill h.fits hlength) h.fits fun x hx => (hxs x hx).fits
  found := h.found.fill fun x hx => (hxs x hx).found

theorem sketch_eq_ok_iff {text : String} {t : Sketch} :
    c.sketch text = .ok t ↔ c.resolve text = .ok t.raw := by
  refine ⟨sketch_eq_ok, fun h => ?_⟩
  unfold Catalog.sketch
  rw [h]

/-- No arguments can be applied to closed types only, which stay what they are. -/
theorem apply_nil_eq_ok_iff {t : Sketch} {a : Closed} :
    t.apply c [] = .ok a ↔ c.hasFree t.raw = false ∧ t.raw = a.raw := by
  unfold Sketch.apply applyClosed
  by_cases hclosed : c.slots t.raw = 0
  · have happly : c.apply t.raw ([].map Closed.raw) = .ok t.raw := by
      unfold Catalog.apply
      exact if_pos ⟨hclosed, rfl⟩
    rw [happly, slots_eq_zero_iff.1 hclosed]
    cases a
    simp
  · rw [apply_of_length_ne (Ne.symm hclosed)]
    rw [slots_eq_zero_iff] at hclosed
    simp [hclosed]

end Catalog

namespace CommandLine

/-- The outcome of a run that prints some lines. -/
def Outcome.printed (lines : List String) : Outcome where
  code := 0
  stdout := String.join (lines.map (· ++ "\n"))
  stderr := ""

namespace Options

open Catalog Descriptor

variable {c : Catalog} {o : Options}

/-! ### What the steps ask for -/

/-- The named type resolves; its base is taken, if it is asked for; then the definition is
taken of a type that has arguments, if it is asked for. -/
def Starts (o : Options) (c : Catalog) (start : Descriptor) : Prop :=
  ∃ named based, c.resolve (o.typeName.getD "") = .ok named ∧
    (if o.base then c.baseType named = some based else based = named) ∧
    if o.unapply then c.arguments based ≠ [] ∧ based.definition?.map .named = some start
    else start = based

/-- The types for a partial application resolve, there is a slot, and there is one type for
each slot.  Then as many slots are open as there are in these types. -/
def FillsSlots (o : Options) (c : Catalog) (start : Descriptor) (slots : Nat) : Prop :=
  match o.sketches with
  | none => slots = c.slots start
  | some names => ∃ tys, c.ResolvesAll names tys ∧ 1 ≤ c.slots start ∧
      names.length = c.slots start ∧ slots = (tys.map c.slots).sum

/-- The types for an application resolve to closed types, one for each open slot. -/
def ClosesSlots (o : Options) (c : Catalog) (slots : Nat) : Prop :=
  match o.closed with
  | none => True
  | some names => ∃ tys, c.ResolvesAll names tys ∧ (∀ ty ∈ tys, c.hasFree ty = false) ∧
      names.length = slots

/-- What is asked for can be done. -/
def WorksOut (o : Options) (c : Catalog) : Prop :=
  ∃ start slots, o.Starts c start ∧ o.FillsSlots c start slots ∧ o.ClosesSlots c slots

/-! ### One step after the other -/

/-- The view of a type before slots are filled. -/
def startView (o : Options) (start : Descriptor) : View :=
  if o.unapply then .ofOpen ⟨start⟩ else .ofSketch ⟨start⟩

theorem raw_startView (start : Descriptor) : (o.startView start).raw = start := by
  unfold startView
  split <;> rfl

/-- Before slots are filled no view is closed, so sketches can be applied to it. -/
theorem applyPartial?_startView (start : Descriptor) (args : List Sketch) :
    (o.startView start).applyPartial? c args = some (c.applySketches start args) := by
  unfold startView
  split <;> rfl

theorem baseStep_eq_ok_iff {t : Sketch} {v : View} : o.baseStep c (.ofSketch t) = .ok v ↔
    ∃ based, (if o.base then c.baseType t.raw = some based else based = t.raw) ∧
      v = .ofSketch ⟨based⟩ := by
  unfold baseStep
  cases o.base with
  | false => simp [eq_comm]
  | true =>
    simp only [if_true, View.base, Sketch.base]
    cases c.baseType t.raw with
    | none => simp
    | some based => simp [eq_comm]

theorem unapplyStep_eq_ok_iff {t : Sketch} {v : View} : o.unapplyStep c (.ofSketch t) = .ok v ↔
    ∃ start, (if o.unapply then c.arguments t.raw ≠ [] ∧ t.raw.definition?.map .named = some start
      else start = t.raw) ∧ v = o.startView start := by
  unfold unapplyStep startView
  cases o.unapply with
  | false => simp [eq_comm]
  | true =>
    simp only [if_true, View.unapply, Sketch.unapply]
    cases htaken : c.unapplied t.raw with
    | none =>
      simp only [reduceCtorEq, false_iff]
      rintro ⟨start, hstart, -⟩
      rw [unapplied_eq_some_iff (t := ⟨start⟩).2 hstart] at htaken
      cases htaken
    | some definition =>
      have hstart := unapplied_eq_some_iff.1 htaken
      simp [hstart, eq_comm]

/-- The first three steps lead to the type that slots are filled in. -/
theorem view_eq_ok_iff {v : View} : o.view c = .ok v ↔ ∃ start w, o.Starts c start ∧
    o.partialStep c (o.startView start) = .ok w ∧ o.applyStep c w = .ok v := by
  unfold view
  simp only [Except.bind_eq_ok, Except.mapError_eq_ok, sketch_eq_ok_iff]
  constructor
  · rintro ⟨t, hnamed, u, hu, s, hs, w, hw, hv⟩
    obtain ⟨based, hbased, rfl⟩ := baseStep_eq_ok_iff.1 hu
    obtain ⟨start, hstart, rfl⟩ := unapplyStep_eq_ok_iff.1 hs
    exact ⟨start, w, ⟨t.raw, based, hnamed, hbased, hstart⟩, hw, hv⟩
  · rintro ⟨start, w, ⟨named, based, hnamed, hbased, hstart⟩, hw, hv⟩
    exact ⟨⟨named⟩, hnamed, _, baseStep_eq_ok_iff.2 ⟨based, hbased, rfl⟩, _,
      unapplyStep_eq_ok_iff.2 ⟨start, hstart, rfl⟩, w, hw, hv⟩

theorem sketchAll_eq_ok_iff {names : List String} {ts : List Sketch} :
    sketchAll c names = .ok ts ↔ c.ResolvesAll names (ts.map Sketch.raw) := by
  unfold sketchAll ResolvesAll
  rw [Except.mapM_eq_ok_iff, List.forall₂_map_right_iff]
  simp only [Except.mapError_eq_ok, sketch_eq_ok_iff]

/-- Over a type of the right arities, slots are filled with sketches if there is a slot, and
one sketch for each. -/
theorem partialStep_eq_ok_iff {start : Descriptor} (hfits : c.ArityCorrect start) {w : View} :
    o.partialStep c (o.startView start) = .ok w ↔ match o.sketches with
      | none => w = o.startView start
      | some names => ∃ tys, c.ResolvesAll names tys ∧ 1 ≤ c.slots start ∧
          names.length = c.slots start ∧ w = .ofSketch ⟨c.fill start tys⟩ := by
  unfold partialStep
  cases o.sketches with
  | none => simp [eq_comm]
  | some names =>
    simp only [applyPartial?_startView, Except.bind_eq_ok, Except.mapError_eq_ok,
      Except.map_eq_ok, sketchAll_eq_ok_iff, applySketches_eq hfits]
    constructor
    · rintro ⟨ts, hresolves, t, ht, rfl⟩
      have hlength : names.length = ts.length := by simpa using hresolves.length_eq
      split_ifs at ht with hzero hn
      cases ht
      exact ⟨_, hresolves, Nat.one_le_iff_ne_zero.2 hzero, hlength.trans hn, rfl⟩
    · rintro ⟨tys, hresolves, hpos, hn, rfl⟩
      have hraws : (tys.map Sketch.mk).map Sketch.raw = tys :=
        Function.LeftInverse.list_map (fun _ => rfl) tys
      refine ⟨tys.map Sketch.mk, by rwa [hraws], _, ?_, rfl⟩
      rw [if_neg (Nat.one_le_iff_ne_zero.1 hpos), hraws, if_pos]
      rw [List.length_map, ← hresolves.length_eq, hn]

/-- Some sketches are closed types if each of them is, and the closed types are the same. -/
theorem closeAll_eq_ok_iff {ts : List Sketch} {args : List Closed} :
    ts.mapM (fun t => t.apply c []) = .ok args ↔
      (∀ ty ∈ ts.map Sketch.raw, c.hasFree ty = false) ∧
        ts.map Sketch.raw = args.map Closed.raw := by
  rw [Except.mapM_eq_ok_iff]
  simp only [apply_nil_eq_ok_iff]
  rw [List.forall₂_and_left, List.forall_mem_map, ← List.forall₂_eq_eq_eq,
    List.forall₂_map_left_iff, List.forall₂_map_right_iff]

/-- Over a type of the right arities, slots are filled with closed types if there is one for
each.  It makes no difference that all of them are closed before the first is counted. -/
theorem applyStep_eq_ok_iff {w v : View} (hfits : c.ArityCorrect w.raw) :
    o.applyStep c w = .ok v ↔ match o.closed with
      | none => v = w
      | some names => ∃ tys, c.ResolvesAll names tys ∧ (∀ ty ∈ tys, c.hasFree ty = false) ∧
          names.length = c.slots w.raw ∧ v = .ofClosed ⟨c.fill w.raw tys⟩ := by
  unfold applyStep
  cases o.closed with
  | none => simp [eq_comm]
  | some names =>
    simp only [View.apply_eq, Except.bind_eq_ok, Except.mapError_eq_ok, Except.map_eq_ok,
      sketchAll_eq_ok_iff, closeAll_eq_ok_iff, applyClosed_eq hfits]
    constructor
    · rintro ⟨ts, hresolves, args, ⟨hclosed, hraws⟩, t, ht, rfl⟩
      have hlength : names.length = args.length := by
        simpa [hraws] using hresolves.length_eq
      split_ifs at ht with hn
      cases ht
      exact ⟨_, hresolves, hclosed, hlength.trans hn, by rw [hraws]⟩
    · rintro ⟨tys, hresolves, hclosed, hn, rfl⟩
      have hsketches : (tys.map Sketch.mk).map Sketch.raw = tys :=
        Function.LeftInverse.list_map (fun _ => rfl) tys
      have hraws : (tys.map Closed.mk).map Closed.raw = tys :=
        Function.LeftInverse.list_map (fun _ => rfl) tys
      refine ⟨tys.map Sketch.mk, by rwa [hsketches], tys.map Closed.mk, ?_, _, ?_, rfl⟩
      · rw [hsketches, hraws]
        exact ⟨hclosed, rfl⟩
      · rw [hraws, if_pos]
        rw [List.length_map, ← hresolves.length_eq, hn]

/-! ### When all steps succeed -/

theorem exists_partialStep {start : Descriptor} (hfits : c.ArityCorrect start) {slots : Nat}
    (h : o.FillsSlots c start slots) :
    ∃ w, o.partialStep c (o.startView start) = .ok w ∧ c.slots w.raw = slots := by
  simp only [partialStep_eq_ok_iff hfits]
  unfold FillsSlots at h
  cases hsketches : o.sketches with
  | none =>
    simp only [hsketches] at h
    exact ⟨_, rfl, by rw [raw_startView, h]⟩
  | some names =>
    simp only [hsketches] at h
    obtain ⟨tys, hresolves, hpos, hn, rfl⟩ := h
    exact ⟨_, ⟨tys, hresolves, hpos, hn, rfl⟩,
      slots_fill hfits (hresolves.length_eq.symm.trans hn)⟩

theorem exists_applyStep {w : View} (hfits : c.ArityCorrect w.raw)
    (h : o.ClosesSlots c (c.slots w.raw)) : ∃ v, o.applyStep c w = .ok v := by
  simp only [applyStep_eq_ok_iff hfits]
  unfold ClosesSlots at h
  cases hgiven : o.closed with
  | none => exact ⟨w, rfl⟩
  | some names =>
    simp only [hgiven] at h
    obtain ⟨tys, hresolves, hclosed, hn⟩ := h
    exact ⟨_, tys, hresolves, hclosed, hn, rfl⟩

section Loaded

variable {document : Json} (loaded : ofJson document = .ok c)

include loaded

/-- Names, bases and definitions bring in only what can be found. -/
theorem Starts.foundByName {start : Descriptor} (h : o.Starts c start) : c.FoundByName start := by
  obtain ⟨named, based, hnamed, hbased, hstart⟩ := h
  have hnamed : c.FoundByName named := (reachable_ofJson loaded).indexed.foundByName hnamed
  have hbased : c.FoundByName based := by
    split at hbased
    · exact hnamed.baseType (basesSettled_ofJson loaded) (basesFindable_ofJson loaded) hbased
    · rwa [hbased]
  split at hstart
  · obtain ⟨id, hid, rfl⟩ := Option.map_eq_some_iff.1 hstart.2
    exact hbased.definition? hid
  · rwa [hstart]

/-- The type that slots are filled in is found by name again, and has as many slots as the
options leave open. -/
theorem partialStep_ok {start : Descriptor} (hstart : c.FoundByName start) {w : View}
    (h : o.partialStep c (o.startView start) = .ok w) :
    c.FoundByName w.raw ∧ o.FillsSlots c start (c.slots w.raw) := by
  have hw := (partialStep_eq_ok_iff hstart.fits).1 h
  unfold FillsSlots
  cases hsketches : o.sketches with
  | none =>
    simp only [hsketches] at hw ⊢
    rw [hw, raw_startView]
    exact ⟨hstart, rfl⟩
  | some names =>
    simp only [hsketches] at hw ⊢
    obtain ⟨tys, hresolves, hpos, hn, rfl⟩ := hw
    have hlength : tys.length = c.slots start := hresolves.length_eq.symm.trans hn
    have htys := (reachable_ofJson loaded).indexed.foundByName_of_resolvesAll hresolves
    exact ⟨hstart.fill hlength htys, tys, hresolves, hpos, hn, slots_fill hstart.fits hlength⟩

/-- After an application, if there is one, the view is closed. -/
theorem applyStep_ok {w v : View} (hw : c.FoundByName w.raw) (h : o.applyStep c w = .ok v) :
    c.FoundByName v.raw ∧ o.ClosesSlots c (c.slots w.raw) ∧
      (o.closed.isSome = true → ∃ t, v = .ofClosed t ∧ c.hasFree t.raw = false) := by
  have hv := (applyStep_eq_ok_iff hw.fits).1 h
  unfold ClosesSlots
  cases hgiven : o.closed with
  | none =>
    simp only [hgiven] at hv ⊢
    rw [hv]
    exact ⟨hw, trivial, nofun⟩
  | some names =>
    simp only [hgiven] at hv ⊢
    obtain ⟨tys, hresolves, hclosed, hn, rfl⟩ := hv
    have hlength : tys.length = c.slots w.raw := hresolves.length_eq.symm.trans hn
    have htys := (reachable_ofJson loaded).indexed.foundByName_of_resolvesAll hresolves
    refine ⟨hw.fill hlength htys, ⟨tys, hresolves, hclosed, hn⟩, fun _ => ⟨_, rfl, ?_⟩⟩
    exact hasFree_apply (apply_eq_fill hw.fits hlength) hclosed

/-- What is known of the view at the end. -/
theorem view_ok {v : View} (h : o.view c = .ok v) : c.FoundByName v.raw ∧ o.WorksOut c ∧
    (o.closed.isSome = true → ∃ t, v = .ofClosed t ∧ c.hasFree t.raw = false) := by
  obtain ⟨start, w, hstarts, hw, hv⟩ := view_eq_ok_iff.1 h
  obtain ⟨hwfound, hfills⟩ := partialStep_ok loaded (hstarts.foundByName loaded) hw
  obtain ⟨hvfound, hcloses, hclosed⟩ := applyStep_ok loaded hwfound hv
  exact ⟨hvfound, ⟨start, _, hstarts, hfills, hcloses⟩, hclosed⟩

/-- All steps succeed exactly if what is asked for can be done. -/
theorem exists_view_iff : (∃ v, o.view c = .ok v) ↔ o.WorksOut c := by
  constructor
  · rintro ⟨v, hv⟩
    exact (view_ok loaded hv).2.1
  · rintro ⟨start, slots, hstarts, hfills, hcloses⟩
    have hstart := hstarts.foundByName loaded
    obtain ⟨w, hw, rfl⟩ := exists_partialStep hstart.fits hfills
    have hwfits := (partialStep_ok loaded hstart hw).1.fits
    obtain ⟨v, hv⟩ := exists_applyStep hwfits hcloses
    exact ⟨v, view_eq_ok_iff.2 ⟨start, w, hstarts, hw, hv⟩⟩

end Loaded

/-! ### When a step fails -/

theorem sketchAll_eq_error {names : List String} {cause : Failure}
    (h : sketchAll c names = .error cause) : ∃ reason, cause = .resolve reason := by
  obtain ⟨name, -, hname⟩ := Except.exists_of_mapM_eq_error h
  obtain ⟨reason, -, he⟩ := Except.mapError_eq_error.1 hname
  exact ⟨reason, he.symm⟩

/-- Slots are filled before any view is closed. -/
theorem partialStep_ne_alreadyClosed (start : Descriptor) (ty : View) :
    o.partialStep c (o.startView start) ≠ .error (.alreadyClosed ty) := by
  intro h
  unfold partialStep at h
  cases hsketches : o.sketches with
  | none =>
    rw [hsketches] at h
    cases h
  | some names =>
    simp only [hsketches, applyPartial?_startView, Except.bind_eq_error,
      Except.mapError_eq_error] at h
    rcases h with h | ⟨_, -, _, -, h⟩
    · obtain ⟨reason, he⟩ := sketchAll_eq_error h
      cases he
    · cases h

theorem applyStep_ne_alreadyClosed (w ty : View) :
    o.applyStep c w ≠ .error (.alreadyClosed ty) := by
  intro h
  unfold applyStep at h
  cases hgiven : o.closed with
  | none =>
    rw [hgiven] at h
    cases h
  | some names =>
    simp only [hgiven, Except.bind_eq_error, Except.mapError_eq_error] at h
    rcases h with h | ⟨_, -, ⟨_, -, h⟩ | ⟨_, -, _, -, h⟩⟩
    · obtain ⟨reason, he⟩ := sketchAll_eq_error h
      cases he
    · cases h
    · cases h

theorem baseStep_ne_alreadyClosed (w ty : View) : o.baseStep c w ≠ .error (.alreadyClosed ty) := by
  unfold baseStep
  split
  · cases w.base c <;> nofun
  · nofun

theorem unapplyStep_ne_alreadyClosed (w ty : View) :
    o.unapplyStep c w ≠ .error (.alreadyClosed ty) := by
  unfold unapplyStep
  split
  · cases w.unapply c <;> nofun
  · nofun

/-- No run gets so far as to fill slots of a closed view. -/
theorem view_ne_alreadyClosed (ty : View) : o.view c ≠ .error (.alreadyClosed ty) := by
  intro h
  unfold view at h
  simp only [Except.bind_eq_error, Except.mapError_eq_error] at h
  rcases h with ⟨_, -, h⟩ | ⟨t, -, h | ⟨u, hu, h | ⟨s, hs, h | ⟨w, -, h⟩⟩⟩⟩
  · cases h
  · exact baseStep_ne_alreadyClosed _ _ h
  · exact unapplyStep_ne_alreadyClosed _ _ h
  · obtain ⟨based, -, rfl⟩ := baseStep_eq_ok_iff.1 hu
    obtain ⟨start, -, rfl⟩ := unapplyStep_eq_ok_iff.1 hs
    exact partialStep_ne_alreadyClosed start ty h
  · exact applyStep_ne_alreadyClosed w ty h

/-! ### Runs -/

/-- The full name of a view, if it has one, is printed in the third line. -/
theorem viewLines_of_fullName {v : View} {text : String}
    (h : (c.name v.raw).fullName = some text) : ∃ lines, viewLines c v =
      ("kind:             " ++ v.kind) :: ("name:             " ++ (c.name v.raw).value) ::
        ("full name:        " ++ text) :: lines := by
  simp only [viewLines, h, Option.getD_some]
  exact ⟨_, rfl⟩

/-- Printing never fails. -/
theorem printLines_eq (lines : List String) (out : String) :
    printLines lines out = .ok () (out ++ String.join (lines.map (· ++ "\n"))) := by
  induction lines generalizing out with
  | nil => rw [List.map_nil, String.join_nil, String.append_empty]; rfl
  | cons line lines ih =>
    have hstep : printLines (line :: lines) out = printLines lines (out ++ (line ++ "\n")) := rfl
    rw [hstep, ih, List.map_cons, String.join_cons, String.append_assoc]

/-- A step that may fail prints nothing. -/
theorem ofExcept_eq_ok {α : Type} {x : Except String α} {out out' : String} {a : α} :
    (ofExcept x : Program α) out = .ok a out' ↔ x = .ok a ∧ out' = out := by
  cases x with
  | error e => exact iff_of_false nofun nofun
  | ok b =>
    constructor
    · intro h
      cases h
      exact ⟨rfl, rfl⟩
    · rintro ⟨h, rfl⟩
      cases h
      rfl

theorem ofExcept_eq_error {α : Type} {x : Except String α} {out out' e : String} :
    (ofExcept x : Program α) out = .error e out' ↔ x = .error e ∧ out' = out := by
  cases x with
  | ok b => exact iff_of_false nofun nofun
  | error e' =>
    constructor
    · intro h
      cases h
      exact ⟨rfl, rfl⟩
    · rintro ⟨h, rfl⟩
      cases h
      rfl

theorem printView_eq (o : Options) (c : Catalog) (v : View) (out : String) :
    o.printView c v out = .ok () (out ++ String.join
      ((viewLines c v ++ if o.nested then nestedLines c v else []).map (· ++ "\n"))) := by
  refine EStateM.bind_eq_ok.2 ⟨(), _, printLines_eq _ _, ?_⟩
  cases o.nested with
  | true =>
    rw [if_pos rfl, if_pos rfl, printLines_eq, List.map_append, String.join_append,
      String.append_assoc]
  | false =>
    rw [if_neg Bool.false_ne_true, if_neg Bool.false_ne_true, List.append_nil]
    rfl

/-- Nothing has been printed when a step fails, as printing comes last and does not fail. -/
theorem program_eq_error {loaded : Except LoadError Catalog} {out out' cause : String}
    (h : o.program loaded out = .error cause out') : out' = out := by
  rcases EStateM.bind_eq_error.1 h with hload | ⟨c, s, hload, hsteps⟩
  · exact (ofExcept_eq_error.1 hload).2
  · obtain ⟨-, rfl⟩ := ofExcept_eq_ok.1 hload
    rcases EStateM.bind_eq_error.1 hsteps with hview | ⟨v, s', hview, hprint⟩
    · exact (ofExcept_eq_error.1 hview).2
    · rw [printView_eq] at hprint
      cases hprint

/-- A run that fails has printed nothing but the cause, also where the catalog does not
load. -/
theorem stdout_of_code_ne_zero {loaded : Except LoadError Catalog}
    (h : (o.run loaded).code ≠ 0) : (o.run loaded).stdout = "" := by
  unfold run at h ⊢
  split
  · next hprogram =>
    rw [hprogram] at h
    exact absurd rfl h
  · next cause out hprogram => exact program_eq_error hprogram

/-- A run prints the lines of the view that all steps lead to, or the cause if there is no
such view. -/
theorem run_cases (o : Options) (c : Catalog) :
    (∃ v, o.view c = .ok v ∧ o.run (.ok c) =
        .printed (viewLines c v ++ if o.nested then nestedLines c v else [])) ∨
      ∃ failure, o.view c = .error failure ∧ (o.run (.ok c)).code = 1 ∧
        (o.run (.ok c)).stderr = "Error: " ++ failure.record c ++ "\n" := by
  have hload : (ofExcept (Except.mapError LoadError.record (.ok c)) : Program Catalog) "" =
      .ok c "" := rfl
  cases hview : o.view c with
  | ok v =>
    have hsteps : (ofExcept ((o.view c).mapError (Failure.record c)) : Program View) "" =
        .ok v "" := ofExcept_eq_ok.2 ⟨Except.mapError_eq_ok.2 hview, rfl⟩
    have hprogram : o.program (.ok c) "" = .ok () _ :=
      EStateM.bind_eq_ok.2 ⟨c, _, hload, EStateM.bind_eq_ok.2 ⟨v, _, hsteps, printView_eq o c v ""⟩⟩
    refine Or.inl ⟨v, rfl, ?_⟩
    rw [run, EStateM.run, hprogram, String.empty_append]
    rfl
  | error failure =>
    have hsteps : (ofExcept ((o.view c).mapError (Failure.record c)) : Program View) "" =
        .error (failure.record c) "" :=
      ofExcept_eq_error.2 ⟨Except.mapError_eq_error.2 ⟨failure, hview, rfl⟩, rfl⟩
    have hprogram : o.program (.ok c) "" = .error (failure.record c) "" :=
      EStateM.bind_eq_error.2 (Or.inr ⟨c, _, hload, EStateM.bind_eq_error.2 (Or.inl hsteps)⟩)
    refine Or.inr ⟨failure, rfl, ?_⟩
    rw [run, EStateM.run, hprogram]
    exact ⟨rfl, rfl⟩

/-- Over a loaded catalog a run succeeds exactly if the named type resolves, has a base and
arguments where these are asked for, and the given types resolve and are as many as the
slots: those of a partial application as many as the slots of the type, of which there must
be one, and those of an application, which must be closed, as many as are open then.  No
step meets a view that is closed already, all parameters to be shown have names, and a run
that fails prints nothing.  After an application the view is closed, and its full name is
printed, which resolves to the type itself. -/
theorem run_succeeds_iff {document : Json} (loaded : ofJson document = .ok c) (o : Options) :
    ((o.run (ofJson document)).code = 0 ↔ o.WorksOut c) ∧
    ((o.run (ofJson document)).code ≠ 0 → (o.run (ofJson document)).stdout = "") ∧
    (∀ ty, o.view c ≠ .error (.alreadyClosed ty)) ∧
    (∀ v, o.view c = .ok v → c.isNameable v.raw = true ∧
      ∀ t ∈ v.nested c .all, c.isNameable t.raw = true) ∧
    ((o.run (ofJson document)).code = 0 → o.closed.isSome = true →
      ∃ t text lines, o.view c = .ok (.ofClosed t) ∧ (c.name t.raw).fullName = some text ∧
        c.resolve text = .ok t.raw ∧ o.run (ofJson document) = .printed
          ("kind:             closed" :: ("name:             " ++ (c.name t.raw).value) ::
            ("full name:        " ++ text) :: lines)) := by
  have hc := reachable_ofJson loaded
  rw [loaded]
  refine ⟨?_, ?_, view_ne_alreadyClosed, ?_, ?_⟩
  · rw [← exists_view_iff loaded]
    rcases run_cases o c with ⟨v, hv, hrun⟩ | ⟨failure, hfailure, hcode, -⟩
    · rw [hrun]
      exact iff_of_true rfl ⟨v, hv⟩
    · rw [hcode, hfailure]
      exact iff_of_false Nat.one_ne_zero nofun
  · exact stdout_of_code_ne_zero
  · intro v hv
    refine ⟨hc.wellNested.isNameable_of_fits (view_ok loaded hv).1.fits, fun t ht => ?_⟩
    obtain ⟨id, hid⟩ := mem_view_nested ht
    rw [hid]
    exact hc.wellNested.isNameable_of_fits (throughout_named.2 trivial)
  · intro hcode hgiven
    rcases run_cases o c with ⟨v, hv, hrun⟩ | ⟨failure, -, hfailed, -⟩
    · obtain ⟨⟨hfits, hfound⟩, -, hclosed⟩ := view_ok loaded hv
      obtain ⟨t, rfl, hfree⟩ := hclosed hgiven
      obtain ⟨text, htext⟩ :=
        Option.isSome_iff_exists.1 ((isSome_qualifiedName? t.raw).2 (Or.inl hfree))
      have hresolve : c.resolve text = .ok t.raw :=
        hc.indexed.resolve_qualifiedName? hfits hfound htext
      obtain ⟨lines, hlines⟩ := viewLines_of_fullName (v := .ofClosed t) htext
      refine ⟨t, text, lines ++ if o.nested then nestedLines c (.ofClosed t) else [], hv, htext,
        hresolve, ?_⟩
      rw [hrun, hlines]
      rfl
    · rw [hfailed] at hcode
      cases hcode

/-- The base of ``Twin`2`` is taken apart into the definition of pairs, which is filled with
two open types and then with two closed ones.  With one closed type too few the run fails. -/
theorem run_succeeds_iff_twin :
    let document : Json := .object [("types", .array
      [.object [("name", .string "Pair"), ("params", .array [.string "A", .string "B"])],
       .object [("base", .string "Pair`2[System.Nullable`1[K],V]"), ("name", .string "Twin"),
         ("params", .array [.string "K", .string "V"])]])]
    let o : Options :=
      { typeName := some "Twin`2[System.Int32,System.String]", base := true, unapply := true,
        sketches := some ["System.Nullable`1", "System.Nullable`1"],
        closed := some ["System.Int32", "System.Char"] }
    let short : Options := { o with closed := some ["System.Int32"] }
    let text := "Pair`2[[System.Nullable`1[[System.Int32]]],[System.Nullable`1[[System.Char]]]]"
    ∃ c, ofJson document = .ok c ∧ o.WorksOut c ∧ (o.run (ofJson document)).code = 0 ∧
      (∃ t lines, o.view c = .ok (.ofClosed t) ∧ c.resolve text = .ok t.raw ∧
        o.run (ofJson document) = .printed ("kind:             closed" ::
          "name:             Pair`2" :: ("full name:        " ++ text) :: lines)) ∧
      ¬ short.WorksOut c ∧ (short.run (ofJson document)).stdout = "" := by
  intro document o short text
  let number : Descriptor := .named Builtin.int32.id
  let word : Descriptor := .named Builtin.string.id
  let letter : Descriptor := .named Builtin.char.id
  obtain ⟨c, hc, hnamed, hbased, hstart, hpartial, hclosed, hslots, hfailed, hview⟩ :=
    exists_ofJson_eq_ok document (P := fun c =>
      (c.resolve "Twin`2[System.Int32,System.String]").toOption =
        some (.constructed ⟨18⟩ [number, word]) ∧
      c.baseType (.constructed ⟨18⟩ [number, word]) =
        some (.constructed ⟨17⟩ [.constructed .nullable [number], word]) ∧
      c.arguments (.constructed ⟨17⟩ [.constructed .nullable [number], word]) ≠ [] ∧
      (["System.Nullable`1", "System.Nullable`1"].mapM c.resolve).toOption =
        some [.named .nullable, .named .nullable] ∧
      (["System.Int32", "System.Char"].mapM c.resolve).toOption = some [number, letter] ∧
      [.named ⟨17⟩, .named .nullable, number, letter].map c.slots = [2, 1, 0, 0] ∧
      (short.run (.ok c)).code = 1 ∧
      (o.view c).toOption.map (fun v => ((c.name v.raw).value, (c.name v.raw).fullName)) =
        some ("Pair`2", some text)) (by decide +kernel)
  simp only [List.map_cons, List.map_nil, List.cons.injEq, and_true, slots_eq_zero_iff] at hslots
  have hworks : o.WorksOut c := by
    refine ⟨.named ⟨17⟩, 2, ⟨_, _, Except.toOption_eq_some.1 hnamed, hbased, hstart, rfl⟩, ?_, ?_⟩
    · refine ⟨_, Except.mapM_eq_ok_iff.1 (Except.toOption_eq_some.1 hpartial), ?_, ?_, ?_⟩
      · rw [hslots.1]
        decide
      · rw [hslots.1]
        rfl
      · simp [hslots.2.1]
    · refine ⟨_, Except.mapM_eq_ok_iff.1 (Except.toOption_eq_some.1 hclosed), ?_, rfl⟩
      simp [hslots.2.2]
  obtain ⟨hiff, -, -, -, hprinted⟩ := run_succeeds_iff hc o
  obtain ⟨hiff', hsilent, -⟩ := run_succeeds_iff hc short
  have hcode := hiff.2 hworks
  obtain ⟨t, text', lines, ht, htext, hresolve, hrun⟩ := hprinted hcode rfl
  rw [ht] at hview
  obtain ⟨hvalue, hfull⟩ := Prod.mk.inj (Option.some.inj hview)
  obtain rfl : text = text' := Option.some.inj (hfull.symm.trans htext)
  have hnot : (short.run (ofJson document)).code ≠ 0 := by
    rw [hc, hfailed]
    decide
  refine ⟨c, hc, hworks, hcode, ⟨t, lines, ht, hresolve, ?_⟩, fun h => hnot (hiff'.2 h),
    hsilent hnot⟩
  have hvalue : (c.name t.raw).value = "Pair`2" := hvalue
  rw [hrun, hvalue]
  rfl

end Options

end CommandLine

end Generics
