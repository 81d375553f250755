import Generics.Proofs.Places
import Generics.Proofs.Rearranging

/-!
# Described catalogs

The catalog of a document has the system definitions and then those that the document
describes, each at its place.  It can be loaded exactly if no path is asked for that is
taken, or twice, and every written base resolves among all of these definitions to a type
that may be the base.  Otherwise loading answers what is wrong first: it looks at all
paths before it looks at any base, and at both in the order of the document.

## Main definitions

* `DistinctPaths` — no path is asked for that is taken, or twice.
* `Catalog.Admits`, `Catalog.BasesAdmitted` — a written base is one that its type may have,
  and all of them are.
* `Catalog.Holds` — a catalog has the definitions that are described, with their bases.

## Main results

* `ofJson_eq_of_distinct` — the catalog of a document in one equation.
* `ofJson_described` — when a document can be loaded, what its catalog is, and what the
  error is otherwise.
-/

namespace Generics

/-- A definition that differs in its base at most is the same if its base is. -/
theorem Definition.SameButBase.eq_of_base_eq {d d' : Definition} (h : d.SameButBase d')
    (hbase : d'.base = d.base) : d' = d := by
  obtain ⟨base, rfl⟩ := h
  subst hbase
  rfl

namespace Catalog

open Descriptor

variable {c : Catalog} {id : DefId} {place : Place} {places : List Place}

/-! ### Distinct paths -/

/-- The paths of the system definitions. -/
def systemPaths : List String :=
  initial.outlines.map Outline.path

/-- No path is that of a system definition, and none is there twice. -/
def DistinctPaths (places : List Place) : Prop :=
  (systemPaths ++ places.map Place.path).Nodup

instance (places : List Place) : Decidable (DistinctPaths places) :=
  inferInstanceAs (Decidable (systemPaths ++ places.map Place.path).Nodup)

theorem size_initial : initial.size = 17 := by
  decide +kernel

theorem lookup?_initial_eq_none_iff {path : String} :
    initial.lookup? path = none ↔ path ∉ systemPaths := by
  constructor
  · intro hnone hmem
    obtain ⟨o, ho, rfl⟩ := List.mem_map.1 hmem
    obtain ⟨id, hid, rfl⟩ := mem_outlines.1 ho
    have hsome : initial.lookup? (initial.outline id).path = some id :=
      indexed_initial.lookup?_path hid
    rw [hnone] at hsome
    cases hsome
  · exact indexed_initial.lookup?_eq_none

/-- If some of the elements that are added to a list are there already, or twice, there is a
first of these. -/
theorem exists_first_repeated {α β : Type} {f : α → β} {taken : List β} (htaken : taken.Nodup)
    {xs : List α} (h : ¬ (taken ++ xs.map f).Nodup) : ∃ before x after,
      xs = before ++ x :: after ∧ (taken ++ before.map f).Nodup ∧ f x ∈ taken ++ before.map f := by
  induction xs generalizing taken with
  | nil => exact absurd (by simpa using htaken) h
  | cons x xs ih =>
    by_cases hx : f x ∈ taken
    · exact ⟨[], x, xs, rfl, by simpa using htaken, by simpa using hx⟩
    · have hmore : (taken ++ [f x]).Nodup := by
        rw [List.nodup_append]
        refine ⟨htaken, List.nodup_singleton _, ?_⟩
        rintro a ha b hb rfl
        exact hx (List.mem_singleton.1 hb ▸ ha)
      rw [List.map_cons, List.append_cons] at h
      obtain ⟨before, y, after, rfl, hbefore, hy⟩ := ih hmore h
      refine ⟨x :: before, y, after, rfl, ?_, ?_⟩ <;>
        rwa [List.map_cons, List.append_cons]

/-- The first path that is taken, or there already, is `path`. -/
def FirstRepeated (places : List Place) (path : String) : Prop :=
  ∃ before place after, places = before ++ place :: after ∧ DistinctPaths before ∧
    place.path ∈ systemPaths ++ before.map Place.path ∧ place.path = path

theorem exists_firstRepeated (h : ¬ DistinctPaths places) : ∃ path, FirstRepeated places path := by
  have hsystem : systemPaths.Nodup := indexed_initial.nodup_paths
  obtain ⟨before, place, after, he, hbefore, hmem⟩ := exists_first_repeated hsystem h
  exact ⟨place.path, before, place, after, he, hbefore, hmem, rfl⟩

theorem DistinctPaths.nodup (h : DistinctPaths places) : (places.map Place.path).Nodup :=
  (List.nodup_append.1 h).2.1

theorem DistinctPaths.free (h : DistinctPaths places) :
    ∀ place ∈ places, initial.lookup? place.path = none := fun _ hplace =>
  lookup?_initial_eq_none_iff.2 fun hmem =>
    (List.nodup_append.1 h).2.2 _ hmem _ (List.mem_map_of_mem hplace) rfl

/-! ### Admitted bases -/

/-- The written base of a type can be read, resolves in the scope of the type, and is
accepted as its base. -/
def Admits (c : Catalog) (id : DefId) (text : String) (base : Descriptor) : Prop :=
  ∃ name, TypeName.read text = .ok name ∧ c.resolveIn (some id) name = .ok base ∧
    ∃ c', c.setBase id base = .ok c'

/-- All bases that are written at some places, from the number `start` on, are admitted. -/
def BasesAdmitted (c : Catalog) (start : Nat) (places : List Place) : Prop :=
  ∀ k place text, places[k]? = some place → place.base = some text →
    ∃ base, c.Admits ⟨start + k⟩ text base

theorem checkBase_eq_ok_iff {text : String} {base : Descriptor} :
    c.checkBase id text = .ok base ↔ c.Admits id text base := by
  unfold checkBase Admits
  rw [Except.bind_eq_ok]
  refine exists_congr fun name => ?_
  rw [Except.mapError_eq_ok, Except.bind_eq_ok]
  refine and_congr_right fun _ => ?_
  simp only [Except.mapError_eq_ok, setBase_eq_ite]
  constructor
  · rintro ⟨ty, hty, h⟩
    split at h
    · next hbinds =>
      cases h
      exact ⟨hty, _, if_pos hbinds⟩
    · cases h
  · rintro ⟨hty, c', h⟩
    split at h
    · next hbinds => exact ⟨base, hty, if_pos hbinds⟩
    · cases h

theorem basesAdmitted_iff {start : Nat} : c.BasesAdmitted start places ↔
    ∀ entry ∈ basesAt start places, ∃ base, c.checkBase entry.1 entry.2 = .ok base := by
  simp only [checkBase_eq_ok_iff]
  constructor
  · intro h entry hentry
    obtain ⟨k, place, hplace, hid, hbase⟩ := mem_basesAt.1 hentry
    rw [hid]
    exact h k place entry.2 hplace hbase
  · intro h k place text hplace hbase
    exact h (⟨start + k⟩, text) (mem_basesAt.2 ⟨k, place, hplace, rfl, hbase⟩)

theorem basesAdmitted_cons {start : Nat} : c.BasesAdmitted start (place :: places) ↔
    (∀ text, place.base = some text → ∃ base, c.Admits ⟨start⟩ text base) ∧
      c.BasesAdmitted (start + 1) places := by
  constructor
  · intro h
    refine ⟨fun text hbase => h 0 place text rfl hbase, fun k other text hother hbase => ?_⟩
    have hadmits := h (k + 1) other text hother hbase
    rwa [← Nat.succ_add_eq_add_succ] at hadmits
  · rintro ⟨hfirst, hrest⟩ (_ | k) other text hother hbase
    · cases hother
      exact hfirst text hbase
    · rw [← Nat.succ_add_eq_add_succ]
      exact hrest k other text hother hbase

/-- If all bases are admitted, the check finds them. -/
theorem exists_checkBases_iff {start : Nat} :
    (∃ found, c.checkBases (basesAt start places) = .ok found) ↔ c.BasesAdmitted start places := by
  simp only [basesAdmitted_iff, ← Except.toOption_eq_some, toOption_checkBases,
    toOption_checkBase]
  exact exists_findBases_iff

/-- The first written base that is not admitted is refused for a cause. -/
def FirstRefused (c : Catalog) (start : Nat) (places : List Place) (cause : LoadError) : Prop :=
  ∃ before place after text, places = before ++ place :: after ∧
    c.BasesAdmitted start before ∧ place.base = some text ∧
    c.checkBase ⟨start + before.length⟩ text = .error cause

theorem FirstRefused.cons {start : Nat} {cause : LoadError}
    (h : c.FirstRefused (start + 1) places cause)
    (hplace : ∀ text, place.base = some text → ∃ base, c.Admits ⟨start⟩ text base) :
    c.FirstRefused start (place :: places) cause := by
  obtain ⟨before, refused, after, text, rfl, hbefore, hbase, hcheck⟩ := h
  refine ⟨place :: before, refused, after, text, rfl, basesAdmitted_cons.2 ⟨hplace, hbefore⟩,
    hbase, ?_⟩
  rwa [List.length_cons, ← Nat.succ_add_eq_add_succ]

/-- Bases are checked up to the first one that is not admitted. -/
theorem firstRefused_of_checkBases {start : Nat} {cause : LoadError}
    (h : c.checkBases (basesAt start places) = .error cause) :
    c.FirstRefused start places cause := by
  induction places generalizing start with
  | nil => cases h
  | cons first places ih =>
    rw [basesAt_cons] at h
    cases hbase : first.base with
    | none =>
      rw [hbase] at h
      exact (ih h).cons fun text htext => nomatch hbase.symm.trans htext
    | some text =>
      rw [hbase] at h
      rcases Except.bind_eq_error.1 ((checkBases_cons ..).symm.trans h) with
        hfirst | ⟨base, hfirst, h⟩
      · exact ⟨[], first, places, text, rfl, fun _ _ _ hplace => (nomatch hplace), hbase, hfirst⟩
      · rcases Except.bind_eq_error.1 h with hrest | ⟨found, -, hrest⟩
        · refine (ih hrest).cons fun text' htext => ?_
          cases hbase.symm.trans htext
          exact ⟨base, checkBase_eq_ok_iff.1 hfirst⟩
        · cases hrest

/-! ### The catalog of a document -/

/-- The catalog has the system definitions, and behind them a definition for each place, with
the base that is written there, read among all definitions. -/
structure Holds (c : Catalog) (places : List Place) : Prop where
  size : c.size = 17 + places.length
  system : ∀ id : DefId, id.index < 17 → c.definition id = initial.definition id
  definition : ∀ {k place}, places[k]? = some place → ∃ base,
    c.definition ⟨17 + k⟩ = { place.definition with base } ∧
      (place.base = none → base = none) ∧
      ∀ text, place.base = some text → ∃ ty, base = some ty ∧ c.Admits ⟨17 + k⟩ text ty
  path : ∀ {k place}, places[k]? = some place → c.path ⟨17 + k⟩ = place.path
  /-- Types are found by their paths, and as types inside others, and nothing else is. -/
  indexed : c.Indexed
  /-- A type inside another one has its parameters behind those of that type. -/
  params : ∀ {k outer}, (c.definition ⟨17 + k⟩).declaring = some outer →
    (c.definition ⟨17 + k⟩).params =
      (c.definition outer).params ++ (c.definition ⟨17 + k⟩).ownParams
  /-- A type has the namespace of the outermost type around it. -/
  nameSpace : ∀ k, (c.definition ⟨17 + k⟩).nameSpace =
    (c.definition (c.outermost ⟨17 + k⟩)).nameSpace

section Loading

variable {document : Json} {items : List Json} {types : List (Option String × Entry)}

theorem declareAll_start (h : DescribeTypesLeniently items types) :
    declareAll none Draft.start items =
      (typePlaces 17 types).foldlM declarePlace Draft.start := by
  have hstart : Draft.start.catalog.size = 17 := size_initial
  have hsound : Draft.start.Sound := sound_initial
  rw [declareAll_eq_foldlM h hsound, hstart]

/-- Without repeated paths all entries are declared. -/
theorem declareAll_start_of_distinct (h : DescribeTypesLeniently items types)
    (hdistinct : DistinctPaths (typePlaces 17 types)) :
    declareAll none Draft.start items = .ok
      { catalog := initial.withPlaces (typePlaces 17 types)
        bases := basesAt 17 (typePlaces 17 types) } := by
  have hstart : Draft.start.catalog.size = 17 := size_initial
  rw [declareAll_start h, foldlM_declarePlace_of_free hdistinct.nodup hdistinct.free, hstart]
  rfl

/-- The first repeated path is an error. -/
theorem declareAll_start_of_repeated (h : DescribeTypesLeniently items types) {path : String}
    (hpath : FirstRepeated (typePlaces 17 types) path) :
    declareAll none Draft.start items = .error (.duplicate path) := by
  obtain ⟨before, place, after, he, hbefore, hmem, rfl⟩ := hpath
  rw [declareAll_start h, he]
  refine foldlM_declarePlace_of_taken hbefore.nodup hbefore.free ?_
  have htaken : initial.lookup? place.path ≠ none ↔ place.path ∈ systemPaths := by
    rw [ne_eq, lookup?_initial_eq_none_iff, not_not]
  exact (List.mem_append.1 hmem).imp_left htaken.2

/-- Without repeated paths the catalog is that of the places, with all bases set that are
written, if they are admitted. -/
theorem ofJson_eq_of_distinct (htypes : document.get? "types" = some (.array items))
    (h : DescribeTypesLeniently items types) (hdistinct : DistinctPaths (typePlaces 17 types)) :
    ofJson document =
      ((initial.withPlaces (typePlaces 17 types)).checkBases
        (basesAt 17 (typePlaces 17 types))).map
          (initial.withPlaces (typePlaces 17 types)).withBases := by
  have hdraft := declareAll_start_of_distinct h hdistinct
  obtain ⟨_, -, hfollows⟩ := (declareAll_start_executes items).follows hdraft
  have hreachable := hfollows.sound.reachable
  rw [ofJson_eq htypes, hdraft]
  exact setWrittenBases_eq hreachable.wellNested hreachable.indexed hfollows.sound.declared

/-! ### What is loaded -/

/-- A base that is set at a place is the one that is written there, and there are no
others. -/
theorem mem_basesAt_of_place (start : Nat) {k : Nat} (hplace : places[k]? = some place) :
    (∀ text, place.base = some text → (⟨start + k⟩, text) ∈ basesAt start places) ∧
      (place.base = none → (⟨start + k⟩ : DefId) ∉ (basesAt start places).map Prod.fst) := by
  refine ⟨fun text hbase => mem_basesAt.2 ⟨k, place, hplace, rfl, hbase⟩, fun hnone hmem => ?_⟩
  obtain ⟨entry, hentry, hid⟩ := List.mem_map.1 hmem
  obtain ⟨other, place', hplace', hid', hbase⟩ := mem_basesAt.1 hentry
  have hsame : start + k = start + other := congrArg DefId.index (hid.symm.trans hid')
  obtain rfl : k = other := by omega
  rw [hplace] at hplace'
  cases hplace'
  rw [hnone] at hbase
  cases hbase

/-- No base is set for the types in front of all places. -/
theorem not_mem_basesAt_of_lt {start : Nat} (h : id.index < start) :
    id ∉ (basesAt start places).map Prod.fst := by
  intro hmem
  obtain ⟨entry, hentry, rfl⟩ := List.mem_map.1 hmem
  obtain ⟨k, -, -, hid, -⟩ := mem_basesAt.1 hentry
  rw [hid] at h
  exact Nat.not_lt_of_le (Nat.le_add_right start k) h

/-- When all bases are set, a type has the one that is written at its place. -/
theorem Draft.Sound.base_of_place {draft : Draft} (h : draft.Sound) {start : Nat}
    (hbases : draft.bases = basesAt start places) (hnodup : (draft.bases.map Prod.fst).Nodup)
    {found : List (DefId × Descriptor)}
    (hfound : draft.catalog.findBases draft.bases = some found) {k : Nat}
    (hplace : places[k]? = some place) :
    (place.base = none →
      ((draft.catalog.withBases found).definition ⟨start + k⟩).base = none) ∧
    ∀ text, place.base = some text → ∃ ty,
      ((draft.catalog.withBases found).definition ⟨start + k⟩).base = some ty ∧
        (draft.catalog.withBases found).Admits ⟨start + k⟩ text ty := by
  obtain ⟨hset, hunset⟩ := h.base_withBases hnodup hfound
  obtain ⟨hwritten, hnone⟩ := mem_basesAt_of_place start hplace
  rw [← hbases] at hwritten hnone
  refine ⟨fun hbase => hunset _ (hnone hbase), fun text hbase => ?_⟩
  have hentry := hwritten text hbase
  obtain ⟨ty, hty⟩ := exists_findBases_iff.1 ⟨found, hfound⟩ _ hentry
  refine ⟨ty, (hset _ hentry).trans hty, ?_⟩
  -- the base is admitted among all types, whatever bases they have
  obtain ⟨hrebased, hsize⟩ := rebased_withBases draft.catalog found
  rw [← checkBase_eq_ok_iff, hrebased.checkBase hsize h.reachable.wellNested h.reachable.indexed
    (h.declared _ hentry), ← Except.toOption_eq_some, toOption_checkBase]
  exact hty

/-- A document without repeated paths that can be loaded has the catalog that it describes. -/
theorem holds_of_ofJson (htypes : document.get? "types" = some (.array items))
    (h : DescribeTypesLeniently items types) (hdistinct : DistinctPaths (typePlaces 17 types))
    (hload : ofJson document = .ok c) : c.Holds (typePlaces 17 types) := by
  have hreachable : c.Reachable := reachable_ofJson hload
  obtain ⟨draft, found, hdraft, hfound, rfl⟩ := (ofJson_eq_ok_iff htypes).1 hload
  obtain ⟨_, -, hfollows⟩ := (declareAll_start_executes items).follows hdraft
  have hsound := hfollows.sound
  have hnodup := nodup_bases hfollows
  rw [declareAll_start_of_distinct h hdistinct] at hdraft
  generalize typePlaces 17 types = places at hdistinct hdraft
  have hcatalog : draft.catalog = initial.withPlaces places := by cases hdraft; rfl
  have hbases : draft.bases = basesAt 17 places := by cases hdraft; rfl
  obtain ⟨hrebased, hsize⟩ := rebased_withBases draft.catalog found
  have hplaced : ∀ {k place}, places[k]? = some place →
      draft.catalog.definition ⟨17 + k⟩ = place.definition := by
    intro k place hplace
    rw [hcatalog, ← definition_withPlaces hplace, size_initial]
  constructor
  case size => rw [hsize, hcatalog, size_withPlaces, size_initial]
  case system =>
    intro id hid
    have hdeclared : initial.Declares id := by rwa [Declares, size_initial]
    have hsame := hrebased.definition id
    have hnot : id ∉ draft.bases.map Prod.fst := hbases ▸ not_mem_basesAt_of_lt hid
    refine Definition.SameButBase.eq_of_base_eq (d := initial.definition id) ?_ ?_
    · rw [← definition_withPlaces_of_declares hdeclared places, ← hcatalog]
      exact hsame
    · have hunbased : (initial.definition id).base = none := sound_initial.unbased id
      rw [(hsound.base_withBases hnodup hfound).2 id hnot, hunbased]
  case definition =>
    intro k place hplace
    obtain ⟨base, hdefinition⟩ := hrebased.definition ⟨17 + k⟩
    have hset := hsound.base_of_place hbases hnodup hfound hplace
    rw [hdefinition] at hset
    rw [hplaced hplace] at hdefinition
    exact ⟨base, hdefinition, hset⟩
  case path =>
    intro k place hplace
    have hfound : (draft.catalog.withBases found).lookup? place.path = some ⟨17 + k⟩ := by
      rw [hrebased.lookup?, hcatalog, lookup?_withPlaces hdistinct.nodup hplace, size_initial]
    exact (hreachable.indexed.of_lookup? hfound).2
  case indexed => exact hreachable.indexed
  case params => exact fun hd => hreachable.wellNested.params_eq_append hd
  case nameSpace => exact fun k => hreachable.nameSpace_outermost _

end Loading

/-- A document that describes types can be loaded exactly if no path is repeated and all
written bases are admitted.  Its catalog then has the system definitions and one definition for
each described type, with its base.  Otherwise the error is the first repeated path, or, if
there is none, what is wrong with the first base that is not admitted. -/
theorem ofJson_described {document : Json} {types : List (Option String × Entry)}
    (h : Describes document types) :
    let places := typePlaces 17 types
    let all := initial.withPlaces places
    ((∃ c, ofJson document = .ok c) ↔ DistinctPaths places ∧ all.BasesAdmitted 17 places) ∧
    (∀ c, ofJson document = .ok c →
      c.size = 17 + (types.map fun type => type.2.size).sum ∧ c.Holds places) ∧
    (¬ DistinctPaths places → ∃ path, FirstRepeated places path ∧
      ofJson document = .error (.duplicate path)) ∧
    (DistinctPaths places → ¬ all.BasesAdmitted 17 places → ∃ cause,
      all.FirstRefused 17 places cause ∧ ofJson document = .error cause) := by
  obtain ⟨items, htypes, hitems⟩ := h
  have hlenient : DescribeTypesLeniently items types := hitems.leniently
  intro places all
  have hrepeated : ¬ DistinctPaths places → ∃ path, FirstRepeated places path ∧
      ofJson document = .error (.duplicate path) := by
    intro hnot
    obtain ⟨path, hpath⟩ := exists_firstRepeated hnot
    refine ⟨path, hpath, ?_⟩
    rw [ofJson_eq htypes, declareAll_start_of_repeated hlenient hpath]
    rfl
  have heq : DistinctPaths places →
      ofJson document = (all.checkBases (basesAt 17 places)).map all.withBases :=
    ofJson_eq_of_distinct htypes hlenient
  have hdistinct : ∀ {c}, ofJson document = .ok c → DistinctPaths places := by
    intro c hload
    by_contra hnot
    obtain ⟨path, -, herror⟩ := hrepeated hnot
    rw [hload] at herror
    cases herror
  refine ⟨⟨?_, ?_⟩, ?_, hrepeated, ?_⟩
  · rintro ⟨c, hload⟩
    refine ⟨hdistinct hload, exists_checkBases_iff.1 ?_⟩
    rw [heq (hdistinct hload)] at hload
    obtain ⟨found, hfound, -⟩ := Except.map_eq_ok.1 hload
    exact ⟨found, hfound⟩
  · rintro ⟨hpaths, hbases⟩
    obtain ⟨found, hfound⟩ := exists_checkBases_iff.2 hbases
    exact ⟨all.withBases found, by rw [heq hpaths, hfound]; rfl⟩
  · intro c hload
    have hholds := holds_of_ofJson htypes hlenient (hdistinct hload) hload
    exact ⟨by rw [hholds.size, length_typePlaces], hholds⟩
  · intro hpaths hnot
    rw [heq hpaths]
    cases hchecked : all.checkBases (basesAt 17 places) with
    | ok found => exact absurd (exists_checkBases_iff.1 ⟨found, hchecked⟩) hnot
    | error cause => exact ⟨cause, firstRefused_of_checkBases hchecked, rfl⟩

/-- A type inside ``N.Outer`1`` has as its base ``N.Late`1``, which is declared after it, of
``N.Outer`1`` of the parameter that it takes over.  The namespace of its own does not
count. -/
theorem ofJson_described_late :
    let inner : Json := .object [("namespace", .string "M"), ("name", .string "Inner"),
      ("params", .array [.string "U"]), ("base", .string "N.Late`1[N.Outer`1[T]]")]
    let document : Json := .object [("types", .array
      [.object [("namespace", .string "N"), ("name", .string "Outer"),
        ("params", .array [.string "T"]), ("nested", .array [inner])],
      .object [("namespace", .string "N"), ("name", .string "Late"),
        ("params", .array [.string "S"]), ("visibility", .string "internal")]])]
    let types : List (Option String × Entry) :=
      [(some "N", .mk ⟨"Outer", ["T"], .isPublic⟩ none
        [.mk ⟨"Inner", ["U"], .isPublic⟩ (some "N.Late`1[N.Outer`1[T]]") []]),
      (some "N", .mk ⟨"Late", ["S"], .isInternal⟩ none [])]
    Describes document types ∧ DistinctPaths (typePlaces 17 types) ∧
      ∃ c, ofJson document = .ok c ∧ c.size = 20 ∧ c.Holds (typePlaces 17 types) ∧
        c.path ⟨18⟩ = "N.Outer`1+Inner`1" ∧
        c.definition ⟨18⟩ =
          { nameSpace := some "N"
            name := "Inner`1"
            declaring := some ⟨17⟩
            params := ["T", "U"]
            inherited := 1
            base := some (.constructed ⟨19⟩ [.constructed ⟨17⟩ [.param ⟨18⟩ 0]]) } := by
  intro inner document types
  have hinner : Entry.DescribedBy
      (.mk ⟨"Inner", ["U"], .isPublic⟩ (some "N.Late`1[N.Outer`1[T]]") []) inner :=
    Entry.describedBy_mk.2
      ⟨⟨rfl, Or.inl rfl, Or.inr ⟨rfl, rfl⟩⟩, rfl, [], Or.inr ⟨rfl, rfl⟩, .nil⟩
  have h : Describes document types := by
    refine ⟨_, rfl, .cons ⟨rfl, Entry.describedBy_mk.2 ⟨⟨rfl, Or.inl rfl, Or.inr ⟨rfl, rfl⟩⟩, rfl,
      [inner], Or.inl rfl, .cons hinner .nil⟩⟩ (.cons ⟨rfl, Entry.describedBy_mk.2 ?_⟩ .nil)⟩
    exact ⟨⟨rfl, Or.inl rfl, Or.inl rfl⟩, rfl, [], Or.inr ⟨rfl, rfl⟩, .nil⟩
  obtain ⟨hloads, hholds, -, -⟩ := ofJson_described h
  obtain ⟨c, hc, hbase⟩ := exists_ofJson_eq_ok document (P := fun c =>
    (c.definition ⟨18⟩).base = some (.constructed ⟨19⟩ [.constructed ⟨17⟩ [.param ⟨18⟩ 0]]))
    (by decide +kernel)
  obtain ⟨hsize, hc'⟩ := hholds c hc
  obtain ⟨base, hdefinition, -⟩ := hc'.definition (k := 1) rfl
  have hpath := hc'.path (k := 1) rfl
  refine ⟨h, (hloads.1 ⟨c, hc⟩).1, c, hc, hsize, hc', ?_, ?_⟩
  · exact hpath.trans (by decide +kernel)
  · rw [hdefinition] at hbase
    subst hbase
    exact hdefinition

end Catalog

end Generics
