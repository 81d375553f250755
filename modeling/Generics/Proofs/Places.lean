import Mathlib.Algebra.GroupWithZero.Nat
import Generics.Proofs.Entries
import Generics.Proofs.Plans

/-!
# The places of types

The types of a document stand in an order, each before those inside it, and a type has
the number of its place.  So what is to be declared at each place can be listed before
anything is declared, with the number of the type around it.  Loading goes through this
list from the front.  It comes to the end exactly if no path is taken before its place is
reached, and it stops at the first path that is.

## Main definitions

* `Place`, `Entry.places`, `typePlaces` — what is to be declared, place by place.
* `declarePlace` — the step that loading takes at a place.
* `Catalog.withPlaces`, `basesAt` — the definitions at some places, and the bases that are
  written there.

## Main results

* `declareAll_eq_foldlM` — the entries of a document are declared place by place.
* `foldlM_declarePlace_of_free`, `foldlM_declarePlace_of_taken` — how far this comes.
* `definition_withPlaces`, `lookup?_withPlaces` — what is declared, and found by its path.
-/

namespace Generics

/-- What is to be declared at a place of a document. -/
structure Place where
  /-- The number of the type around it. -/
  declaring : Option DefId
  plan : Plan

namespace Place

/-- The path under which the type is to be found. -/
def path (place : Place) : String :=
  place.plan.outline.path

/-- The definition that the type is to have, without its base. -/
def definition (place : Place) : Definition :=
  { place.plan.outline.definition with declaring := place.declaring }

/-- The base as it is written. -/
def base (place : Place) : Option String :=
  place.plan.base

end Place

namespace Catalog

/-! ### The order of types -/

mutual

/-- The places of a type and of those inside it.  The type itself stands first and has the
number `start`, and the others have the numbers that follow.  They are all in one
namespace. -/
def Entry.places (outer : Option (DefId × Outline)) (nameSpace : Option String) (start : Nat) :
    Entry → List Place
  | .mk head base inner =>
    let plan := planOf (outer.map Prod.snd) nameSpace head base
    ⟨outer.map Prod.fst, plan⟩ ::
      Entry.placesAll (some (⟨start⟩, plan.outline)) nameSpace (start + 1) inner

/-- The places of some types that stand side by side. -/
def Entry.placesAll (outer : Option (DefId × Outline)) (nameSpace : Option String) (start : Nat) :
    List Entry → List Place
  | [] => []
  | e :: es => e.places outer nameSpace start ++
      Entry.placesAll outer nameSpace (start + e.size) es

end

/-- The places of the types of a document, from the number `start` on. -/
def typePlaces (start : Nat) : List (Option String × Entry) → List Place
  | [] => []
  | (nameSpace, e) :: types => e.places none nameSpace start ++ typePlaces (start + e.size) types

namespace Entry

theorem length_places (entry : Entry) : ∀ (outer : Option (DefId × Outline))
    (nameSpace : Option String) (start : Nat),
    (entry.places outer nameSpace start).length = entry.size := by
  induction entry with
  | mk head base inner ih =>
    have hall : ∀ es, (∀ e ∈ es, e ∈ inner) → ∀ outer nameSpace start,
        (placesAll outer nameSpace start es).length = sizeAll es := by
      intro es hes
      induction es with
      | nil => intros; rfl
      | cons e es ih' =>
        intro outer nameSpace start
        obtain ⟨he, hes⟩ := List.forall_mem_cons.1 hes
        rw [placesAll, List.length_append, ih e he, ih' hes, sizeAll]
    intro outer nameSpace start
    rw [places, List.length_cons, hall inner (fun _ h => h), size, Nat.add_comm]

end Entry

theorem length_typePlaces (start : Nat) (types : List (Option String × Entry)) :
    (typePlaces start types).length = (types.map fun type => type.2.size).sum := by
  induction types generalizing start with
  | nil => rfl
  | cons type types ih =>
    rw [typePlaces, List.length_append, Entry.length_places, ih, List.map_cons, List.sum_cons]

/-! ### Declaring at a place -/

/-- The definition of the place is put in under its path, and its base is noted. -/
def declarePlace (draft : Draft) (place : Place) : Except LoadError Draft := do
  let (id, catalog) ← (draft.catalog.insert place.path place.definition
    place.declaring).mapError (.ofDefine draft.catalog)
  .ok { catalog, bases := draft.bases ++ (place.base.map fun base => (id, base)).toList }

/-- The type around a place, with its number. -/
def around (c : Catalog) (outer : Option DefId) : Option (DefId × Outline) :=
  outer.map fun id => (id, c.outline id)

variable {c : Catalog} {draft draft' : Draft} {place : Place} {outer : Option DefId}
  {nameSpace : Option String}

@[simp] theorem map_fst_around (c : Catalog) (outer : Option DefId) :
    (c.around outer).map Prod.fst = outer := by
  cases outer <;> rfl

@[simp] theorem map_snd_around (c : Catalog) (outer : Option DefId) :
    (c.around outer).map Prod.snd = outer.map c.outline := by
  cases outer <;> rfl

/-- The place of an entry, in the catalog in which it is declared. -/
def placeIn (c : Catalog) (outer : Option DefId) (nameSpace : Option String) (head : EntryHead)
    (base : Option String) : Place :=
  ⟨outer, planOf (outer.map c.outline) nameSpace head base⟩

@[simp] theorem base_placeIn (c : Catalog) (outer : Option DefId) (nameSpace : Option String)
    (head : EntryHead) (base : Option String) :
    (c.placeIn outer nameSpace head base).base = base := by
  cases outer <;> rfl

theorem declareType_eq_insert (c : Catalog) (outer : Option DefId) (nameSpace : Option String)
    (head : EntryHead) (base : Option String) : c.declareType outer nameSpace head =
      c.insert (c.placeIn outer nameSpace head base).path
        (c.placeIn outer nameSpace head base).definition outer := by
  cases outer with
  | none => exact define_eq_insert c nameSpace head.name head.params head.visibility
  | some outer => exact defineNested_eq_insert c outer head.name head.params head.visibility

/-- Inside another type the namespace of the entry does not matter. -/
theorem declareType_congr {nameSpace' : Option String}
    (h : outer = none → nameSpace' = nameSpace) (head : EntryHead) :
    c.declareType outer nameSpace' head = c.declareType outer nameSpace head := by
  cases outer with
  | none => rw [h rfl]
  | some outer => rfl

theorem declarePlace_of_free (free : draft.catalog.lookup? place.path = none) :
    declarePlace draft place = .ok
      { catalog := draft.catalog.add place.path place.definition place.declaring
        bases := draft.bases ++
          (place.base.map fun base => (⟨draft.catalog.size⟩, base)).toList } := by
  unfold declarePlace
  rw [insert_of_free free]
  rfl

theorem declarePlace_of_taken {id : DefId} (taken : draft.catalog.lookup? place.path = some id) :
    declarePlace draft place = .error (.duplicate place.path) := by
  unfold declarePlace
  rw [insert_of_taken taken]
  rfl

/-- The type of an entry that is formed as it should be is declared at its place. -/
theorem declareHead_eq_declarePlace {v : Json} {head : EntryHead} {base : Option String}
    (hhead : HeadFields v head) (hbase : v.get? "base" = base.map .string)
    (hspace : outer = none → (v.get? "namespace").bind Json.string? = nameSpace) :
    declareHead draft outer v =
      (declarePlace draft (draft.catalog.placeIn outer nameSpace head base)).map
        fun draft' => (⟨draft.catalog.size⟩, head, draft') := by
  have hread : readBase head.name v = .ok base := readBase_eq_ok_iff.2 hbase
  rw [declareHead_eq, readHead_eq_ok_iff.2 hhead]
  show (draft.catalog.declareType outer _ head).mapError _ >>= _ = _
  rw [declareType_congr hspace, declareType_eq_insert _ _ _ _ base]
  cases hpath : draft.catalog.lookup? (draft.catalog.placeIn outer nameSpace head base).path with
  | none =>
    rw [declarePlace_of_free hpath, insert_of_free hpath]
    show (readBase head.name v).mapError _ >>= _ = _
    rw [hread, base_placeIn]
    rfl
  | some id =>
    rw [declarePlace_of_taken hpath, insert_of_taken hpath]
    rfl

/-- The plan of such an entry is that of its place. -/
theorem headPlan_eq_placeIn {v : Json} {head : EntryHead} {base : Option String}
    (hhead : HeadFields v head) (hbase : v.get? "base" = base.map .string)
    (hspace : outer = none → (v.get? "namespace").bind Json.string? = nameSpace) :
    headPlan (outer.map c.outline) v = some (c.placeIn outer nameSpace head base).plan := by
  refine headPlan_eq_some_iff.2 ⟨head, base, readHead_eq_ok_iff.2 hhead,
    readBase_eq_ok_iff.2 hbase, ?_⟩
  cases outer with
  | none => rw [hspace rfl]; rfl
  | some outer => rfl

/-! ### Declaring place by place -/

/-- The catalog with the definitions of some places. -/
def withPlaces (c : Catalog) (places : List Place) : Catalog :=
  places.foldl (fun c place => c.add place.path place.definition place.declaring) c

/-- The bases that are written at some places, with the numbers of their types. -/
def basesAt (start : Nat) (places : List Place) : List (DefId × String) :=
  (places.zipIdx start).flatMap fun (place, i) =>
    (place.base.map fun base => (⟨i⟩, base)).toList

theorem withPlaces_cons (c : Catalog) (place : Place) (places : List Place) :
    c.withPlaces (place :: places) =
      (c.add place.path place.definition place.declaring).withPlaces places := rfl

@[simp] theorem size_withPlaces (c : Catalog) (places : List Place) :
    (c.withPlaces places).size = c.size + places.length := by
  induction places generalizing c with
  | nil => rfl
  | cons place places ih => rw [withPlaces_cons, ih, size_add, List.length_cons]; omega

theorem definition_withPlaces_of_declares {id : DefId} (hid : c.Declares id)
    (places : List Place) : (c.withPlaces places).definition id = c.definition id := by
  induction places generalizing c with
  | nil => rfl
  | cons place places ih =>
    rw [withPlaces_cons, ih (declares_of_size_le (by rw [size_add]; omega) hid),
      definition_add_of_declares hid]

/-- A type gets the definition of its place. -/
theorem definition_withPlaces {places : List Place} {k : Nat} (h : places[k]? = some place) :
    (c.withPlaces places).definition ⟨c.size + k⟩ = place.definition := by
  induction places generalizing c k with
  | nil => cases h
  | cons first places ih =>
    cases k with
    | zero =>
      cases h
      have hnew : (c.add place.path place.definition place.declaring).Declares ⟨c.size⟩ := by
        unfold Declares
        rw [size_add]
        exact Nat.lt_succ_self _
      rw [withPlaces_cons, Nat.add_zero, definition_withPlaces_of_declares hnew, definition_add,
        if_pos rfl]
    | succ k =>
      have hrest := ih (c := c.add first.path first.definition first.declaring)
        (List.getElem?_cons_succ.symm.trans h)
      rwa [size_add, Nat.succ_add_eq_add_succ] at hrest

/-- A path is free if it was free before and belongs to no place. -/
theorem lookup?_withPlaces_eq_none_iff {places : List Place} {path : String} :
    (c.withPlaces places).lookup? path = none ↔
      c.lookup? path = none ∧ path ∉ places.map Place.path := by
  induction places generalizing c with
  | nil => simp [withPlaces]
  | cons place places ih =>
    rw [withPlaces_cons, ih, lookup?_add, List.map_cons, List.mem_cons]
    split_ifs with h <;> simp [h]

theorem lookup?_withPlaces_of_not_mem {places : List Place} {path : String}
    (h : path ∉ places.map Place.path) : (c.withPlaces places).lookup? path = c.lookup? path := by
  induction places generalizing c with
  | nil => rfl
  | cons place places ih =>
    rw [List.map_cons, List.mem_cons, not_or] at h
    rw [withPlaces_cons, ih h.2, lookup?_add, if_neg h.1]

/-- Where no path is there twice, every type is found by its path. -/
theorem lookup?_withPlaces {places : List Place} (hnodup : (places.map Place.path).Nodup)
    {k : Nat} (h : places[k]? = some place) :
    (c.withPlaces places).lookup? place.path = some ⟨c.size + k⟩ := by
  induction places generalizing c k with
  | nil => cases h
  | cons first places ih =>
    rw [List.map_cons, List.nodup_cons] at hnodup
    cases k with
    | zero =>
      cases h
      rw [withPlaces_cons, lookup?_withPlaces_of_not_mem hnodup.1, lookup?_add, if_pos rfl,
        Nat.add_zero]
    | succ k =>
      rw [withPlaces_cons, ih hnodup.2 (List.getElem?_cons_succ.symm.trans h), size_add,
        Nat.succ_add_eq_add_succ]

theorem basesAt_cons (start : Nat) (place : Place) (places : List Place) :
    basesAt start (place :: places) =
      (place.base.map fun base => (⟨start⟩, base)).toList ++ basesAt (start + 1) places := by
  rw [basesAt, List.zipIdx_cons, List.flatMap_cons]
  rfl

/-- A base is set for a type if it is written at the place of the type. -/
theorem mem_basesAt {start : Nat} {places : List Place} {entry : DefId × String} :
    entry ∈ basesAt start places ↔
      ∃ k place, places[k]? = some place ∧ entry.1 = ⟨start + k⟩ ∧ place.base = some entry.2 := by
  induction places generalizing start with
  | nil => simp [basesAt]
  | cons first places ih =>
    obtain ⟨id, text⟩ := entry
    have hfirst : (id, text) ∈ (first.base.map fun base => ((⟨start⟩ : DefId), base)).toList ↔
        id = ⟨start⟩ ∧ first.base = some text := by
      rw [Option.mem_toList, Option.map_eq_some_iff]
      constructor
      · rintro ⟨base, hbase, he⟩
        cases he
        exact ⟨rfl, hbase⟩
      · rintro ⟨rfl, hbase⟩
        exact ⟨text, hbase, rfl⟩
    rw [basesAt_cons, List.mem_append, hfirst, ih]
    constructor
    · rintro (⟨hid, hbase⟩ | ⟨k, place, hplace, hid, hbase⟩)
      · exact ⟨0, first, rfl, hid, hbase⟩
      · exact ⟨k + 1, place, hplace, by rw [hid, Nat.succ_add_eq_add_succ], hbase⟩
    · rintro ⟨_ | k, place, hplace, hid, hbase⟩
      · cases hplace
        exact Or.inl ⟨hid, hbase⟩
      · exact Or.inr ⟨k, place, hplace, by rw [hid, Nat.succ_add_eq_add_succ], hbase⟩

/-- As long as paths are free, places are declared one after the other. -/
theorem foldlM_declarePlace_of_free {places : List Place}
    (hnodup : (places.map Place.path).Nodup)
    (hfree : ∀ place ∈ places, draft.catalog.lookup? place.path = none) :
    places.foldlM declarePlace draft = .ok
      { catalog := draft.catalog.withPlaces places
        bases := draft.bases ++ basesAt draft.catalog.size places } := by
  induction places generalizing draft with
  | nil => simp [withPlaces, basesAt]; rfl
  | cons place places ih =>
    obtain ⟨hplace, hrest⟩ := List.forall_mem_cons.1 hfree
    rw [List.map_cons, List.nodup_cons] at hnodup
    rw [List.foldlM_cons, declarePlace_of_free hplace]
    refine (ih hnodup.2 fun other hother => ?_).trans ?_
    · -- the path that is taken now is not that of a later place
      have hne : other.path ≠ place.path := fun he =>
        hnodup.1 (he ▸ List.mem_map_of_mem hother)
      rw [lookup?_add, if_neg hne, hrest other hother]
    · rw [withPlaces_cons, basesAt_cons, size_add, List.append_assoc]

/-- The first path that is taken is an error. -/
theorem foldlM_declarePlace_of_taken {before after : List Place}
    (hnodup : (before.map Place.path).Nodup)
    (hfree : ∀ place ∈ before, draft.catalog.lookup? place.path = none)
    (htaken : draft.catalog.lookup? place.path ≠ none ∨ place.path ∈ before.map Place.path) :
    (before ++ place :: after).foldlM declarePlace draft = .error (.duplicate place.path) := by
  rw [List.foldlM_append, foldlM_declarePlace_of_free hnodup hfree]
  show (place :: after).foldlM declarePlace _ = _
  have hsome : (draft.catalog.withPlaces before).lookup? place.path ≠ none := by
    rw [ne_eq, lookup?_withPlaces_eq_none_iff]
    tauto
  obtain ⟨id, hid⟩ := Option.ne_none_iff_exists'.1 hsome
  rw [List.foldlM_cons, declarePlace_of_taken hid]
  rfl

theorem size_declarePlace (h : declarePlace draft place = .ok draft') :
    draft'.catalog.size = draft.catalog.size + 1 := by
  cases hpath : draft.catalog.lookup? place.path with
  | none =>
    rw [declarePlace_of_free hpath] at h
    cases h
    exact size_add ..
  | some id =>
    rw [declarePlace_of_taken hpath] at h
    cases h

theorem size_of_foldlM_declarePlace {places : List Place}
    (h : places.foldlM declarePlace draft = .ok draft') :
    draft'.catalog.size = draft.catalog.size + places.length := by
  induction places generalizing draft with
  | nil => cases h; rfl
  | cons place places ih =>
    obtain ⟨middle, hfirst, hrest⟩ := Except.bind_eq_ok.1 (List.foldlM_cons.symm.trans h)
    rw [ih hrest, size_declarePlace hfirst, List.length_cons, Nat.succ_add_eq_add_succ]

/-! ### One entry after the other -/

/-- What an entry and the entries behind it declare is declared together. -/
theorem declareAll_cons_eq {first others : List Place} {item : Json} {items : List Json}
    (h : draft.Sound) (declared : ∀ o, outer = some o → draft.catalog.Declares o)
    (hfirst : declareEntry outer draft item = first.foldlM declarePlace draft)
    (hothers : ∀ draft' : Draft, draft'.Sound →
      (∀ o, outer = some o → draft'.catalog.Declares o) →
      draft'.catalog.around outer = draft.catalog.around outer →
      draft'.catalog.size = draft.catalog.size + first.length →
      declareAll outer draft' items = others.foldlM declarePlace draft') :
    declareAll outer draft (item :: items) = (first ++ others).foldlM declarePlace draft := by
  rw [declareAll, List.foldlM_append, ← hfirst]
  cases hmiddle : declareEntry outer draft item with
  | error cause => rfl
  | ok middle =>
    obtain ⟨_, _, hfollows⟩ := (declareEntry_executes item h declared).follows hmiddle
    refine hothers middle hfollows.sound (hfollows.outer_map declared).1 ?_ ?_
    · cases outer with
      | none => rfl
      | some o =>
        have hkept := (hfollows.keeps (declared o rfl)).2
        exact congrArg (fun outline => some (o, outline)) hkept
    · exact size_of_foldlM_declarePlace (hfirst.symm.trans hmiddle)

/-- Entries that describe the type are declared place by place. -/
def Entry.PlaceByPlace (entry : Entry) : Prop :=
  ∀ {item : Json} {draft : Draft} {outer : Option DefId} {nameSpace : Option String},
    entry.DescribedBy item → draft.Sound →
    (∀ o, outer = some o → draft.catalog.Declares o) →
    (outer = none → (item.get? "namespace").bind Json.string? = nameSpace) →
    declareEntry outer draft item =
      (entry.places (draft.catalog.around outer) nameSpace draft.catalog.size).foldlM
        declarePlace draft

/-- If each of some types is declared place by place, so are all of them inside another
one. -/
theorem declareAll_inner_eq_foldlM {entries : List Entry} {items : List Json}
    (hitems : List.Forall₂ Entry.DescribedBy entries items)
    (hall : ∀ e ∈ entries, e.PlaceByPlace) {id : DefId} (nameSpace : Option String)
    {draft : Draft} (h : draft.Sound) (hid : draft.catalog.Declares id) :
    declareAll (some id) draft items =
      (Entry.placesAll (draft.catalog.around (some id)) nameSpace draft.catalog.size
        entries).foldlM declarePlace draft := by
  induction hitems generalizing draft with
  | nil => rw [declareAll, Entry.placesAll]; rfl
  | @cons entry item entries items hitem _ ih =>
    obtain ⟨hentry, hentries⟩ := List.forall_mem_cons.1 hall
    have declared : ∀ o, some id = some o → draft.catalog.Declares o :=
      fun o ho => Option.some.inj ho ▸ hid
    rw [Entry.placesAll]
    refine declareAll_cons_eq h declared (hentry hitem h declared nofun) ?_
    intro draft' hsound declared' haround hsize
    rw [Entry.length_places] at hsize
    rw [ih hentries hsound (declared' id rfl), haround, hsize]

/-- An entry is declared place by place, with the types inside it. -/
theorem Entry.placeByPlace (entry : Entry) : entry.PlaceByPlace := by
  induction entry with
  | mk head base inner ih =>
    intro item draft outer nameSpace hitem hsound declared hspace
    obtain ⟨hhead, hbase, items, hitems, hinner⟩ := Entry.describedBy_mk.1 hitem
    -- only an object has a name
    obtain ⟨fields, rfl⟩ : ∃ fields, item = .object fields := by
      cases item with
      | object fields => exact ⟨fields, rfl⟩
      | _ => exact nomatch hhead.name
    have hhere : declareHead draft outer (.object fields) = _ :=
      declareHead_eq_declarePlace hhead hbase hspace
    have hplan : headPlan (outer.map draft.catalog.outline) (.object fields) = _ :=
      headPlan_eq_placeIn hhead hbase hspace
    rw [declareEntry, Entry.places, map_fst_around, map_snd_around, List.foldlM_cons, hhere]
    show _ = declarePlace draft (draft.catalog.placeIn outer nameSpace head base) >>= _
    cases hplace : declarePlace draft (draft.catalog.placeIn outer nameSpace head base) with
    | error cause => rfl
    | ok middle =>
      rw [hplace] at hhere
      obtain ⟨plan, hplan', hfollows, hid, houtline⟩ := hsound.follows_declareHead declared hhere
      rw [hplan] at hplan'
      cases hplan'
      have hinside := declareAll_inner_eq_foldlM hinner ih nameSpace hfollows.sound hid
      rw [around, Option.map_some, houtline, size_declarePlace hplace] at hinside
      exact (declareNested_eq hitems _ _ middle).trans hinside

/-- The entries of a document are declared place by place.  Of their namespaces those count
that are texts. -/
theorem declareAll_eq_foldlM {types : List (Option String × Entry)} {items : List Json}
    (hitems : DescribeTypesLeniently items types) {draft : Draft} (h : draft.Sound) :
    declareAll none draft items =
      (typePlaces draft.catalog.size types).foldlM declarePlace draft := by
  induction hitems generalizing draft with
  | nil => rw [declareAll, typePlaces]; rfl
  | @cons item type items types hitem _ ih =>
    obtain ⟨nameSpace, entry⟩ := type
    have declared : ∀ o, none = some o → draft.catalog.Declares o := nofun
    rw [typePlaces]
    refine declareAll_cons_eq h declared
      (entry.placeByPlace hitem.2 h declared fun _ => hitem.1) ?_
    intro draft' hsound _ _ hsize
    rw [Entry.length_places] at hsize
    rw [ih hsound, hsize]

end Catalog

end Generics
