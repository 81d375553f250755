import Generics.Proofs.Levels

/-!
# The indexes of a catalog

Beside its definitions a catalog keeps which path belongs to which definition, and
which definition is declared directly inside which.  Both are written when a type is
declared, the path from the text of the declaration; later they are only read.  They
agree with the definitions all the same: the path under which a definition was put in
is the one that can be computed from the types around it at any later time.  The types
inside another one are found from the newest to the oldest and sorted then, so they are
listed as they were declared.

## Main definitions

* `Catalog.Fresh` — what a definition must be like to be declared, and the path under
  which it then is.
* `Catalog.Indexed` — look-up by path and lists of nested types agree with the
  definitions.

## Main results

* `DefId.sort_eq` — what sorting leads to does not depend on the order before.
* `Reachable.rule` — what the initial catalog has, and declarations and bases keep,
  holds of every catalog that can be built.
* `WellNested.path_eq` — the path of a nested type is that of the type around it, with a
  name behind it.
* `Reachable.indexed` — the indexes of every catalog that can be built are right.
* `Reachable.builtin_eq_some_iff` — the built-in types are those declared first, and no
  others.
-/

namespace Generics

theorem Definition.SameButBase.name {d d' : Definition} (h : d.SameButBase d') :
    d'.name = d.name := by
  obtain ⟨base, rfl⟩ := h; rfl

theorem Definition.SameButBase.nameSpace {d d' : Definition} (h : d.SameButBase d') :
    d'.nameSpace = d.nameSpace := by
  obtain ⟨base, rfl⟩ := h; rfl

/-! ### Sorted numbers -/

namespace DefId

/-- One number is not behind another one. -/
def NotAfter (id other : DefId) : Prop :=
  id.index ≤ other.index

theorem perm_insertSorted (id : DefId) (ids : List DefId) :
    List.Perm (id.insertSorted ids) (id :: ids) := by
  induction ids with
  | nil => exact .refl _
  | cons other ids ih =>
    rw [insertSorted]
    split
    · exact .refl _
    · exact (ih.cons other).trans (.swap id other ids)

theorem pairwise_insertSorted (id : DefId) {ids : List DefId} (h : ids.Pairwise NotAfter) :
    (id.insertSorted ids).Pairwise NotAfter := by
  induction ids with
  | nil => exact List.pairwise_singleton _ _
  | cons other ids ih =>
    obtain ⟨hother, hids⟩ := List.pairwise_cons.1 h
    rw [insertSorted]
    by_cases hle : id.index ≤ other.index
    · rw [if_pos hle]
      refine List.pairwise_cons.2 ⟨fun x hx => ?_, h⟩
      rcases List.mem_cons.1 hx with rfl | hx
      · exact hle
      · exact Nat.le_trans hle (hother x hx)
    · rw [if_neg hle]
      refine List.pairwise_cons.2 ⟨fun x hx => ?_, ih hids⟩
      rcases List.mem_cons.1 ((perm_insertSorted id ids).mem_iff.1 hx) with rfl | hx
      · exact Nat.le_of_not_le hle
      · exact hother x hx

/-- Sorting takes nothing away and adds nothing. -/
theorem perm_sort (ids : List DefId) : List.Perm (sort ids) ids := by
  induction ids with
  | nil => exact .refl _
  | cons id ids ih => exact (perm_insertSorted id _).trans (ih.cons id)

theorem pairwise_sort (ids : List DefId) : (sort ids).Pairwise NotAfter := by
  induction ids with
  | nil => exact List.Pairwise.nil
  | cons id ids ih => exact pairwise_insertSorted id ih

/-- The same numbers in ascending order are what sorting leads to, in whatever order it
finds them. -/
theorem sort_eq {ids sorted : List DefId} (h : sorted.Pairwise NotAfter)
    (hperm : List.Perm sorted ids) : sort ids = sorted := by
  refine List.Perm.eq_of_pairwise ?_ (pairwise_sort ids) h ((perm_sort ids).trans hperm.symm)
  intro id other _ _ hle hge
  cases id
  cases other
  exact congrArg mk (Nat.le_antisymm hle hge)

end DefId

namespace Catalog

variable {c c' : Catalog}

/-! ### Paths -/

theorem path_of_declaring_eq_none {id : DefId} (h : (c.definition id).declaring = none) :
    c.path id = outermostPath (c.definition id).nameSpace (c.definition id).name := by
  have houtermost : c.outermost id = id := by
    rw [outermost, enclosing_of_declaring_eq_none h, List.headD_cons]
  have hnames : "+".intercalate ([id].map fun level => (c.definition level).name) =
      (c.definition id).name := by rw [List.map_singleton, String.intercalate_singleton]
  unfold path outermostPath
  rewrite [houtermost, enclosing_of_declaring_eq_none h, hnames]
  rfl

theorem WellNested.outermost_eq (h : c.WellNested) {id outer : DefId}
    (hd : (c.definition id).declaring = some outer) : c.outermost id = c.outermost outer := by
  obtain ⟨first, others, hchain⟩ := List.exists_cons_of_ne_nil (enclosing_ne_nil c outer)
  rw [outermost, outermost, h.enclosing_eq hd, hchain]
  rfl

theorem WellNested.path_eq (h : c.WellNested) {id outer : DefId}
    (hd : (c.definition id).declaring = some outer) :
    c.path id = c.path outer ++ "+" ++ (c.definition id).name := by
  have hne : ((c.enclosing outer).map fun level => (c.definition level).name) ≠ [] := by
    simp [enclosing_ne_nil]
  have hnames : "+".intercalate ((c.enclosing id).map fun level => (c.definition level).name) =
      "+".intercalate ((c.enclosing outer).map fun level => (c.definition level).name) ++ "+" ++
        (c.definition id).name := by
    rw [h.enclosing_eq hd, List.map_append,
      String.intercalate_append_of_ne_nil hne (by simp), List.map_singleton,
      String.intercalate_singleton]
  unfold path
  rw [h.outermost_eq hd, hnames]
  cases (c.definition (c.outermost outer)).nameSpace with
  | none => rfl
  | some space => simp only [String.append_assoc]

/-- The type at the outer end of the nesting stands alone. -/
theorem WellNested.declaring_outermost (h : c.WellNested) (id : DefId) :
    (c.definition (c.outermost id)).declaring = none := by
  induction id using h.induction with
  | alone id hd => rwa [outermost, enclosing_of_declaring_eq_none hd, List.headD_cons]
  | inside id outer hd ih => rwa [h.outermost_eq hd]

/-- The catalog `c'` has the definitions of `c`, possibly with other bases, and it may
have more. -/
def Keeps (c c' : Catalog) : Prop :=
  ∀ id, c.Declares id → (c.definition id).SameButBase (c'.definition id)

theorem keeps_add (c : Catalog) (path : String) (d : Definition) (outer : Option DefId) :
    c.Keeps (c.add path d outer) := by
  intro id hid
  rw [definition_add_of_declares hid]
  exact .refl _

theorem keeps_withBase (c : Catalog) (id : DefId) (base : Descriptor) :
    c.Keeps (c.withBase id base) :=
  fun other _ => (rebased_withBase c id base).definition other

/-- A definition that is kept keeps its path. -/
theorem Keeps.path (hk : c.Keeps c') (h : c.WellNested) (h' : c'.WellNested) {id : DefId}
    (hid : c.Declares id) : c'.path id = c.path id := by
  induction id using h.induction with
  | alone id hd =>
    have hsame := hk id hid
    have hd' : (c'.definition id).declaring = none := by rw [hsame.declaring, hd]
    rw [path_of_declaring_eq_none hd, path_of_declaring_eq_none hd', hsame.name, hsame.nameSpace]
  | inside id outer hd ih =>
    have hsame := hk id hid
    have hd' : (c'.definition id).declaring = some outer := by rw [hsame.declaring, hd]
    rw [h.path_eq hd, h'.path_eq hd', hsame.name, ih (h.declares_outer hd)]

theorem declaring_initial (id : DefId) : (initial.definition id).declaring = none :=
  definition_initial_induction (P := fun d => d.declaring = none) (by decide) rfl id

/-- A system definition has the path with which every catalog starts. -/
theorem KeepsSystem.path (h : c.KeepsSystem) {id : DefId}
    (hid : id.index < systemDefinitions.length) : c.path id = initial.path id := by
  have hsame := h.definition id hid
  have hd : (c.definition id).declaring = none := by rw [hsame.declaring, declaring_initial]
  rw [path_of_declaring_eq_none hd, path_of_declaring_eq_none (declaring_initial id), hsame.name,
    hsame.nameSpace]

theorem KeepsSystem.path_nullable (h : c.KeepsSystem) : c.path .nullable = "System.Nullable`1" := by
  rw [h.path (by decide)]
  decide +kernel

/-! ### What declarations and bases keep -/

/-- A definition as it is declared, with the path under which it is, which is free. -/
structure Fresh (c : Catalog) (path : String) (d : Definition) : Prop where
  free : c.lookup? path = none
  builtin : d.builtin = none
  alone : d.declaring = none → path = outermostPath d.nameSpace d.name
  inside : ∀ {outer : DefId}, d.declaring = some outer → c.Declares outer ∧
    path = c.path outer ++ "+" ++ d.name ∧ d.nameSpace = (c.definition outer).nameSpace

/-- A type that stands alone can be declared under its path. -/
theorem fresh_outermost {nameSpace : Option String} {name : String} {params : List String}
    {visibility : Visibility}
    (free : c.lookup? (outermostPath nameSpace (declaredName name params.length)) = none) :
    c.Fresh (outermostPath nameSpace (declaredName name params.length))
      (outermostDefinition nameSpace name params visibility) :=
  ⟨free, rfl, fun _ => rfl, nofun⟩

/-- A type can be declared inside another one under the path of that type, with its name
behind it. -/
theorem fresh_inner {outer : DefId} {name : String} {params : List String}
    {visibility : Visibility} (declared : c.Declares outer)
    (free : c.lookup? (c.path outer ++ "+" ++ declaredName name params.length) = none) :
    c.Fresh (c.path outer ++ "+" ++ declaredName name params.length)
      (c.innerDefinition outer name params visibility) := by
  refine ⟨free, rfl, nofun, fun he => ?_⟩
  cases he
  exact ⟨declared, rfl, rfl⟩

/-- What the initial catalog has, what a declaration keeps, and what is kept when a base
is exchanged, holds of every catalog that can be built. -/
theorem Reachable.rule {P : Catalog → Prop} (start : P Catalog.initial)
    (add : ∀ {c : Catalog} {path : String} {d : Definition}, c.Reachable →
      (c.add path d d.declaring).Reachable → c.Fresh path d → P c → P (c.add path d d.declaring))
    (withBase : ∀ {c : Catalog} {id : DefId} {base : Descriptor}, c.Reachable →
      (c.withBase id base).Reachable → c.Declares id → P c → P (c.withBase id base))
    (h : c.Reachable) : P c := by
  induction h with
  | initial => exact start
  | @define c c' id nameSpace name params visibility before step ih =>
    have hafter : c'.Reachable := .define before step
    obtain ⟨hfree, -, rfl⟩ := define_eq_ok step
    exact add before hafter (fresh_outermost hfree) ih
  | @defineNested c c' id outer name params visibility before declared step ih =>
    have hafter : c'.Reachable := .defineNested before declared step
    obtain ⟨hfree, -, rfl⟩ := defineNested_eq_ok step
    exact add before hafter (fresh_inner declared hfree) ih
  | @setBase c c' id base before declared step ih =>
    have hafter : c'.Reachable := .setBase before declared step
    obtain ⟨-, rfl⟩ := setBase_eq_ok step
    exact withBase before hafter declared ih

/-- The path of a definition, when it is declared, is the path under which it is put
in. -/
theorem Fresh.path_add {path : String} {d : Definition} (hf : c.Fresh path d)
    (h : c.WellNested) (h' : (c.add path d d.declaring).WellNested) :
    (c.add path d d.declaring).path ⟨c.size⟩ = path := by
  have hd : (c.add path d d.declaring).definition ⟨c.size⟩ = d := by
    rw [definition_add, if_pos rfl]
  cases houter : d.declaring with
  | none =>
    have hnone : ((c.add path d d.declaring).definition ⟨c.size⟩).declaring = none := by
      rw [hd, houter]
    rw [← houter, path_of_declaring_eq_none hnone, hd, ← hf.alone houter]
  | some outer =>
    obtain ⟨hdeclares, hpath, -⟩ := hf.inside houter
    have hsome : ((c.add path d d.declaring).definition ⟨c.size⟩).declaring = some outer := by
      rw [hd, houter]
    rw [← houter, h'.path_eq hsome, hd, (keeps_add c path d d.declaring).path h h' hdeclares,
      ← hpath]

/-! ### Look-up and nested types -/

theorem lookup?_add (c : Catalog) (path : String) (d : Definition) (outer : Option DefId)
    (other : String) : (c.add path d outer).lookup? other =
      if other = path then some ⟨c.size⟩ else c.lookup? other := by
  have hiff : compare path other = .eq ↔ other = path := by
    rw [Std.compare_eq_iff_eq]
    exact eq_comm
  unfold lookup? add
  rw [Std.TreeMap.getElem?_insert]
  simp only [hiff]

/-- The new definition is the first on the walk. -/
theorem neighbors_add (c : Catalog) (path : String) (d : Definition) (outer : Option DefId)
    (id : DefId) : (c.add path d outer).neighbors id =
      (if outer = some id then [⟨c.size⟩] else []) ++ c.neighbors id := by
  unfold neighbors add
  cases outer with
  | none => simp
  | some outer => by_cases h : outer = id <;> simp [h]

/-- As it has the greatest number, it is the last of the sorted list. -/
theorem nested_add {id : DefId} (hold : ∀ {inner}, inner ∈ c.nested id → c.Declares inner) (path : String)
    (d : Definition) (outer : Option DefId) : (c.add path d outer).nested id =
      c.nested id ++ if outer = some id then [⟨c.size⟩] else [] := by
  unfold nested at hold ⊢
  rw [neighbors_add]
  split
  · refine DefId.sort_eq ?_ ?_
    · refine List.pairwise_append.2 ⟨DefId.pairwise_sort _, List.pairwise_singleton _ _, ?_⟩
      intro inner hinner new hnew
      rw [List.mem_singleton.1 hnew]
      exact Nat.le_of_lt (hold hinner)
    · exact List.perm_append_comm.trans ((DefId.perm_sort _).cons _)
  · rw [List.append_nil, List.nil_append]

/-- The numbers of all definitions, in ascending order. -/
def ids (c : Catalog) : List DefId :=
  (List.range c.size).map .mk

theorem mem_ids {id : DefId} : id ∈ c.ids ↔ c.Declares id := by
  unfold ids
  rw [List.mem_map]
  constructor
  · rintro ⟨index, hindex, rfl⟩
    exact List.mem_range.1 hindex
  · intro h
    exact ⟨id.index, List.mem_range.2 h, rfl⟩

theorem ids_add (c : Catalog) (path : String) (d : Definition) (outer : Option DefId) :
    (c.add path d outer).ids = c.ids ++ [⟨c.size⟩] := by
  rw [ids, size_add, List.range_succ, List.map_append]
  rfl

/-- Look-up by path and lists of nested types agree with the definitions. -/
structure Indexed (c : Catalog) : Prop where
  /-- Every definition is found by its path. -/
  lookup?_path : ∀ {id}, c.Declares id → c.lookup? (c.path id) = some id
  /-- What is found by a path is a definition with this path. -/
  of_lookup? : ∀ {path id}, c.lookup? path = some id → c.Declares id ∧ c.path id = path
  /-- The nested types are those declared inside, in ascending order. -/
  nested_eq : ∀ id, c.nested id =
    c.ids.filter fun inner => (c.definition inner).declaring = some id

/-- Nested types are definitions of the catalog. -/
theorem Indexed.declares_nested (h : c.Indexed) {id inner : DefId} (hinner : inner ∈ c.nested id) :
    c.Declares inner := by
  rw [h.nested_eq] at hinner
  exact mem_ids.1 (List.mem_filter.1 hinner).1

/-- Two definitions do not have the same path. -/
theorem Indexed.eq_of_path_eq (h : c.Indexed) {id other : DefId} (hid : c.Declares id)
    (hother : c.Declares other) (he : c.path id = c.path other) : id = other := by
  have hfound := h.lookup?_path hid
  rw [he, h.lookup?_path hother] at hfound
  exact (Option.some.inj hfound).symm

theorem indexed_initial : initial.Indexed where
  lookup?_path {id} hid := by
    have hall : ∀ id ∈ initial.ids, initial.lookup? (initial.path id) = some id := by
      decide +kernel
    exact hall id (mem_ids.2 hid)
  of_lookup? {path id} h := by
    -- a path that is looked up is in the list of all paths
    have hall : ∀ entry ∈ initial.paths.toList,
        initial.Declares entry.2 ∧ initial.path entry.2 = entry.1 := by decide +kernel
    exact hall (path, id) (Std.TreeMap.mem_toList_iff_getElem?_eq_some.2 h)
  nested_eq id := by
    have hnesting : initial.nesting.toList = [] := by decide +kernel
    simp [nested, neighbors, hnesting, DefId.sort, declaring_initial]

theorem Indexed.add (h : c.Indexed) {path : String} {d : Definition} (hf : c.Fresh path d)
    (hc : c.WellNested) (hc' : (c.add path d d.declaring).WellNested) :
    (c.add path d d.declaring).Indexed := by
  have hpath : ∀ {id}, c.Declares id → (c.add path d d.declaring).path id = c.path id :=
    fun hid => (keeps_add c path d d.declaring).path hc hc' hid
  constructor
  case lookup?_path =>
    intro id hid
    rw [lookup?_add]
    by_cases hnew : id.index = c.size
    · obtain rfl : id = ⟨c.size⟩ := by cases id; simp_all
      rw [hf.path_add hc hc', if_pos rfl]
    · have hold : c.Declares id := by
        unfold Declares at hid ⊢
        rw [size_add] at hid
        omega
      -- the path of an older definition is taken, so it is not the new one
      have hne : c.path id ≠ path := by
        intro he
        have hsome := h.lookup?_path hold
        rw [he, hf.free] at hsome
        cases hsome
      rw [hpath hold, if_neg hne, h.lookup?_path hold]
  case of_lookup? =>
    intro other id hid
    unfold Declares
    rw [size_add]
    rw [lookup?_add] at hid
    split at hid
    · next he =>
      cases hid
      exact ⟨Nat.lt_succ_self _, by rw [hf.path_add hc hc', he]⟩
    · obtain ⟨hold, he⟩ := h.of_lookup? hid
      exact ⟨Nat.lt_succ_of_lt hold, by rw [hpath hold, he]⟩
  case nested_eq =>
    intro id
    have hold : (c.ids.filter fun inner =>
        ((c.add path d d.declaring).definition inner).declaring = some id) =
        c.ids.filter fun inner => (c.definition inner).declaring = some id := by
      refine List.filter_congr fun inner hinner => ?_
      rw [definition_add_of_declares (mem_ids.1 hinner)]
    have hnew : ((c.add path d d.declaring).definition ⟨c.size⟩).declaring = d.declaring := by
      rw [definition_add, if_pos rfl]
    rw [nested_add h.declares_nested, ids_add, List.filter_append, hold, h.nested_eq]
    simp [List.filter_cons, hnew]

theorem Indexed.withBase (h : c.Indexed) {id : DefId} {base : Descriptor} (hc : c.WellNested) :
    (c.withBase id base).Indexed := by
  have hrebased := rebased_withBase c id base
  have hpath : ∀ {other}, c.Declares other → (c.withBase id base).path other = c.path other :=
    fun hother => (keeps_withBase c id base).path hc (hc.rebased hrebased) hother
  have hids : (c.withBase id base).ids = c.ids := by rw [ids, size_withBase]; rfl
  constructor
  case lookup?_path =>
    intro other hother
    have hold : c.Declares other := by rwa [Declares, size_withBase] at hother
    rw [hpath hold]
    exact h.lookup?_path hold
  case of_lookup? =>
    intro path other hother
    obtain ⟨hold, he⟩ := h.of_lookup? hother
    rw [hpath hold, Declares, size_withBase]
    exact ⟨hold, he⟩
  case nested_eq =>
    intro other
    rw [nested_withBase, h.nested_eq, hids]
    exact List.filter_congr fun inner _ => by rw [(hrebased.definition inner).declaring]

/-! ### Every catalog that declarations build -/

theorem Reachable.indexed (h : c.Reachable) : c.Indexed :=
  h.rule indexed_initial
    (fun hc hc' hf ih => ih.add hf hc.wellNested hc'.wellNested)
    (fun hc _ _ ih => ih.withBase hc.wellNested)

/-- A type inside another one has the namespace of that type. -/
theorem Reachable.nameSpace_eq (h : c.Reachable) {id outer : DefId}
    (hd : (c.definition id).declaring = some outer) :
    (c.definition id).nameSpace = (c.definition outer).nameSpace := by
  refine h.rule (P := fun c => ∀ id outer, (c.definition id).declaring = some outer →
    (c.definition id).nameSpace = (c.definition outer).nameSpace) ?_ ?_ ?_ id outer hd
  · intro id outer hd
    rw [declaring_initial] at hd
    cases hd
  · intro c path d hc hc' hf ih id outer hd
    by_cases hnew : id.index = c.size
    · rw [definition_add, if_pos hnew] at hd ⊢
      obtain ⟨houter, -, hspace⟩ := hf.inside hd
      rw [hspace, definition_add_of_declares houter]
    · rw [definition_add, if_neg hnew] at hd ⊢
      rw [definition_add_of_declares (hc.wellNested.declares_outer hd)]
      exact ih id outer hd
  · intro c other base hc _ _ ih id outer hd
    have hrebased := rebased_withBase c other base
    rw [(hrebased.definition id).declaring] at hd
    rw [(hrebased.definition id).nameSpace, (hrebased.definition outer).nameSpace]
    exact ih id outer hd

/-- A type has the namespace of the outermost type around it. -/
theorem Reachable.nameSpace_outermost (h : c.Reachable) (id : DefId) :
    (c.definition id).nameSpace = (c.definition (c.outermost id)).nameSpace := by
  have hc := h.wellNested
  induction id using hc.induction with
  | alone id hd => rw [outermost, enclosing_of_declaring_eq_none hd, List.headD_cons]
  | inside id outer hd ih => rw [hc.outermost_eq hd, h.nameSpace_eq hd, ih]

theorem builtin_initial_eq_some_iff {id : DefId} {b : Builtin} :
    (initial.definition id).builtin = some b ↔ id = b.id := by
  have hid : id = b.id ↔ id.index = b.ordinal := by
    constructor
    · rintro rfl; rfl
    · intro h; cases id; cases h; rfl
  have hall : ∀ i < systemDefinitions.length, ∀ b ∈ Builtin.all,
      (systemDefinitions[i]?.getD {}).builtin = some b ↔ i = b.ordinal := by decide +kernel
  rw [hid, definition_initial]
  by_cases hlt : id.index < systemDefinitions.length
  · exact hall id.index hlt b b.mem_all
  · have hb : b.ordinal < 15 := b.ordinal_lt
    have hlen : systemDefinitions.length = 17 := rfl
    rw [List.getElem?_eq_none (Nat.le_of_not_lt hlt)]
    simp
    omega

/-- The built-in types are those that the initial catalog declares as such. -/
theorem Reachable.builtin_eq_some_iff (h : c.Reachable) {id : DefId} {b : Builtin} :
    (c.definition id).builtin = some b ↔ id = b.id := by
  refine h.rule (P := fun c => ∀ id, (c.definition id).builtin = some b ↔ id = b.id)
    (fun id => builtin_initial_eq_some_iff) ?_ ?_ id
  · intro c path d hc _ hf ih id
    rw [definition_add]
    split
    · next hnew =>
      have hsize : 17 ≤ c.size := hc.keepsSystem.size_le
      have hb : b.ordinal < 15 := b.ordinal_lt
      rw [hf.builtin]
      refine ⟨nofun, ?_⟩
      rintro rfl
      have : b.ordinal = c.size := hnew
      omega
    · exact ih id
  · intro c other base _ _ _ ih id
    rw [((rebased_withBase c other base).definition id).builtin]
    exact ih id

end Catalog

end Generics
