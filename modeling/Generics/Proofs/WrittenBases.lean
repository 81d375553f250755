import Generics.Proofs.Renumbering

/-!
# Written bases

The written bases of a document are resolved one after the other, each in the catalog in
which those before it are set already.  But resolving looks at paths and parameters, not
at bases, so every written base can be resolved before any is set, and it makes no
difference which of them comes first.

## Main definitions

* `Catalog.checkBase` — the base that is written for a definition, or why it is refused.
* `Catalog.writtenBase?` — the base alone.
* `Catalog.findBases`, `Catalog.withBases` — all of them found, and all of them set.

## Main results

* `setWrittenBases_eq` — setting written bases is checking all of them and then setting
  them.
* `toOption_setWrittenBases` — so it is finding and then setting them.
* `base_withBases_of_mem`, `base_withBases_of_not_mem` — the bases that there are then.
* `FoundUnder.writtenBase?` — renumbered definitions have renumbered bases.
-/

namespace Generics.Catalog

open Descriptor

variable {f : DefId → DefId} {c c' d d' : Catalog}

/-! ### Other bases -/

theorem Rebased.refl (c : Catalog) : c.Rebased c :=
  ⟨fun _ => .refl _, fun _ => rfl, fun _ => rfl⟩

theorem Rebased.trans (h : c.Rebased c') (h' : c'.Rebased d) : c.Rebased d where
  definition id := (h.definition id).trans (h'.definition id)
  lookup? path := (h'.lookup? path).trans (h.lookup? path)
  nested id := (h'.nested id).trans (h.nested id)

/-- Whether a catalog renumbers another one does not depend on bases. -/
theorem Renumbers.rebased (h : Renumbers f c c') (hc : c.Rebased d) (hsize : d.size = c.size)
    (hc' : c'.Rebased d') (hsize' : d'.size = c'.size) : Renumbers f d d' := by
  have declares : ∀ {id}, d.Declares id ↔ c.Declares id := by
    intro id
    unfold Declares
    rw [hsize]
  refine ⟨h.wellNested.rebased hc, h.wellNested'.rebased hc', fun hid => ?_, fun hid hother => ?_,
    fun {id} hid => ?_, fun hid => h.nullable (declares.1 hid)⟩
  · unfold Declares
    rw [hsize']
    exact h.declares (declares.1 hid)
  · exact h.injective (declares.1 hid) (declares.1 hother)
  · obtain ⟨base, he⟩ := hc.definition id
    have hsame : ((d.definition id).renumber f).SameButBase ((c.definition id).renumber f) := by
      rw [he]
      exact ⟨(c.definition id).base, rfl⟩
    exact (hsame.trans (h.definition (declares.1 hid))).trans (hc'.definition (f id))

/-- Nor does it depend on them what is found under a path. -/
theorem FoundUnder.rebased {fresh : String → Prop} (h : FoundUnder f c c' fresh)
    (hc : c.Rebased d) (hc' : c'.Rebased d') : FoundUnder f d d' fresh where
  lookup? hpath := by rw [hc'.lookup?, hc.lookup?, h.lookup? hpath]
  unknown hpath := by rw [hc.lookup?, h.unknown hpath]

theorem Renumbers.refl (h : c.WellNested) : Renumbers id c c :=
  Keeps.renumbers (fun _ _ => .refl _) (Nat.le_refl _) h h

theorem FoundUnder.refl (c : Catalog) : FoundUnder id c c fun _ => False where
  lookup? _ := by rw [Option.map_id, id]
  unknown h := h.elim

/-! ### One base -/

/-- The base that is written for a definition, if it resolves and has no free parameters
of other types. -/
def writtenBase? (c : Catalog) (id : DefId) (text : String) : Option Descriptor :=
  match TypeName.read text with
  | .error _ => none
  | .ok name => (c.resolveIn (some id) name).toOption.filter (c.bindsOnly id)

/-- What is written for a renumbered definition is the renumbered base. -/
theorem FoundUnder.writtenBase? (hfound : FoundUnder f c c' fun _ => False)
    (h : Renumbers f c c') (hc : c.Indexed) {id : DefId} (hid : c.Declares id) (text : String) :
    c'.writtenBase? (f id) text = (c.writtenBase? id text).map (renumber f) := by
  unfold Catalog.writtenBase?
  cases TypeName.read text with
  | error cause => rfl
  | ok name =>
    have hscope : ∀ o, some id = some o → c.Declares o := fun o ho => Option.some.inj ho ▸ hid
    have hname : c'.resolveIn (some (f id)) name =
        (c.resolveIn (some id) name).map (renumber f) := by
      rcases hfound.resolveIn h hc hscope name with hsame | ⟨_, ⟨_, hnever, -⟩, -⟩
      · exact hsame
      · exact hnever.elim
    show (c'.resolveIn (some (f id)) name).toOption.filter (c'.bindsOnly (f id)) =
      ((c.resolveIn (some id) name).toOption.filter (c.bindsOnly id)).map (renumber f)
    rw [hname]
    cases hty : c.resolveIn (some id) name with
    | error cause => rfl
    | ok ty =>
      have hbinds := h.bindsOnly hid (hc.knows_resolveIn hty)
      simp only [Except.map, Except.toOption, Option.filter, hbinds]
      split_ifs <;> rfl

/-- The base that is written for a definition, or why it is refused. -/
def checkBase (c : Catalog) (id : DefId) (text : String) : Except LoadError Descriptor := do
  let name ← (TypeName.read text).mapError fun cause => .resolve (.malformed cause)
  let ty ← (c.resolveIn (some id) name).mapError .resolve
  if c.bindsOnly id ty then .ok ty else .error (.ofDefine c (.foreignBase id ty))

theorem toOption_checkBase (c : Catalog) (id : DefId) (text : String) :
    (c.checkBase id text).toOption = c.writtenBase? id text := by
  unfold checkBase Catalog.writtenBase?
  cases TypeName.read text with
  | error cause => rfl
  | ok name =>
    cases hty : c.resolveIn (some id) name with
    | error cause => simp [bind, Except.bind, Except.mapError, hty, Except.toOption]
    | ok ty =>
      simp only [bind, Except.bind, Except.mapError, hty, Except.toOption, Option.filter]
      split_ifs <;> rfl

/-- A written base is set if the check has nothing against it. -/
theorem setWrittenBase_eq (c : Catalog) (id : DefId) (text : String) :
    c.setWrittenBase id text = (c.checkBase id text).map (c.withBase id) := by
  unfold setWrittenBase checkBase
  cases TypeName.read text with
  | error cause => rfl
  | ok name =>
    cases hty : c.resolveIn (some id) name with
    | error cause => simp [bind, Except.bind, Except.mapError, hty, Except.map]
    | ok ty =>
      simp only [bind, Except.bind, Except.mapError, hty, setBase_eq_ite]
      split_ifs <;> rfl

/-- The check comes to the same result, and calls types by the same names, whatever bases
there are already. -/
theorem Rebased.checkBase (h : c.Rebased d) (hsize : d.size = c.size) (hw : c.WellNested)
    (hc : c.Indexed) {id : DefId} (hid : c.Declares id) (text : String) :
    d.checkBase id text = c.checkBase id text := by
  have hr := (Renumbers.refl hw).rebased (.refl c) rfl h hsize
  have hfound := (FoundUnder.refl c).rebased (.refl c) h
  have hscope : ∀ o, some id = some o → c.Declares o := fun o ho => Option.some.inj ho ▸ hid
  have hresolve : ∀ name, d.resolveIn (some id) name = c.resolveIn (some id) name := by
    intro name
    rcases hfound.resolveIn hr hc hscope name with hsame | ⟨_, ⟨_, hnever, -⟩, -⟩
    · exact hsame.trans (Except.map_eq_self (fun ty => renumber_id ty) _)
    · exact hnever.elim
  have hnames : ∀ ty, c.Knows ty →
      LoadError.ofDefine d (.foreignBase id ty) = .ofDefine c (.foreignBase id ty) := by
    intro ty hty
    have hwritten := hr.written .full hty
    have hpath : d.path id = c.path id := hr.path hid
    rw [renumber_id] at hwritten
    rw [LoadError.ofDefine, LoadError.ofDefine, sourceFullName_eq_written,
      sourceFullName_eq_written, hwritten, hpath]
  unfold Catalog.checkBase
  cases TypeName.read text with
  | error cause => rfl
  | ok name =>
    show (d.resolveIn (some id) name).mapError _ >>= _ =
      (c.resolveIn (some id) name).mapError _ >>= _
    rw [hresolve]
    cases hty : c.resolveIn (some id) name with
    | error cause => rfl
    | ok ty =>
      show (if d.bindsOnly id ty then _ else _) = if c.bindsOnly id ty then _ else _
      rw [h.bindsOnly, hnames ty (hc.knows_resolveIn hty)]

/-! ### All bases -/

theorem declares_withBase {id other : DefId} {base : Descriptor} :
    (c.withBase id base).Declares other ↔ c.Declares other := by
  unfold Declares
  rw [size_withBase]

/-- The bases that are written for some definitions, if all of them can be found. -/
def findBases (c : Catalog) (bases : List (DefId × String)) : Option (List (DefId × Descriptor)) :=
  bases.mapM fun entry => (c.writtenBase? entry.1 entry.2).map fun base => (entry.1, base)

/-- The catalog with some bases set. -/
def withBases (c : Catalog) (found : List (DefId × Descriptor)) : Catalog :=
  found.foldl (fun c entry => c.withBase entry.1 entry.2) c

theorem withBases_cons (c : Catalog) (id : DefId) (base : Descriptor)
    (found : List (DefId × Descriptor)) :
    c.withBases ((id, base) :: found) = (c.withBase id base).withBases found := rfl

theorem rebased_withBases (c : Catalog) (found : List (DefId × Descriptor)) :
    c.Rebased (c.withBases found) ∧ (c.withBases found).size = c.size := by
  induction found generalizing c with
  | nil => exact ⟨.refl c, rfl⟩
  | cons entry found ih =>
    obtain ⟨id, base⟩ := entry
    obtain ⟨hrebased, hsize⟩ := ih (c.withBase id base)
    rw [withBases_cons]
    exact ⟨(rebased_withBase c id base).trans hrebased, hsize.trans (size_withBase c id base)⟩

/-- A definition that no base is set for keeps its base. -/
theorem base_withBases_of_not_mem {found : List (DefId × Descriptor)}
    (declared : ∀ entry ∈ found, c.Declares entry.1) {id : DefId}
    (hid : id ∉ found.map Prod.fst) :
    ((c.withBases found).definition id).base = (c.definition id).base := by
  induction found generalizing c with
  | nil => rfl
  | cons entry found ih =>
    obtain ⟨other, base⟩ := entry
    obtain ⟨hother, hrest⟩ := List.forall_mem_cons.1 declared
    rw [List.map_cons, List.mem_cons, not_or] at hid
    have hdeclared : ∀ entry ∈ found, (c.withBase other base).Declares entry.1 :=
      fun entry hentry => declares_withBase.2 (hrest entry hentry)
    rw [withBases_cons, ih hdeclared hid.2, definition_withBase c hother, if_neg hid.1]

/-- If a base is set for each definition once, each has the one that is set for it. -/
theorem base_withBases_of_mem {found : List (DefId × Descriptor)}
    (declared : ∀ entry ∈ found, c.Declares entry.1) (hnodup : (found.map Prod.fst).Nodup)
    {id : DefId} {base : Descriptor} (hmem : (id, base) ∈ found) :
    ((c.withBases found).definition id).base = some base := by
  induction found generalizing c with
  | nil => exact absurd hmem List.not_mem_nil
  | cons entry found ih =>
    obtain ⟨other, first⟩ := entry
    obtain ⟨hother, hrest⟩ := List.forall_mem_cons.1 declared
    rw [List.map_cons, List.nodup_cons] at hnodup
    have hdeclared : ∀ entry ∈ found, (c.withBase other first).Declares entry.1 :=
      fun entry hentry => declares_withBase.2 (hrest entry hentry)
    rw [withBases_cons]
    rcases List.mem_cons.1 hmem with he | hmem
    · cases he
      rw [base_withBases_of_not_mem hdeclared hnodup.1, definition_withBase c hother, if_pos rfl]
    · exact ih hdeclared hnodup.2 hmem

/-- All bases are found if each of them is. -/
theorem exists_findBases_iff {bases : List (DefId × String)} :
    (∃ found, c.findBases bases = some found) ↔
      ∀ entry ∈ bases, ∃ base, c.writtenBase? entry.1 entry.2 = some base := by
  unfold findBases
  constructor
  · rintro ⟨found, hfound⟩ entry hentry
    have hall := Option.mapM_eq_some_iff.1 hfound
    obtain ⟨result, -, hresult⟩ := hall.flip.exists_mem_left hentry
    obtain ⟨base, hbase, -⟩ := Option.map_eq_some_iff.1 hresult
    exact ⟨base, hbase⟩
  · intro h
    refine Option.exists_mapM_eq_some fun entry hentry => ?_
    obtain ⟨base, hbase⟩ := h entry hentry
    exact ⟨(entry.1, base), by rw [hbase, Option.map_some]⟩

/-- What is found are the written bases, each for its definition. -/
theorem findBases_eq_some {bases : List (DefId × String)} {found : List (DefId × Descriptor)}
    (h : c.findBases bases = some found) : found.map Prod.fst = bases.map Prod.fst ∧
      ∀ entry ∈ bases, ∃ base, c.writtenBase? entry.1 entry.2 = some base ∧
        (entry.1, base) ∈ found := by
  have hall := Option.mapM_eq_some_iff.1 h
  clear h
  induction hall with
  | nil => exact ⟨rfl, fun entry hentry => absurd hentry List.not_mem_nil⟩
  | @cons entry result bases found hfirst _ ih =>
    obtain ⟨base, hbase, rfl⟩ := Option.map_eq_some_iff.1 hfirst
    refine ⟨by rw [List.map_cons, List.map_cons, ih.1], ?_⟩
    intro other hother
    rcases List.mem_cons.1 hother with rfl | hother
    · exact ⟨base, hbase, List.mem_cons_self⟩
    · obtain ⟨base', hbase', hmem⟩ := ih.2 other hother
      exact ⟨base', hbase', List.mem_cons_of_mem _ hmem⟩

/-- The bases that are written for some definitions, or why the first of those is refused
that are. -/
def checkBases (c : Catalog) (bases : List (DefId × String)) :
    Except LoadError (List (DefId × Descriptor)) :=
  bases.mapM fun entry => (c.checkBase entry.1 entry.2).map fun base => (entry.1, base)

theorem checkBases_cons (c : Catalog) (id : DefId) (text : String) (bases : List (DefId × String)) :
    c.checkBases ((id, text) :: bases) = (do
      let base ← c.checkBase id text
      let found ← c.checkBases bases
      .ok ((id, base) :: found)) := by
  rw [checkBases, List.mapM_cons]
  cases c.checkBase id text <;> rfl

theorem toOption_checkBases (c : Catalog) (bases : List (DefId × String)) :
    (c.checkBases bases).toOption = c.findBases bases := by
  unfold checkBases findBases
  rw [Except.toOption_mapM]
  refine List.mapM_congr_left fun entry _ => ?_
  rw [← toOption_checkBase]
  cases c.checkBase entry.1 entry.2 <;> rfl

/-- Written bases are checked as if none of them were set yet, and then they are set. -/
theorem setWrittenBases_eq (hw : c.WellNested) (hc : c.Indexed)
    {bases : List (DefId × String)} (declared : ∀ entry ∈ bases, c.Declares entry.1) :
    c.setWrittenBases bases = (c.checkBases bases).map c.withBases := by
  induction bases generalizing c with
  | nil => rfl
  | cons entry bases ih =>
    obtain ⟨id, text⟩ := entry
    obtain ⟨hid, hrest⟩ := List.forall_mem_cons.1 declared
    rw [setWrittenBases, setWrittenBase_eq, checkBases_cons]
    cases c.checkBase id text with
    | error cause => rfl
    | ok base =>
      have hrebased := rebased_withBase c id base
      have hdeclared : ∀ entry ∈ bases, (c.withBase id base).Declares entry.1 :=
        fun entry hentry => declares_withBase.2 (hrest entry hentry)
      -- the base that was set does not matter for those that follow
      have hsame : (c.withBase id base).checkBases bases = c.checkBases bases := by
        refine List.mapM_congr_left fun entry hentry => ?_
        rw [hrebased.checkBase (size_withBase c id base) hw hc (hrest entry hentry)]
      show (c.withBase id base).setWrittenBases bases =
        (c.checkBases bases >>= fun found => .ok ((id, base) :: found)).map c.withBases
      rw [ih (hw.rebased hrebased) (hc.withBase hw) hdeclared, hsame]
      cases c.checkBases bases <;> rfl

theorem toOption_setWrittenBases (hw : c.WellNested) (hc : c.Indexed)
    {bases : List (DefId × String)} (declared : ∀ entry ∈ bases, c.Declares entry.1) :
    (c.setWrittenBases bases).toOption = (c.findBases bases).map c.withBases := by
  rw [setWrittenBases_eq hw hc declared, ← toOption_checkBases]
  cases c.checkBases bases <;> rfl

end Generics.Catalog
