import Generics.Proofs.Identity

/-!
# Definitions with one name

In the path of a definition a point ends the namespace and plus signs stand between the levels;
in its full source name there are points in all these places.  So a type that has parameters
nowhere looks like a namespace to the types inside it.  This is the only way in which the names
of two definitions come to be the same, if all texts in them are identifiers.

## Main definitions

* `Catalog.Identified` — every namespace is a row of identifiers, and every declared name and
  every parameter is one.
* `Catalog.layer`, `Catalog.displayed` — what stands between the points of a full source name.
* `Catalog.OuterAsSpace` — the outer types of one definition continue its namespace to that of
  another one.

## Main results

* `WellNested.displayed_eq_iff` — the key and the parameters, as they are displayed.
* `Identified.sameName_iff_displayed_eq` — one name means one display.
* `outerAsSpace_of_append` — where two displays part.
* `sameName_named_iff` — which definitions share a name.
-/

namespace Generics

/-! ### Declared names -/

/-- The arity suffix begins at the first backquote, and there is none in an identifier. -/
theorem stripArity_declaredName {base : String} (h : IsIdentifier base) (ownParams : Nat) :
    stripArity (declaredName base ownParams) = base := by
  have hnone : ∀ ch ∈ base.toList, (ch != '`') = true := by
    intro ch hch
    rw [bne_iff_ne]
    rintro rfl
    exact absurd (h.2 _ hch) (by decide)
  have hcut : ∀ rest : List Char, rest.takeWhile (· != '`') = [] →
      String.ofList ((base.toList ++ rest).takeWhile (· != '`')) = base := by
    intro rest hrest
    rw [List.takeWhile_append_of_pos hnone, hrest, List.append_nil, String.ofList_toList]
  unfold stripArity declaredName
  split
  · rw [← List.append_nil base.toList]
    exact hcut [] rfl
  · rw [String.toList_append, String.toList_append, List.append_assoc]
    exact hcut _ rfl

namespace Catalog

open Descriptor

variable {c : Catalog} {id other : DefId}

/-- Namespaces are identifiers with points between them; what is declared, and the parameters,
are called by identifiers. -/
structure Identified (c : Catalog) : Prop where
  spaces : ∀ id, c.Declares id → ∀ space ∈ (c.definition id).nameSpace,
    ∀ segment ∈ segments space, IsIdentifier segment
  names : ∀ id, c.Declares id → ∃ base, IsIdentifier base ∧
    (c.definition id).name = declaredName base (c.definition id).ownParams.length
  params : ∀ id, c.Declares id → ∀ param ∈ (c.definition id).params, IsIdentifier param

/-- What was declared can only be what is left without the arity suffix. -/
theorem exists_declaredName_iff {name : String} {ownParams : Nat} :
    (∃ base, IsIdentifier base ∧ name = declaredName base ownParams) ↔
      IsIdentifier (stripArity name) ∧ name = declaredName (stripArity name) ownParams := by
  constructor
  · rintro ⟨base, hbase, rfl⟩
    rw [stripArity_declaredName hbase]
    exact ⟨hbase, rfl⟩
  · exact fun ⟨hbase, hname⟩ => ⟨stripArity name, hbase, hname⟩

instance (c : Catalog) : Decidable c.Identified :=
  decidable_of_iff
    (∀ i < c.size, (∀ space ∈ (c.definition ⟨i⟩).nameSpace,
        ∀ segment ∈ segments space, IsIdentifier segment) ∧
      (IsIdentifier (stripArity (c.definition ⟨i⟩).name) ∧ (c.definition ⟨i⟩).name =
        declaredName (stripArity (c.definition ⟨i⟩).name) (c.definition ⟨i⟩).ownParams.length) ∧
      ∀ param ∈ (c.definition ⟨i⟩).params, IsIdentifier param)
    { mp := fun hall => {
        spaces := fun id hid => (hall id.index hid).1
        names := fun id hid => exists_declaredName_iff.2 (hall id.index hid).2.1
        params := fun id hid => (hall id.index hid).2.2 }
      mpr := fun h i hi => ⟨h.spaces ⟨i⟩ hi, exists_declaredName_iff.1 (h.names ⟨i⟩ hi),
        h.params ⟨i⟩ hi⟩ }

/-! ### Between the points -/

/-- A level of a name: what was declared, and the parameters that were declared with it. -/
def layer (c : Catalog) (id : DefId) : String × List String :=
  (stripArity (c.definition id).name, (c.definition id).ownParams)

/-- The segments of the namespace, and behind them the levels, outermost first. -/
def displayed (c : Catalog) (id : DefId) : List (String × List String) :=
  (c.spaceSegments id).map (·, []) ++ (c.enclosing id).map c.layer

/-- What is shared out to the levels of a definition are the parameters declared with them. -/
theorem WellNested.shares_key (h : c.WellNested) (id : DefId) :
    shares (c.key id) (c.definition id).params = c.displayed id := by
  rw [key, shares_append, shares_unshared, sum_unshared, List.drop_zero,
    h.shares_levels id (Nat.le_refl _), displayed]
  refine congrArg _ (List.map_congr_left fun level hlevel => ?_)
  rw [layer, h.ownSlice_params hlevel]

/-- Two definitions are displayed alike if their levels have as many parameters, and these are
called the same. -/
theorem WellNested.displayed_eq_iff (h : c.WellNested) : c.displayed id = c.displayed other ↔
    c.key id = c.key other ∧ (c.definition id).params = (c.definition other).params := by
  rw [← h.shares_key, ← h.shares_key]
  refine ⟨shares_inj (h.sum_key id) (h.sum_key other), fun ⟨hkey, hparams⟩ => ?_⟩
  rw [hkey, hparams]

/-! ### One name, one display -/

/-- The full source name of the definition is made of its levels: built-in types are shown by
keywords, and the definition of optional values by its parameter. -/
def ShownByLevels (c : Catalog) (id : DefId) : Prop :=
  (c.definition id).builtin = none ∧ id ≠ .nullable

instance (c : Catalog) (id : DefId) : Decidable (c.ShownByLevels id) :=
  inferInstanceAs (Decidable (_ ∧ _))

theorem source_named_of_shown (h : c.ShownByLevels id) : c.source (c.spelling (.named id)) =
    .path (c.key id) ((c.definition id).params.map (SourceType.word · 0)) 0 := by
  have hargs : ((c.definition id).params.map Spelling.word).map c.source =
      (c.definition id).params.map (SourceType.word · 0) := by
    rw [List.map_map]
    exact List.map_congr_left fun param _ => source_word param
  rw [spelling_named, source_application h.1, hargs]
  exact applicationSource_of_not fun hone => h.2 hone.1

section Built

variable (built : c.Reachable)

include built

/-- A definition is shown as a keyword, as an optional value, or by its levels. -/
theorem Reachable.source_named_cases (id : DefId) :
    (∃ builtin : Builtin, id = builtin.id ∧
      c.source (c.spelling (.named id)) = .word builtin.keyword 0) ∨
    (id = .nullable ∧ c.source (c.spelling (.named id)) = (SourceType.word "T" 0).optional) ∨
    (c.ShownByLevels id ∧ c.source (c.spelling (.named id)) =
      .path (c.key id) ((c.definition id).params.map (SourceType.word · 0)) 0) := by
  cases hb : (c.definition id).builtin with
  | some builtin =>
    rw [spelling_named]
    exact Or.inl ⟨builtin, built.builtin_eq_some_iff.1 hb, source_of_builtin hb _⟩
  | none =>
    refine Or.inr ?_
    by_cases hid : id = .nullable
    · subst hid
      rw [spelling_named, source_application hb, built.keepsSystem.params_nullable,
        List.map_singleton, List.map_singleton, applicationSource_nullable, source_word]
      exact Or.inl ⟨rfl, rfl⟩
    · exact Or.inr ⟨⟨hb, hid⟩, source_named_of_shown ⟨hb, hid⟩⟩

/-- Only levels show two definitions in the same way. -/
theorem Reachable.source_named_eq_iff (hne : id ≠ other) :
    c.source (c.spelling (.named id)) = c.source (c.spelling (.named other)) ↔
      c.ShownByLevels id ∧ c.ShownByLevels other ∧ c.key id = c.key other ∧
        (c.definition id).params = (c.definition other).params := by
  constructor
  · intro h
    -- a keyword, an optional value and levels never look the same, and of the first two there
    -- is one definition each
    rcases built.source_named_cases id with ⟨builtin, he, hs⟩ | ⟨he, hs⟩ | ⟨hshown, hs⟩ <;>
      rcases built.source_named_cases other with ⟨builtin', he', hs'⟩ | ⟨he', hs'⟩ |
        ⟨hshown', hs'⟩ <;>
      rw [hs, hs'] at h
    · rw [he, he', keyword_inj (SourceType.word.inj h).1] at hne
      exact absurd rfl hne
    · exact absurd h.symm (SourceType.optional_ne_word _ _)
    · cases h
    · exact absurd h (SourceType.optional_ne_word _ _)
    · exact absurd (he.trans he'.symm) hne
    · exact absurd h (SourceType.optional_ne_path _ _ _)
    · cases h
    · exact absurd h.symm (SourceType.optional_ne_path _ _ _)
    · obtain ⟨hkey, hparams, -⟩ := SourceType.path.inj h
      have hword : Function.Injective (SourceType.word · 0) := fun _ _ h =>
        (SourceType.word.inj h).1
      exact ⟨hshown, hshown', hkey, List.map_injective_iff.2 hword hparams⟩
  · rintro ⟨hshown, hshown', hkey, hparams⟩
    rw [source_named_of_shown hshown, source_named_of_shown hshown', hkey, hparams]

theorem Identified.legible_source (hc : c.Identified) (hid : c.Declares id) :
    (c.source (c.spelling (.named id))).Legible := by
  have hbase : ∀ id, c.Declares id → IsIdentifier (stripArity (c.definition id).name) :=
    fun id hid => (exists_declaredName_iff.1 (hc.names id hid)).1
  rcases built.source_named_cases id with ⟨builtin, -, hs⟩ | ⟨-, hs⟩ | ⟨-, hs⟩
  · rw [hs]
    exact .word 0 (isIdentifier_keyword builtin)
  · rw [hs]
    exact (SourceType.Legible.word 0 (by decide)).optional
  · rw [hs]
    refine .path 0 (c.key_ne_nil id) (fun level hlevel => ?_) ?_ fun a ha => ?_
    · exact built.wellNested.isIdentifier_of_mem_key hc.spaces hbase hid hlevel
    · rw [built.wellNested.sum_key, List.length_map]
    · obtain ⟨param, hparam, rfl⟩ := List.mem_map.1 ha
      exact .word 0 (hc.params id hid param hparam)

/-- Two definitions have one name if they are shown by their levels and these are displayed
alike. -/
theorem Identified.sameName_iff_displayed_eq (hc : c.Identified) (hid : c.Declares id)
    (hother : c.Declares other) (hne : id ≠ other) :
    c.sameName (.named id) (.named other) = true ↔
      c.ShownByLevels id ∧ c.ShownByLevels other ∧ c.displayed id = c.displayed other := by
  have hfits : ∀ id, c.ArityCorrect (.named id) := fun id => throughout_named.2 trivial
  rw [sameName_iff, ← built.wellNested.text_source (hfits id),
    ← built.wellNested.text_source (hfits other),
    (hc.legible_source built hid).text_inj (hc.legible_source built hother),
    built.source_named_eq_iff hne, built.wellNested.displayed_eq_iff]

end Built

/-! ### Outer types and namespaces -/

/-- The outermost types around `id`, one or more of them, have no parameters, and their names
continue the namespace of `id` to that of `other`.  From there on, the levels of the two are
called the same and have the same parameters. -/
def OuterAsSpace (c : Catalog) (id other : DefId) : Prop :=
  ∃ outer inner, c.enclosing id = outer ++ inner ∧ outer ≠ [] ∧
    (∀ level ∈ outer, (c.layer level).2 = []) ∧
    c.spaceSegments other = c.spaceSegments id ++ outer.map (fun level => (c.layer level).1) ∧
    (c.enclosing other).map c.layer = inner.map c.layer

/-- Where the levels of `id` begin, the namespace of `other` may end too; if it goes on, it goes
on with levels. -/
theorem outerAsSpace_of_append {between : List (String × List String)}
    (hspace : (c.spaceSegments other).map (·, []) = (c.spaceSegments id).map (·, []) ++ between)
    (hlevels : (c.enclosing id).map c.layer = between ++ (c.enclosing other).map c.layer) :
    (c.spaceSegments id = c.spaceSegments other ∧
      (c.enclosing id).map c.layer = (c.enclosing other).map c.layer) ∨
        c.OuterAsSpace id other := by
  have hpair : Function.Injective fun segment : String => (segment, ([] : List String)) :=
    fun _ _ h => (Prod.mk.inj h).1
  by_cases hne : between = []
  · rw [hne, List.append_nil] at hspace
    rw [hne, List.nil_append] at hlevels
    exact Or.inl ⟨List.map_injective_iff.2 hpair hspace.symm, hlevels⟩
  · refine Or.inr ?_
    obtain ⟨front, names, hsplit, hfront, hnames⟩ := List.map_eq_append_iff.1 hspace
    obtain ⟨outer, inner, henclosing, houter, hinner⟩ := List.map_eq_append_iff.1 hlevels
    obtain rfl := List.map_injective_iff.2 hpair hfront
    have hpairs : outer.map c.layer = names.map (·, []) := houter.trans hnames.symm
    have hlayers : ∀ level ∈ outer, (c.layer level).2 = [] := by
      intro level hlevel
      have hmem : c.layer level ∈ names.map (·, []) := hpairs ▸ List.mem_map_of_mem hlevel
      obtain ⟨name, -, hname⟩ := List.mem_map.1 hmem
      rw [← hname]
    have hfirsts : outer.map (fun level => (c.layer level).1) = names := by
      have hall := congrArg (List.map Prod.fst) hpairs
      rw [List.map_map, List.map_map] at hall
      exact hall.trans (List.map_id names)
    refine ⟨outer, inner, henclosing, ?_, hlayers, by rw [hsplit, hfirsts], hinner.symm⟩
    rintro rfl
    exact hne houter.symm

theorem OuterAsSpace.displayed_eq (h : c.OuterAsSpace id other) :
    c.displayed id = c.displayed other := by
  obtain ⟨outer, inner, henclosing, -, hlayers, hspace, hlevels⟩ := h
  have houter : outer.map c.layer = (outer.map fun level => (c.layer level).1).map (·, []) := by
    rw [List.map_map]
    exact List.map_congr_left fun level hlevel => Prod.ext rfl (hlayers level hlevel)
  rw [displayed, displayed, henclosing, hspace, hlevels, List.map_append, List.map_append, houter,
    List.append_assoc]

/-- The namespace of a definition can be put together from its segments. -/
theorem nameSpace_eq_of_spaceSegments_eq (h : c.spaceSegments id = c.spaceSegments other) :
    (c.definition (c.outermost id)).nameSpace = (c.definition (c.outermost other)).nameSpace := by
  unfold spaceSegments at h
  cases hspace : (c.definition (c.outermost id)).nameSpace with
  | none =>
    cases hspace' : (c.definition (c.outermost other)).nameSpace with
    | none => rfl
    | some space' =>
      rw [hspace, hspace'] at h
      exact absurd h.symm (segments_ne_nil space')
  | some space =>
    cases hspace' : (c.definition (c.outermost other)).nameSpace with
    | none =>
      rw [hspace, hspace'] at h
      exact absurd h (segments_ne_nil space)
    | some space' =>
      rw [hspace, hspace'] at h
      have hsegments : segments space = segments space' := h
      rw [← intercalate_segments space, hsegments, intercalate_segments]

/-- Definitions with the same namespace and the same layers have the same path. -/
theorem Identified.path_eq (hc : c.Identified) (built : c.Reachable) (hid : c.Declares id)
    (hother : c.Declares other) (hspace : c.spaceSegments id = c.spaceSegments other)
    (hlevels : (c.enclosing id).map c.layer = (c.enclosing other).map c.layer) :
    c.path id = c.path other := by
  -- the name of a level is its declared name, with the number of its parameters
  have hnames : ∀ id, c.Declares id →
      (c.enclosing id).map (fun level => (c.definition level).name) =
        ((c.enclosing id).map c.layer).map fun layer => declaredName layer.1 layer.2.length := by
    intro id hid
    rw [List.map_map]
    refine List.map_congr_left fun level hlevel => ?_
    have hdeclared := built.wellNested.declares_of_mem_enclosing hid hlevel
    exact (exists_declaredName_iff.1 (hc.names level hdeclared)).2
  unfold path
  rw [hnames id hid, hnames other hother, hlevels, nameSpace_eq_of_spaceSegments_eq hspace]

/-- Two definitions of a catalog whose namespaces, declared names and parameters are made of
identifiers have different names, unless both are shown by their levels and one of them is the
other with some outer types in the place of a namespace. -/
theorem sameName_named_iff (built : c.Reachable) (hc : c.Identified) (hid : c.Declares id)
    (hother : c.Declares other) (hne : id ≠ other) :
    c.sameName (.named id) (.named other) = true ↔
      c.ShownByLevels id ∧ c.ShownByLevels other ∧
        (c.OuterAsSpace id other ∨ c.OuterAsSpace other id) := by
  have hdistinct : ¬ (c.spaceSegments id = c.spaceSegments other ∧
      (c.enclosing id).map c.layer = (c.enclosing other).map c.layer) := by
    rintro ⟨hspace, hlevels⟩
    exact hne (built.indexed.eq_of_path_eq hid hother
      (hc.path_eq built hid hother hspace hlevels))
  have hdisplayed : c.displayed id = c.displayed other ↔
      c.OuterAsSpace id other ∨ c.OuterAsSpace other id := by
    constructor
    · intro h
      -- one of the namespaces ends first, and there the levels begin
      rcases List.append_eq_append_iff.1 h with ⟨between, hspace, hlevels⟩ |
        ⟨between, hspace, hlevels⟩
      · exact Or.inl ((outerAsSpace_of_append hspace hlevels).resolve_left hdistinct)
      · exact Or.inr ((outerAsSpace_of_append hspace hlevels).resolve_left
          fun ⟨hspaces, hlayers⟩ => hdistinct ⟨hspaces.symm, hlayers.symm⟩)
    · rintro (h | h)
      · exact h.displayed_eq
      · exact h.displayed_eq.symm
  rw [hc.sameName_iff_displayed_eq built hid hother hne, hdisplayed]

/-- ``N.A+B`1`` is called like ``B`1`` in the namespace `N.A`, since `A` has no parameters.
``C`1+D`` is not called like `D` in the namespace `C`. -/
theorem sameName_named_iff_generic :
    let document : Json := .object [("types", .array
      [.object [("name", .string "A"), ("namespace", .string "N"),
        ("nested", .array [.object [("name", .string "B"), ("params", .array [.string "T"])]])],
       .object [("name", .string "B"), ("namespace", .string "N.A"),
         ("params", .array [.string "T"])],
       .object [("name", .string "C"), ("nested", .array [.object [("name", .string "D")]]),
         ("params", .array [.string "T"])],
       .object [("name", .string "D"), ("namespace", .string "C")]])]
    ∃ c, ofJson document = .ok c ∧ c.Identified ∧
      c.sameName (.named ⟨18⟩) (.named ⟨19⟩) = true ∧
      c.sameName (.named ⟨21⟩) (.named ⟨22⟩) = false := by
  intro document
  obtain ⟨c, loaded, hc, hsize, hshown, hsplit, hspaces, hlayer, hlayers, hfree⟩ :=
    exists_ofJson_eq_ok document (P := fun c => c.Identified ∧
      c.Declares ⟨22⟩ ∧ (c.ShownByLevels ⟨18⟩ ∧ c.ShownByLevels ⟨19⟩) ∧
      c.enclosing ⟨18⟩ = [⟨17⟩, ⟨18⟩] ∧
      c.spaceSegments ⟨19⟩ = c.spaceSegments ⟨18⟩ ++ ["A"] ∧
      c.layer ⟨17⟩ = ("A", []) ∧
      (c.enclosing ⟨19⟩).map c.layer = [c.layer ⟨18⟩] ∧
      c.displayed ⟨21⟩ ≠ c.displayed ⟨22⟩) (by decide +kernel)
  have built : c.Reachable := reachable_ofJson loaded
  have hdeclares : ∀ i ≤ 22, c.Declares ⟨i⟩ := fun i hi => Nat.lt_of_le_of_lt hi hsize
  have hone := @sameName_named_iff c ⟨18⟩ ⟨19⟩ built hc (hdeclares 18 (by decide))
    (hdeclares 19 (by decide)) (by decide)
  have htwo := @sameName_named_iff c ⟨21⟩ ⟨22⟩ built hc (hdeclares 21 (by decide))
    (hdeclares 22 (by decide)) (by decide)
  refine ⟨c, loaded, hc, hone.2 ⟨hshown.1, hshown.2, Or.inl ?_⟩, ?_⟩
  · refine ⟨[⟨17⟩], [⟨18⟩], hsplit, List.cons_ne_nil _ _, ?_, ?_, hlayers⟩
    · simp [hlayer]
    · simpa [hlayer] using hspaces
  · rw [Bool.eq_false_iff, Ne, htwo]
    rintro ⟨-, -, h | h⟩
    · exact hfree h.displayed_eq
    · exact hfree h.displayed_eq.symm

/-- Two definitions with different paths and one name. -/
theorem sameName_of_nested_and_nameSpace :
    let document : Json := .object [("types", .array
      [.object [("name", .string "A"), ("namespace", .string "N"),
        ("nested", .array [.object [("name", .string "B")]])],
       .object [("name", .string "B"), ("namespace", .string "N.A")]])]
    ∃ c, ofJson document = .ok c ∧ c.Identified ∧
      c.lookup? "N.A+B" = some ⟨18⟩ ∧ c.lookup? "N.A.B" = some ⟨19⟩ ∧
      c.sourceFullName (.named ⟨18⟩) = "global::N.A.B" ∧
      c.sourceFullName (.named ⟨19⟩) = "global::N.A.B" ∧
      c.sameName (.named ⟨18⟩) (.named ⟨19⟩) = true := by
  intro document
  exact exists_ofJson_eq_ok document (P := fun c => c.Identified ∧
    c.lookup? "N.A+B" = some ⟨18⟩ ∧ c.lookup? "N.A.B" = some ⟨19⟩ ∧
    c.sourceFullName (.named ⟨18⟩) = "global::N.A.B" ∧
    c.sourceFullName (.named ⟨19⟩) = "global::N.A.B" ∧
    c.sameName (.named ⟨18⟩) (.named ⟨19⟩) = true) (by decide +kernel)

end Catalog

end Generics
