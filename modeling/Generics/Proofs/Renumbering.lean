import Generics.Name.Basic
import Generics.Proofs.Known
import Generics.Proofs.Wording

/-!
# Renumbering

The numbers of definitions say in which order they were declared, and nothing else
should depend on them.  A catalog renumbers another one when it has its definitions,
bases apart, under other numbers, and perhaps more definitions besides.  Whatever can
be asked of a type gives the same answer for the renumbered type, names in particular,
and what is built from renumbered types is the renumbered type.

Two cases matter: two catalogs that were declared in different orders, and a catalog
that has grown, in which no number changes.

## Main definitions

* `Descriptor.renumber` — a descriptor with other numbers.
* `Catalog.Renumbers` — a catalog has the definitions of another one under other
  numbers.
* `Catalog.FoundUnder` — and it finds them under the same paths.

## Main results

* `Renumbers.hasFree`, `Renumbers.slots`, `Renumbers.arguments` — the shape of a type.
* `Renumbers.name` — the five names of a type.
* `Renumbers.instantiate`, `Renumbers.baseType`, `Renumbers.makeGeneric` — building types.
* `FoundUnder.resolve` — what a text resolves to.
-/

namespace Generics

namespace Descriptor

mutual

/-- The descriptor with other numbers in it. -/
def renumber (f : DefId → DefId) : Descriptor → Descriptor
  | .named id => .named (f id)
  | .param owner position => .param (f owner) position
  | .constructed id args => .constructed (f id) (renumberAll f args)

/-- Some descriptors with other numbers in them. -/
def renumberAll (f : DefId → DefId) : List Descriptor → List Descriptor
  | [] => []
  | a :: as => renumber f a :: renumberAll f as

end

section Renumber

variable (f : DefId → DefId)

theorem renumberAll_eq_map (args : List Descriptor) :
    renumberAll f args = args.map (renumber f) := by
  induction args with
  | nil => rfl
  | cons a as ih => rw [renumberAll, ih, List.map_cons]

@[simp] theorem renumber_named (id : DefId) : renumber f (.named id) = .named (f id) := by
  rw [renumber]

@[simp] theorem renumber_param (owner : DefId) (position : Nat) :
    renumber f (.param owner position) = .param (f owner) position := by rw [renumber]

@[simp] theorem renumber_constructed (id : DefId) (args : List Descriptor) :
    renumber f (.constructed id args) = .constructed (f id) (args.map (renumber f)) := by
  rw [renumber, renumberAll_eq_map]

theorem map_renumber_placeholders (id : DefId) (n : Nat) :
    (placeholders id n).map (renumber f) = placeholders (f id) n := by
  unfold placeholders
  rw [List.map_map]
  exact List.map_congr_left fun position _ => renumber_param f id position

end Renumber

/-- If no number changes, no descriptor does. -/
theorem renumber_id (ty : Descriptor) : renumber id ty = ty := by
  induction ty with
  | named d => rw [renumber_named, id]
  | param owner position => rw [renumber_param, id]
  | constructed d args ih =>
    have hargs : args.map (renumber id) = args := by rw [List.map_congr_left ih, List.map_id']
    rw [renumber_constructed, hargs, id]

end Descriptor

/-- The definition with another number for the type around it.  Its base is left as it
is, and not to be looked at. -/
def Definition.renumber (f : DefId → DefId) (d : Definition) : Definition :=
  { d with declaring := d.declaring.map f }

namespace Catalog

open Descriptor

/-- The catalog `c'` has the definitions of `c` under other numbers, possibly with other
bases, and it may have more.  The number of optional values is fixed. -/
structure Renumbers (f : DefId → DefId) (c c' : Catalog) : Prop where
  wellNested : c.WellNested
  wellNested' : c'.WellNested
  declares : ∀ {id}, c.Declares id → c'.Declares (f id)
  injective : ∀ {id other}, c.Declares id → c.Declares other → f id = f other → id = other
  definition : ∀ {id}, c.Declares id →
    ((c.definition id).renumber f).SameButBase (c'.definition (f id))
  nullable : ∀ {id}, c.Declares id → (f id = .nullable ↔ id = .nullable)

variable {f : DefId → DefId} {c c' : Catalog}

/-- A catalog that keeps the definitions of another one keeps their numbers. -/
theorem Keeps.renumbers (hk : c.Keeps c') (hsize : c.size ≤ c'.size) (h : c.WellNested)
    (h' : c'.WellNested) : Renumbers id c c' where
  wellNested := h
  wellNested' := h'
  declares hid := declares_of_size_le hsize hid
  injective _ _ he := he
  definition {other} hother := by
    have hsame : (c.definition other).renumber id = c.definition other := by
      rw [Definition.renumber, Option.map_id, id]
    rw [hsame]
    exact hk other hother
  nullable _ := Iff.rfl

namespace Renumbers

variable (h : Renumbers f c c')

include h

/-! ### One definition -/

section Definition

variable {id : DefId} (hid : c.Declares id)

include hid

theorem params : (c'.definition (f id)).params = (c.definition id).params :=
  (h.definition hid).params

theorem definitionName : (c'.definition (f id)).name = (c.definition id).name :=
  (h.definition hid).name

theorem builtin : (c'.definition (f id)).builtin = (c.definition id).builtin :=
  (h.definition hid).builtin

theorem isGeneric : (c'.definition (f id)).isGeneric = (c.definition id).isGeneric := by
  unfold Definition.isGeneric
  rw [h.params hid]

theorem ownSlice {α : Type} (args : List α) :
    (c'.definition (f id)).ownSlice args = (c.definition id).ownSlice args := by
  have hinherited : (c'.definition (f id)).inherited = (c.definition id).inherited :=
    (h.definition hid).inherited
  unfold Definition.ownSlice
  rw [h.params hid, hinherited]

theorem definitionSpace : (c'.definition (f id)).nameSpace = (c.definition id).nameSpace :=
  (h.definition hid).nameSpace

theorem declaring : (c'.definition (f id)).declaring = (c.definition id).declaring.map f :=
  (h.definition hid).declaring

theorem enclosing : c'.enclosing (f id) = (c.enclosing id).map f := by
  induction id using h.wellNested.induction with
  | alone id hd =>
    have hd' : (c'.definition (f id)).declaring = none := by rw [h.declaring hid, hd]; rfl
    rw [enclosing_of_declaring_eq_none hd, enclosing_of_declaring_eq_none hd', List.map_singleton]
  | inside id outer hd ih =>
    have hd' : (c'.definition (f id)).declaring = some (f outer) := by
      rw [h.declaring hid, hd]; rfl
    rw [h.wellNested.enclosing_eq hd, h.wellNested'.enclosing_eq hd', List.map_append,
      ih (h.wellNested.declares_outer hd), List.map_singleton]

theorem outermost : c'.outermost (f id) = f (c.outermost id) := by
  obtain ⟨first, others, hchain⟩ := List.exists_cons_of_ne_nil (enclosing_ne_nil c id)
  rw [Catalog.outermost, Catalog.outermost, h.enclosing hid, hchain]
  rfl

end Definition

theorem outermostSpace {id : DefId} (hid : c.Declares id) :
    (c'.definition (c'.outermost (f id))).nameSpace =
      (c.definition (c.outermost id)).nameSpace := by
  have hdeclared : c.Declares (c.outermost id) :=
    h.wellNested.declares_of_mem_enclosing hid (c.outermost_mem_enclosing id)
  rw [h.outermost hid, h.definitionSpace hdeclared]

/-- The path of a definition is made of names, so it stays the same. -/
theorem path {id : DefId} (hid : c.Declares id) : c'.path (f id) = c.path id := by
  have hnames : (c'.enclosing (f id)).map (fun level => (c'.definition level).name) =
      (c.enclosing id).map fun level => (c.definition level).name := by
    rw [h.enclosing hid, List.map_map]
    refine List.map_congr_left fun level hlevel => ?_
    exact h.definitionName (h.wellNested.declares_of_mem_enclosing hid hlevel)
  unfold Catalog.path
  rw [hnames, h.outermostSpace hid]

/-! ### The shape of a type -/

section Shape

variable {ty : Descriptor} (hty : c.Knows ty)

include hty

theorem hasFree : c'.hasFree (ty.renumber f) = c.hasFree ty := by
  induction ty with
  | named id => rw [renumber_named, hasFree_named, hasFree_named, h.isGeneric (knows_named.1 hty)]
  | param owner position => rw [renumber_param, hasFree_param, hasFree_param]
  | constructed id args ih =>
    have hargs := (knows_constructed.1 hty).2
    rw [renumber_constructed, hasFree_constructed, hasFree_constructed, List.any_map,
      Bool.eq_iff_iff, List.any_eq_true, List.any_eq_true]
    exact exists_congr fun a => and_congr_right fun ha => by
      rw [Function.comp_apply, ih a ha (hargs a ha)]

theorem slots : c'.slots (ty.renumber f) = c.slots ty := by
  induction ty with
  | named id => rw [renumber_named, slots_named, slots_named, h.params (knows_named.1 hty)]
  | param owner position => rw [renumber_param, slots_param, slots_param]
  | constructed id args ih =>
    have hargs := (knows_constructed.1 hty).2
    rw [renumber_constructed, slots_constructed, slots_constructed, slotsAll_eq_sum,
      slotsAll_eq_sum, List.map_map]
    exact congrArg List.sum (List.map_congr_left fun a ha => ih a ha (hargs a ha))

theorem arguments : c'.arguments (ty.renumber f) = (c.arguments ty).map (renumber f) := by
  cases ty with
  | named id =>
    rw [renumber_named, Catalog.arguments, Catalog.arguments, h.params (knows_named.1 hty),
      map_renumber_placeholders]
  | param owner position => rw [renumber_param]; rfl
  | constructed id args => rw [renumber_constructed, Catalog.arguments, Catalog.arguments]

theorem nameSpace? : c'.nameSpace? (ty.renumber f) = c.nameSpace? ty := by
  cases ty with
  | named id => rw [renumber_named]; exact h.definitionSpace (knows_named.1 hty)
  | param owner position =>
    rw [renumber_param]
    exact h.definitionSpace (declares_of_lt_params (knows_param.1 hty))
  | constructed id args =>
    rw [renumber_constructed]
    exact h.definitionSpace (knows_constructed.1 hty).1

end Shape

/-! ### Names -/

theorem paramName {owner : DefId} {position : Nat}
    (hposition : position < (c.definition owner).params.length) :
    c'.paramName (f owner) position = c.paramName owner position := by
  unfold Catalog.paramName
  rw [h.params (declares_of_lt_params hposition), List.getElem?_eq_getElem hposition,
    Option.getD_some, Option.getD_some]

theorem simpleName {ty : Descriptor} (hty : c.Knows ty) :
    c'.simpleName (ty.renumber f) = c.simpleName ty := by
  cases ty with
  | named id => rw [renumber_named]; exact h.definitionName (knows_named.1 hty)
  | param owner position => rw [renumber_param]; exact h.paramName (knows_param.1 hty)
  | constructed id args =>
    rw [renumber_constructed]
    exact h.definitionName (knows_constructed.1 hty).1

theorem qualifiedName? {ty : Descriptor} (hty : c.Knows ty) :
    c'.qualifiedName? (ty.renumber f) = c.qualifiedName? ty := by
  induction ty with
  | named id =>
    rw [renumber_named, Catalog.qualifiedName?, Catalog.qualifiedName?,
      h.path (knows_named.1 hty)]
  | param owner position => rw [renumber_param, Catalog.qualifiedName?, Catalog.qualifiedName?]
  | constructed id args ih =>
    obtain ⟨hid, hargs⟩ := knows_constructed.1 hty
    have hfree : c'.anyFree (args.map (renumber f)) = c.anyFree args := by
      have hall := h.hasFree hty
      rwa [renumber_constructed, Catalog.hasFree, Catalog.hasFree] at hall
    have hnames : (args.map (renumber f)).mapM c'.qualifiedName? =
        args.mapM c.qualifiedName? := by
      rw [List.mapM_map]
      exact List.mapM_congr_left fun a ha => ih a ha (hargs a ha)
    rw [renumber_constructed, Catalog.qualifiedName?, Catalog.qualifiedName?, hfree,
      qualifiedNames?_eq_mapM, qualifiedNames?_eq_mapM, hnames, h.path hid]

theorem levelText {level : DefId} (hlevel : c.Declares level) (args : List String) :
    c'.levelText args (f level) = c.levelText args level := by
  unfold Catalog.levelText
  rw [h.definitionName hlevel, h.ownSlice hlevel]

theorem levelsText (style : NameStyle) {id : DefId} (hid : c.Declares id) (args : List String) :
    c'.levelsText style (f id) args = c.levelsText style id args := by
  cases style with
  | short => exact h.levelText hid args
  | full =>
    have hlevels : (c'.enclosing (f id)).map (c'.levelText args) =
        (c.enclosing id).map (c.levelText args) := by
      rw [h.enclosing hid, List.map_map]
      refine List.map_congr_left fun level hlevel => ?_
      exact h.levelText (h.wellNested.declares_of_mem_enclosing hid hlevel) args
    unfold Catalog.levelsText spaceText
    simp only [hlevels, h.outermostSpace hid]

theorem applicationText (style : NameStyle) {id : DefId} (hid : c.Declares id)
    (args : List String) :
    c'.applicationText style (f id) args = c.applicationText style id args := by
  unfold Catalog.applicationText
  simp only [h.levelsText style hid, h.nullable hid]

theorem written (style : NameStyle) {ty : Descriptor} (hty : c.Knows ty) :
    c'.written style (ty.renumber f) = c.written style ty := by
  induction ty with
  | named id =>
    have hid : c.Declares id := knows_named.1 hty
    rw [renumber_named]
    cases hb : (c.definition id).builtin with
    | none =>
      rw [written_named style hb, written_named style ((h.builtin hid).trans hb), h.params hid,
        h.applicationText style hid]
    | some builtin =>
      rw [written_of_builtin style hb, written_of_builtin style ((h.builtin hid).trans hb)]
  | param owner position =>
    rw [renumber_param, written_param, written_param, h.paramName (knows_param.1 hty)]
  | constructed id args ih =>
    obtain ⟨hid, hargs⟩ := knows_constructed.1 hty
    have htexts : (args.map (renumber f)).map (c'.written style) = args.map (c.written style) := by
      rw [List.map_map]
      exact List.map_congr_left fun a ha => ih a ha (hargs a ha)
    rw [renumber_constructed, written_constructed, written_constructed, htexts,
      h.applicationText style hid]

/-- A type has the same names under its new number. -/
theorem name {ty : Descriptor} (hty : c.Knows ty) : c'.name (ty.renumber f) = c.name ty := by
  unfold Catalog.name
  rw [h.simpleName hty, h.qualifiedName? hty, h.nameSpace? hty, sourceName_eq_written,
    sourceName_eq_written, h.written .short hty, sourceFullName_eq_written,
    sourceFullName_eq_written, h.written .full hty]

/-! ### Building types -/

/-- Arguments are a definition's own placeholders after renumbering only if they were
before. -/
theorem map_renumber_eq_placeholders_iff {id : DefId} (hid : c.Declares id)
    {args : List Descriptor} (hargs : ∀ a ∈ args, c.Knows a) {n : Nat} :
    args.map (renumber f) = placeholders (f id) n ↔ args = placeholders id n := by
  constructor
  · intro he
    have hlen : args.length = n := by simpa using congrArg List.length he
    refine List.ext_getElem (by simpa using hlen) fun i hi hi' => ?_
    have hentry : (args[i]).renumber f = .param (f id) i := by
      have := congrArg (fun l : List Descriptor => l[i]?) he
      simpa [placeholders, hi, hlen ▸ hi] using this
    have hknown : c.Knows args[i] := hargs _ (List.getElem_mem hi)
    have hparam : args[i] = .param id i := by
      cases ha : args[i] with
      | named other => rw [ha, renumber_named] at hentry; cases hentry
      | constructed other inner => rw [ha, renumber_constructed] at hentry; cases hentry
      | param owner position =>
        rw [ha, renumber_param] at hentry
        rw [ha] at hknown
        injection hentry with howner hposition
        have howner := h.injective (declares_of_lt_params (knows_param.1 hknown)) hid howner
        rw [howner, hposition]
    rw [hparam]
    simp [placeholders]
  · rintro rfl
    exact map_renumber_placeholders f id n

theorem generic {id : DefId} (hid : c.Declares id) {args : List Descriptor}
    (hargs : ∀ a ∈ args, c.Knows a) :
    (Descriptor.generic id args).renumber f = .generic (f id) (args.map (renumber f)) := by
  unfold Descriptor.generic
  simp only [List.length_map, h.map_renumber_eq_placeholders_iff hid hargs, ne_eq,
    List.map_eq_nil_iff]
  split
  · exact renumber_named f id
  · exact renumber_constructed f id args

/-- A known placeholder belongs to a definition exactly if the renumbered one belongs to the
renumbered definition. -/
theorem owner_eq_iff {id owner : DefId} {position : Nat} (hid : c.Declares id)
    (hty : c.Knows (.param owner position)) : f owner = f id ↔ owner = id :=
  ⟨h.injective (declares_of_lt_params (knows_param.1 hty)) hid, congrArg f⟩

theorem instantiate {id : DefId} (hid : c.Declares id) {args : List Descriptor}
    (hargs : ∀ a ∈ args, c.Knows a) {ty : Descriptor} (hty : c.Knows ty) :
    (instantiate id args ty).renumber f =
      Catalog.instantiate (f id) (args.map (renumber f)) (ty.renumber f) := by
  induction ty with
  | named other => simp only [instantiate_named, renumber_named]
  | param owner position =>
    have howner := h.owner_eq_iff hid hty
    rw [renumber_param, Catalog.instantiate, Catalog.instantiate]
    simp only [howner, List.getElem?_map]
    split
    · cases args[position]? with
      | none => exact renumber_param f owner position
      | some a => rfl
    · exact renumber_param f owner position
  | constructed other inner ih =>
    obtain ⟨hother, hinner⟩ := knows_constructed.1 hty
    -- whether an application is collapsed is not changed, if its arguments are known
    have hknown : ∀ b ∈ inner.map (Catalog.instantiate id args), c.Knows b := by
      intro b hb
      obtain ⟨a, ha, rfl⟩ := List.mem_map.1 hb
      exact (hinner a ha).instantiate id hargs
    rw [instantiate_constructed, renumber_constructed, instantiate_constructed,
      h.generic hother hknown, List.map_map, List.map_map]
    exact congrArg _ (List.map_congr_left fun a ha => ih a ha (hinner a ha))

/-- The base of the renumbered type is the renumbered base, if this is so for the bases
that are declared. -/
theorem baseType
    (hbases : ∀ {id}, c.Declares id →
      (c'.definition (f id)).base = (c.definition id).base.map (renumber f))
    (hknown : c.BasesKnown) {ty : Descriptor} (hty : c.Knows ty) :
    c'.baseType (ty.renumber f) = (c.baseType ty).map (renumber f) := by
  cases ty with
  | named id => rw [renumber_named]; exact hbases (knows_named.1 hty)
  | param owner position => rw [renumber_param]; rfl
  | constructed id args =>
    obtain ⟨hid, hargs⟩ := knows_constructed.1 hty
    rw [renumber_constructed, Catalog.baseType, Catalog.baseType, hbases hid]
    cases hbase : (c.definition id).base with
    | none => rfl
    | some base => exact congrArg some (h.instantiate hid hargs (hknown hbase)).symm

theorem bindsOnly {id : DefId} (hid : c.Declares id) {ty : Descriptor} (hty : c.Knows ty) :
    c'.bindsOnly (f id) (ty.renumber f) = c.bindsOnly id ty := by
  induction ty with
  | named other =>
    rw [renumber_named, Catalog.bindsOnly, Catalog.bindsOnly, h.isGeneric (knows_named.1 hty)]
  | param owner position =>
    have howner := h.owner_eq_iff hid hty
    rw [renumber_param, Catalog.bindsOnly, Catalog.bindsOnly, Bool.eq_iff_iff, beq_iff_eq,
      beq_iff_eq, howner]
  | constructed other args ih =>
    have hargs := (knows_constructed.1 hty).2
    rw [renumber_constructed, bindsOnly_constructed, bindsOnly_constructed, List.all_map,
      Bool.eq_iff_iff, List.all_eq_true, List.all_eq_true]
    exact forall₂_congr fun a ha => by rw [Function.comp_apply, ih a ha (hargs a ha)]

theorem arityCorrect {ty : Descriptor} (hty : c.Knows ty) (hfits : c.ArityCorrect ty) :
    c'.ArityCorrect (ty.renumber f) := by
  induction ty with
  | named id => rw [renumber_named]; exact throughout_named.2 trivial
  | param owner position =>
    have hposition := knows_param.1 hty
    rw [renumber_param]
    refine throughout_param.2 ?_
    show position < (c'.definition (f owner)).params.length
    rwa [h.params (declares_of_lt_params hposition)]
  | constructed id args ih =>
    obtain ⟨hid, hargs⟩ := knows_constructed.1 hty
    obtain ⟨⟨hg, hl⟩, hfits⟩ := throughout_constructed.1 hfits
    rw [renumber_constructed]
    refine throughout_constructed.2 ⟨⟨?_, ?_⟩, fun b hb => ?_⟩
    · rw [h.isGeneric hid, hg]
    · rw [List.length_map, h.params hid, hl]
    · obtain ⟨a, ha, rfl⟩ := List.mem_map.1 hb
      exact ih a ha (hargs a ha) (hfits a ha)

/-- A renumbered definition can be applied exactly when the definition can; errors call
both by the same name. -/
theorem makeGeneric {id : DefId} (hid : c.Declares id) {args : List Descriptor}
    (hargs : ∀ a ∈ args, c.Knows a) :
    c'.makeGeneric (.named (f id)) (args.map (renumber f)) =
      (c.makeGeneric (.named id) args).map (renumber f) := by
  unfold Catalog.makeGeneric errorName
  simp only [definition?, h.isGeneric hid, h.params hid, h.definitionName hid, List.length_map]
  split_ifs
  · exact congrArg Except.ok (h.generic hid hargs).symm
  · rfl
  · rfl

end Renumbers

/-! ### Resolving names -/

/-- The catalog `c'` finds what `c` finds, under the same paths.  Only under some paths,
which are not known to `c`, it may find something else. -/
structure FoundUnder (f : DefId → DefId) (c c' : Catalog) (fresh : String → Prop) : Prop where
  lookup? : ∀ {path}, ¬ fresh path → c'.lookup? path = (c.lookup? path).map f
  unknown : ∀ {path}, fresh path → c.lookup? path = none

section Resolving

variable (h : Renumbers f c c') {fresh : String → Prop} (hfound : FoundUnder f c c' fresh)

include h

theorem Renumbers.param? {scope : Option DefId} (hscope : ∀ o, scope = some o → c.Declares o)
    (path : String) : c'.param? (scope.map f) path = (c.param? scope path).map (renumber f) := by
  cases scope with
  | none => rfl
  | some owner =>
    unfold Catalog.param?
    rw [Option.map_some, Option.bind_some, Option.bind_some, h.params (hscope owner rfl),
      Option.map_map]
    exact congrArg (fun g => Option.map g _) (funext fun i => (renumber_param f owner i).symm)

include hfound

omit h in
/-- A path that is looked up is one of the paths set apart, or it leads to the same
definition. -/
theorem FoundUnder.resolvePath (path : String) :
    c'.resolvePath path = (c.resolvePath path).map (renumber f) ∨
      fresh path ∧ c.resolvePath path = .error (.unknownType path) := by
  unfold Catalog.resolvePath
  by_cases hfresh : fresh path
  · rw [hfound.unknown hfresh]
    exact Or.inr ⟨hfresh, rfl⟩
  · rw [hfound.lookup? hfresh]
    cases c.lookup? path with
    | none => exact Or.inl rfl
    | some id => exact Or.inl (congrArg Except.ok (renumber_named f id).symm)

/-- A name resolves to the renumbered type, or fails with the same error, unless it comes
to one of the paths set apart. -/
theorem FoundUnder.resolveIn (hc : c.Indexed) {scope : Option DefId}
    (hscope : ∀ o, scope = some o → c.Declares o) (name : TypeName) :
    c'.resolveIn (scope.map f) name = (c.resolveIn scope name).map (renumber f) ∨
      ∃ cause, (∃ path, fresh path ∧ cause = .unknownType path) ∧
        c.resolveIn scope name = .error cause := by
  induction name with
  | node path args ih =>
    by_cases hargs : args = []
    · subst hargs
      rw [resolveIn_leaf, resolveIn_leaf, h.param? hscope]
      cases c.param? scope path with
      | some param => exact Or.inl rfl
      | none =>
        rcases hfound.resolvePath path with hpath | ⟨hfresh, hpath⟩
        · exact Or.inl hpath
        · exact Or.inr ⟨_, ⟨path, hfresh, rfl⟩, hpath⟩
    · rw [resolveIn_application _ _ _ hargs, resolveIn_application _ _ _ hargs]
      rcases hfound.resolvePath path with hpath | ⟨hfresh, hpath⟩
      · rw [hpath]
        cases hdefinition : c.resolvePath path with
        | error cause => exact Or.inl rfl
        | ok definition =>
          obtain ⟨id, hid, rfl⟩ := resolvePath_eq_ok_iff.1 hdefinition
          -- the arguments come next, and they are known if all of them resolve
          rcases Except.mapM_map_or ih with hall | ⟨cause, hapart, hfails⟩
          · cases htys : args.mapM (c.resolveIn scope) with
            | error cause =>
              rw [htys] at hall
              exact Or.inl (by simp only [hall, bind, Except.bind, Except.map])
            | ok tys =>
              have hknown : ∀ a ∈ tys, c.Knows a := by
                intro a ha
                obtain ⟨argument, -, hargument⟩ :=
                  (Except.mapM_eq_ok_iff.1 htys).exists_mem_left ha
                exact hc.knows_resolveIn hargument
              have hmake := h.makeGeneric (hc.of_lookup? hid).1 hknown
              rw [htys] at hall
              refine Or.inl ?_
              simp only [hall, bind, Except.bind, Except.map, renumber_named]
              exact hmake
          · refine Or.inr ⟨cause, hapart, ?_⟩
            simp only [hfails, bind, Except.bind]
      · refine Or.inr ⟨_, ⟨path, hfresh, rfl⟩, ?_⟩
        rw [hpath]
        rfl

/-- A text resolves to the renumbered type, or fails with the same error, unless it comes
to one of the paths set apart. -/
theorem FoundUnder.resolve (hc : c.Indexed) (text : String) :
    c'.resolve text = (c.resolve text).map (renumber f) ∨
      ∃ path, fresh path ∧ c.resolve text = .error (.unknownType path) := by
  unfold Catalog.resolve
  cases TypeName.read text with
  | error cause => exact Or.inl rfl
  | ok name =>
    have hscope : ∀ o, none = some o → c.Declares o := nofun
    rcases hfound.resolveIn h hc hscope name with hname | ⟨_, ⟨path, hfresh, rfl⟩, hfails⟩
    · exact Or.inl hname
    · exact Or.inr ⟨path, hfresh, hfails⟩

end Resolving

end Catalog

end Generics
