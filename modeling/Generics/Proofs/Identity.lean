import Generics.Name.Basic
import Generics.Proofs.Applying
import Generics.Proofs.Known
import Generics.Proofs.SourceTypes

/-!
# Types and their names

Two types are the same if their full source names are.  Where all names are identifiers,
no parameter is called like a keyword and no two definitions are shown alike, this is so
for a reason: up to the names of placeholders, and up to the form of a generic definition,
the type can be read off its name.

## Main definitions

* `Spelling`, `Catalog.spelling` — a type with all generic definitions applied, and with
  names in place of placeholders.
* `Catalog.key` — the namespace and the levels that the name of a definition shows.
* `Catalog.Legible` — what a catalog must be like for its names to be read.
* `Catalog.source` — a spelling as source text shows it.

## Main results

* `WellNested.text_source` — the full source name is the text of the spelling.
* `Legible.source_inj` — source text shows different spellings differently.
* `sourceFullName_eq_iff` — **types with one name have one spelling; closed types with one
  name are the same.**
-/

namespace Generics

/-! ### Spellings -/

/-- A type in which every generic definition is applied, and every placeholder is the name
of a parameter. -/
inductive Spelling where
  | word (name : String)
  | application (definition : DefId) (args : List Spelling)

/-- Induction over spellings, with a hypothesis for every argument. -/
@[elab_as_elim, induction_eliminator]
theorem Spelling.induction {motive : Spelling → Prop} (word : ∀ name, motive (.word name))
    (application : ∀ definition args, (∀ a ∈ args, motive a) →
      motive (.application definition args)) (x : Spelling) : motive x :=
  @Spelling.rec motive (fun args => ∀ a ∈ args, motive a) word
    (fun definition args ih => application definition args ih)
    (fun _ h => absurd h List.not_mem_nil)
    (fun _ _ head tail _ h => (List.mem_cons.1 h).elim (fun e => e ▸ head) (tail _)) x

/-- The parts of a namespace between its dots. -/
def segments (space : String) : List String :=
  (space.toList.splitOn '.').map String.ofList

theorem intercalate_segments (space : String) : ".".intercalate (segments space) = space := by
  rw [← String.toList_inj, String.toList_intercalate, segments, List.map_map]
  have hchars : String.toList ∘ String.ofList = id := funext fun l => String.toList_ofList
  rw [hchars, List.map_id]
  exact List.intercalate_splitOn '.'

theorem segments_ne_nil (space : String) : segments space ≠ [] := by
  simp [segments, List.splitOn_ne_nil]

namespace Catalog

open Descriptor

mutual

/-- The type with every generic definition applied to its own placeholders, and with every
placeholder replaced by its declared name. -/
def spelling (c : Catalog) : Descriptor → Spelling
  | .named id => .application id ((c.definition id).params.map .word)
  | .param owner position => .word (c.paramName owner position)
  | .constructed id args => .application id (c.spellings args)

/-- The spellings of some types. -/
def spellings (c : Catalog) : List Descriptor → List Spelling
  | [] => []
  | a :: as => c.spelling a :: c.spellings as

end

theorem spellings_eq_map (c : Catalog) (args : List Descriptor) :
    c.spellings args = args.map c.spelling := by
  induction args with
  | nil => rfl
  | cons a as ih => rw [spellings, ih, List.map_cons]

variable {c : Catalog}

@[simp] theorem spelling_named (id : DefId) :
    c.spelling (.named id) = .application id ((c.definition id).params.map .word) := by
  rw [spelling]

@[simp] theorem spelling_param (owner : DefId) (position : Nat) :
    c.spelling (.param owner position) = .word (c.paramName owner position) := by
  rw [spelling]

@[simp] theorem spelling_constructed (id : DefId) (args : List Descriptor) :
    c.spelling (.constructed id args) = .application id (args.map c.spelling) := by
  rw [spelling, spellings_eq_map]

/-! ### What the name of a definition shows -/

/-- The namespace of the outermost type around a definition, in its segments. -/
def spaceSegments (c : Catalog) (id : DefId) : List String :=
  match (c.definition (c.outermost id)).nameSpace with
  | some space => segments space
  | none => []

/-- A level of a name: the declared name, and how many parameters are declared with it. -/
def level (c : Catalog) (id : DefId) : String × Nat :=
  (stripArity (c.definition id).name, (c.definition id).ownParams.length)

/-- The segments of the namespace, and behind them the levels, each with the number of its
own parameters. -/
def key (c : Catalog) (id : DefId) : List (String × Nat) :=
  (c.spaceSegments id).map (·, 0) ++ (c.enclosing id).map c.level

/-- Namespaces and names are made of identifiers, no parameter is called like a keyword, and
no two definitions are shown alike. -/
structure Legible (c : Catalog) : Prop where
  spaces : ∀ id, c.Declares id → ∀ space ∈ (c.definition id).nameSpace,
    ∀ segment ∈ segments space, IsIdentifier segment
  /-- The declared name is what stands in front of the arity suffix. -/
  names : ∀ id, c.Declares id → IsIdentifier (stripArity (c.definition id).name)
  params : ∀ id, c.Declares id → ∀ param ∈ (c.definition id).params, IsIdentifier param
  keywords : ∀ id, c.Declares id → ∀ param ∈ (c.definition id).params,
    ∀ builtin : Builtin, param ≠ builtin.keyword
  keys : ∀ id other, c.Declares id → c.Declares other → c.key id = c.key other → id = other

/-- What is asked of all definitions is asked of finitely many. -/
instance (c : Catalog) : Decidable c.Legible :=
  decidable_of_iff
    ((∀ i < c.size, (∀ space ∈ (c.definition ⟨i⟩).nameSpace,
        ∀ segment ∈ segments space, IsIdentifier segment) ∧
      IsIdentifier (stripArity (c.definition ⟨i⟩).name) ∧
      (∀ param ∈ (c.definition ⟨i⟩).params, IsIdentifier param) ∧
      ∀ param ∈ (c.definition ⟨i⟩).params, ∀ builtin ∈ Builtin.all, param ≠ builtin.keyword) ∧
      ∀ i < c.size, ∀ j < c.size, c.key ⟨i⟩ = c.key ⟨j⟩ → i = j)
    { mp := fun ⟨hall, hkeys⟩ => {
        spaces := fun id hid => (hall id.index hid).1
        names := fun id hid => (hall id.index hid).2.1
        params := fun id hid => (hall id.index hid).2.2.1
        keywords := fun id hid param hparam builtin =>
          (hall id.index hid).2.2.2 param hparam builtin builtin.mem_all
        keys := fun id other hid hother hkey =>
          congrArg DefId.mk (hkeys id.index hid other.index hother hkey) }
      mpr := fun h => ⟨fun i hi => ⟨h.spaces ⟨i⟩ hi, h.names ⟨i⟩ hi, h.params ⟨i⟩ hi,
          fun param hparam builtin _ => h.keywords ⟨i⟩ hi param hparam builtin⟩,
        fun i hi j hj hkey => congrArg DefId.index (h.keys ⟨i⟩ ⟨j⟩ hi hj hkey)⟩ }

/-- Levels without arguments leave them to others. -/
theorem sum_unshared (names : List String) : ((names.map (·, 0)).map Prod.snd).sum = 0 := by
  induction names with
  | nil => rfl
  | cons name names ih => rw [List.map_cons, List.map_cons, List.sum_cons, ih]

theorem shares_unshared {α : Type} (names : List String) (args : List α) :
    shares (names.map (·, 0)) args = names.map (·, []) := by
  induction names generalizing args with
  | nil => rfl
  | cons name names ih =>
    rw [List.map_cons, shares, ih]
    rfl

theorem WellNested.sum_levels (h : c.WellNested) (id : DefId) :
    (((c.enclosing id).map c.level).map Prod.snd).sum = (c.definition id).params.length := by
  rw [← h.flatten_ownParams id, List.length_flatten, List.map_map, List.map_map]
  rfl

theorem WellNested.sum_key (h : c.WellNested) (id : DefId) :
    ((c.key id).map Prod.snd).sum = (c.definition id).params.length := by
  rw [key, List.map_append, List.sum_append, sum_unshared, Nat.zero_add, h.sum_levels]

theorem key_ne_nil (c : Catalog) (id : DefId) : c.key id ≠ [] := by
  simp [key, enclosing_ne_nil]

/-- The arguments that the levels take in turn are those that belong to them. -/
theorem WellNested.shares_levels (h : c.WellNested) {α : Type} (id : DefId) {args : List α}
    (hargs : (c.definition id).params.length ≤ args.length) :
    shares ((c.enclosing id).map c.level) args = (c.enclosing id).map fun level =>
      (stripArity (c.definition level).name, (c.definition level).ownSlice args) := by
  induction id using h.induction with
  | alone id hd =>
    rw [enclosing_of_declaring_eq_none hd, List.map_singleton, List.map_singleton,
      Definition.ownSlice, if_pos hargs, h.inherited_outermost hd]
    simp [shares, level, Definition.ownParams, h.inherited_outermost hd]
  | inside id outer hd ih =>
    obtain ⟨own, hown⟩ := h.params_eq hd
    have hle : (c.definition outer).params.length ≤ args.length := by
      rw [hown, List.length_append] at hargs
      omega
    -- the levels outside take as many arguments as the inner one inherits
    rw [h.enclosing_eq hd, List.map_append, List.map_append, shares_append, ih hle, h.sum_levels]
    simp [shares, level, Definition.ownParams, Definition.ownSlice, hargs, h.inherited_eq hd,
      List.drop_take]

/-! ### Spellings as source text shows them -/

/-- A definition with its arguments, as source text shows them. -/
def applicationSource (c : Catalog) (id : DefId) (args : List SourceType) : SourceType :=
  match args with
  | [value] => if id = .nullable then value.optional else .path (c.key id) [value] 0
  | _ => .path (c.key id) args 0

theorem applicationSource_nullable (value : SourceType) :
    c.applicationSource .nullable [value] = value.optional := by
  rw [applicationSource, if_pos rfl]

theorem applicationSource_of_not {id : DefId} {args : List SourceType}
    (h : ¬ (id = .nullable ∧ args.length = 1)) :
    c.applicationSource id args = .path (c.key id) args 0 := by
  unfold applicationSource
  split
  · next value => rw [if_neg fun hid => h ⟨hid, rfl⟩]
  · rfl

mutual

/-- A spelling as source text shows it. -/
def source (c : Catalog) : Spelling → SourceType
  | .word name => .word name 0
  | .application id args =>
    match (c.definition id).builtin with
    | some builtin => .word builtin.keyword 0
    | none => c.applicationSource id (c.sources args)

/-- Spellings as source text shows them. -/
def sources (c : Catalog) : List Spelling → List SourceType
  | [] => []
  | x :: xs => c.source x :: c.sources xs

end

theorem sources_eq_map (c : Catalog) (args : List Spelling) :
    c.sources args = args.map c.source := by
  induction args with
  | nil => rfl
  | cons x xs ih => rw [sources, ih, List.map_cons]

@[simp] theorem source_word (name : String) : c.source (.word name) = .word name 0 := by
  rw [source]

theorem source_of_builtin {id : DefId} {builtin : Builtin}
    (h : (c.definition id).builtin = some builtin) (args : List Spelling) :
    c.source (.application id args) = .word builtin.keyword 0 := by
  rw [source, h]

theorem source_application {id : DefId} (h : (c.definition id).builtin = none)
    (args : List Spelling) :
    c.source (.application id args) = c.applicationSource id (args.map c.source) := by
  rw [source, h, sources_eq_map]

/-- The text of the levels with their shares is the full name of the definition with its
arguments. -/
theorem WellNested.text_path_key (h : c.WellNested) {id : DefId} {args : List SourceType}
    (hargs : args.length = (c.definition id).params.length) :
    (SourceType.path (c.key id) args 0).text =
      c.levelsText .full id (args.map SourceType.text) := by
  have hlen : (c.definition id).params.length ≤ (args.map SourceType.text).length := by
    rw [List.length_map, hargs]
  have hlevels : ((c.enclosing id).map (c.levelText (args.map SourceType.text))) ≠ [] := by
    simp [enclosing_ne_nil]
  have hshares : (shares (c.key id) (args.map SourceType.text)).map (fun share =>
      bracketedText share.1 share.2) =
        c.spaceSegments id ++ (c.enclosing id).map (c.levelText (args.map SourceType.text)) := by
    -- the segments of the namespace take no arguments, so the levels take them all
    rw [key, shares_append, shares_unshared, List.map_append, List.map_map, sum_unshared,
      List.drop_zero, h.shares_levels id hlen, List.map_map]
    refine congrArg₂ _ ?_ rfl
    exact List.map_id _
  rw [SourceType.text_path, hshares, levelsText, spaceText, spaceSegments]
  cases hspace : (c.definition (c.outermost id)).nameSpace with
  | none =>
    rw [List.nil_append]
    exact String.append_empty
  | some space =>
    show "global::" ++ ".".intercalate (segments space ++ _) ++ "" = "global::" ++ space ++ "." ++ _
    rw [String.intercalate_append_of_ne_nil (segments_ne_nil space) hlevels, intercalate_segments,
      String.append_empty]
    simp only [String.append_assoc]

/-- An application is shown as its text is put together. -/
theorem WellNested.text_applicationSource (h : c.WellNested) {id : DefId} {args : List SourceType}
    (hargs : args.length = (c.definition id).params.length) :
    (c.applicationSource id args).text =
      c.applicationText .full id (args.map SourceType.text) := by
  by_cases hone : id = .nullable ∧ args.length = 1
  · obtain ⟨rfl, hlen⟩ := hone
    obtain ⟨value, rfl⟩ := List.length_eq_one_iff.1 hlen
    rw [applicationSource_nullable, SourceType.text_optional, List.map_singleton,
      applicationText_nullable]
  · rw [applicationSource_of_not hone, h.text_path_key hargs,
      applicationText_of_not (by rwa [List.length_map])]

/-- The full source name of a type is the text of its spelling. -/
theorem WellNested.text_source (h : c.WellNested) {ty : Descriptor} (hty : c.ArityCorrect ty) :
    (c.source (c.spelling ty)).text = c.sourceFullName ty := by
  rw [sourceFullName_eq_written]
  have hword : ∀ name, (SourceType.word name 0).text = name := by
    intro name
    rw [SourceType.text_word]
    exact String.append_empty
  induction ty with
  | param owner position => rw [spelling_param, source_word, written_param, hword]
  | named id =>
    rw [spelling_named]
    cases hb : (c.definition id).builtin with
    | some builtin => rw [source_of_builtin hb, written_of_builtin .full hb, hword]
    | none =>
      rw [source_application hb, h.text_applicationSource (by simp), written_named .full hb]
      simp [hword, Function.comp_def]
  | constructed id args ih =>
    obtain ⟨⟨hg, hl⟩, hargs⟩ := throughout_constructed.1 hty
    rw [spelling_constructed, source_application (h.builtin_eq_none hg),
      h.text_applicationSource (by simp [hl]), written_constructed, List.map_map, List.map_map]
    refine congrArg _ (List.map_congr_left fun a ha => ih a ha (hargs a ha))

/-! ### Reading spellings -/

/-- What the spelling of a type of a legible catalog is like. -/
inductive Proper (c : Catalog) : Spelling → Prop
  | word {name : String} (identifier : IsIdentifier name)
    (free : ∀ builtin : Builtin, name ≠ builtin.keyword) : Proper c (.word name)
  | application {id : DefId} {args : List Spelling} (declared : c.Declares id)
    (count : args.length = (c.definition id).params.length)
    (arguments : ∀ x ∈ args, Proper c x) : Proper c (.application id args)

theorem Legible.proper_spelling (hc : c.Legible) {ty : Descriptor} (hknown : c.Knows ty)
    (hty : c.ArityCorrect ty) : c.Proper (c.spelling ty) := by
  have hparam : ∀ {id}, c.Declares id → ∀ param ∈ (c.definition id).params,
      c.Proper (.word param) := fun hid param hmem =>
    .word (hc.params _ hid param hmem) (hc.keywords _ hid param hmem)
  induction ty with
  | param owner position =>
    have hposition := knows_param.1 hknown
    have hmem : c.paramName owner position ∈ (c.definition owner).params := by
      simp [paramName, hposition]
    rw [spelling_param]
    exact hparam (declares_of_lt_params hposition) _ hmem
  | named id =>
    have hid := knows_named.1 hknown
    rw [spelling_named]
    refine .application hid (List.length_map _) fun x hx => ?_
    obtain ⟨param, hmem, rfl⟩ := List.mem_map.1 hx
    exact hparam hid param hmem
  | constructed id args ih =>
    obtain ⟨hid, hknowns⟩ := knows_constructed.1 hknown
    obtain ⟨⟨-, hl⟩, hargs⟩ := throughout_constructed.1 hty
    rw [spelling_constructed]
    refine .application hid (by rw [List.length_map, hl]) fun x hx => ?_
    obtain ⟨a, ha, rfl⟩ := List.mem_map.1 hx
    exact ih a ha (hknowns a ha) (hargs a ha)

theorem isIdentifier_keyword (builtin : Builtin) : IsIdentifier builtin.keyword := by
  cases builtin <;> decide

/-- The segments of a key are those of a namespace, and its levels are named as they are
declared. -/
theorem WellNested.isIdentifier_of_mem_key (h : c.WellNested)
    (spaces : ∀ id, c.Declares id → ∀ space ∈ (c.definition id).nameSpace,
      ∀ segment ∈ segments space, IsIdentifier segment)
    (names : ∀ id, c.Declares id → IsIdentifier (stripArity (c.definition id).name)) {id : DefId}
    (hid : c.Declares id) {level : String × Nat} (hlevel : level ∈ c.key id) :
    IsIdentifier level.1 := by
  rw [key, List.mem_append, List.mem_map, List.mem_map] at hlevel
  rcases hlevel with ⟨segment, hsegment, rfl⟩ | ⟨other, hother, rfl⟩
  · have hdeclared := h.declares_of_mem_enclosing hid (c.outermost_mem_enclosing id)
    unfold spaceSegments at hsegment
    cases hspace : (c.definition (c.outermost id)).nameSpace with
    | none => rw [hspace] at hsegment; cases hsegment
    | some space =>
      rw [hspace] at hsegment
      exact spaces _ hdeclared space hspace segment hsegment
  · exact names _ (h.declares_of_mem_enclosing hid hother)

/-- The spelling of a type is shown in identifiers. -/
theorem Legible.legible_source (hc : c.Legible) (h : c.WellNested) {x : Spelling}
    (hx : c.Proper x) : (c.source x).Legible := by
  induction x with
  | word name =>
    cases hx with
    | word identifier _ =>
      rw [source_word]
      exact .word 0 identifier
  | application id args ih =>
    cases hx with
    | application declared count arguments =>
      cases hb : (c.definition id).builtin with
      | some builtin =>
        rw [source_of_builtin hb]
        exact .word 0 (isIdentifier_keyword builtin)
      | none =>
        have hargs : ∀ a ∈ args.map c.source, a.Legible := by
          intro a ha
          obtain ⟨y, hy, rfl⟩ := List.mem_map.1 ha
          exact ih y hy (arguments y hy)
        rw [source_application hb]
        by_cases hone : id = .nullable ∧ (args.map c.source).length = 1
        · obtain ⟨rfl, hlen⟩ := hone
          obtain ⟨value, hvalue⟩ := List.length_eq_one_iff.1 hlen
          rw [hvalue] at hargs ⊢
          rw [applicationSource_nullable]
          exact (hargs value (List.mem_singleton_self value)).optional
        · rw [applicationSource_of_not hone]
          exact .path 0 (c.key_ne_nil id)
            (fun level hlevel =>
              h.isIdentifier_of_mem_key hc.spaces hc.names declared hlevel)
            (by rw [h.sum_key, List.length_map, count]) hargs

/-- A spelling is shown as a word, as a keyword, as its only argument with one more question
mark, or by the levels of its definition. -/
theorem Proper.source_cases (hreach : c.Reachable) {x : Spelling} (hx : c.Proper x) :
    (∃ name, x = .word name ∧ (∀ builtin : Builtin, name ≠ builtin.keyword) ∧
      c.source x = .word name 0) ∨
    (∃ builtin : Builtin, x = .application builtin.id [] ∧
      c.source x = .word builtin.keyword 0) ∨
    (∃ value, x = .application .nullable [value] ∧ c.Proper value ∧
      c.source x = (c.source value).optional) ∨
    (∃ id args, x = .application id args ∧ c.Declares id ∧ (∀ a ∈ args, c.Proper a) ∧
      c.source x = .path (c.key id) (args.map c.source) 0) := by
  cases hx with
  | @word name _ free => exact Or.inl ⟨name, rfl, free, source_word name⟩
  | @application id args declared count arguments =>
    refine Or.inr ?_
    cases hb : (c.definition id).builtin with
    | some builtin =>
      rw [hreach.wellNested.params_builtin hb] at count
      obtain rfl := List.eq_nil_of_length_eq_zero count
      obtain rfl := hreach.builtin_eq_some_iff.1 hb
      exact Or.inl ⟨builtin, rfl, source_of_builtin hb []⟩
    | none =>
      refine Or.inr ?_
      rw [source_application hb]
      by_cases hone : id = .nullable ∧ (args.map c.source).length = 1
      · obtain ⟨rfl, hlen⟩ := hone
        rw [List.length_map] at hlen
        obtain ⟨value, rfl⟩ := List.length_eq_one_iff.1 hlen
        exact Or.inl ⟨value, rfl, arguments value (List.mem_singleton_self value),
          applicationSource_nullable (c.source value)⟩
      · exact Or.inr ⟨id, args, rfl, declared, arguments, applicationSource_of_not hone⟩

section Inversion

variable (hreach : c.Reachable) {y : Spelling} (hy : c.Proper y)

include hreach hy

/-- What is shown as a word is the word or has it as its keyword. -/
theorem Proper.of_source_eq_word {name : String} (h : c.source y = .word name 0) :
    (y = .word name ∧ ∀ builtin : Builtin, name ≠ builtin.keyword) ∨
      ∃ builtin : Builtin, y = .application builtin.id [] ∧ name = builtin.keyword := by
  rcases hy.source_cases hreach with ⟨name', rfl, hfree, hs⟩ | ⟨builtin, rfl, hs⟩ |
    ⟨value, -, -, hs⟩ | ⟨id, args, -, -, -, hs⟩
  · rw [hs] at h
    cases h
    exact Or.inl ⟨rfl, hfree⟩
  · rw [hs] at h
    cases h
    exact Or.inr ⟨builtin, rfl, rfl⟩
  · rw [hs] at h
    exact absurd h (SourceType.optional_ne_word _ _)
  · rw [hs] at h
    cases h

/-- What is shown with a question mark is an optional value. -/
theorem Proper.of_source_eq_optional {s : SourceType} (h : c.source y = s.optional) :
    ∃ value, y = .application .nullable [value] ∧ c.Proper value ∧ c.source value = s := by
  rcases hy.source_cases hreach with ⟨name, -, -, hs⟩ | ⟨builtin, -, hs⟩ |
    ⟨value, hvalue, hproper, hs⟩ | ⟨id, args, -, -, -, hs⟩
  · rw [hs] at h
    exact absurd h.symm (SourceType.optional_ne_word _ _)
  · rw [hs] at h
    exact absurd h.symm (SourceType.optional_ne_word _ _)
  · rw [hs] at h
    exact ⟨value, hvalue, hproper, SourceType.optional_inj h⟩
  · rw [hs] at h
    exact absurd h.symm (SourceType.optional_ne_path _ _ _)

/-- What is shown by the levels of a definition is an application of this definition. -/
theorem Proper.of_source_eq_path {levels : List (String × Nat)} {shown : List SourceType}
    (h : c.source y = .path levels shown 0) :
    ∃ id args, y = .application id args ∧ c.Declares id ∧ (∀ a ∈ args, c.Proper a) ∧
      c.key id = levels ∧ args.map c.source = shown := by
  rcases hy.source_cases hreach with ⟨name, -, -, hs⟩ | ⟨builtin, -, hs⟩ |
    ⟨value, -, -, hs⟩ | ⟨id, args, hy, hdeclared, hargs, hs⟩
  · rw [hs] at h
    cases h
  · rw [hs] at h
    cases h
  · rw [hs] at h
    exact absurd h (SourceType.optional_ne_path _ _ _)
  · rw [hs] at h
    cases h
    exact ⟨id, args, hy, hdeclared, hargs, rfl, rfl⟩

end Inversion

theorem keyword_inj {b b' : Builtin} (h : b.keyword = b'.keyword) : b = b' := by
  have hall : ∀ b ∈ Builtin.all, ∀ b' ∈ Builtin.all, b.keyword = b'.keyword → b = b' := by
    decide
  exact hall b b.mem_all b' b'.mem_all h

/-- Source text shows different spellings differently. -/
theorem Legible.source_inj (hc : c.Legible) (hreach : c.Reachable) {x y : Spelling}
    (hx : c.Proper x) (hy : c.Proper y) (h : c.source x = c.source y) : x = y := by
  induction x generalizing y with
  | word name =>
    rw [source_word] at h
    rcases hy.of_source_eq_word hreach h.symm with ⟨rfl, -⟩ | ⟨builtin, rfl, hkeyword⟩
    · rfl
    · cases hx with
      | word _ free => exact absurd hkeyword (free builtin)
  | application id args ih =>
    rcases hx.source_cases hreach with ⟨name, he, -, -⟩ | ⟨builtin, he, hs⟩ |
      ⟨value, he, hvalue, hs⟩ | ⟨id', args', he, hdeclared, hargs, hs⟩
    · cases he
    · rw [hs] at h
      rcases hy.of_source_eq_word hreach h.symm with ⟨rfl, hfree⟩ | ⟨builtin', rfl, hkeyword⟩
      · exact absurd rfl (hfree builtin)
      · rw [he, keyword_inj hkeyword]
    · cases he
      rw [hs] at h
      obtain ⟨value', rfl, hvalue', hsame⟩ := hy.of_source_eq_optional hreach h.symm
      rw [ih value (List.mem_singleton_self value) hvalue hvalue' hsame.symm]
    · cases he
      rw [hs] at h
      obtain ⟨other, others, rfl, hother, hothers, hkey, hshown⟩ :=
        hy.of_source_eq_path hreach h.symm
      -- equal levels are those of one definition, because the catalog is legible
      cases hc.keys other id hother hdeclared hkey
      have hsame : args = others := List.eq_of_map_eq
        (fun a ha b hb hab => ih a ha (hargs a ha) (hothers b hb) hab) hshown.symm
      rw [hsame]

/-! ### Names -/

/-- Closed types with one spelling are the same. -/
theorem eq_of_spelling_eq {a b : Descriptor} (ha : c.hasFree a = false) (hb : c.hasFree b = false)
    (hfits : c.ArityCorrect a) (hfits' : c.ArityCorrect b) (h : c.spelling a = c.spelling b) :
    a = b := by
  -- a definition is closed as it is, or it can be applied, but not both
  have hcontra : ∀ {id : DefId} {args : List Descriptor}, c.hasFree (.named id) = false →
      c.ArityCorrect (.constructed id args) → False := by
    intro id args hfree hfits
    obtain ⟨⟨hg, -⟩, -⟩ := throughout_constructed.1 hfits
    rw [hasFree_named, hg] at hfree
    cases hfree
  induction a generalizing b with
  | param owner position => cases ha
  | named id =>
    cases b with
    | param owner position => cases hb
    | named id' =>
      rw [spelling_named, spelling_named] at h
      cases h
      rfl
    | constructed id' args' =>
      rw [spelling_named, spelling_constructed] at h
      injection h with hid
      exact (hcontra ha (hid ▸ hfits')).elim
  | constructed id args ih =>
    cases b with
    | param owner position => cases hb
    | named id' =>
      rw [spelling_named, spelling_constructed] at h
      injection h with hid
      exact (hcontra hb (hid ▸ hfits)).elim
    | constructed id' args' =>
      rw [spelling_constructed, spelling_constructed] at h
      injection h with hid hargs
      obtain ⟨-, hall⟩ := throughout_constructed.1 hfits
      obtain ⟨-, hall'⟩ := throughout_constructed.1 hfits'
      rw [hasFree_constructed_eq_false_iff] at ha hb
      rw [hid, List.eq_of_map_eq (fun x hx y hy hxy =>
        ih x hx (ha x hx) (hb y hy) (hall x hx) (hall' y hy) hxy) hargs]

/-- In a legible catalog, two types have one full source name exactly if they are spelled the
same: if they are equal when every generic definition is applied to its own placeholders and
the placeholders are replaced by their names.  Closed types are equal exactly if they have
the same name. -/
theorem sourceFullName_eq_iff (built : c.Reachable) (legible : c.Legible) {a b : Descriptor}
    (ha : c.Knows a) (hb : c.Knows b) (hwa : c.WellFormed a) (hwb : c.WellFormed b) :
    (c.sourceFullName a = c.sourceFullName b ↔ c.spelling a = c.spelling b) ∧
      (c.hasFree a = false → c.hasFree b = false → (c.sameName a b = true ↔ a = b)) := by
  have hnested : c.WellNested := built.wellNested
  have hproper : c.Proper (c.spelling a) := legible.proper_spelling ha hwa.fits
  have hproper' : c.Proper (c.spelling b) := legible.proper_spelling hb hwb.fits
  have hspelling : c.sourceFullName a = c.sourceFullName b ↔ c.spelling a = c.spelling b := by
    rw [← hnested.text_source hwa.fits, ← hnested.text_source hwb.fits,
      (legible.legible_source hnested hproper).text_inj (legible.legible_source hnested hproper')]
    exact ⟨legible.source_inj built hproper hproper', congrArg c.source⟩
  refine ⟨hspelling, fun hclosed hclosed' => ?_⟩
  rw [sameName_iff, hspelling]
  exact ⟨eq_of_spelling_eq hclosed hclosed' hwa.fits hwb.fits, congrArg c.spelling⟩

/-- The optional argument of ``N.Parent`1+Nested`1`` belongs to the inner level in one type and
to the outer one in the other, so these are two types with two names.  ``Seq`1`` and its
application to a placeholder of another type that has the same name have one name. -/
theorem sourceFullName_eq_iff_nested :
    let document : Json := .object [("types", .array
      [.object [("name", .string "Parent"), ("namespace", .string "N"),
         ("nested", .array [.object [("name", .string "Nested"),
           ("params", .array [.string "U"])]]),
         ("params", .array [.string "T"])],
       .object [("name", .string "Seq"), ("params", .array [.string "T"])]])]
    let number : Descriptor := .named Builtin.int32.id
    let optional : Descriptor := .constructed .nullable [number]
    let inner : Descriptor := .constructed ⟨18⟩ [number, optional]
    let outer : Descriptor := .constructed ⟨18⟩ [optional, number]
    let applied : Descriptor := .constructed ⟨19⟩ [.param ⟨17⟩ 0]
    ∃ c, ofJson document = .ok c ∧ c.Legible ∧
      c.sourceFullName inner = "global::N.Parent<int>.Nested<int?>" ∧
      c.sameName inner outer = false ∧
      c.sourceFullName applied = c.sourceFullName (.named ⟨19⟩) := by
  intro document number optional inner outer applied
  obtain ⟨c, loaded, hlegible, htext, hfree, hknown, hwell, hspelled⟩ :=
    exists_ofJson_eq_ok document (P := fun c => c.Legible ∧
      c.sourceFullName inner = "global::N.Parent<int>.Nested<int?>" ∧
      (c.hasFree inner = false ∧ c.hasFree outer = false) ∧
      (∀ ty ∈ [inner, outer, applied, .named ⟨19⟩], c.Knows ty) ∧
      (∀ ty ∈ [inner, outer, applied, .named ⟨19⟩], c.WellFormed ty) ∧
      [c.paramName ⟨17⟩ 0] = (c.definition ⟨19⟩).params) (by decide +kernel)
  have built : c.Reachable := reachable_ofJson loaded
  obtain ⟨hinner, houter, happlied, hseq, -⟩ := by simpa only [List.forall_mem_cons] using hknown
  obtain ⟨hwinner, hwouter, hwapplied, hwseq, -⟩ := by
    simpa only [List.forall_mem_cons] using hwell
  have hclosed := (sourceFullName_eq_iff built hlegible hinner houter hwinner hwouter).2
  have hopen := (sourceFullName_eq_iff built hlegible happlied hseq hwapplied hwseq).1
  refine ⟨c, loaded, hlegible, htext, ?_, hopen.2 ?_⟩
  · rw [Bool.eq_false_iff, Ne, hclosed hfree.1 hfree.2]
    decide
  · rw [spelling_constructed, spelling_named, ← hspelled, List.map_singleton, spelling_param]
    rfl

end Catalog

end Generics
