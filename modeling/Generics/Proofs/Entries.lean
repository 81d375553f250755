import Generics.Proofs.Loading

/-!
# Described types

What a document says can be separated from how it is read.  A type that a document
describes is a tree: a name, parameters, a visibility, perhaps a written base, and the
types inside it.  Whether an entry describes such a tree is a matter of its fields, each
of which has a form of its own and may be missing, the name apart.

The key `namespace` is the entry's own only where it is not nested in another one, so it
is not part of the tree.  A document describes trees each with a namespace or none.

## Main definitions

* `Entry` — a described type with the types inside it.
* `Entry.DescribedBy` — the value of an entry is formed as it should be, and says this.
* `Describes` — a document describes types, each in its namespace.

## Main results

* `readHead_eq_ok_iff`, `readBase_eq_ok_iff` — reading accepts exactly these forms.
* `exists_describedBy` — entries that are declared are formed as they should be.
-/

namespace Generics.Catalog

/-! ### Trees of types -/

/-- A type as it is described, its written base, and the types inside it. -/
inductive Entry where
  | mk (head : EntryHead) (base : Option String) (inner : List Entry)

/-! ### The form of an entry -/

/-- The fields for name, parameters and visibility, of which only the first is needed. -/
structure HeadFields (v : Json) (head : EntryHead) : Prop where
  name : v.get? "name" = some (.string head.name)
  params : v.get? "params" = some (.array (head.params.map .string)) ∨
    v.get? "params" = none ∧ head.params = []
  visibility : v.get? "visibility" = some (.string head.visibility.text) ∨
    v.get? "visibility" = none ∧ head.visibility = .isPublic

/-- The items of the field for the types inside.  Without this field there are none. -/
def NestedItems (v : Json) (items : List Json) : Prop :=
  v.get? "nested" = some (.array items) ∨ v.get? "nested" = none ∧ items = []

namespace Entry

/-- Induction over described types, with a hypothesis for every type inside. -/
@[elab_as_elim, induction_eliminator]
theorem induction {motive : Entry → Prop}
    (mk : ∀ head base inner, (∀ e ∈ inner, motive e) → motive (.mk head base inner))
    (entry : Entry) : motive entry :=
  @Entry.rec motive (fun inner => ∀ e ∈ inner, motive e)
    (fun head base inner ih => mk head base inner ih)
    (fun _ h => absurd h List.not_mem_nil)
    (fun _ _ head tail _ h => (List.mem_cons.1 h).elim (fun e => e ▸ head) (tail _)) entry

mutual

/-- The fields are as they should be, at every depth, and say what the type is like. -/
def DescribedBy : Entry → Json → Prop
  | .mk head base inner, v =>
    HeadFields v head ∧ v.get? "base" = base.map .string ∧
      ∃ items, NestedItems v items ∧ AllDescribedBy inner items

/-- The items describe the types one by one. -/
def AllDescribedBy : List Entry → List Json → Prop
  | [], [] => True
  | e :: es, item :: items => e.DescribedBy item ∧ AllDescribedBy es items
  | _, _ => False

end

theorem allDescribedBy_iff {entries : List Entry} {items : List Json} :
    AllDescribedBy entries items ↔ List.Forall₂ DescribedBy entries items := by
  induction entries generalizing items with
  | nil => cases items <;> simp [AllDescribedBy]
  | cons e es ih => cases items <;> simp [AllDescribedBy, ih]

theorem describedBy_mk {head : EntryHead} {base : Option String} {inner : List Entry} {v : Json} :
    (mk head base inner).DescribedBy v ↔ HeadFields v head ∧
      v.get? "base" = base.map .string ∧
      ∃ items, NestedItems v items ∧ List.Forall₂ DescribedBy inner items := by
  rw [DescribedBy]
  simp only [allDescribedBy_iff]

mutual

/-- How many types: the type itself and those inside it. -/
def size : Entry → Nat
  | .mk _ _ inner => 1 + sizeAll inner

/-- How many types there are in some trees. -/
def sizeAll : List Entry → Nat
  | [] => 0
  | e :: es => e.size + sizeAll es

end

end Entry

/-- The entries describe the types one by one, each in its namespace. -/
def DescribeTypes (items : List Json) (types : List (Option String × Entry)) : Prop :=
  List.Forall₂ (fun item type =>
    item.get? "namespace" = type.1.map .string ∧ type.2.DescribedBy item) items types

/-- The types of a document are those that the entries under the key `types` describe. -/
def Describes (document : Json) (types : List (Option String × Entry)) : Prop :=
  ∃ items, document.get? "types" = some (.array items) ∧ DescribeTypes items types

/-- The entries describe the types one by one, if only the namespaces count that are
texts. -/
def DescribeTypesLeniently (items : List Json) (types : List (Option String × Entry)) : Prop :=
  List.Forall₂ (fun item type =>
    (item.get? "namespace").bind Json.string? = type.1 ∧ type.2.DescribedBy item) items types

theorem DescribeTypes.leniently {items : List Json} {types : List (Option String × Entry)}
    (h : DescribeTypes items types) : DescribeTypesLeniently items types := by
  refine h.imp fun item type ⟨hspace, hitem⟩ => ⟨?_, hitem⟩
  rw [hspace]
  cases type.1 <;> rfl

/-! ### Reading the fields -/

theorem paramNames_eq_ok_iff {name : String} {items : List Json} {params : List String} :
    paramNames name items = .ok params ↔ items = params.map .string := by
  induction items generalizing params with
  | nil => cases params <;> simp [paramNames]
  | cons item items ih =>
    cases item with
    | string param =>
      rw [paramNames, Except.map_eq_ok]
      cases params with
      | nil => simp
      | cons first others => simp [ih, and_comm]
    | _ => cases params <;> simp [paramNames]

/-- The field for the name. -/
def readName (v : Json) : Except SchemaError String :=
  match (v.get? "name").bind Json.string? with
  | some name => .ok name
  | none => .error (.unnamedEntry v)

/-- The field for the parameters; `name` is that of the type. -/
def readParams (name : String) (v : Json) : Except SchemaError (List String) :=
  match v.get? "params" with
  | none => .ok []
  | some (.array params) => paramNames name params
  | some _ => .error (.paramsNotArray name)

/-- The field for the visibility; `name` is that of the type. -/
def readVisibility (name : String) (v : Json) : Except SchemaError Visibility :=
  match v.get? "visibility" with
  | none => .ok .isPublic
  | some (.string text) =>
    match Visibility.ofText? text with
    | some visibility => .ok visibility
    | none => .error (.unknownVisibility text)
  | some _ => .error (.visibilityNotString name)

theorem readParams_bind {α : Type} (name : String) (v : Json)
    (f : List String → Except SchemaError α) : readParams name v >>= f =
      match v.get? "params" with
      | none => f []
      | some (.array params) => paramNames name params >>= f
      | some _ => .error (.paramsNotArray name) := by
  unfold readParams
  cases v.get? "params" with
  | none => rfl
  | some field => cases field <;> rfl

theorem readVisibility_bind {α : Type} (name : String) (v : Json)
    (f : Visibility → Except SchemaError α) : readVisibility name v >>= f =
      match v.get? "visibility" with
      | none => f .isPublic
      | some (.string text) =>
        match Visibility.ofText? text with
        | some visibility => f visibility
        | none => .error (.unknownVisibility text)
      | some _ => .error (.visibilityNotString name) := by
  unfold readVisibility
  cases v.get? "visibility" with
  | none => rfl
  | some field =>
    cases field with
    | string text => dsimp only; cases Visibility.ofText? text <;> rfl
    | _ => rfl

/-- The fields are read one after the other. -/
theorem readHead_eq (v : Json) : readHead v = (do
    let name ← readName v
    let params ← readParams name v
    let visibility ← readVisibility name v
    .ok { name, params, visibility }) := by
  unfold readHead readName
  cases (v.get? "name").bind Json.string? with
  | none => rfl
  | some name =>
    show _ = readParams name v >>= fun params => readVisibility name v >>= fun visibility =>
      .ok (EntryHead.mk name params visibility)
    rw [readParams_bind]
    simp only [readVisibility_bind]
    rfl

theorem readName_eq_ok_iff {v : Json} {name : String} :
    readName v = .ok name ↔ v.get? "name" = some (.string name) := by
  unfold readName
  cases v.get? "name" with
  | none => simp
  | some field => cases field <;> simp [Json.string?]

theorem readParams_eq_ok_iff {name : String} {v : Json} {params : List String} :
    readParams name v = .ok params ↔ v.get? "params" = some (.array (params.map .string)) ∨
      v.get? "params" = none ∧ params = [] := by
  unfold readParams
  cases v.get? "params" with
  | none => simp [eq_comm]
  | some field => cases field <;> simp [paramNames_eq_ok_iff]

theorem readVisibility_eq_ok_iff {name : String} {v : Json} {visibility : Visibility} :
    readVisibility name v = .ok visibility ↔
      v.get? "visibility" = some (.string visibility.text) ∨
        v.get? "visibility" = none ∧ visibility = .isPublic := by
  unfold readVisibility
  cases v.get? "visibility" with
  | none => simp [eq_comm]
  | some field =>
    cases field with
    | string text =>
      have hspelling : text = visibility.text ↔ Visibility.ofText? text = some visibility :=
        Visibility.ofText?_eq_some_iff.symm
      simp only [Option.some.injEq, Json.string.injEq, hspelling, reduceCtorEq, false_and, or_false]
      cases Visibility.ofText? text <;> simp
    | _ => simp

/-- Name, parameters and visibility are read if their fields are as they should be. -/
theorem readHead_eq_ok_iff {v : Json} {head : EntryHead} :
    readHead v = .ok head ↔ HeadFields v head := by
  rw [readHead_eq]
  constructor
  · intro h
    obtain ⟨name, hname, h⟩ := Except.bind_eq_ok.1 h
    obtain ⟨params, hparams, h⟩ := Except.bind_eq_ok.1 h
    obtain ⟨visibility, hvisibility, h⟩ := Except.bind_eq_ok.1 h
    cases h
    exact ⟨readName_eq_ok_iff.1 hname, readParams_eq_ok_iff.1 hparams,
      readVisibility_eq_ok_iff.1 hvisibility⟩
  · intro h
    refine Except.bind_eq_ok.2 ⟨head.name, readName_eq_ok_iff.2 h.name, ?_⟩
    refine Except.bind_eq_ok.2 ⟨head.params, readParams_eq_ok_iff.2 h.params, ?_⟩
    exact Except.bind_eq_ok.2 ⟨head.visibility, readVisibility_eq_ok_iff.2 h.visibility, rfl⟩

theorem readBase_eq_ok_iff {name : String} {v : Json} {base : Option String} :
    readBase name v = .ok base ↔ v.get? "base" = base.map .string := by
  unfold readBase
  cases v.get? "base" with
  | none => cases base <;> simp
  | some field => cases field <;> cases base <;> simp

/-! ### Declared entries -/

/-- The types inside an entry are declared one after the other. -/
theorem declareNested_eq {fields : List (String × Json)} {items : List Json}
    (h : NestedItems (.object fields) items) (id : DefId) (name : String) (draft : Draft) :
    declareNested id name draft fields = declareAll (some id) draft items := by
  unfold NestedItems at h
  rw [Json.get?_object] at h
  induction fields with
  | nil =>
    obtain ⟨-, rfl⟩ := h.resolve_left nofun
    rfl
  | cons field rest ih =>
    obtain ⟨key, value⟩ := field
    by_cases hkey : key = "nested"
    · subst hkey
      rw [List.lookup_cons_self] at h
      obtain hvalue : some value = some (.array items) := h.resolve_right nofun
      cases hvalue
      simp [declareNested]
    · have hne : ("nested" == key) = false := by simpa using Ne.symm hkey
      rw [List.lookup_cons, hne] at h
      rw [← ih h]
      cases value <;> simp [declareNested, hkey]

mutual

/-- An entry that is declared describes a type. -/
theorem exists_describedBy : ∀ (item : Json) {outer : Option DefId} {draft draft' : Draft},
    declareEntry outer draft item = .ok draft' → ∃ entry : Entry, entry.DescribedBy item
  | .object fields, outer, draft, draft', h => by
    rw [declareEntry, Except.bind_eq_ok] at h
    obtain ⟨⟨id, head, middle⟩, hhead, h⟩ := h
    obtain ⟨hread, -, base, hbase, -⟩ := declareHead_eq_ok hhead
    obtain ⟨inner, items, hitems, hinner⟩ := exists_describedBy_nested fields h
    exact ⟨.mk head base inner, Entry.describedBy_mk.2 ⟨readHead_eq_ok_iff.1 hread,
      readBase_eq_ok_iff.1 hbase, items, hitems, hinner⟩⟩
  | .null, _, _, _, h => by cases h
  | .bool _, _, _, _, h => by cases h
  | .int _, _, _, _, h => by cases h
  | .float _, _, _, _, h => by cases h
  | .string _, _, _, _, h => by cases h
  | .array _, _, _, _, h => by cases h

theorem exists_describedBy_nested : ∀ (fields : List (String × Json)) {id : DefId} {name : String}
    {draft draft' : Draft}, declareNested id name draft fields = .ok draft' →
    ∃ inner items, NestedItems (.object fields) items ∧
      List.Forall₂ Entry.DescribedBy inner items
  | [], _, _, _, _, _ => ⟨[], [], Or.inr ⟨rfl, rfl⟩, .nil⟩
  | (key, value) :: rest, id, name, draft, draft', h => by
    by_cases hkey : key = "nested"
    · subst hkey
      cases value with
      | array items =>
        rw [declareNested, if_pos rfl] at h
        obtain ⟨inner, hinner⟩ := exists_describedBy_all items h
        exact ⟨inner, items, Or.inl (by rw [Json.get?_object, List.lookup_cons_self]), hinner⟩
      | _ => simp [declareNested] at h
    · -- another field does not matter
      have hrest : declareNested id name draft rest = .ok draft' := by
        rw [← h]
        cases value <;> simp [declareNested, hkey]
      have hlookup : ((key, value) :: rest).lookup "nested" = rest.lookup "nested" := by
        have hne : ("nested" == key) = false := by simpa using Ne.symm hkey
        rw [List.lookup_cons, hne]
      obtain ⟨inner, items, hitems, hinner⟩ := exists_describedBy_nested rest hrest
      refine ⟨inner, items, ?_, hinner⟩
      rwa [NestedItems, Json.get?_object, hlookup]

theorem exists_describedBy_all : ∀ (items : List Json) {outer : Option DefId}
    {draft draft' : Draft}, declareAll outer draft items = .ok draft' →
    ∃ entries, List.Forall₂ Entry.DescribedBy entries items
  | [], _, _, _, _ => ⟨[], .nil⟩
  | item :: items, outer, draft, draft', h => by
    rw [declareAll, Except.bind_eq_ok] at h
    obtain ⟨middle, hfirst, hrest⟩ := h
    obtain ⟨entry, hentry⟩ := exists_describedBy item hfirst
    obtain ⟨entries, hentries⟩ := exists_describedBy_all items hrest
    exact ⟨entry :: entries, .cons hentry hentries⟩

end

end Generics.Catalog
