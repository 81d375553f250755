import Generics.Proofs.Described

/-!
# Documents that conform

Every field of an entry has a form, and reading asks for this form wherever the field is
there, with one exception.  A namespace that is not a text is passed over, as if the entry
had none.  So a document that can be loaded conforms up to such namespaces: without them it
does, and its catalog is the same.

## Main definitions

* `NameSpaceTyped` — the namespace of an entry is a text, if there is one.
* `dropNameSpace` — an entry without a namespace that is not a text.

## Main results

* `Entry.DescribedBy.congr` — what an entry describes does not depend on its namespace.
* `ofJson_congr` — entries that describe the same types have the same catalog.
* `conforms_of_ofJson` — in how far a document that can be loaded conforms.
-/

namespace Generics.Catalog

/-! ### Namespaces -/

/-- The namespace is a text, if there is one. -/
def NameSpaceTyped (item : Json) : Prop :=
  ∀ field, item.get? "namespace" = some field → ∃ text, field = .string text

/-- The entry without its namespace, unless this is a text. -/
def dropNameSpace : Json → Json
  | .object fields =>
    match fields.lookup "namespace" with
    | some (.string _) => .object fields
    | _ => .object (fields.filter fun field => field.1 != "namespace")
  | v => v

theorem lookup_filter_ne (key other : String) (fields : List (String × Json)) :
    (fields.filter fun field => field.1 != key).lookup other =
      if other = key then none else fields.lookup other := by
  induction fields with
  | nil => simp
  | cons field fields ih =>
    obtain ⟨k, value⟩ := field
    rw [List.filter_cons, List.lookup_cons]
    by_cases hother : other = k
    · subst hother
      by_cases hkey : other = key
      · simpa [hkey] using ih
      · simp [hkey]
    · have hbeq : (other == k) = false := beq_eq_false_iff_ne.2 hother
      by_cases hkey : k = key
      · subst hkey
        simp [hbeq, hother, ih]
      · simp [hkey, hbeq, List.lookup_cons, ih]

/-- All other fields stay. -/
theorem get?_dropNameSpace_of_ne {key : String} (h : key ≠ "namespace") (item : Json) :
    (dropNameSpace item).get? key = item.get? key := by
  cases item with
  | object fields =>
    rw [dropNameSpace]
    split
    · rfl
    · rw [Json.get?_object, Json.get?_object, lookup_filter_ne, if_neg h]
  | _ => rfl

/-- The namespace stays if it is a text. -/
theorem get?_dropNameSpace (item : Json) : (dropNameSpace item).get? "namespace" =
    ((item.get? "namespace").bind Json.string?).map .string := by
  cases item with
  | object fields =>
    rw [dropNameSpace, Json.get?_object]
    split
    · next text htext => rw [Json.get?_object, htext]; rfl
    · next hother =>
      rw [Json.get?_object, lookup_filter_ne, if_pos rfl]
      cases hfield : fields.lookup "namespace" with
      | none => rfl
      | some field =>
        cases field with
        | string text => exact absurd hfield (hother text)
        | _ => rfl
  | _ => rfl

theorem nameSpaceTyped_iff {item : Json} : NameSpaceTyped item ↔
    item.get? "namespace" = ((item.get? "namespace").bind Json.string?).map .string := by
  unfold NameSpaceTyped
  cases item.get? "namespace" with
  | none => simp
  | some field => cases field <;> simp [Json.string?]

/-! ### Entries that describe the same -/

/-- What an entry describes does not depend on its namespace. -/
theorem Entry.DescribedBy.congr {entry : Entry} {v v' : Json} (h : entry.DescribedBy v)
    (hsame : ∀ key, key ≠ "namespace" → v'.get? key = v.get? key) : entry.DescribedBy v' := by
  obtain ⟨head, base, inner⟩ := entry
  obtain ⟨hhead, hbase, items, hitems, hinner⟩ := Entry.describedBy_mk.1 h
  refine Entry.describedBy_mk.2 ⟨⟨?_, ?_, ?_⟩, ?_, items, ?_, hinner⟩
  · rw [hsame "name" (by decide)]
    exact hhead.name
  · rw [hsame "params" (by decide)]
    exact hhead.params
  · rw [hsame "visibility" (by decide)]
    exact hhead.visibility
  · rw [hsame "base" (by decide)]
    exact hbase
  · unfold NestedItems
    rw [hsame "nested" (by decide)]
    exact hitems

theorem exists_describeTypesLeniently {items : List Json}
    (h : ∃ entries, List.Forall₂ Entry.DescribedBy entries items) :
    ∃ types, DescribeTypesLeniently items types := by
  obtain ⟨entries, hentries⟩ := h
  induction hentries with
  | nil => exact ⟨[], .nil⟩
  | @cons entry item entries items hentry _ ih =>
    obtain ⟨types, htypes⟩ := ih
    exact ⟨((item.get? "namespace").bind Json.string?, entry) :: types,
      .cons ⟨rfl, hentry⟩ htypes⟩

/-- Without namespaces that are not texts the entries describe the same types. -/
theorem describeTypes_dropNameSpace {items : List Json} {types : List (Option String × Entry)}
    (h : DescribeTypesLeniently items types) : DescribeTypes (items.map dropNameSpace) types := by
  refine List.forall₂_map_left_iff.2 (h.imp fun item type ⟨hspace, hitem⟩ => ?_)
  refine ⟨by rw [get?_dropNameSpace, hspace], hitem.congr fun key hkey => ?_⟩
  exact get?_dropNameSpace_of_ne hkey item

/-- Entries that describe the same types have the same catalog. -/
theorem ofJson_congr {document document' : Json} {items items' : List Json}
    {types : List (Option String × Entry)}
    (htypes : document.get? "types" = some (.array items)) (h : DescribeTypesLeniently items types)
    (htypes' : document'.get? "types" = some (.array items'))
    (h' : DescribeTypesLeniently items' types) : ofJson document = ofJson document' := by
  rw [ofJson_eq htypes, ofJson_eq htypes', declareAll_start h, declareAll_start h']

/-! ### What loading accepts -/

/-- A document that can be loaded is an object with an array of types.  Every entry is formed
as it should be, at every depth, apart from the namespaces of those that are not nested.  The
document conforms exactly if these are texts, where they are there.  If the others are left
out it conforms, and its catalog is the same. -/
theorem conforms_of_ofJson {document : Json} {c : Catalog} (h : ofJson document = .ok c) :
    ∃ fields items, document = .object fields ∧
      fields.lookup "types" = some (.array items) ∧
      (∀ item ∈ items, ∃ entry : Entry, entry.DescribedBy item) ∧
      ((∃ types, Describes document types) ↔ ∀ item ∈ items, NameSpaceTyped item) ∧
      ∃ types, Describes (.object [("types", .array (items.map dropNameSpace))]) types ∧
        ofJson (.object [("types", .array (items.map dropNameSpace))]) = .ok c := by
  obtain ⟨items, draft, htypes, hdraft, -⟩ := ofJson_eq_ok h
  obtain ⟨fields, rfl⟩ : ∃ fields, document = .object fields := by
    cases document with
    | object fields => exact ⟨fields, rfl⟩
    | _ => cases htypes
  have hentries := exists_describedBy_all items hdraft
  obtain ⟨types, hlenient⟩ := exists_describeTypesLeniently hentries
  have hdropped := describeTypes_dropNameSpace hlenient
  refine ⟨fields, items, rfl, htypes, ?_, ⟨?_, ?_⟩, types, ⟨_, rfl, hdropped⟩, ?_⟩
  · intro item hitem
    obtain ⟨entries, hentries⟩ := hentries
    obtain ⟨entry, -, hentry⟩ := hentries.exists_mem_left hitem
    exact ⟨entry, hentry⟩
  · rintro ⟨types', items', htypes', hitems'⟩ item hitem
    rw [htypes] at htypes'
    cases htypes'
    obtain ⟨type, -, hspace, -⟩ := hitems'.flip.exists_mem_left hitem
    intro field hfield
    rw [hspace] at hfield
    obtain ⟨text, -, htext⟩ := Option.map_eq_some_iff.1 hfield
    exact ⟨text, htext.symm⟩
  · intro htyped
    refine ⟨types, items, htypes, ?_⟩
    refine ((List.forall₂_and_left ..).2 ⟨htyped, hlenient⟩).imp ?_
    rintro item type ⟨hitem, hspace, hentry⟩
    exact ⟨by rw [nameSpaceTyped_iff.1 hitem, hspace], hentry⟩
  · rw [← h]
    exact ofJson_congr rfl hdropped.leniently htypes hlenient

/-- A namespace that is neither a text nor missing does not keep a document from being loaded,
and its catalog is that without a namespace. -/
theorem conforms_of_ofJson_bool :
    let inner : Json := .object [("name", .string "B"), ("base", .string "A`1[T]")]
    let entry : Json := .object [("namespace", .bool true), ("name", .string "A"),
      ("params", .array [.string "T"]), ("nested", .array [inner])]
    let without : Json := .object [("name", .string "A"),
      ("params", .array [.string "T"]), ("nested", .array [inner])]
    ∃ c, ofJson (.object [("types", .array [entry])]) = .ok c ∧ c.size = 19 ∧
      (∃ types, Describes (.object [("types", .array [without])]) types) ∧
      ofJson (.object [("types", .array [without])]) = .ok c := by
  intro inner entry without
  obtain ⟨c, hc, hsize⟩ := exists_ofJson_eq_ok (.object [("types", .array [entry])])
    (P := fun c => c.size = 19) (by decide +kernel)
  obtain ⟨fields, items, hfields, htypes, -, -, types, hdescribes, hload⟩ := conforms_of_ofJson hc
  cases hfields
  have hitems : some (Json.array [entry]) = some (.array items) := htypes
  cases hitems
  exact ⟨c, hc, hsize, ⟨types, hdescribes⟩, hload⟩

/-- A document with a number for a namespace is loaded, although it does not conform. -/
theorem ofJson_accepts_number_as_nameSpace :
    let entry : Json := .object [("name", .string "A"), ("namespace", .int 5)]
    ∃ c, ofJson (.object [("types", .array [entry])]) = .ok c ∧
      ¬ ∃ types, Describes (.object [("types", .array [entry])]) types := by
  intro entry
  obtain ⟨c, hc, -⟩ := exists_ofJson_eq_ok (.object [("types", .array [entry])])
    (P := fun c => c.size = 18) (by decide +kernel)
  refine ⟨c, hc, ?_⟩
  rintro ⟨types, items, htypes, hall⟩
  have hitems : some (Json.array [entry]) = some (.array items) := htypes
  cases hitems
  cases hall with
  | @cons _ type _ _ hfirst _ =>
    -- no text is the number
    have hspace : some (Json.int 5) = type.1.map .string := hfirst.1
    obtain ⟨text, -, hnumber⟩ := Option.map_eq_some_iff.1 hspace.symm
    cases hnumber

end Generics.Catalog
