import Generics.Catalog.Load
import Generics.Proofs.Growth
import Generics.Proofs.Parts

/-!
# What loading builds

Loading a document declares its types one after the other and then sets their bases.
However the entries are nested, it is a sequence of declarations, so what one
declaration keeps, loading keeps.

## Main definitions

* `Catalog.declareType` — the declaration that an entry asks for.
* `Catalog.Drafting` — sequences of such declarations.
* `Catalog.BasesSettled` — every base is a well-formed type over the parameters of its
  own type.

## Main results

* `declareHead_eq_ok`, `setWrittenBase_eq_ok` — what one step of loading does.
* `declareAll_drafting` — declaring entries is a sequence of declarations.
* `ofJson_rule` — what setting written bases keeps holds of a loaded catalog.
* `reachable_ofJson`, `basesSettled_ofJson` — what is known of a loaded catalog.
-/

namespace Generics.Catalog

open Descriptor

/-! ### One declaration -/

/-- The type of an entry, declared alone or inside `outer`. -/
def declareType (c : Catalog) (outer : Option DefId) (nameSpace : Option String)
    (head : EntryHead) : Except DefineError (DefId × Catalog) :=
  match outer with
  | none => c.define nameSpace head.name head.params head.visibility
  | some outer => c.defineNested outer head.name head.params head.visibility

/-- The two ways of declaring a type differ in nothing else. -/
theorem declareHead_eq (draft : Draft) (outer : Option DefId) (entry : Json) :
    declareHead draft outer entry = (do
      let head ← (readHead entry).mapError .schema
      let (id, catalog) ←
        (draft.catalog.declareType outer ((entry.get? "namespace").bind Json.string?)
          head).mapError (.ofDefine draft.catalog)
      let base ← (readBase head.name entry).mapError .schema
      .ok (id, head,
        { catalog, bases := draft.bases ++ (base.map fun base => (id, base)).toList })) := by
  cases outer <;> rfl

theorem declareHead_eq_ok {draft draft' : Draft} {outer : Option DefId} {entry : Json}
    {id : DefId} {head : EntryHead} (h : declareHead draft outer entry = .ok (id, head, draft')) :
    readHead entry = .ok head ∧
      draft.catalog.declareType outer ((entry.get? "namespace").bind Json.string?) head =
        .ok (id, draft'.catalog) ∧
      ∃ base, readBase head.name entry = .ok base ∧
        draft'.bases = draft.bases ++ (base.map fun base => (id, base)).toList := by
  rw [declareHead_eq, Except.bind_eq_ok] at h
  obtain ⟨head', hhead, h⟩ := h
  rw [Except.bind_eq_ok] at h
  obtain ⟨⟨id', catalog⟩, hdeclare, h⟩ := h
  obtain ⟨base, hbase, h⟩ := Except.bind_eq_ok.1 h
  cases h
  exact ⟨Except.mapError_eq_ok.1 hhead, Except.mapError_eq_ok.1 hdeclare, base,
    Except.mapError_eq_ok.1 hbase, rfl⟩

/-- A declaration adds one definition at the end, without a base. -/
theorem declareType_eq_ok {c c' : Catalog} {outer : Option DefId} {nameSpace : Option String}
    {head : EntryHead} {id : DefId} (h : c.declareType outer nameSpace head = .ok (id, c')) :
    id = ⟨c.size⟩ ∧ ∃ path d, d.base = none ∧ c' = c.add path d outer := by
  cases outer with
  | none =>
    obtain ⟨-, hid, hc⟩ := define_eq_ok h
    exact ⟨hid, _, _, rfl, hc⟩
  | some outer =>
    obtain ⟨-, hid, hc⟩ := defineNested_eq_ok h
    exact ⟨hid, _, _, rfl, hc⟩

theorem Reachable.declareType {c c' : Catalog} {outer : Option DefId} {nameSpace : Option String}
    {head : EntryHead} {id : DefId} (hc : c.Reachable)
    (declared : ∀ o, outer = some o → c.Declares o)
    (h : c.declareType outer nameSpace head = .ok (id, c')) : c'.Reachable := by
  cases outer with
  | none => exact .define hc h
  | some outer => exact .defineNested hc (declared outer rfl) h

/-! ### Sequences of declarations -/

/-- Declarations lead from one draft to another.  What a type is declared in is there
already. -/
inductive Drafting (start : Draft) : Draft → Prop
  | start : Drafting start start
  | declare {draft draft' : Draft} {outer : Option DefId} {entry : Json} {id : DefId}
      {head : EntryHead} (before : Drafting start draft)
      (declared : ∀ o, outer = some o → draft.catalog.Declares o)
      (step : declareHead draft outer entry = .ok (id, head, draft')) : Drafting start draft'

theorem Drafting.trans {d₁ d₂ d₃ : Draft} (h : Drafting d₁ d₂) (h' : Drafting d₂ d₃) :
    Drafting d₁ d₃ := by
  induction h' with
  | start => exact h
  | declare before declared step ih => exact .declare ih declared step

theorem Drafting.declares {d d' : Draft} (h : Drafting d d') {o : DefId}
    (ho : d.catalog.Declares o) : d'.catalog.Declares o := by
  induction h with
  | start => exact ho
  | declare before declared step ih =>
    obtain ⟨-, hdeclare, -⟩ := declareHead_eq_ok step
    obtain ⟨-, path, d, -, hc⟩ := declareType_eq_ok hdeclare
    unfold Declares
    rw [hc, size_add]
    exact Nat.lt_succ_of_lt ih

mutual

theorem declareEntry_drafting : ∀ (entry : Json) {outer : Option DefId} {draft draft' : Draft},
    (∀ o, outer = some o → draft.catalog.Declares o) →
    declareEntry outer draft entry = .ok draft' → Drafting draft draft'
  | .object fields, outer, draft, draft', declared, h => by
    rw [declareEntry, Except.bind_eq_ok] at h
    obtain ⟨⟨id, head, middle⟩, hhead, h⟩ := h
    have hmiddle : Drafting draft middle := .declare .start declared hhead
    have hid : middle.catalog.Declares id := by
      obtain ⟨-, hdeclare, -⟩ := declareHead_eq_ok hhead
      obtain ⟨hid, path, d, -, hc⟩ := declareType_eq_ok hdeclare
      unfold Declares
      rw [hc, size_add, hid]
      exact Nat.lt_succ_self _
    exact hmiddle.trans (declareNested_drafting fields hid h)
  | .null, _, _, _, _, h => by cases h
  | .bool _, _, _, _, _, h => by cases h
  | .int _, _, _, _, _, h => by cases h
  | .float _, _, _, _, _, h => by cases h
  | .string _, _, _, _, _, h => by cases h
  | .array _, _, _, _, _, h => by cases h

theorem declareNested_drafting : ∀ (fields : List (String × Json)) {id : DefId} {name : String}
    {draft draft' : Draft}, draft.catalog.Declares id →
    declareNested id name draft fields = .ok draft' → Drafting draft draft'
  | [], _, _, _, _, _, h => by cases h; exact .start
  | (key, value) :: rest, id, name, draft, draft', hid, h => by
    -- fields are passed over up to the first one with the key `nested`
    cases value with
    | array entries =>
      rw [declareNested] at h
      split at h
      · exact declareAll_drafting entries (fun o ho => Option.some.inj ho ▸ hid) h
      · exact declareNested_drafting rest hid h
    | _ =>
      simp only [declareNested] at h
      split at h
      · cases h
      · exact declareNested_drafting rest hid h

theorem declareAll_drafting : ∀ (entries : List Json) {outer : Option DefId}
    {draft draft' : Draft}, (∀ o, outer = some o → draft.catalog.Declares o) →
    declareAll outer draft entries = .ok draft' → Drafting draft draft'
  | [], _, _, _, _, h => by cases h; exact .start
  | entry :: entries, outer, draft, draft', declared, h => by
    rw [declareAll, Except.bind_eq_ok] at h
    obtain ⟨middle, hentry, h⟩ := h
    have hmiddle : Drafting draft middle := declareEntry_drafting entry declared hentry
    exact hmiddle.trans
      (declareAll_drafting entries (fun o ho => hmiddle.declares (declared o ho)) h)

end

/-- What declarations have built: a catalog without bases, and bases to be set for
types that are there. -/
structure Draft.Sound (draft : Draft) : Prop where
  reachable : draft.catalog.Reachable
  unbased : ∀ id, (draft.catalog.definition id).base = none
  declared : ∀ entry ∈ draft.bases, draft.catalog.Declares entry.1

theorem sound_initial : Draft.Sound { catalog := initial } where
  reachable := .initial
  unbased id := definition_initial_induction (P := fun d => d.base = none) (by decide) rfl id
  declared entry h := absurd h List.not_mem_nil

theorem Draft.Sound.declare {draft draft' : Draft} (h : draft.Sound) {outer : Option DefId}
    {entry : Json} {id : DefId} {head : EntryHead}
    (declared : ∀ o, outer = some o → draft.catalog.Declares o)
    (step : declareHead draft outer entry = .ok (id, head, draft')) : draft'.Sound := by
  obtain ⟨-, hdeclare, base, -, hbases⟩ := declareHead_eq_ok step
  obtain ⟨hid, path, d, hd, hc⟩ := declareType_eq_ok hdeclare
  have hsize : draft'.catalog.size = draft.catalog.size + 1 := by rw [hc, size_add]
  refine ⟨h.reachable.declareType declared hdeclare, ?_, ?_⟩
  · intro other
    rw [hc, definition_add]
    split
    · exact hd
    · exact h.unbased other
  · intro entry hentry
    unfold Declares
    rw [hbases] at hentry
    rw [hsize]
    rcases List.mem_append.1 hentry with hold | hnew
    · exact Nat.lt_succ_of_lt (h.declared entry hold)
    · obtain ⟨text, -, rfl⟩ := Option.map_eq_some_iff.1 (Option.mem_toList.1 hnew)
      rw [hid]
      exact Nat.lt_succ_self _

theorem Drafting.sound {draft draft' : Draft} (h : Drafting draft draft') (hs : draft.Sound) :
    draft'.Sound := by
  induction h with
  | start => exact hs
  | declare before declared step ih => exact ih.declare declared step

/-! ### Bases -/

/-- A well-formed base over the parameters of its own type. -/
structure SettledBase (c : Catalog) (id : DefId) (base : Descriptor) : Prop where
  bound : c.bindsOnly id base = true
  fits : c.ArityCorrect base
  reduced : base.IsReduced

/-- Every base is settled. -/
def BasesSettled (c : Catalog) : Prop :=
  ∀ {id base}, (c.definition id).base = some base → c.SettledBase id base

section Rebased

variable {c c' : Catalog} (h : c.Rebased c')

include h

theorem Rebased.isGeneric (id : DefId) :
    (c'.definition id).isGeneric = (c.definition id).isGeneric := by
  unfold Definition.isGeneric
  rw [(h.definition id).params]

theorem Rebased.arityCorrect {ty : Descriptor} (hty : c.ArityCorrect ty) : c'.ArityCorrect ty := by
  intro s hs
  have hfits : c.NodeFits s := hty s hs
  cases s with
  | named id => trivial
  | param owner position =>
    show position < (c'.definition owner).params.length
    rw [(h.definition owner).params]
    exact hfits
  | constructed id args =>
    show (c'.definition id).isGeneric = true ∧ args.length = (c'.definition id).params.length
    rw [h.isGeneric, (h.definition id).params]
    exact hfits

theorem Rebased.bindsOnly (id : DefId) (ty : Descriptor) :
    c'.bindsOnly id ty = c.bindsOnly id ty := by
  induction ty with
  | named other => rw [Catalog.bindsOnly, Catalog.bindsOnly, h.isGeneric]
  | param owner position => rw [Catalog.bindsOnly, Catalog.bindsOnly]
  | constructed other args ih =>
    rw [bindsOnly_constructed, bindsOnly_constructed, Bool.eq_iff_iff, List.all_eq_true,
      List.all_eq_true]
    exact forall₂_congr fun a ha => by rw [ih a ha]

theorem Rebased.settledBase {id : DefId} {base : Descriptor} (hb : c.SettledBase id base) :
    c'.SettledBase id base where
  bound := by rw [h.bindsOnly]; exact hb.bound
  fits := h.arityCorrect hb.fits
  reduced := hb.reduced

end Rebased

theorem BasesSettled.withBase {c : Catalog} (h : c.BasesSettled) {id : DefId} {base : Descriptor}
    (declared : c.Declares id) (hbase : c.SettledBase id base) :
    (c.withBase id base).BasesSettled := by
  intro other stored hstored
  -- bases are checked against parameters, and these are the same
  rw [definition_withBase c declared] at hstored
  refine (rebased_withBase c id base).settledBase ?_
  split at hstored
  · next he =>
    cases hstored
    rw [he]
    exact hbase
  · exact h hstored

theorem setWrittenBase_eq_ok {c c' : Catalog} {id : DefId} {text : String}
    (h : c.setWrittenBase id text = .ok c') : ∃ name base, TypeName.read text = .ok name ∧
      c.resolveIn (some id) name = .ok base ∧ c.setBase id base = .ok c' := by
  unfold setWrittenBase at h
  rw [Except.bind_eq_ok] at h
  obtain ⟨name, hname, h⟩ := h
  obtain ⟨base, hbase, h⟩ := Except.bind_eq_ok.1 h
  exact ⟨name, base, Except.mapError_eq_ok.1 hname, Except.mapError_eq_ok.1 hbase,
    Except.mapError_eq_ok.1 h⟩

/-- Setting a written base keeps every base settled: what a name resolves to is
well-formed, and the parameters in it were looked at. -/
theorem BasesSettled.setWrittenBase {c c' : Catalog} (h : c.BasesSettled) {id : DefId}
    {text : String} (declared : c.Declares id) (hset : c.setWrittenBase id text = .ok c') :
    c'.BasesSettled := by
  obtain ⟨name, base, -, hresolve, hset⟩ := setWrittenBase_eq_ok hset
  obtain ⟨hbound, rfl⟩ := setBase_eq_ok hset
  exact h.withBase declared ⟨hbound, (respected_fits c).resolveIn hresolve,
    (respected_reduced c).resolveIn hresolve⟩

/-- What each written base keeps when it is set, all of them keep. -/
theorem setWrittenBases_rule {P : Catalog → Prop}
    (step : ∀ {c c' : Catalog} {id : DefId} {text : String}, c.Reachable → c.Declares id →
      c.setWrittenBase id text = .ok c' → P c → P c')
    {c c' : Catalog} {bases : List (DefId × String)} (hc : c.Reachable)
    (declared : ∀ entry ∈ bases, c.Declares entry.1) (hP : P c)
    (h : c.setWrittenBases bases = .ok c') : c'.Reachable ∧ P c' := by
  induction bases generalizing c with
  | nil => cases h; exact ⟨hc, hP⟩
  | cons entry bases ih =>
    obtain ⟨id, text⟩ := entry
    obtain ⟨hid, hrest⟩ := List.forall_mem_cons.1 declared
    rw [setWrittenBases, Except.bind_eq_ok] at h
    obtain ⟨middle, hset, h⟩ := h
    have hmiddle : P middle := step hc hid hset hP
    obtain ⟨name, base, -, -, hset⟩ := setWrittenBase_eq_ok hset
    have hreachable : middle.Reachable := .setBase hc hid hset
    obtain ⟨-, rfl⟩ := setBase_eq_ok hset
    refine ih hreachable (fun entry hentry => ?_) hmiddle h
    unfold Declares
    rw [size_withBase]
    exact hrest entry hentry

/-! ### Loaded catalogs -/

theorem ofJson_eq_ok {document : Json} {c : Catalog} (h : ofJson document = .ok c) :
    ∃ entries draft, document.get? "types" = some (.array entries) ∧
      declareAll none { catalog := initial } entries = .ok draft ∧
      draft.catalog.setWrittenBases draft.bases = .ok c := by
  unfold ofJson at h
  split at h
  · next entries htypes =>
    rw [Except.bind_eq_ok] at h
    obtain ⟨draft, hdraft, h⟩ := h
    exact ⟨entries, draft, htypes, hdraft, h⟩
  · cases h

/-- What holds of every catalog without bases, and is kept when a written base is set,
holds of a loaded catalog, which declarations can build. -/
theorem ofJson_rule {P : Catalog → Prop}
    (unbased : ∀ {c : Catalog}, c.Reachable → (∀ id, (c.definition id).base = none) → P c)
    (step : ∀ {c c' : Catalog} {id : DefId} {text : String}, c.Reachable → c.Declares id →
      c.setWrittenBase id text = .ok c' → P c → P c')
    {document : Json} {c : Catalog} (h : ofJson document = .ok c) : c.Reachable ∧ P c := by
  obtain ⟨entries, draft, -, hdraft, hbases⟩ := ofJson_eq_ok h
  have hdrafting : Drafting { catalog := initial } draft := by
    refine declareAll_drafting entries ?_ hdraft
    intro o ho
    cases ho
  have hsound : draft.Sound := hdrafting.sound sound_initial
  exact setWrittenBases_rule step hsound.reachable hsound.declared
    (unbased hsound.reachable hsound.unbased) hbases

/-- A document can be loaded, and what its catalog satisfies, if both can be computed. -/
theorem exists_ofJson_eq_ok (document : Json) {P : Catalog → Prop} [DecidablePred P]
    (h : ((ofJson document).toOption.any fun c => decide (P c)) = true) :
    ∃ c, ofJson document = .ok c ∧ P c := by
  cases hc : ofJson document with
  | error cause =>
    rw [hc] at h
    cases h
  | ok c =>
    rw [hc] at h
    exact ⟨c, rfl, of_decide_eq_true h⟩

theorem loaded_ofJson {document : Json} {c : Catalog} (h : ofJson document = .ok c) :
    c.Reachable ∧ c.BasesSettled := by
  refine ofJson_rule (P := BasesSettled) ?_ ?_ h
  · intro c _ hunbased id base hbase
    rw [hunbased id] at hbase
    cases hbase
  · intro c c' id text _ declared hset hsettled
    exact hsettled.setWrittenBase declared hset

/-- A document describes a catalog that declarations can build. -/
theorem reachable_ofJson {document : Json} {c : Catalog} (h : ofJson document = .ok c) :
    c.Reachable :=
  (loaded_ofJson h).1

/-- The bases of a loaded catalog are settled. -/
theorem basesSettled_ofJson {document : Json} {c : Catalog} (h : ofJson document = .ok c) :
    c.BasesSettled :=
  (loaded_ofJson h).2

end Generics.Catalog
