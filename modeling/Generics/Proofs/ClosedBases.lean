import Generics.Proofs.Applying
import Generics.Proofs.Bases
import Generics.Proofs.Renumbering

/-!
# Bases of closed types

A base is accepted when the free parameters in it belong to its own type; what is
stored is not looked at again when arguments are put in.  If the bases that are set
are well-formed, this is enough: the base of a type without free parameters has none,
and neither has the base of that, so a closed view never has to hide a base.

## Main definitions

* `Catalog.SoundlyBuilt` — catalogs in which well-formed bases were set.
* `Sketch.ancestor`, `Closed.ancestor` — the base of the base, in any number of steps.

## Main results

* `SoundlyBuilt.basesKnown`, `SoundlyBuilt.basesSettled` — every base would be accepted
  again at any time.
* `hasFree_instantiate` — closed arguments close a base.
* `soundlyBuilt_ofJson` — loaded catalogs are such catalogs.
* `base_of_closed` — the base of a closed type is closed.
-/

namespace Generics

/-! ### Chains of bases -/

/-- The base of a type, the base of that base, and so on, in a number of steps. -/
def Sketch.ancestor (c : Catalog) : Nat → Sketch → Option Sketch
  | 0, t => some t
  | steps + 1, t => (t.base c).bind (ancestor c steps)

/-- The same with the view kept closed. -/
def Closed.ancestor (c : Catalog) : Nat → Closed → Option Closed
  | 0, t => some t
  | steps + 1, t => (t.base c).bind (ancestor c steps)

namespace Catalog

open Descriptor

/-! ### Catalogs with well-formed bases -/

/-- The catalogs that declarations can build when every base is a well-formed type of
the catalog in which it is set. -/
inductive SoundlyBuilt : Catalog → Prop
  | initial : SoundlyBuilt initial
  | define {c c' : Catalog} {id : DefId} {nameSpace : Option String} {name : String}
      {params : List String} {visibility : Visibility} (before : SoundlyBuilt c)
      (step : c.define nameSpace name params visibility = .ok (id, c')) : SoundlyBuilt c'
  | defineNested {c c' : Catalog} {id outer : DefId} {name : String} {params : List String}
      {visibility : Visibility} (before : SoundlyBuilt c) (declared : c.Declares outer)
      (step : c.defineNested outer name params visibility = .ok (id, c')) : SoundlyBuilt c'
  | setBase {c c' : Catalog} {id : DefId} {base : Descriptor} (before : SoundlyBuilt c)
      (declared : c.Declares id) (known : c.Knows base) (wellFormed : c.WellFormed base)
      (step : c.setBase id base = .ok c') : SoundlyBuilt c'

variable {c c' : Catalog}

theorem SoundlyBuilt.reachable (h : c.SoundlyBuilt) : c.Reachable := by
  induction h with
  | initial => exact .initial
  | define before step ih => exact .define ih step
  | defineNested before declared step ih => exact .defineNested ih declared step
  | setBase before declared known wellFormed step ih => exact .setBase ih declared step

/-! ### What the acceptance check is good for -/

/-- An accepted base would be accepted again when the catalog has grown. -/
theorem SettledBase.mono {owner : DefId} {base : Descriptor} (h : c.SettledBase owner base)
    (hr : Renumbers id c c') (howner : c.Declares owner) (hknown : c.Knows base) :
    c'.SettledBase owner base := by
  have hbound := hr.bindsOnly howner hknown
  have hfits := hr.arityCorrect hknown h.fits
  rw [renumber_id] at hbound hfits
  exact ⟨hbound.trans h.bound, hfits, h.reduced⟩

theorem declares_of_base {id : DefId} {base : Descriptor}
    (h : (c.definition id).base = some base) : c.Declares id := by
  by_contra hnot
  rw [definition_of_not_declares hnot] at h
  cases h

/-- A declaration adds no base, and leaves the others what they are. -/
theorem base_add {path : String} {d : Definition} {outer : Option DefId} (hd : d.base = none)
    {id : DefId} {base : Descriptor} (h : ((c.add path d outer).definition id).base = some base) :
    (c.definition id).base = some base := by
  rw [definition_add] at h
  split at h
  · rw [hd] at h
    cases h
  · exact h

theorem BasesKnown.add (h : c.BasesKnown) {path : String} {d : Definition}
    {outer : Option DefId} (hd : d.base = none) : (c.add path d outer).BasesKnown :=
  fun hbase => (h (base_add hd hbase)).add path d outer

theorem BasesSettled.add (h : c.BasesSettled) (hknown : c.BasesKnown) {path : String}
    {d : Definition} {outer : Option DefId} (hd : d.base = none) (hc : c.WellNested)
    (hc' : (c.add path d outer).WellNested) : (c.add path d outer).BasesSettled := by
  intro id base hbase
  have hold : (c.definition id).base = some base := base_add hd hbase
  have hgrown := (keeps_add c path d outer).renumbers (by rw [size_add]; omega) hc hc'
  exact (h hold).mono hgrown (declares_of_base hold) (hknown hold)

theorem SoundlyBuilt.basesKnown (h : c.SoundlyBuilt) : c.BasesKnown := by
  induction h with
  | initial =>
    intro id base hbase
    rw [sound_initial.unbased id] at hbase
    cases hbase
  | define before step ih =>
    obtain ⟨-, -, rfl⟩ := define_eq_ok step
    exact BasesKnown.add ih rfl
  | defineNested before declared step ih =>
    obtain ⟨-, -, rfl⟩ := defineNested_eq_ok step
    exact BasesKnown.add ih rfl
  | setBase before declared known wellFormed step ih =>
    obtain ⟨-, rfl⟩ := setBase_eq_ok step
    exact BasesKnown.withBase ih declared known

theorem SoundlyBuilt.basesSettled (h : c.SoundlyBuilt) : c.BasesSettled := by
  induction h with
  | initial =>
    intro id base hbase
    rw [sound_initial.unbased id] at hbase
    cases hbase
  | @define c c' id nameSpace name params visibility before step ih =>
    have hc := before.reachable.wellNested
    have hc' := (SoundlyBuilt.define before step).reachable.wellNested
    have hknown : c.BasesKnown := before.basesKnown
    have hsettled : c.BasesSettled := ih
    obtain ⟨-, -, rfl⟩ := define_eq_ok step
    intro id base hbase
    exact hsettled.add hknown rfl hc hc' hbase
  | @defineNested c c' id outer name params visibility before declared step ih =>
    have hc := before.reachable.wellNested
    have hc' := (SoundlyBuilt.defineNested before declared step).reachable.wellNested
    have hknown : c.BasesKnown := before.basesKnown
    have hsettled : c.BasesSettled := ih
    obtain ⟨-, -, rfl⟩ := defineNested_eq_ok step
    intro id base hbase
    exact hsettled.add hknown rfl hc hc' hbase
  | setBase before declared known wellFormed step ih =>
    obtain ⟨hbound, rfl⟩ := setBase_eq_ok step
    exact BasesSettled.withBase ih declared ⟨hbound, wellFormed.fits, wellFormed.reduced⟩

/-- Declarations alone set no ill-formed base. -/
theorem Reachable.soundlyBuilt_of_unbased (h : c.Reachable)
    (unbased : ∀ id, (c.definition id).base = none) : c.SoundlyBuilt := by
  have hadd : ∀ {c : Catalog} {path : String} {d : Definition} {outer : Option DefId},
      (∀ id, ((c.add path d outer).definition id).base = none) →
        ∀ id, (c.definition id).base = none := by
    intro c path d outer hnone id
    by_cases hid : c.Declares id
    · rw [← definition_add_of_declares hid path d outer]
      exact hnone id
    · rw [definition_of_not_declares hid]
  induction h with
  | initial => exact .initial
  | define before step ih =>
    obtain ⟨-, -, rfl⟩ := define_eq_ok step
    exact .define (ih (hadd unbased)) step
  | defineNested before declared step ih =>
    obtain ⟨-, -, rfl⟩ := defineNested_eq_ok step
    exact .defineNested (ih (hadd unbased)) declared step
  | @setBase c c' id base before declared step ih =>
    -- a base that is set stays
    obtain ⟨-, rfl⟩ := setBase_eq_ok step
    have hsome := unbased id
    rw [definition_withBase c declared, if_pos rfl] at hsome
    cases hsome

/-- What a document writes as a base is well-formed. -/
theorem soundlyBuilt_ofJson {document : Json} (loaded : ofJson document = .ok c) :
    c.SoundlyBuilt := by
  refine (ofJson_rule (P := SoundlyBuilt) ?_ ?_ loaded).2
  · exact fun hc hunbased => hc.soundlyBuilt_of_unbased hunbased
  · intro c c' id text hc declared hset hbuilt
    obtain ⟨name, base, -, hresolve, hset⟩ := setWrittenBase_eq_ok hset
    have hwellFormed : c.WellFormed base :=
      ⟨(respected_fits c).resolveIn hresolve, (respected_reduced c).resolveIn hresolve⟩
    exact .setBase hbuilt declared (hc.indexed.knows_resolveIn hresolve) hwellFormed hset

/-! ### Putting closed arguments in -/

/-- If every parameter is replaced by a closed type, a base that binds no others is
closed. -/
theorem hasFree_instantiate {id : DefId} {base : Descriptor} {args : List Descriptor}
    (hbound : c.bindsOnly id base = true) (hfits : c.ArityCorrect base)
    (hlen : args.length = (c.definition id).params.length)
    (hargs : ∀ a ∈ args, c.hasFree a = false) : c.hasFree (instantiate id args base) = false := by
  induction base with
  | named other =>
    rw [instantiate_named]
    exact hasFree_of_bindsOnly_named hbound
  | param owner position =>
    obtain rfl := eq_of_bindsOnly_param hbound
    have hposition : position < args.length := hlen ▸ throughout_param.1 hfits
    have hget : args[position]? = some args[position] := List.getElem?_eq_getElem hposition
    rw [instantiate_param hget]
    exact hargs _ (List.getElem_mem hposition)
  | constructed other inner ih =>
    rw [bindsOnly_constructed, List.all_eq_true] at hbound
    have hinner := (throughout_constructed.1 hfits).2
    rw [instantiate_constructed]
    refine hasFree_generic_of_closed fun b hb => ?_
    obtain ⟨a, ha, rfl⟩ := List.mem_map.1 hb
    exact ih a ha (hbound a ha) (hinner a ha)

/-- A closed type is over a definition. -/
theorem exists_definition?_of_closed {ty : Descriptor} (h : c.hasFree ty = false) :
    ∃ id, ty.definition? = some id := by
  cases ty with
  | named id => exact ⟨id, rfl⟩
  | param owner position => rw [hasFree_param] at h; cases h
  | constructed id args => exact ⟨id, rfl⟩

/-- The arguments of a closed type are closed. -/
theorem hasFree_arguments {ty : Descriptor} (h : c.hasFree ty = false) :
    ∀ a ∈ c.arguments ty, c.hasFree a = false := by
  have hparam : ty.isParameter = false := by
    cases ty with
    | param owner position => rw [hasFree_param] at h; cases h
    | _ => rfl
  rw [hasFree_eq_any_arguments c hparam, List.any_eq_false] at h
  exact fun a ha => Bool.eq_false_iff.2 (h a ha)

theorem BasesSettled.hasFree_baseType (hbases : c.BasesSettled) {ty base : Descriptor}
    (hty : c.ArityCorrect ty) (hclosed : c.hasFree ty = false)
    (hbase : c.baseType ty = some base) : c.hasFree base = false := by
  obtain ⟨id, hid⟩ := exists_definition?_of_closed hclosed
  obtain ⟨stored, hstored⟩ : ∃ stored, (c.definition id).base = some stored := by
    cases ty with
    | named other => cases hid; exact ⟨base, hbase⟩
    | param owner position => cases hid
    | constructed other args =>
      cases hid
      obtain ⟨stored, hstored, -⟩ := Option.map_eq_some_iff.1 hbase
      exact ⟨stored, hstored⟩
  have hsettled : c.SettledBase id stored := hbases hstored
  rw [baseType_eq hstored hsettled hid] at hbase
  cases hbase
  exact hasFree_instantiate hsettled.bound hsettled.fits (length_arguments hid hty)
    (hasFree_arguments hclosed)

theorem BasesSettled.wellFormed_baseType (hbases : c.BasesSettled) {ty base : Descriptor}
    (hty : c.WellFormed ty) (hbase : c.baseType ty = some base) : c.WellFormed base where
  fits := (respected_fits c).baseType (fun hstored => (hbases hstored).fits) hbase hty.fits
  reduced := (respected_reduced c).baseType (fun hstored => (hbases hstored).reduced) hbase
    hty.reduced

/-- The base of a type is absent exactly if its definition has none. -/
theorem baseType_eq_none_iff {ty : Descriptor} {id : DefId} (hid : ty.definition? = some id) :
    c.baseType ty = none ↔ (c.definition id).base = none := by
  cases ty with
  | named other => cases hid; rfl
  | param owner position => cases hid
  | constructed other args => cases hid; exact Option.map_eq_none_iff

/-! ### Closed views -/

/-- The base of a closed type is the base of the same type with nothing promised, and
is found closed. -/
theorem BasesSettled.findBase_eq (hbases : c.BasesSettled) {t : Closed}
    (hclosed : c.hasFree t.raw = false) (hty : c.WellFormed t.raw) :
    t.findBase c = match c.baseType t.raw with
      | none => .absent
      | some base => .found ⟨base⟩ := by
  unfold Closed.findBase
  cases hbase : c.baseType t.raw with
  | none => rfl
  | some base =>
    have hfree : c.hasFree base = false := hbases.hasFree_baseType hty.fits hclosed hbase
    simp [hfree]

theorem BasesSettled.base_eq (hbases : c.BasesSettled) {t : Closed}
    (hclosed : c.hasFree t.raw = false) (hty : c.WellFormed t.raw) :
    t.base c = (c.baseType t.raw).map Closed.mk := by
  rw [Closed.base, hbases.findBase_eq hclosed hty]
  cases c.baseType t.raw <;> rfl

/-- Along a chain of bases every type is closed and well-formed, and the chain is the
same with nothing promised. -/
theorem BasesSettled.ancestor (hbases : c.BasesSettled) {t : Closed}
    (hclosed : c.hasFree t.raw = false) (hty : c.WellFormed t.raw) (steps : Nat) :
    (t.ancestor c steps).map Closed.raw = (Sketch.ancestor c steps ⟨t.raw⟩).map Sketch.raw ∧
      ∀ u, t.ancestor c steps = some u → c.hasFree u.raw = false ∧ c.WellFormed u.raw := by
  induction steps generalizing t with
  | zero =>
    refine ⟨rfl, fun u hu => ?_⟩
    cases hu
    exact ⟨hclosed, hty⟩
  | succ steps ih =>
    rw [Closed.ancestor, Sketch.ancestor, hbases.base_eq hclosed hty, Sketch.base]
    cases hbase : c.baseType t.raw with
    | none => exact ⟨rfl, nofun⟩
    | some base =>
      exact ih (hbases.hasFree_baseType hty.fits hclosed hbase)
        (hbases.wellFormed_baseType hty hbase)

/-- Every loaded catalog is one in which well-formed bases were set; and in each such
catalog a closed type has a base exactly if its definition has one.  The base is the one
that is found with nothing promised, it is closed and well-formed, and so it stays in any
number of steps: no base is ever kept back because it is not closed. -/
theorem base_of_closed :
    (∀ {document : Json} {c : Catalog}, ofJson document = .ok c → c.SoundlyBuilt) ∧
    ∀ {c : Catalog}, c.SoundlyBuilt → ∀ {t : Closed}, c.hasFree t.raw = false →
      c.WellFormed t.raw →
      (∃ d, t.raw.definition? = some d ∧ (t.base c = none ↔ (c.definition d).base = none)) ∧
      (t.base c).map Closed.raw = ((Sketch.mk t.raw).base c).map Sketch.raw ∧
      (∀ b, t.base c = some b → c.hasFree b.raw = false ∧ c.WellFormed b.raw) ∧
      (∀ b, t.findBase c ≠ .notClosed b) ∧
      ∀ steps, (t.ancestor c steps).map Closed.raw =
          (Sketch.ancestor c steps ⟨t.raw⟩).map Sketch.raw ∧
        ∀ u, t.ancestor c steps = some u → c.hasFree u.raw = false ∧ c.WellFormed u.raw ∧
          ∀ b, u.findBase c ≠ .notClosed b := by
  refine ⟨soundlyBuilt_ofJson, ?_⟩
  intro c built t hclosed hty
  have hbases : c.BasesSettled := built.basesSettled
  have hshown : ∀ {u : Closed}, c.hasFree u.raw = false → c.WellFormed u.raw →
      ∀ b, u.findBase c ≠ .notClosed b := by
    intro u hu huw b
    rw [hbases.findBase_eq hu huw]
    cases c.baseType u.raw <;> nofun
  have hbase : t.base c = (c.baseType t.raw).map Closed.mk :=
    hbases.base_eq hclosed hty
  obtain ⟨d, hd⟩ := exists_definition?_of_closed hclosed
  refine ⟨⟨d, hd, ?_⟩, ?_, ?_, hshown hclosed hty, ?_⟩
  · rw [hbase, Option.map_eq_none_iff, baseType_eq_none_iff hd]
  · rw [hbase, Sketch.base, Option.map_map, Option.map_map]
    rfl
  · intro b hb
    rw [hbase] at hb
    obtain ⟨raw, hraw, rfl⟩ := Option.map_eq_some_iff.1 hb
    exact ⟨hbases.hasFree_baseType hty.fits hclosed hraw, hbases.wellFormed_baseType hty hraw⟩
  · intro steps
    obtain ⟨hsame, hkept⟩ := hbases.ancestor hclosed hty steps
    refine ⟨hsame, fun u hu => ?_⟩
    obtain ⟨hufree, huw⟩ := hkept u hu
    exact ⟨hufree, huw, hshown hufree huw⟩

/-- ``Swap`2`` has a base that mentions ``Swap`2`` itself, with the parameters exchanged,
and one of them again.  The chain of bases of a closed swap ends after two steps, and its
types are closed. -/
theorem base_of_closed_swap :
    let document : Json := .object [("types", .array
      [.object [("base", .string "Seq`1[A]"), ("name", .string "Pair"),
         ("params", .array [.string "A", .string "B"])],
       .object [("name", .string "Seq"), ("params", .array [.string "E"])],
       .object [("base", .string "Pair`2[Swap`2[V,K],V]"), ("name", .string "Swap"),
         ("params", .array [.string "K", .string "V"])]])]
    let number : Descriptor := .named Builtin.int32.id
    let word : Descriptor := .named Builtin.string.id
    let swapped : Descriptor := .constructed ⟨19⟩ [word, number]
    let t : Closed := ⟨.constructed ⟨19⟩ [number, word]⟩
    ∃ c, ofJson document = .ok c ∧ c.SoundlyBuilt ∧
      t.base c = some ⟨.constructed ⟨17⟩ [swapped, word]⟩ ∧
      t.ancestor c 2 = some ⟨.constructed ⟨18⟩ [swapped]⟩ ∧ t.ancestor c 3 = none ∧
      ∀ steps u, t.ancestor c steps = some u → c.hasFree u.raw = false ∧ c.WellFormed u.raw ∧
        ∀ b, u.findBase c ≠ .notClosed b := by
  intro document number word swapped t
  obtain ⟨c, hc, hclosed, hty, hbase, htwo, hthree⟩ :=
    exists_ofJson_eq_ok document (P := fun c =>
      c.hasFree t.raw = false ∧ c.WellFormed t.raw ∧
      t.base c = some ⟨.constructed ⟨17⟩ [swapped, word]⟩ ∧
      t.ancestor c 2 = some ⟨.constructed ⟨18⟩ [swapped]⟩ ∧ t.ancestor c 3 = none)
      (by decide +kernel)
  have built : c.SoundlyBuilt := base_of_closed.1 hc
  obtain ⟨-, -, -, -, hchain⟩ := base_of_closed.2 built hclosed hty
  exact ⟨c, hc, built, hbase, htwo, hthree, fun steps u hu => (hchain steps).2 u hu⟩

end Catalog

end Generics
