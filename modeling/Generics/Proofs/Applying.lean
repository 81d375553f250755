import Generics.Proofs.Filling
import Generics.Proofs.Loading
import Generics.Proofs.Runs

/-!
# Applying arguments in a run

Filling the slots of a type builds every application in it anew, and each of them
checks its arity.  In a run over a loaded catalog no such check fails: every type that is
viewed is well formed, however it was made.  All that can be wrong is the number of
arguments that are supplied for the whole type.

## Main definitions

* `Catalog.DecidedByArity` — whether there is a result depends on the number of arguments
  alone.

## Main results

* `Run.wellFormed` — every type that is viewed is well formed.
* `applyClosed_eq`, `applySketches_eq` — what applying arguments to a well-formed type
  answers.
* `Run.apply_decidedByArity` — applications in a run fail on the number of arguments only.
-/

namespace Generics

namespace Catalog

open Descriptor View

variable {c : Catalog}

/-- An application of `ty` to `supplied` arguments has a result exactly if this is the
number of slots; if it is not, the error tells both numbers. -/
structure DecidedByArity (c : Catalog) (ty : Descriptor) (supplied : Nat) {α : Type}
    (answer : Except ApplyError α) : Prop where
  ok_iff : (∃ t, answer = .ok t) ↔ supplied = c.slots ty
  error : supplied ≠ c.slots ty → answer = .error (.arity ty (c.slots ty) supplied)

/-! ### Applying arguments to a well-formed type -/

/-- Nothing is looked at in the type before the arguments are counted. -/
theorem apply_of_length_ne {ty : Descriptor} {args : List Descriptor}
    (h : args.length ≠ c.slots ty) :
    c.apply ty args = .error (.arity ty (c.slots ty) args.length) := by
  unfold Catalog.apply
  have hsome : ¬ (c.slots ty = 0 ∧ args = []) := by
    rintro ⟨hzero, rfl⟩
    exact h hzero.symm
  rw [if_neg hsome, if_neg (Ne.symm h)]

theorem applyClosed_eq {raw : Descriptor} (h : c.ArityCorrect raw) (args : List Closed) :
    c.applyClosed raw args =
      if args.length = c.slots raw then .ok ⟨c.fill raw (args.map Closed.raw)⟩
      else .error (.arity raw (c.slots raw) args.length) := by
  have hlength : (args.map Closed.raw).length = args.length := List.length_map _
  unfold applyClosed
  split_ifs with hn
  · rw [apply_eq_fill h (hlength.trans hn)]
  · rw [apply_of_length_ne (hlength ▸ hn), hlength]

theorem applySketches_eq {raw : Descriptor} (h : c.ArityCorrect raw) (args : List Sketch) :
    c.applySketches raw args =
      if c.slots raw = 0 then .error (.notGeneric raw)
      else if args.length = c.slots raw then .ok ⟨c.fill raw (args.map Sketch.raw)⟩
      else .error (.arity raw (c.slots raw) args.length) := by
  have hlength : (args.map Sketch.raw).length = args.length := List.length_map _
  unfold applySketches
  by_cases hzero : c.slots raw = 0
  · rw [if_pos hzero, slots_eq_zero_iff.1 hzero]
    rfl
  · have hfree : c.hasFree raw = true := by
      rw [slots_eq_zero_iff] at hzero
      exact eq_true_of_ne_false hzero
    rw [if_neg hzero, if_pos hfree]
    split_ifs with hn
    · rw [apply_eq_fill h (hlength.trans hn)]
    · rw [apply_of_length_ne (hlength ▸ hn), hlength]

theorem decidedByArity_ite {α : Type} (ty : Descriptor) (supplied : Nat) (t : α) :
    c.DecidedByArity ty supplied (if supplied = c.slots ty then .ok t
      else .error (.arity ty (c.slots ty) supplied)) := by
  by_cases h : supplied = c.slots ty
  · rw [if_pos h]
    exact ⟨⟨fun _ => h, fun _ => ⟨t, rfl⟩⟩, fun hne => absurd h hne⟩
  · rw [if_neg h]
    refine ⟨⟨?_, fun he => absurd he h⟩, fun _ => rfl⟩
    rintro ⟨t, ht⟩
    cases ht

end Catalog

namespace View

open Catalog

variable {c : Catalog} {made : List View}

/-! ### The steps of a view -/

/-- Every kind of view fills the slots in the same way. -/
theorem apply_eq (v : View) (args : List Closed) : v.apply c args = c.applyClosed v.raw args := by
  cases v <;> rfl

theorem eq_applySketches {v : View} {args : List Sketch} {answer : Except ApplyError Sketch}
    (h : v.applyPartial? c args = some answer) : answer = c.applySketches v.raw args := by
  cases v with
  | ofSketch t => exact (Option.some.inj h).symm
  | ofClosed t => cases h
  | ofOpen t => exact (Option.some.inj h).symm

/-! ### Runs -/

/-- In a run over a loaded catalog every type that is viewed is well formed. -/
theorem Run.wellFormed {document : Json} (loaded : ofJson document = .ok c)
    (run : Run c (fun _ => False) made) : ∀ v ∈ made, c.WellFormed v.raw := by
  have hbases : c.BasesSettled := basesSettled_ofJson loaded
  have system : c.KeepsSystem := (reachable_ofJson loaded).keepsSystem
  intro v hv
  constructor
  case fits =>
    exact run.throughout (respected_fits c)
      (fun _ _ => system.arityCorrect Reflected.wellFormed.fits)
      (fun hbase => (hbases hbase).fits) (fun _ h => h.elim) v hv
  case reduced =>
    exact run.throughout (respected_reduced c) (fun _ _ => Reflected.wellFormed.reduced)
      (fun hbase => (hbases hbase).reduced) (fun _ h => h.elim) v hv

/-- In a run over a loaded catalog, where no descriptors are handed in, every type that
is viewed is well formed.  So whether arguments can be applied depends on their number
alone, and whether sketches can be applied depends on that and on whether there is a slot
at all. -/
theorem Run.apply_decidedByArity {document : Json} (loaded : ofJson document = .ok c)
    (run : Run c (fun _ => False) made) : ∀ v ∈ made, c.WellFormed v.raw ∧
      (∀ args, c.DecidedByArity v.raw args.length (v.apply c args) ∧
        ∀ cause, v.apply c args ≠ .error (.construct cause)) ∧
      ∀ args answer, v.applyPartial? c args = some answer →
        (answer = .error (.notGeneric v.raw) ↔ c.slots v.raw = 0) ∧
        (c.slots v.raw ≠ 0 → c.DecidedByArity v.raw args.length answer) ∧
        ∀ cause, answer ≠ .error (.construct cause) := by
  intro v hv
  have hv : c.WellFormed v.raw := run.wellFormed loaded v hv
  refine ⟨hv, fun args => ?_, fun args answer hanswer => ?_⟩
  · rw [apply_eq, applyClosed_eq hv.fits]
    refine ⟨decidedByArity_ite v.raw args.length _, fun cause => ?_⟩
    split <;> simp
  · rw [eq_applySketches hanswer, applySketches_eq hv.fits]
    by_cases hzero : c.slots v.raw = 0
    · simp [hzero]
    · rw [if_neg hzero]
      refine ⟨?_, fun _ => decidedByArity_ite v.raw args.length _, fun cause => ?_⟩
      · split <;> simp [hzero]
      · split <;> simp

/-- A pair of an optional value and a number has one slot; taken apart, it is the
definition of pairs, with two slots, and a pair of numbers has none. -/
theorem Run.apply_decidedByArity_pair :
    let document : Json := .object [("types", .array
      [.object [("name", .string "Pair"), ("params", .array [.string "K", .string "V"])]])]
    let number : Descriptor := .named Builtin.int32.id
    let mixed : Descriptor := .constructed ⟨17⟩ [.named .nullable, number]
    let numbers : Descriptor := .constructed ⟨17⟩ [number, number]
    let made := [ofSketch (Sketch.of Int32), ofSketch ⟨mixed⟩, ofOpen ⟨.named ⟨17⟩⟩,
      ofClosed ⟨number⟩, ofClosed ⟨numbers⟩]
    ∃ c, ofJson document = .ok c ∧ Run c (fun _ => False) made ∧
      made.map (fun v => c.slots v.raw) = [0, 1, 2, 0, 0] ∧ ∀ v ∈ made, c.WellFormed v.raw ∧
        (∀ args, c.DecidedByArity v.raw args.length (v.apply c args) ∧
          ∀ cause, v.apply c args ≠ .error (.construct cause)) ∧
        ∀ args answer, v.applyPartial? c args = some answer →
          (answer = .error (.notGeneric v.raw) ↔ c.slots v.raw = 0) ∧
          (c.slots v.raw ≠ 0 → c.DecidedByArity v.raw args.length answer) ∧
          ∀ cause, answer ≠ .error (.construct cause) := by
  intro document number mixed numbers made
  obtain ⟨c, hc, hnamed, hunapply, hclose, happly, hslots⟩ :=
    exists_ofJson_eq_ok document (P := fun c =>
      c.sketch? "Pair`2[System.Nullable`1,System.Int32]" = some ⟨mixed⟩ ∧
      (ofSketch ⟨mixed⟩).unapply c = some ⟨.named ⟨17⟩⟩ ∧
      ((ofSketch (Sketch.of Int32)).apply c []).toOption = some ⟨number⟩ ∧
      ((ofOpen ⟨.named ⟨17⟩⟩).apply c [⟨number⟩, ⟨number⟩]).toOption = some ⟨numbers⟩ ∧
      made.map (fun v => c.slots v.raw) = [0, 1, 2, 0, 0]) (by decide +kernel)
  have run : Run c (fun _ => False) made := by
    refine .step (.step (.step (.step (.step .start ?_) ?_) ?_) ?_) ?_
    · exact .reflected Int32
    · exact .named (Except.toOption_eq_some.1 hnamed)
    · exact .unapply (.tail _ (.head _)) hunapply
    · exact .apply (.head _) (fun a ha => absurd ha List.not_mem_nil)
        (Except.toOption_eq_some.1 hclose)
    · refine .apply (.tail _ (.tail _ (.head _))) ?_ (Except.toOption_eq_some.1 happly)
      intro a ha
      simp only [List.mem_cons, List.not_mem_nil, or_false, or_self] at ha
      rw [ha]
      exact .tail _ (.tail _ (.tail _ (.head _)))
  exact ⟨c, hc, run, hslots, run.apply_decidedByArity hc⟩

end View

end Generics
