import Generics.Proofs.Renumbering
import Generics.Proofs.Requests

/-!
# Extending a catalog

A request that is answered leaves what the catalog said before as it was.  A new
definition gets a number of its own and a path that was free, so it takes no name away
from another one; names that did resolve, or that failed for another reason than the
path that is now taken, are answered as before.

## Main definitions

* `Request.placedIn` — what a request adds to the types declared inside a type.

## Main results

* `Grown.renumbers`, `BaseSet.renumbers` — no number changes.
* `Grown.foundUnder`, `BaseSet.foundUnder` — only the new path is answered otherwise.
* `answer_conservative` — what is the same after a request, and what is not.
-/

namespace Generics

/-- What a request adds to the types declared inside `ty`: the new one, if it is declared
inside the definition of `ty` and is wanted. -/
def Request.placedIn (request : Request) (new : Option DefId) (filter : NestedFilter)
    (ty : Descriptor) : List Descriptor :=
  match request with
  | .defineNested outer _ _ visibility =>
    if ty.definition? = some outer ∧ (filter = .all ∨ visibility = .isPublic) then
      new.toList.map .named
    else []
  | _ => []

namespace Catalog

open Descriptor

variable {c c' : Catalog}

/-! ### A new definition -/

section Grown

variable {path : String} {d : Definition} (hg : c.Grown path d c')

include hg

theorem Grown.renumbers (hc : c.Reachable) (hc' : c'.Reachable) : Renumbers id c c' := by
  have hkeeps : c.Keeps c' := by
    intro other hother
    rw [hg.definition_old other hother]
    exact .refl _
  exact hkeeps.renumbers (by rw [hg.size]; omega) hc.wellNested hc'.wellNested

/-- Only the path of the new definition leads to something new. -/
theorem Grown.foundUnder (free : c.lookup? path = none) :
    FoundUnder id c c' (· = path) where
  lookup? {other} hother := by
    rw [hg.lookup?, if_neg hother, Option.map_id, id]
  unknown {other} hother := by rw [hother, free]

theorem Grown.baseType {ty : Descriptor} (hty : c.Knows ty) :
    c'.baseType ty = c.baseType ty := by
  cases ty with
  | named other =>
    rw [Catalog.baseType, Catalog.baseType, hg.definition_old other (knows_named.1 hty)]
  | param owner position => rw [Catalog.baseType, Catalog.baseType]
  | constructed other args =>
    have hother : c.Declares other := (knows_constructed.1 hty).1
    rw [Catalog.baseType, Catalog.baseType, hg.definition_old other hother]

/-- The new definition comes last among those declared inside its parent. -/
theorem Grown.nestedTypes (hc : c.Indexed) (filter : NestedFilter) (ty : Descriptor) :
    c'.nestedTypes filter ty = c.nestedTypes filter ty ++
      match d.declaring with
      | none => []
      | some outer =>
        if ty.definition? = some outer ∧ (filter = .all ∨ d.visibility = .isPublic) then
          [.named ⟨c.size⟩]
        else [] := by
  unfold Catalog.nestedTypes
  cases hid : ty.definition? with
  | none => cases d.declaring <;> simp
  | some other =>
    -- those declared before are as visible as before
    have hold : (c.nested other).filter (fun inner =>
          filter == .all || (c'.definition inner).visibility == .isPublic) =
        (c.nested other).filter fun inner =>
          filter == .all || (c.definition inner).visibility == .isPublic := by
      refine List.filter_congr fun inner hinner => ?_
      have hdeclared : c.Declares inner := by
        rw [hc.nested_eq] at hinner
        exact mem_ids.1 (List.mem_filter.1 hinner).1
      rw [hg.definition_old inner hdeclared]
    simp only [hg.nested, List.filter_append, hold, List.map_append]
    congr 1
    cases d.declaring with
    | none => simp
    | some outer =>
      by_cases houter : outer = other
      · subst houter
        have hwanted : (filter == .all || d.visibility == .isPublic) =
            decide (filter = .all ∨ d.visibility = .isPublic) := by
          rw [Bool.decide_or]
          rfl
        simp only [if_true, List.filter_singleton, hg.definition_new, true_and, hwanted,
          Bool.cond_decide]
        split <;> rfl
      · have hne : ¬ other = outer := fun he => houter he.symm
        simp [houter, hne]

end Grown

/-! ### A base -/

section BaseSet

variable {owner : DefId} {base : Descriptor} (hs : c.BaseSet owner base c')

include hs

theorem BaseSet.sameButBase (other : DefId) :
    (c.definition other).SameButBase (c'.definition other) := by
  rw [hs.definition]
  split
  · next he =>
    rw [he]
    exact ⟨some base, rfl⟩
  · exact .refl _

theorem BaseSet.renumbers (hc : c.Reachable) (hc' : c'.Reachable) : Renumbers id c c' := by
  have hkeeps : c.Keeps c' := fun other _ => hs.sameButBase other
  exact hkeeps.renumbers (Nat.le_of_eq hs.size.symm) hc.wellNested hc'.wellNested

/-- Setting a base makes no path lead elsewhere. -/
theorem BaseSet.foundUnder : FoundUnder id c c' fun _ => False where
  lookup? {other} _ := by rw [hs.lookup?, Option.map_id, id]
  unknown h := h.elim

/-- Only the base of types over one definition changes. -/
theorem BaseSet.baseType {ty : Descriptor} (hty : ty.definition? ≠ some owner) :
    c'.baseType ty = c.baseType ty := by
  cases ty with
  | named other =>
    have hne : other ≠ owner := fun he => hty (he ▸ rfl)
    rw [Catalog.baseType, Catalog.baseType, hs.definition, if_neg hne]
  | param owner position => rw [Catalog.baseType, Catalog.baseType]
  | constructed other args =>
    have hne : other ≠ owner := fun he => hty (he ▸ rfl)
    rw [Catalog.baseType, Catalog.baseType, hs.definition, if_neg hne]

theorem BaseSet.nestedTypes (filter : NestedFilter) (ty : Descriptor) :
    c'.nestedTypes filter ty = c.nestedTypes filter ty := by
  unfold Catalog.nestedTypes
  have hvisible : ∀ inner, (c'.definition inner).visibility = (c.definition inner).visibility := by
    intro inner
    obtain ⟨base, he⟩ := hs.sameButBase inner
    rw [he]
  simp only [hs.nested, hvisible]

end BaseSet

/-! ### Answered requests -/

/-- What a text resolves to after a growth that keeps all numbers. -/
theorem FoundUnder.resolve_same {fresh : String → Prop} (hfound : FoundUnder id c c' fresh)
    (hr : Renumbers id c c') (hc : c.Indexed) (text : String) :
    c'.resolve text = c.resolve text ∨
      ∃ path, fresh path ∧ c.resolve text = .error (.unknownType path) := by
  rcases hfound.resolve hr hc text with hsame | hfails
  · left
    rw [hsame]
    cases c.resolve text with
    | error cause => rfl
    | ok ty => exact congrArg Except.ok (renumber_id ty)
  · exact Or.inr hfails

/-- What does not depend on numbers that are still free is the same in both catalogs. -/
theorem Renumbers.observed_same (hr : Renumbers id c c') {ty : Descriptor} (hty : c.Knows ty) :
    c'.hasFree ty = c.hasFree ty ∧ c'.slots ty = c.slots ty ∧
      c'.arguments ty = c.arguments ty ∧ c'.name ty = c.name ty := by
  have hfree := hr.hasFree hty
  have hslots := hr.slots hty
  have harguments := hr.arguments hty
  have hname := hr.name hty
  rw [renumber_id] at hfree hslots harguments hname
  rw [List.map_congr_left fun a _ => renumber_id a, List.map_id'] at harguments
  exact ⟨hfree, hslots, harguments, hname⟩

/-- A declaration that is answered puts its definition under a path that was free. -/
theorem SettlesDeclaration.grown {request : Request} {path : String} {d : Definition}
    (h : c.SettlesDeclaration request path d) {new : Option DefId}
    (answered : c.answer request = .ok (new, c')) :
    c.lookup? path = none ∧ new = some ⟨c.size⟩ ∧ c.Grown path d c' := by
  rcases h with ⟨hfree, hanswer, hgrown⟩ | ⟨-, hanswer, -⟩
  · rw [answered] at hanswer
    cases hanswer
    exact ⟨hfree, rfl, hgrown⟩
  · rw [answered] at hanswer
    cases hanswer

/-- A request that is answered leads to a catalog that keeps all numbers.  Under the path
of a new definition it finds what was not there; every other path leads where it led. -/
theorem Reachable.answered (h : c.Reachable) {request : Request} (permitted : c.Permits request)
    {new : Option DefId} (answered : c.answer request = .ok (new, c')) :
    (∃ path d, c.lookup? path = none ∧ new = some ⟨c.size⟩ ∧ c.Grown path d c' ∧
      ∀ filter ty, request.placedIn new filter ty = match d.declaring with
        | none => []
        | some outer =>
          if ty.definition? = some outer ∧ (filter = .all ∨ d.visibility = .isPublic) then
            [.named ⟨c.size⟩]
          else []) ∨
      ∃ owner base, request = .setBase owner base ∧ c.BaseSet owner base c' := by
  have hsettles := h.settles permitted
  cases request with
  | define nameSpace name params visibility =>
    obtain ⟨hfree, rfl, hgrown⟩ := SettlesDeclaration.grown hsettles answered
    exact Or.inl ⟨_, _, hfree, rfl, hgrown, fun _ _ => rfl⟩
  | defineNested outer name params visibility =>
    obtain ⟨hfree, rfl, hgrown⟩ := SettlesDeclaration.grown hsettles answered
    exact Or.inl ⟨_, _, hfree, rfl, hgrown, fun _ _ => rfl⟩
  | setBase owner base =>
    right
    rcases hsettles with ⟨-, hanswer, hset⟩ | ⟨-, hanswer, -⟩
    · rw [after_of_ok answered] at hset
      exact ⟨owner, base, rfl, hset⟩
    · rw [answered] at hanswer
      cases hanswer

/-- After a request that is answered, every text is resolved as before, unless it failed
on the path that is now taken.  Every type of the catalog has the free parameters, the
slots, the arguments and the names that it had, and its base, unless it is over the
definition whose base was set.  A new nested type comes last in the list of its parent,
in that of the public ones only if it is public, and no other list changes. -/
theorem answer_conservative (built : c.Reachable) {request : Request}
    (permitted : c.Permits request) {new : Option DefId}
    (answered : c.answer request = .ok (new, c')) :
    (∀ text, c'.resolve text = c.resolve text ∨
      ∃ id, new = some id ∧ c.resolve text = .error (.unknownType (c'.path id))) ∧
    (∀ ty, c.Knows ty → c'.hasFree ty = c.hasFree ty ∧ c'.slots ty = c.slots ty ∧
      c'.arguments ty = c.arguments ty ∧ c'.name ty = c.name ty) ∧
    (∀ ty, c.Knows ty → (∀ id base, request = .setBase id base → ty.definition? ≠ some id) →
      c'.baseType ty = c.baseType ty) ∧
    ∀ filter ty, c'.nestedTypes filter ty =
      c.nestedTypes filter ty ++ request.placedIn new filter ty := by
  have hc' : c'.Reachable := by
    have hafter := built.after permitted
    rwa [after_of_ok answered] at hafter
  rcases built.answered permitted answered with
    ⟨path, d, hfree, rfl, hgrown, hplaced⟩ | ⟨owner, base, rfl, hset⟩
  · have hr : Renumbers id c c' := hgrown.renumbers built hc'
    refine ⟨fun text => ?_, fun ty hty => hr.observed_same hty,
      fun ty hty _ => hgrown.baseType hty, fun filter ty => ?_⟩
    · rcases (hgrown.foundUnder hfree).resolve_same hr built.indexed text with
        hsame | ⟨other, rfl, hfails⟩
      · exact Or.inl hsame
      · refine Or.inr ⟨⟨c.size⟩, rfl, ?_⟩
        rw [hgrown.path_new, hfails]
    · rw [hgrown.nestedTypes built.indexed, hplaced]
  · have hr : Renumbers id c c' := hset.renumbers built hc'
    refine ⟨fun text => ?_, fun ty hty => hr.observed_same hty,
      fun ty _ hne => hset.baseType (hne owner base rfl), fun filter ty => ?_⟩
    · rcases hset.foundUnder.resolve_same hr built.indexed text with hsame | ⟨_, hnever, -⟩
      · exact Or.inl hsame
      · exact hnever.elim
    · show c'.nestedTypes filter ty = c.nestedTypes filter ty ++ []
      rw [hset.nestedTypes, List.append_nil]

/-- A private type is declared inside ``N.Outer`1``.  The only texts that are answered
otherwise are those that came to the path it takes; it is among the types inside
``N.Outer`1``, and not among the public ones. -/
theorem answer_conservative_nested :
    let c := initial.add "N.Outer`1"
      (outermostDefinition (some "N") "Outer" ["T"] .isPublic) none
    let request : Request := .defineNested ⟨17⟩ "Inner" [] .isPrivate
    ∃ c', c.answer request = .ok (some ⟨18⟩, c') ∧
      (∀ text, c'.resolve text = c.resolve text ∨
        c.resolve text = .error (.unknownType "N.Outer`1+Inner")) ∧
      (∀ ty, c.Knows ty → c'.name ty = c.name ty ∧ c'.baseType ty = c.baseType ty) ∧
      c'.nestedTypes .all (.named ⟨17⟩) = [.named ⟨18⟩] ∧
      c'.nestedTypes .onlyPublic (.named ⟨17⟩) = [] := by
  intro c request
  have hdefine : initial.define (some "N") "Outer" ["T"] .isPublic = .ok (⟨17⟩, c) := by rfl
  have built : c.Reachable := .define .initial hdefine
  have permitted : c.Permits request := by decide +kernel
  have hsize : c.size = 18 := by decide +kernel
  have hpath : c.path ⟨17⟩ ++ "+" ++ declaredName "Inner" 0 = "N.Outer`1+Inner" := by
    decide +kernel
  have hfree : c.lookup? "N.Outer`1+Inner" = none := by decide +kernel
  have hall : c.nestedTypes .all (.named ⟨17⟩) = [] := by decide +kernel
  have hpublic : c.nestedTypes .onlyPublic (.named ⟨17⟩) = [] := by decide +kernel
  have hsettles : c.SettlesDeclaration request (c.path ⟨17⟩ ++ "+" ++ declaredName "Inner" 0)
      (c.innerDefinition ⟨17⟩ "Inner" [] .isPrivate) := built.settles permitted
  rw [hpath] at hsettles
  rcases hsettles with ⟨-, answered, hgrown⟩ | ⟨⟨other, htaken⟩, -⟩
  · obtain ⟨hresolve, hobserved, hbase, hplaced⟩ := answer_conservative built permitted answered
    have hnew : (c.after request).path ⟨18⟩ = "N.Outer`1+Inner" := hsize ▸ hgrown.path_new
    rw [hsize] at answered hresolve hplaced
    refine ⟨c.after request, answered, fun text => ?_, fun ty hty => ?_, ?_, ?_⟩
    · rcases hresolve text with hsame | ⟨id, hid, hfails⟩
      · exact Or.inl hsame
      · cases hid
        rw [hnew] at hfails
        exact Or.inr hfails
    · exact ⟨(hobserved ty hty).2.2.2, hbase ty hty fun _ _ he => nomatch he⟩
    · rw [hplaced, hall]
      rfl
    · rw [hplaced, hpublic]
      rfl
  · rw [hfree] at htaken
    cases htaken

end Catalog

end Generics
