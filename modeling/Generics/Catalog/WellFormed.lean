import Generics.Catalog.Path
import Generics.TypeName.Reader

/-!
# Well-formed descriptors

What is asked of a whole descriptor is asked of each of its parts: of the descriptor and
of every descriptor inside it.  Not every descriptor makes sense in a catalog: an
application may have any number of arguments, and a placeholder any position.  And not
every type can be written, as a definition may have a path that no reader accepts.

## Main definitions

* `Descriptor.parts`, `Descriptor.Throughout` — the parts, and a condition on all
  of them.
* `Descriptor.IsReduced` — no definition is applied to its own placeholders.
* `Catalog.OverGeneric` — only generic definitions are applied.
* `Catalog.ArityCorrect` — to one argument for each parameter, and placeholders
  stand for declared parameters.
* `Catalog.WellFormed` — arities are right, and the descriptor is reduced.
* `Catalog.Findable`, `Catalog.AllFindable` — a definition that is there and has a
  readable path, and a type with such definitions only.

## Main results

* `throughout_generic`, `isReduced_generic` — conditions on an application that may be
  collapsed.
-/

namespace Generics

namespace Descriptor

mutual

/-- A descriptor and every descriptor inside it, each before its arguments. -/
def parts : Descriptor → List Descriptor
  | .named id => [.named id]
  | .param owner position => [.param owner position]
  | .constructed id args => .constructed id args :: partsAll args

/-- The parts of some descriptors, one after the other. -/
def partsAll : List Descriptor → List Descriptor
  | [] => []
  | a :: as => parts a ++ partsAll as

end

theorem partsAll_eq_flatMap (args : List Descriptor) : partsAll args = args.flatMap parts := by
  induction args with
  | nil => rfl
  | cons a as ih => rw [partsAll, ih, List.flatMap_cons]

@[simp] theorem parts_named (id : DefId) : parts (.named id) = [.named id] := by rw [parts]

@[simp] theorem parts_param (owner : DefId) (position : Nat) :
    parts (.param owner position) = [.param owner position] := by rw [parts]

@[simp] theorem parts_constructed (id : DefId) (args : List Descriptor) :
    parts (.constructed id args) = .constructed id args :: args.flatMap parts := by
  rw [parts, partsAll_eq_flatMap]

theorem mem_parts_self (ty : Descriptor) : ty ∈ ty.parts := by
  cases ty <;> simp

/-- The parts of a part are parts. -/
theorem parts_subset_of_mem {s ty : Descriptor} (h : s ∈ ty.parts) : s.parts ⊆ ty.parts := by
  induction ty with
  | named id => rw [parts_named, List.mem_singleton] at h; rw [h]; exact List.Subset.refl _
  | param owner position =>
    rw [parts_param, List.mem_singleton] at h; rw [h]; exact List.Subset.refl _
  | constructed id args ih =>
    rw [parts_constructed, List.mem_cons, List.mem_flatMap] at h
    rcases h with rfl | ⟨a, ha, hs⟩
    · exact List.Subset.refl _
    · intro r hr
      rw [parts_constructed, List.mem_cons, List.mem_flatMap]
      exact Or.inr ⟨a, ha, ih a ha hs hr⟩

/-- Every part of a descriptor satisfies `p`. -/
def Throughout (p : Descriptor → Prop) (ty : Descriptor) : Prop :=
  ∀ s ∈ ty.parts, p s

instance (p : Descriptor → Prop) [DecidablePred p] (ty : Descriptor) :
    Decidable (Throughout p ty) :=
  inferInstanceAs (Decidable (∀ s ∈ ty.parts, p s))

section Throughout

variable {p : Descriptor → Prop}

@[simp] theorem throughout_named {id : DefId} : Throughout p (.named id) ↔ p (.named id) := by
  simp [Throughout]

@[simp] theorem throughout_param {owner : DefId} {position : Nat} :
    Throughout p (.param owner position) ↔ p (.param owner position) := by
  simp [Throughout]

theorem throughout_constructed {id : DefId} {args : List Descriptor} :
    Throughout p (.constructed id args) ↔
      p (.constructed id args) ∧ ∀ a ∈ args, Throughout p a := by
  simp only [Throughout, parts_constructed, List.mem_cons, List.mem_flatMap, forall_eq_or_imp]
  refine and_congr_right fun _ => ⟨?_, ?_⟩
  · intro h a ha s hs
    exact h s ⟨a, ha, hs⟩
  · rintro h s ⟨a, ha, hs⟩
    exact h a ha s hs

/-- A condition on all parts holds throughout every part. -/
theorem Throughout.of_mem {s ty : Descriptor} (h : Throughout p ty) (hs : s ∈ ty.parts) :
    Throughout p s :=
  fun r hr => h r (parts_subset_of_mem hs hr)

theorem Throughout.imp {q : Descriptor → Prop} {ty : Descriptor} (h : Throughout p ty)
    (hpq : ∀ s, p s → q s) : Throughout q ty :=
  fun s hs => hpq s (h s hs)

end Throughout

/-- A definition applied to its own placeholders is not the node of a reduced
descriptor. -/
def NodeReduced : Descriptor → Prop
  | .constructed id args => args = placeholders id args.length → args = []
  | _ => True

/-- No definition in the descriptor is applied to its own placeholders, in order. -/
def IsReduced (ty : Descriptor) : Prop :=
  ty.Throughout NodeReduced

instance : DecidablePred NodeReduced
  | .named _ => isTrue trivial
  | .param _ _ => isTrue trivial
  | .constructed id args =>
    inferInstanceAs (Decidable (args = placeholders id args.length → args = []))

instance (ty : Descriptor) : Decidable ty.IsReduced :=
  inferInstanceAs (Decidable (ty.Throughout NodeReduced))

/-- The application of a definition is the definition, or the application. -/
theorem generic_eq_or (id : DefId) (args : List Descriptor) :
    (args ≠ [] ∧ args = placeholders id args.length ∧ generic id args = .named id) ∨
      ((args = placeholders id args.length → args = []) ∧
        generic id args = .constructed id args) := by
  unfold generic
  split
  · next h => exact Or.inl ⟨h.1, h.2, rfl⟩
  · next h =>
    refine Or.inr ⟨fun he => ?_, rfl⟩
    exact Decidable.byContradiction fun hne => h ⟨hne, he⟩

/-- The application in a reduced node is not collapsed. -/
theorem generic_of_reduced {id : DefId} {args : List Descriptor}
    (h : NodeReduced (.constructed id args)) : generic id args = .constructed id args := by
  rcases generic_eq_or id args with ⟨hne, he, -⟩ | ⟨-, hkept⟩
  · exact absurd (h he) hne
  · exact hkept

/-- What holds throughout the arguments, of the application and of the definition alone
holds throughout the application, also where it is collapsed. -/
theorem throughout_generic {p : Descriptor → Prop} {id : DefId} {args : List Descriptor}
    (named : p (.named id)) (node : p (.constructed id args)) (h : ∀ a ∈ args, Throughout p a) :
    Throughout p (generic id args) := by
  rcases generic_eq_or id args with ⟨-, -, he⟩ | ⟨-, he⟩
  · rw [he]
    exact throughout_named.2 named
  · rw [he]
    exact throughout_constructed.2 ⟨node, h⟩

theorem isReduced_generic {id : DefId} {args : List Descriptor} (h : ∀ a ∈ args, a.IsReduced) :
    (generic id args).IsReduced := by
  rcases generic_eq_or id args with ⟨-, -, he⟩ | ⟨hn, he⟩
  · rw [he]
    exact throughout_named.2 trivial
  · rw [he]
    exact throughout_constructed.2 ⟨hn, h⟩

end Descriptor

namespace Catalog

open Descriptor

/-! ### Conditions on the parts -/

/-- What is applied to arguments is a generic definition. -/
def NodeOverGeneric (c : Catalog) : Descriptor → Prop
  | .constructed id _ => (c.definition id).isGeneric = true
  | _ => True

/-- A generic definition is applied to one argument for each of its parameters,
and a placeholder stands for a parameter that its owner has. -/
def NodeFits (c : Catalog) : Descriptor → Prop
  | .named _ => True
  | .param owner position => position < (c.definition owner).params.length
  | .constructed id args =>
    (c.definition id).isGeneric = true ∧ args.length = (c.definition id).params.length

/-- Every application in the descriptor is over a generic definition; it may have
any number of arguments. -/
def OverGeneric (c : Catalog) (ty : Descriptor) : Prop :=
  ty.Throughout c.NodeOverGeneric

/-- Every application in the descriptor is over a generic definition and has one
argument for each parameter, and every placeholder has a position in range. -/
def ArityCorrect (c : Catalog) (ty : Descriptor) : Prop :=
  ty.Throughout c.NodeFits

instance (c : Catalog) : DecidablePred c.NodeOverGeneric
  | .named _ => isTrue trivial
  | .param _ _ => isTrue trivial
  | .constructed id _ => inferInstanceAs (Decidable ((c.definition id).isGeneric = true))

instance (c : Catalog) : DecidablePred c.NodeFits
  | .named _ => isTrue trivial
  | .param owner position =>
    inferInstanceAs (Decidable (position < (c.definition owner).params.length))
  | .constructed id args =>
    inferInstanceAs (Decidable ((c.definition id).isGeneric = true ∧
      args.length = (c.definition id).params.length))

instance (c : Catalog) (ty : Descriptor) : Decidable (c.OverGeneric ty) :=
  inferInstanceAs (Decidable (ty.Throughout c.NodeOverGeneric))

instance (c : Catalog) (ty : Descriptor) : Decidable (c.ArityCorrect ty) :=
  inferInstanceAs (Decidable (ty.Throughout c.NodeFits))

/-- Generic definitions are applied, each to one argument for each of its parameters and
not to its own placeholders in order, and the placeholders are in range. -/
structure WellFormed (c : Catalog) (ty : Descriptor) : Prop where
  fits : c.ArityCorrect ty
  reduced : ty.IsReduced

instance (c : Catalog) (ty : Descriptor) : Decidable (c.WellFormed ty) :=
  decidable_of_iff (c.ArityCorrect ty ∧ ty.IsReduced)
    ⟨fun h => ⟨h.1, h.2⟩, fun h => ⟨h.fits, h.reduced⟩⟩

/-! ### Definitions that can be found by name -/

/-- The definition is there, and its path can be read. -/
structure Findable (c : Catalog) (id : DefId) : Prop where
  declared : c.Declares id
  readable : TypeName.IsPath (c.path id).toList

/-- The definition that this part of a type is over can be found. -/
def NodeFindable (c : Catalog) (ty : Descriptor) : Prop :=
  ∀ id, ty.definition? = some id → c.Findable id

/-- Every definition in the type can be found.  Nothing is asked of the owners of
placeholders, which no operation makes definitions of. -/
def AllFindable (c : Catalog) (ty : Descriptor) : Prop :=
  ty.Throughout c.NodeFindable

variable {c : Catalog}

@[simp] theorem nodeFindable_named {id : DefId} : c.NodeFindable (.named id) ↔ c.Findable id := by
  simp [NodeFindable, definition?]

@[simp] theorem nodeFindable_param {owner : DefId} {position : Nat} :
    c.NodeFindable (.param owner position) := by
  simp [NodeFindable, definition?]

@[simp] theorem nodeFindable_constructed {id : DefId} {args : List Descriptor} :
    c.NodeFindable (.constructed id args) ↔ c.Findable id := by
  simp [NodeFindable, definition?]

@[simp] theorem allFindable_named {id : DefId} : c.AllFindable (.named id) ↔ c.Findable id := by
  rw [AllFindable, throughout_named, nodeFindable_named]

@[simp] theorem allFindable_param {owner : DefId} {position : Nat} :
    c.AllFindable (.param owner position) :=
  throughout_param.2 nodeFindable_param

theorem allFindable_constructed {id : DefId} {args : List Descriptor} :
    c.AllFindable (.constructed id args) ↔ c.Findable id ∧ ∀ a ∈ args, c.AllFindable a := by
  rw [AllFindable, throughout_constructed, nodeFindable_constructed]
  rfl

theorem allFindable_generic {id : DefId} {args : List Descriptor} (hid : c.Findable id)
    (hargs : ∀ a ∈ args, c.AllFindable a) : c.AllFindable (.generic id args) :=
  throughout_generic (nodeFindable_named.2 hid) (nodeFindable_constructed.2 hid) hargs

end Catalog

end Generics
