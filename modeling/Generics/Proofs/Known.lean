import Generics.Proofs.Index
import Generics.Proofs.Loading

/-!
# Types of a catalog

A descriptor is a term over numbers, and any number can stand in it.  A type of a
catalog is made of definitions that the catalog declares and of placeholders for
parameters that these definitions have; nothing is asked of the arity of its
applications.  What a catalog knows of such a type it knows for good: later
definitions get other numbers.

## Main definitions

* `Catalog.Knows` — a descriptor is a type of the catalog.
* `Catalog.BasesKnown` — so is every base.

## Main results

* `Knows.instantiate`, `Knows.baseType`, `Indexed.knows_resolve` — types are built
  from known definitions.
* `Knows.mono` — what is known stays known.
* `basesKnown_ofJson` — the bases of a loaded catalog are types of it.
-/

namespace Generics.Catalog

open Descriptor

variable {c c' : Catalog}

/-! ### Known parts -/

/-- The definition of this part is declared, and a placeholder stands for a parameter
that its owner has. -/
def NodeKnown (c : Catalog) : Descriptor → Prop
  | .named id => c.Declares id
  | .param owner position => position < (c.definition owner).params.length
  | .constructed id _ => c.Declares id

/-- Every definition in the descriptor is declared, and every placeholder stands for a
parameter. -/
def Knows (c : Catalog) (ty : Descriptor) : Prop :=
  ty.Throughout c.NodeKnown

instance (c : Catalog) : DecidablePred c.NodeKnown
  | .named id => inferInstanceAs (Decidable (c.Declares id))
  | .param owner position =>
    inferInstanceAs (Decidable (position < (c.definition owner).params.length))
  | .constructed id _ => inferInstanceAs (Decidable (c.Declares id))

instance (c : Catalog) (ty : Descriptor) : Decidable (c.Knows ty) :=
  inferInstanceAs (Decidable (ty.Throughout c.NodeKnown))

/-- Every base is a type of the catalog. -/
def BasesKnown (c : Catalog) : Prop :=
  ∀ {id base}, (c.definition id).base = some base → c.Knows base

@[simp] theorem knows_named {id : DefId} : c.Knows (.named id) ↔ c.Declares id :=
  throughout_named

@[simp] theorem knows_param {owner : DefId} {position : Nat} :
    c.Knows (.param owner position) ↔ position < (c.definition owner).params.length :=
  throughout_param

theorem knows_constructed {id : DefId} {args : List Descriptor} :
    c.Knows (.constructed id args) ↔ c.Declares id ∧ ∀ a ∈ args, c.Knows a :=
  throughout_constructed

/-- Only declared definitions have parameters. -/
theorem declares_of_lt_params {owner : DefId} {position : Nat}
    (h : position < (c.definition owner).params.length) : c.Declares owner := by
  by_contra hnot
  rw [definition_of_not_declares hnot] at h
  exact absurd h (Nat.not_lt_zero position)

/-! ### Building types -/

theorem knows_generic {id : DefId} {args : List Descriptor} (hid : c.Declares id)
    (hargs : ∀ a ∈ args, c.Knows a) : c.Knows (.generic id args) :=
  throughout_generic hid hid hargs

theorem Knows.instantiate {ty : Descriptor} (h : c.Knows ty) (owner : DefId)
    {args : List Descriptor} (hargs : ∀ a ∈ args, c.Knows a) :
    c.Knows (instantiate owner args ty) :=
  throughout_instantiate (fun hnode _ => knows_generic hnode) owner hargs h

theorem Knows.baseType {ty base : Descriptor} (h : c.Knows ty) (hbases : c.BasesKnown)
    (hbase : c.baseType ty = some base) : c.Knows base := by
  cases ty with
  | named id => exact hbases hbase
  | param owner position => cases hbase
  | constructed id args =>
    obtain ⟨declared, hdeclared, rfl⟩ := Option.map_eq_some_iff.1 hbase
    exact (hbases hdeclared).instantiate id (knows_constructed.1 h).2

/-- What a name resolves to is a type of the catalog, in whatever scope. -/
theorem Indexed.knows_resolveIn (h : c.Indexed) {scope : Option DefId} {name : TypeName}
    {ty : Descriptor} (hty : c.resolveIn scope name = .ok ty) : c.Knows ty := by
  refine resolveIn_induction (Q := fun _ ty => c.Knows ty) ?_ ?_ ?_ hty
  · exact fun _ hposition => knows_param.2 hposition
  · exact fun _ hid => knows_named.2 (h.of_lookup? hid).1
  · intro path args id tys hid _ _ hall
    refine knows_generic (h.of_lookup? hid).1 fun a ha => ?_
    obtain ⟨argument, -, hargument⟩ := hall.exists_mem_left ha
    exact hargument

theorem Indexed.knows_resolve (h : c.Indexed) {text : String} {ty : Descriptor}
    (hty : c.resolve text = .ok ty) : c.Knows ty := by
  unfold Catalog.resolve at hty
  split at hty
  · cases hty
  · exact h.knows_resolveIn hty

/-! ### Growing catalogs -/

theorem declares_of_size_le (hsize : c.size ≤ c'.size) {id : DefId} (h : c.Declares id) :
    c'.Declares id :=
  Nat.lt_of_lt_of_le h hsize

/-- What is known stays known when definitions are added or bases are exchanged. -/
theorem Knows.mono {ty : Descriptor} (h : c.Knows ty) (hk : c.Keeps c')
    (hsize : c.size ≤ c'.size) : c'.Knows ty := by
  intro s hs
  have hnode : c.NodeKnown s := h s hs
  cases s with
  | named id => exact declares_of_size_le hsize hnode
  | param owner position =>
    show position < (c'.definition owner).params.length
    rw [(hk owner (declares_of_lt_params hnode)).params]
    exact hnode
  | constructed id args => exact declares_of_size_le hsize hnode

theorem Knows.withBase {ty : Descriptor} (h : c.Knows ty) (id : DefId) (base : Descriptor) :
    (c.withBase id base).Knows ty :=
  h.mono (keeps_withBase c id base) (Nat.le_of_eq (size_withBase c id base).symm)

theorem Knows.add {ty : Descriptor} (h : c.Knows ty) (path : String) (d : Definition)
    (outer : Option DefId) : (c.add path d outer).Knows ty :=
  h.mono (keeps_add c path d outer) (by rw [size_add]; exact Nat.le_succ _)

/-! ### Bases -/

theorem BasesKnown.withBase (h : c.BasesKnown) {id : DefId} {base : Descriptor}
    (declared : c.Declares id) (hbase : c.Knows base) : (c.withBase id base).BasesKnown := by
  intro other stored hstored
  rw [definition_withBase c declared] at hstored
  split at hstored
  · cases hstored
    exact hbase.withBase id base
  · exact (h hstored).withBase id base

/-- The written bases of a document are found by their names. -/
theorem basesKnown_ofJson {document : Json} (loaded : ofJson document = .ok c) :
    c.BasesKnown := by
  refine (ofJson_rule (P := BasesKnown) ?_ ?_ loaded).2
  · intro c _ hunbased id base hbase
    rw [hunbased id] at hbase
    cases hbase
  · intro c c' id text hc declared hset hbases
    obtain ⟨name, base, -, hresolve, hset⟩ := setWrittenBase_eq_ok hset
    obtain ⟨-, rfl⟩ := setBase_eq_ok hset
    exact hbases.withBase declared (hc.indexed.knows_resolveIn hresolve)

end Generics.Catalog
