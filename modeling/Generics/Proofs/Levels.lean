import Generics.Proofs.Growth

/-!
# Enclosing types

A type that is declared inside other types has one level for each of them.  In a
well nested catalog the levels can be found one by one from the type outwards, and
the arguments that the levels own are all the arguments, in order.

## Main results

* `WellNested.induction` — induction along the nesting, from the outermost type
  inwards.
* `WellNested.enclosing_eq` — a type stands behind the types around the type it is
  declared in.
* `WellNested.enclosing_induction` — what holds between a type and the types around it.
* `WellNested.params_prefix` — the parameters of the types around a type are its first ones.
* `WellNested.flatten_ownSlice`, `WellNested.flatten_ownParams` — the levels share out the
  flattened arguments, and declare all the parameters.
-/

namespace Generics.Catalog

variable {c : Catalog}

/-- What holds of the types that stand alone, and of a type if it holds of the one it
is declared in, holds of all types. -/
theorem WellNested.induction (h : c.WellNested) {P : DefId → Prop}
    (alone : ∀ id, (c.definition id).declaring = none → P id)
    (inside : ∀ id outer, (c.definition id).declaring = some outer → P outer → P id)
    (id : DefId) : P id := by
  have key : ∀ (bound : Nat) (id : DefId), id.index < bound → P id := by
    intro bound
    induction bound with
    | zero => intro id hid; omega
    | succ bound ih =>
      intro id hid
      cases hd : (c.definition id).declaring with
      | none => exact alone id hd
      | some outer =>
        have hlt : outer.index < id.index := h.outer_lt hd
        exact inside id outer hd (ih outer (by omega))
  exact key (id.index + 1) id (Nat.lt_succ_self _)

/-- The number of a type bounds the steps outwards: more of them find nothing more. -/
theorem WellNested.outward_eq (h : c.WellNested) {bound bound' : Nat} {id : DefId}
    (hb : id.index ≤ bound) (hb' : id.index ≤ bound') :
    c.outward bound id = c.outward bound' id := by
  induction bound generalizing bound' id with
  | zero =>
    -- the first definition has no other one around it
    have hnone : (c.definition id).declaring = none := by
      cases hd : (c.definition id).declaring with
      | none => rfl
      | some outer =>
        have hlt : outer.index < id.index := h.outer_lt hd
        omega
    cases bound' with
    | zero => rfl
    | succ bound' => rw [outward, outward, hnone]
  | succ bound ih =>
    cases hd : (c.definition id).declaring with
    | none => cases bound' <;> simp [outward, hd]
    | some outer =>
      have hlt : outer.index < id.index := h.outer_lt hd
      cases bound' with
      | zero => omega
      | succ bound' =>
        rw [outward, outward, hd]
        show id :: c.outward bound outer = id :: c.outward bound' outer
        have houter : outer.index ≤ bound' := by omega
        rw [ih (by omega) houter]

theorem WellNested.enclosing_eq (h : c.WellNested) {id outer : DefId}
    (hd : (c.definition id).declaring = some outer) :
    c.enclosing id = c.enclosing outer ++ [id] := by
  have hlt : outer.index < id.index := h.outer_lt hd
  obtain ⟨bound, hbound⟩ := Nat.exists_eq_succ_of_ne_zero (Nat.ne_of_gt (Nat.zero_lt_of_lt hlt))
  have hsame : c.outward bound outer = c.outward outer.index outer :=
    h.outward_eq (by omega) (Nat.le_refl _)
  unfold enclosing
  rw [hbound, outward, hd]
  show (id :: c.outward bound outer).reverse = _
  rw [List.reverse_cons, hsame]

/-- What holds between every type and itself, and is passed on from a type to those declared in
it, holds between the types around a type and the type. -/
theorem WellNested.enclosing_induction (h : c.WellNested) {P : DefId → DefId → Prop}
    (self : ∀ id, P id id)
    (inside : ∀ {level id outer}, (c.definition id).declaring = some outer → P level outer →
      P level id)
    {level id : DefId} (hlevel : level ∈ c.enclosing id) : P level id := by
  induction id using h.induction with
  | alone id hd =>
    rw [enclosing_of_declaring_eq_none hd, List.mem_singleton] at hlevel
    obtain rfl := hlevel
    exact self level
  | inside id outer hd ih =>
    rw [h.enclosing_eq hd, List.mem_append, List.mem_singleton] at hlevel
    rcases hlevel with hlevel | rfl
    · exact inside hd (ih hlevel)
    · exact self level

/-- The types around a declared type are declared. -/
theorem WellNested.declares_of_mem_enclosing (h : c.WellNested) {id level : DefId}
    (hid : c.Declares id) (hlevel : level ∈ c.enclosing id) : c.Declares level :=
  h.enclosing_induction (P := fun level id => c.Declares id → c.Declares level)
    (fun _ hid => hid) (fun hd ih _ => ih (h.declares_outer hd)) hlevel hid

/-- The types around another one are not younger. -/
theorem WellNested.index_le_of_mem_enclosing (h : c.WellNested) {id level : DefId}
    (hlevel : level ∈ c.enclosing id) : level.index ≤ id.index :=
  h.enclosing_induction (P := fun level id => level.index ≤ id.index)
    (fun _ => Nat.le_refl _) (fun hd ih => Nat.le_trans ih (Nat.le_of_lt (h.outer_lt hd))) hlevel

theorem outermost_mem_enclosing (c : Catalog) (id : DefId) : c.outermost id ∈ c.enclosing id := by
  obtain ⟨first, others, hchain⟩ := List.exists_cons_of_ne_nil (enclosing_ne_nil c id)
  rw [outermost, hchain]
  exact List.mem_cons_self

/-! ### Parameters and arguments of the levels -/

/-- The parameters of a type inside another one are those of that type, with its own
behind them. -/
theorem WellNested.params_eq_append (h : c.WellNested) {id outer : DefId}
    (hd : (c.definition id).declaring = some outer) :
    (c.definition id).params = (c.definition outer).params ++ (c.definition id).ownParams := by
  obtain ⟨own, hown⟩ := h.params_eq hd
  rw [Definition.ownParams, h.inherited_eq hd, hown, List.drop_left]

/-- The parameters of a type around another one come first in the parameters of that one. -/
theorem WellNested.params_prefix (h : c.WellNested) {id level : DefId}
    (hlevel : level ∈ c.enclosing id) :
    (c.definition level).params <+: (c.definition id).params := by
  refine h.enclosing_induction
    (P := fun level id => (c.definition level).params <+: (c.definition id).params)
    (fun _ => List.prefix_rfl) (fun hd ih => ?_) hlevel
  rw [h.params_eq_append hd]
  exact ih.trans (List.prefix_append _ _)

/-- The arguments that belong to a definition and the types around it are all of its
arguments, one level after the other. -/
theorem WellNested.flatten_ownSlice_take (h : c.WellNested) {α : Type} (id : DefId)
    {args : List α} (hargs : (c.definition id).params.length ≤ args.length) :
    ((c.enclosing id).map fun level => (c.definition level).ownSlice args).flatten =
      args.take (c.definition id).params.length := by
  induction id using h.induction with
  | alone id hd =>
    rw [enclosing_of_declaring_eq_none hd, List.map_singleton, List.flatten_singleton,
      Definition.ownSlice, if_pos hargs, h.inherited_outermost hd, List.drop_zero]
  | inside id outer hd ih =>
    -- the level of `id` owns what is behind the arguments of the types around it
    have hle : (c.definition outer).params.length ≤ (c.definition id).params.length := by
      rw [h.params_eq_append hd, List.length_append]
      exact Nat.le_add_right _ _
    have houter := ih (Nat.le_trans hle hargs)
    have htake : args.take (c.definition outer).params.length =
        (args.take (c.definition id).params.length).take (c.definition outer).params.length := by
      rw [List.take_take, Nat.min_eq_left hle]
    rw [h.enclosing_eq hd, List.map_append, List.flatten_append, houter, List.map_singleton,
      List.flatten_singleton, Definition.ownSlice, if_pos hargs, h.inherited_eq hd, htake,
      List.take_append_drop]

/-- If there is one argument for each parameter, every argument belongs to one
level. -/
theorem WellNested.flatten_ownSlice (h : c.WellNested) {α : Type} {id : DefId} {args : List α}
    (hargs : args.length = (c.definition id).params.length) :
    ((c.enclosing id).map fun level => (c.definition level).ownSlice args).flatten = args := by
  rw [h.flatten_ownSlice_take id (Nat.le_of_eq hargs.symm), List.take_of_length_le]
  exact Nat.le_of_eq hargs

/-- Of the parameters of a type, those that belong to a level are the ones declared with it. -/
theorem WellNested.ownSlice_params (h : c.WellNested) {id level : DefId}
    (hlevel : level ∈ c.enclosing id) :
    (c.definition level).ownSlice (c.definition id).params = (c.definition level).ownParams := by
  have hprefix := h.params_prefix hlevel
  rw [Definition.ownSlice, if_pos hprefix.length_le, ← List.prefix_iff_eq_take.1 hprefix,
    Definition.ownParams]

/-- The parameters that the levels declare are all the parameters of the type. -/
theorem WellNested.flatten_ownParams (h : c.WellNested) (id : DefId) :
    ((c.enclosing id).map fun level => (c.definition level).ownParams).flatten =
      (c.definition id).params := by
  have hlevels : ((c.enclosing id).map fun level => (c.definition level).ownParams) =
      (c.enclosing id).map fun level => (c.definition level).ownSlice (c.definition id).params :=
    List.map_congr_left fun level hlevel => (h.ownSlice_params hlevel).symm
  rw [hlevels, h.flatten_ownSlice rfl]

end Generics.Catalog
