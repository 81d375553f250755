/-!
# Type names

A type name is how a type is written to be looked up: the path of a definition
and the names of its arguments.

## Main definitions

* `TypeName` — a path with arguments, with decidable equality.

## Main results

* `TypeName.induction` — induction with a hypothesis for every argument.
-/

namespace Generics

/-- A path and the names of the arguments applied to it. -/
inductive TypeName where
  | node (path : String) (args : List TypeName)
  deriving Repr, Inhabited

namespace TypeName

/-- The path at the head of a name. -/
def path : TypeName → String
  | node path _ => path

/-- The arguments of a name. -/
def args : TypeName → List TypeName
  | node _ args => args

@[simp] theorem path_node (path : String) (args : List TypeName) :
    (node path args).path = path := rfl

@[simp] theorem args_node (path : String) (args : List TypeName) :
    (node path args).args = args := rfl

/-- Induction over type names, with a hypothesis for every argument. -/
@[elab_as_elim, induction_eliminator]
theorem induction {motive : TypeName → Prop}
    (node : ∀ path args, (∀ a ∈ args, motive a) → motive (.node path args)) (name : TypeName) :
    motive name :=
  @TypeName.rec motive (fun args => ∀ a ∈ args, motive a) (fun path args ih => node path args ih)
    (fun _ h => absurd h List.not_mem_nil)
    (fun _ _ head tail _ h => (List.mem_cons.1 h).elim (fun e => e ▸ head) (tail _)) name

mutual

/-- Equality of names is decided by comparing them part by part. -/
def decideEq : (a b : TypeName) → Decidable (a = b)
  | .node p as, .node q bs =>
    have := decideEqAll as bs
    decidable_of_iff (p = q ∧ as = bs) (by simp)

/-- Equality of lists of names. -/
def decideEqAll : (as bs : List TypeName) → Decidable (as = bs)
  | [], [] => isTrue rfl
  | [], _ :: _ => isFalse (by simp)
  | _ :: _, [] => isFalse (by simp)
  | a :: as, b :: bs =>
    have := decideEq a b
    have := decideEqAll as bs
    decidable_of_iff (a = b ∧ as = bs) (by simp)

end

instance : DecidableEq TypeName := decideEq

end TypeName

end Generics
