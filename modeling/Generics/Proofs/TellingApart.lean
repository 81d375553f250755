import Generics.Proofs.Outcome

/-!
# Texts that can be told apart

Texts are put together from smaller ones, and what was put together can be taken apart again if
each part ends where it can be seen to end.  Here this is said of two texts that are the same,
from the first character on: in front of the characters that may come next, the parts with which
they begin are the same, and so are the rests.

## Main definitions

* `Follows`, `TellsApart` — what may come next, and texts that can be told apart before it.

## Main results

* `append_cancel_of_all` — characters of one kind end where another kind begins.
* `number_cancel` — a decimal number ends at the first character that is no digit.
* `row_cancel` — texts with separators between them, up to a character that ends the row.
-/

namespace Generics

/-! ### What may come next -/

/-- The text is at its end, or goes on with one of some characters. -/
def Follows (next : List Char) (s : List Char) : Prop :=
  ∀ ch ∈ s.head?, ch ∈ next

theorem follows_nil (next : List Char) : Follows next [] :=
  fun _ hch => nomatch hch

theorem follows_cons {next : List Char} {ch : Char} (h : ch ∈ next) (s : List Char) :
    Follows next (ch :: s) := by
  intro first hfirst
  cases hfirst
  exact h

theorem Follows.mem {next : List Char} {ch : Char} {s : List Char} (h : Follows next (ch :: s)) :
    ch ∈ next :=
  h ch rfl

/-- A character that may not come next does not come next. -/
theorem Follows.ne_cons {next : List Char} {s : List Char} (h : Follows next s) {ch : Char}
    (hch : ch ∉ next) (rest : List Char) : s ≠ ch :: rest := by
  rintro rfl
  exact hch h.mem

theorem Follows.mono {next next' : List Char} {s : List Char} (h : Follows next s)
    (hsub : next ⊆ next') : Follows next' s :=
  fun ch hch => hsub (h ch hch)

theorem Follows.takeWhile_eq_nil {next : List Char} {s : List Char} (h : Follows next s)
    {p : Char → Bool} (hp : next.any p = false) : s.takeWhile p = [] := by
  cases s with
  | nil => rfl
  | cons ch s => rw [List.takeWhile_cons_of_neg (List.any_eq_false.1 hp ch h.mem)]

/-- Characters of one kind, in front of characters of another kind, end where these begin. -/
theorem append_cancel_of_all {p : Char → Bool} {u v r r' : List Char}
    (hu : ∀ ch ∈ u, p ch = true) (hv : ∀ ch ∈ v, p ch = true) {next : List Char}
    (hp : next.any p = false) (hr : Follows next r) (hr' : Follows next r')
    (h : u ++ r = v ++ r') : u = v ∧ r = r' := by
  -- both sides begin with the same characters of the first kind, and with no more of them
  have htake := congrArg (List.takeWhile p) h
  rw [List.takeWhile_append_of_pos hu, List.takeWhile_append_of_pos hv, hr.takeWhile_eq_nil hp,
    hr'.takeWhile_eq_nil hp, List.append_nil, List.append_nil] at htake
  subst htake
  exact ⟨rfl, List.append_cancel_left h⟩

/-- A decimal number ends at the first character that is no digit. -/
theorem number_cancel {m n : Nat} {next : List Char} (hnext : next.any Char.isDigit = false)
    {r r' : List Char} (hr : Follows next r) (hr' : Follows next r')
    (h : Nat.toDigits 10 m ++ r = Nat.toDigits 10 n ++ r') : m = n ∧ r = r' := by
  have hdigits : ∀ k : Nat, ∀ ch ∈ Nat.toDigits 10 k, ch.isDigit = true :=
    fun _ _ hch => Nat.isDigit_of_mem_toDigits (by decide) (by decide) hch
  obtain ⟨hsame, hrest⟩ := append_cancel_of_all (hdigits m) (hdigits n) hnext hr hr' h
  -- the number can be computed from its digits
  have hvalue : Nat.ofDigitChars 10 (Nat.toDigits 10 m) 0 =
      Nat.ofDigitChars 10 (Nat.toDigits 10 n) 0 := by rw [hsame]
  rw [Nat.ofDigitChars_ten_toDigits, Nat.ofDigitChars_ten_toDigits] at hvalue
  exact ⟨hvalue, hrest⟩

/-! ### Texts in a row -/

section Rows

variable {α : Type} {f : α → List Char} {Good : α → Prop}

/-- In front of some characters, the text of `x` is not that of anything else that is good,
nor the beginning of it. -/
def TellsApart (f : α → List Char) (Good : α → Prop) (next : List Char) (x : α) : Prop :=
  ∀ y, Good y → ∀ {r r' : List Char}, Follows next r → Follows next r' →
    f x ++ r = f y ++ r' → x = y ∧ r = r'

/-- Behind the first text of a row comes a separator, or what ends the row. -/
theorem follows_further (mark : Char) (gap : List Char) {ends : List Char} (xs : List α)
    {r : List Char} (hr : Follows ends r) :
    Follows (mark :: ends) (xs.flatMap (fun x => mark :: gap ++ f x) ++ r) := by
  cases xs with
  | nil => exact hr.mono (List.subset_cons_self mark ends)
  | cons x xs => exact follows_cons List.mem_cons_self _

/-- Texts with separators in front, up to what ends the row, are told apart one by one. -/
theorem further_cancel {mark : Char} {gap ends : List Char} (hmark : mark ∉ ends) {xs ys : List α}
    (hxs : ∀ x ∈ xs, TellsApart f Good (mark :: ends) x) (hys : ∀ y ∈ ys, Good y)
    {r r' : List Char} (hr : Follows ends r) (hr' : Follows ends r')
    (h : xs.flatMap (fun x => mark :: gap ++ f x) ++ r =
      ys.flatMap (fun y => mark :: gap ++ f y) ++ r') : xs = ys ∧ r = r' := by
  induction xs generalizing ys with
  | nil =>
    cases ys with
    | nil => exact ⟨rfl, h⟩
    | cons y ys =>
      -- the row that is at its end would go on with a separator
      rw [List.flatMap_nil, List.nil_append] at h
      exact absurd (h ▸ hr).mem hmark
  | cons x xs ih =>
    cases ys with
    | nil =>
      rw [List.flatMap_nil, List.nil_append] at h
      exact absurd (h ▸ hr').mem hmark
    | cons y ys =>
      obtain ⟨hapart, hothers⟩ := List.forall_mem_cons.1 hxs
      obtain ⟨hgood, hgoods⟩ := List.forall_mem_cons.1 hys
      rw [List.flatMap_cons, List.flatMap_cons, List.append_assoc, List.append_assoc,
        List.append_assoc, List.append_assoc] at h
      obtain ⟨rfl, hrest⟩ := hapart y hgood (follows_further mark gap xs hr)
        (follows_further mark gap ys hr') (List.append_cancel_left h)
      obtain ⟨rfl, hends⟩ := ih hothers hgoods hrest
      exact ⟨rfl, hends⟩

/-- A row of texts that can be told apart in front of the separator and of what ends the row
can be told from other rows. -/
theorem row_cancel {mark : Char} {gap ends : List Char} (hmark : mark ∉ ends) {xs ys : List α}
    (hxs : ∀ x ∈ xs, TellsApart f Good (mark :: ends) x) (hys : ∀ y ∈ ys, Good y)
    (hx : xs ≠ []) (hy : ys ≠ []) {r r' : List Char} (hr : Follows ends r) (hr' : Follows ends r')
    (h : (mark :: gap).intercalate (xs.map f) ++ r = (mark :: gap).intercalate (ys.map f) ++ r') :
    xs = ys ∧ r = r' := by
  cases xs with
  | nil => exact absurd rfl hx
  | cons x xs =>
    cases ys with
    | nil => exact absurd rfl hy
    | cons y ys =>
      obtain ⟨hapart, hothers⟩ := List.forall_mem_cons.1 hxs
      obtain ⟨hgood, hgoods⟩ := List.forall_mem_cons.1 hys
      rw [List.map_cons, List.map_cons, List.intercalate_cons_eq_append,
        List.intercalate_cons_eq_append, List.flatMap_map, List.flatMap_map, List.append_assoc,
        List.append_assoc] at h
      obtain ⟨rfl, hrest⟩ := hapart y hgood (follows_further mark gap xs hr)
        (follows_further mark gap ys hr') h
      obtain ⟨rfl, hends⟩ := further_cancel hmark hothers hgoods hr hr' hrest
      exact ⟨rfl, hends⟩

end Rows

end Generics
