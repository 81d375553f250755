import Generics.Catalog.Construct
import Generics.Proofs.TellingApart

/-!
# Reading the texts of descriptors

The canonical text of a descriptor is one number, and behind it nothing, a position, or the texts
of the arguments in brackets.  Nothing else can stand there, so the text can be read from the left:
the number ends at the first character that is no digit, this character says which kind of
descriptor it is, and an argument ends at the comma or bracket that no argument inside it has
taken.  So no text belongs to two descriptors, whatever they contain.

## Main definitions

* `Descriptor.chars` — the characters of the text.
* `Descriptor.subject`, `Descriptor.tail` — the definition with which they begin, and what stands
  behind its number.

## Main results

* `tail_cancel` — what stands behind the number tells the kind of the descriptor.
* `Descriptor.tellsApart` — inside other texts the text of a descriptor can be told from all
  others.
* `text_eq_iff` — **descriptors with one text are the same,** also where the text is what an error
  calls a placeholder.
-/

namespace Generics

namespace Descriptor

/-! ### The parts of a text -/

/-- The definition of a descriptor, or the owner of a placeholder. -/
def subject : Descriptor → DefId
  | .named id => id
  | .param owner _ => owner
  | .constructed id _ => id

/-- The characters of a descriptor. -/
def chars (ty : Descriptor) : List Char :=
  ty.text.toList

/-- What stands behind the number of the definition. -/
def tail : Descriptor → List Char
  | .named _ => []
  | .param _ position => '!' :: Nat.toDigits 10 position
  | .constructed _ args => '[' :: ([',', ' '].intercalate (args.map chars) ++ [']'])

theorem toList_toString (n : Nat) : (toString n).toList = Nat.toDigits 10 n := by
  rw [Nat.toString_eq_ofList_toDigits, String.toList_ofList]

theorem toList_text_id (id : DefId) : id.text.toList = '#' :: Nat.toDigits 10 id.index := by
  rw [DefId.text, String.toList_append, toList_toString]
  rfl

theorem chars_eq (ty : Descriptor) :
    ty.chars = '#' :: (Nat.toDigits 10 ty.subject.index ++ ty.tail) := by
  cases ty with
  | named id => rw [chars, text, toList_text_id, tail, List.append_nil, subject]
  | param owner position =>
    rw [chars, text, String.toList_append, String.toList_append, toList_text_id, toList_toString,
      tail, subject]
    simp
  | constructed id args =>
    rw [chars, text, String.toList_append, String.toList_append, String.toList_append,
      toList_text_id, String.toList_intercalate, textAll_eq_map, List.map_map, tail, subject]
    have hchars : String.toList ∘ text = chars := rfl
    simp [hchars]

theorem tail_constructed_append (id : DefId) (args : List Descriptor) (r : List Char) :
    (constructed id args).tail ++ r =
      '[' :: ([',', ' '].intercalate (args.map chars) ++ ']' :: r) := by
  rw [tail, List.cons_append, List.append_assoc]
  rfl

/-- Behind the number stands a mark, or what may follow the descriptor. -/
theorem follows_tail (ty : Descriptor) {r : List Char} (hr : Follows [',', ']'] r) :
    Follows ['!', '[', ',', ']'] (ty.tail ++ r) := by
  cases ty with
  | named id => exact hr.mono (by decide)
  | param owner position => exact follows_cons (by decide) _
  | constructed id args => exact follows_cons (by decide) _

/-! ### One text, one descriptor -/

/-- The texts of arguments in brackets tell the arguments if the texts can be told apart. -/
theorem args_cancel {args args' : List Descriptor}
    (hargs : ∀ a ∈ args, TellsApart chars (fun _ => True) [',', ']'] a) {r r' : List Char}
    (h : [',', ' '].intercalate (args.map chars) ++ ']' :: r =
      [',', ' '].intercalate (args'.map chars) ++ ']' :: r') : args = args' ∧ r = r' := by
  have hclosing : ∀ s, Follows [']'] (']' :: s) := follows_cons List.mem_cons_self
  -- arguments begin with a number sign, so no arguments are not taken for some
  have hsome : ∀ (a : Descriptor) (as : List Descriptor) (s s' : List Char),
      ']' :: s ≠ [',', ' '].intercalate ((a :: as).map chars) ++ s' := by
    intro a as s s' he
    rw [List.map_cons, List.intercalate_cons_eq_append, chars_eq] at he
    exact absurd (List.cons.inj he).1 (by decide)
  cases args with
  | nil =>
    cases args' with
    | nil => exact ⟨rfl, (List.cons.inj h).2⟩
    | cons b bs => exact absurd h (hsome b bs _ _)
  | cons a as =>
    cases args' with
    | nil => exact absurd h.symm (hsome a as _ _)
    | cons b bs =>
      obtain ⟨hsame, hends⟩ := row_cancel (by decide) hargs (fun _ _ => trivial)
        (List.cons_ne_nil a as) (List.cons_ne_nil b bs) (hclosing r) (hclosing r') h
      exact ⟨hsame, (List.cons.inj hends).2⟩

/-- For two descriptors with one number, what stands behind it tells the kind of the descriptor
and the rest of it. -/
theorem tail_cancel {x y : Descriptor} (hsubject : x.subject = y.subject)
    (hargs : ∀ id args, x = .constructed id args →
      ∀ a ∈ args, TellsApart chars (fun _ => True) [',', ']'] a)
    {r r' : List Char} (hr : Follows [',', ']'] r) (hr' : Follows [',', ']'] r')
    (h : x.tail ++ r = y.tail ++ r') : x = y ∧ r = r' := by
  cases x with
  | named id =>
    cases y with
    | named other => exact ⟨congrArg named hsubject, h⟩
    | param owner position => exact absurd h (hr.ne_cons (by decide) _)
    | constructed other args => exact absurd h (hr.ne_cons (by decide) _)
  | param owner position =>
    cases y with
    | named other => exact absurd h.symm (hr'.ne_cons (by decide) _)
    | param other place =>
      obtain ⟨rfl, hrest⟩ := number_cancel (by decide) hr hr' (List.cons.inj h).2
      exact ⟨congrArg (param · position) hsubject, hrest⟩
    | constructed other args => exact absurd (List.cons.inj h).1 (by decide)
  | constructed id args =>
    cases y with
    | named other => exact absurd h.symm (hr'.ne_cons (by decide) _)
    | param owner position => exact absurd (List.cons.inj h).1 (by decide)
    | constructed other args' =>
      rw [tail_constructed_append, tail_constructed_append] at h
      obtain ⟨rfl, hrest⟩ := args_cancel (hargs id args rfl) (List.cons.inj h).2
      exact ⟨congrArg (constructed · args) hsubject, hrest⟩

/-- In front of a comma, a closing bracket or the end, the text of a descriptor is not that of
another one, nor the beginning of it. -/
theorem tellsApart (x : Descriptor) : TellsApart chars (fun _ => True) [',', ']'] x := by
  -- what is cancelled behind the number is, for an application, the texts of its arguments
  have step : ∀ x : Descriptor, (∀ id args, x = .constructed id args →
      ∀ a ∈ args, TellsApart chars (fun _ => True) [',', ']'] a) →
      TellsApart chars (fun _ => True) [',', ']'] x := by
    intro x hargs y _ r r' hr hr' h
    rw [chars_eq, chars_eq, List.cons_append, List.cons_append, List.append_assoc,
      List.append_assoc] at h
    obtain ⟨hindex, hrest⟩ := number_cancel (by decide) (follows_tail x hr) (follows_tail y hr')
      (List.cons.inj h).2
    exact tail_cancel (congrArg DefId.mk hindex) hargs hr hr' hrest
  induction x with
  | named id => exact step _ fun _ _ he => nomatch he
  | param owner position => exact step _ fun _ _ he => nomatch he
  | constructed id args ih =>
    refine step _ fun _ _ he => ?_
    cases he
    exact ih

theorem text_inj {x y : Descriptor} : x.text = y.text ↔ x = y := by
  refine ⟨fun h => ?_, congrArg text⟩
  have hchars : x.chars ++ [] = y.chars ++ [] := by rw [chars, chars, h]
  exact (tellsApart x y trivial (follows_nil _) (follows_nil _) hchars).1

end Descriptor

namespace Catalog

/-- A placeholder is no type that can be applied, and the error calls it by its text. -/
theorem makeGeneric_param (c : Catalog) (owner : DefId) (position : Nat) (args : List Descriptor) :
    c.makeGeneric (.param owner position) args =
      .error (.notGeneric (Descriptor.param owner position).text) := rfl

end Catalog

/-- Two descriptors have one text only if they are the same.  So the error for arguments that are
given to a placeholder, whose name is the text of the placeholder, is the error for no other
placeholder, in whatever catalog and with whatever arguments. -/
theorem Descriptor.text_eq_iff (a b : Descriptor) : (a.text = b.text ↔ a = b) ∧
    ∀ (c : Catalog) (owner other : DefId) (position place : Nat) (args args' : List Descriptor),
      c.makeGeneric (.param owner position) args =
        .error (.notGeneric (Descriptor.param owner position).text) ∧
      (c.makeGeneric (.param owner position) args = c.makeGeneric (.param other place) args' ↔
        owner = other ∧ position = place) := by
  refine ⟨text_inj, fun c owner other position place args args' =>
    ⟨c.makeGeneric_param owner position args, ?_⟩⟩
  rw [c.makeGeneric_param, c.makeGeneric_param, Except.error.injEq, ResolveError.notGeneric.injEq,
    text_inj, Descriptor.param.injEq]

/-- The texts of a definition, of its first placeholder, of its application to nothing and of its
application to that placeholder begin alike. -/
example : [Descriptor.named ⟨1⟩, .param ⟨1⟩ 0, .constructed ⟨1⟩ [],
    .constructed ⟨1⟩ [.param ⟨1⟩ 0, .named ⟨10⟩]].map Descriptor.text =
      ["#1", "#1!0", "#1[]", "#1[#1!0, #10]"] := by decide +kernel

end Generics
