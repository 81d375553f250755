import Generics.Text.Blank

/-!
# Parsers

A parser takes something from the front of a text, or it tells which rule the text
does not meet and from where on.  A parser that may fail without harm is tried: when
it fails, the text is as it was, and what it missed is forgotten.

## Main definitions

* `Rule`, `Miss` — what a text can fail to meet, and where.
* `Parser` — steps over a text.
* `Parser.char`, `Parser.takeWhile1`, `Parser.takeTill1`, `Parser.separators` — the
  steps that take characters.
* `Parser.optional`, `Parser.orElse`, `Parser.separated` — the steps that try others.
* `Parser.whole` — a step that must take the text to its end.

## Main results

* `bind_eq_ok`, `bind_of_ok`, `bind_of_error` — one step after another.
* `optional_of_ok`, `optional_of_error`, `orElse_of_ok`, `orElse_of_error` — what comes
  of a step that is tried.
* `separated_eq_ok` — items and separators are taken one after the other.
-/

namespace Generics.TypeName

/-- A rule that a text can fail to meet. -/
inductive Rule where
  /-- A certain character. -/
  | char
  /-- One or more characters of some kind. -/
  | takeWhile1
  /-- One or more characters up to one of some kind. -/
  | takeTill1
  /-- A separator between items that takes something from the text. -/
  | separatedList
  /-- The end of the text. -/
  | eof
  deriving DecidableEq, Repr, Inhabited

/-- The code of a rule. -/
def Rule.code : Rule → String
  | char => "Char"
  | takeWhile1 => "TakeWhile1"
  | takeTill1 => "TakeTill1"
  | separatedList => "SeparatedList"
  | eof => "Eof"

/-- A rule that is not met, and the text from there on. -/
structure Miss where
  rest : List Char
  rule : Rule
  deriving DecidableEq, Repr, Inhabited

/-- Steps that take something from the front of a text. -/
abbrev Parser := StateT (List Char) (Except Miss)

namespace Parser

variable {α β : Type}

/-! ### Taking characters -/

/-- The character `c`. -/
def char (c : Char) : Parser Char := fun s =>
  match s with
  | [] => .error ⟨[], .char⟩
  | d :: rest => if d = c then .ok (d, rest) else .error ⟨d :: rest, .char⟩

/-- The characters up to the first that `p` does not hold of.  Where there is none,
the text does not meet `rule`. -/
def takeSome (rule : Rule) (p : Char → Bool) : Parser (List Char) := fun s =>
  if s.takeWhile p = [] then .error ⟨s, rule⟩ else .ok (s.takeWhile p, s.dropWhile p)

/-- One or more characters that `p` holds of. -/
def takeWhile1 (p : Char → Bool) : Parser (List Char) :=
  takeSome .takeWhile1 p

/-- One or more characters up to the first that `p` holds of. -/
def takeTill1 (p : Char → Bool) : Parser (List Char) :=
  takeSome .takeTill1 fun c => !p c

/-- Zero or more separators. -/
def separators : Parser Unit := fun s =>
  .ok ((), Text.skipSeparators s)

/-! ### Trying -/

/-- What `p` takes, or nothing if `p` fails. -/
def optional (p : Parser α) : Parser (Option α) := fun s =>
  match p s with
  | .ok (a, rest) => .ok (some a, rest)
  | .error _ => .ok (none, s)

/-- What `p` takes, or what `q` takes if `p` fails. -/
def orElse (p q : Parser α) : Parser α := fun s =>
  match p s with
  | .ok result => .ok result
  | .error _ => q s

/-- Items, each with a separator before it, at most `bound` of them.  A separator that
no item follows is not taken.  One that takes nothing could be taken for ever, so it is
not allowed. -/
def further (separator : Parser β) (item : Parser α) : (bound : Nat) → Parser (List α)
  | 0 => pure []
  | bound + 1 => fun s =>
    match separator s with
    | .error _ => .ok ([], s)
    | .ok (_, behind) =>
      if behind.length = s.length then .error ⟨behind, .separatedList⟩
      else
        match item behind with
        | .error _ => .ok ([], s)
        | .ok (a, rest) =>
          match further separator item bound rest with
          | .error e => .error e
          | .ok (others, rest) => .ok (a :: others, rest)

/-- One or more items with separators between them.  Every further item takes a
separator from the text, so the length of the text bounds their number. -/
def separated (separator : Parser β) (item : Parser α) : Parser (List α) := do
  let first ← item
  let rest ← get
  let others ← further separator item rest.length
  pure (first :: others)

/-- What `p` takes, if it takes the text to its end. -/
def whole (p : Parser α) : Parser α := do
  let a ← p
  let rest ← get
  if rest = [] then pure a else throw ⟨rest, .eof⟩

/-! ### One step after another -/

variable {p : Parser α} {f : α → Parser β} {s rest : List Char} {a : α} {e : Miss}

theorem bind_of_ok (h : p s = .ok (a, rest)) : (p >>= f) s = f a rest := by
  show (p s >>= fun r => f r.1 r.2) = f a rest
  rw [h]
  rfl

theorem bind_of_error (h : p s = .error e) : (p >>= f) s = .error e := by
  show (p s >>= fun r => f r.1 r.2) = .error e
  rw [h]
  rfl

theorem bind_eq_ok {r : β × List Char} : (p >>= f) s = .ok r ↔
    ∃ a rest, p s = .ok (a, rest) ∧ f a rest = .ok r := by
  cases h : p s with
  | error e => simp [bind_of_error h]
  | ok taken =>
    obtain ⟨a, rest⟩ := taken
    rw [bind_of_ok h]
    constructor
    · exact fun hf => ⟨a, rest, rfl, hf⟩
    · rintro ⟨a, rest, he, hf⟩
      cases he
      exact hf

theorem pure_eq_ok {r : α × List Char} : (pure a : Parser α) s = .ok r ↔ (a, s) = r :=
  ⟨Except.ok.inj, congrArg _⟩

theorem get_bind {g : List Char → Parser β} : ((get : Parser (List Char)) >>= g) s = g s s := rfl

/-! ### Each step -/

theorem char_cons (c : Char) (s : List Char) : char c (c :: s) = .ok (c, s) :=
  if_pos rfl

theorem char_eq_ok {c d : Char} : char c s = .ok (d, rest) ↔ d = c ∧ s = c :: rest := by
  unfold char
  split
  · simp
  · split
    · next h => subst h; simp [eq_comm]
    · next h => simp [h]

theorem char_of_ne {c : Char} (h : ∀ rest, s ≠ c :: rest) : char c s = .error ⟨s, .char⟩ := by
  unfold char
  split
  · rfl
  · next d rest =>
    split
    · next hd => exact absurd (by rw [hd]) (h rest)
    · rfl

theorem takeSome_eq_ok {rule : Rule} {q : Char → Bool} {w : List Char} :
    takeSome rule q s = .ok (w, rest) ↔
      s.takeWhile q ≠ [] ∧ s.takeWhile q = w ∧ s.dropWhile q = rest := by
  unfold takeSome
  split
  · next h => simp [h]
  · next h => simp [h]

theorem separators_bind {f : Unit → Parser β} :
    (separators >>= f) s = f () (Text.skipSeparators s) := rfl

theorem optional_of_ok (h : p s = .ok (a, rest)) : optional p s = .ok (some a, rest) := by
  unfold optional
  rw [h]

theorem optional_of_error (h : p s = .error e) : optional p s = .ok (none, s) := by
  unfold optional
  rw [h]

theorem orElse_of_ok {q : Parser α} {r : α × List Char} (h : p s = .ok r) :
    orElse p q s = .ok r := by
  unfold orElse
  rw [h]

theorem orElse_of_error {q : Parser α} (h : p s = .error e) : orElse p q s = q s := by
  unfold orElse
  rw [h]

theorem separated_eq_ok {separator : Parser β} {item : Parser α} {as : List α} :
    separated separator item s = .ok (as, rest) ↔
      ∃ a middle others, item s = .ok (a, middle) ∧
        further separator item middle.length middle = .ok (others, rest) ∧ as = a :: others := by
  constructor
  · intro h
    obtain ⟨a, middle, hfirst, h⟩ := bind_eq_ok.1 h
    rw [get_bind] at h
    obtain ⟨others, rest', hothers, h⟩ := bind_eq_ok.1 h
    cases pure_eq_ok.1 h
    exact ⟨a, middle, others, hfirst, hothers, rfl⟩
  · rintro ⟨a, middle, others, hfirst, hothers, rfl⟩
    rw [separated, bind_of_ok hfirst, get_bind]
    exact bind_of_ok hothers

theorem whole_of_ok (h : p s = .ok (a, rest)) :
    whole p s = if rest = [] then .ok (a, rest) else .error ⟨rest, .eof⟩ := by
  rw [whole, bind_of_ok h, get_bind]
  split <;> rfl

theorem whole_of_error (h : p s = .error e) : whole p s = .error e :=
  bind_of_error h

end Parser

end Generics.TypeName
