import Generics.Proofs.TellingApart
import Generics.Proofs.Wording
import Generics.Text.Blank

/-!
# Reading source names

A full source name is one line of text in which the arguments stand in brackets behind the
levels they belong to, and question marks behind the types they make optional.  Here such a
name is a tree, and the tree can be read back: in front of whatever may follow it inside
another name, the text of a tree is not the text of any other tree, and it is clear where it
ends.

## Main definitions

* `IsIdentifier` — a text without blanks and without the marks of source names.
* `SourceType`, `SourceType.text` — a type as source text shows it.
* `SourceType.Legible` — made of identifiers, with an argument for every place.

## Main results

* `SourceType.tellsApart` — the text of a legible tree can be told from all others.
* `SourceType.text_inj` — two legible trees with one text are one tree.
-/

namespace Generics

/-! ### Identifiers -/

/-- A character of an identifier is not blank and none of the marks of source names. -/
def isIdentifierChar (ch : Char) : Bool :=
  !(Text.isBlank ch || ['.', ',', ':', '+', '<', '>', '?', '`'].contains ch)

/-- Some characters, and only those of identifiers. -/
def IsIdentifier (s : String) : Prop :=
  s ≠ "" ∧ ∀ ch ∈ s.toList, isIdentifierChar ch = true

instance : DecidablePred IsIdentifier := fun s =>
  decidable_of_iff (s ≠ "" ∧ s.toList.all isIdentifierChar = true)
    (by rw [IsIdentifier, List.all_eq_true])

/-- No mark of a source name is a character of an identifier. -/
theorem any_isIdentifierChar_marks :
    ['<', ':', '.', '?', ',', '>'].any isIdentifierChar = false := by
  decide

/-- An identifier ends at the first mark. -/
theorem identifier_cancel {s t : String} (hs : IsIdentifier s) (ht : IsIdentifier t)
    {r r' : List Char} (hr : Follows ['<', ':', '.', '?', ',', '>'] r)
    (hr' : Follows ['<', ':', '.', '?', ',', '>'] r') (h : s.toList ++ r = t.toList ++ r') :
    s = t ∧ r = r' := by
  obtain ⟨hst, hrest⟩ := append_cancel_of_all hs.2 ht.2 any_isIdentifierChar_marks hr hr' h
  exact ⟨String.toList_inj.1 hst, hrest⟩

/-! ### Levels and their arguments -/

/-- The arguments of all levels, given to the levels in turn: each takes as many as it says. -/
def shares {α : Type} : List (String × Nat) → List α → List (String × List α)
  | [], _ => []
  | (name, count) :: levels, args => (name, args.take count) :: shares levels (args.drop count)

section Shares

variable {α β : Type}

theorem shares_map (f : α → β) (levels : List (String × Nat)) (args : List α) :
    shares levels (args.map f) = (shares levels args).map (Prod.map id (List.map f)) := by
  induction levels generalizing args with
  | nil => rfl
  | cons level levels ih =>
    rw [shares, shares, ← List.map_take, ← List.map_drop, ih, List.map_cons]
    rfl

theorem shares_append (first second : List (String × Nat)) (args : List α) :
    shares (first ++ second) args =
      shares first args ++ shares second (args.drop (first.map Prod.snd).sum) := by
  induction first generalizing args with
  | nil => rfl
  | cons level first ih =>
    rw [List.cons_append, shares, shares, ih, List.drop_drop, List.map_cons, List.sum_cons,
      List.cons_append]

/-- How many arguments a level takes can be seen from those that it got. -/
theorem map_length_shares {levels : List (String × Nat)} {args : List α}
    (h : (levels.map Prod.snd).sum ≤ args.length) :
    (shares levels args).map (Prod.map id List.length) = levels := by
  induction levels generalizing args with
  | nil => rfl
  | cons level levels ih =>
    rw [List.map_cons, List.sum_cons] at h
    rw [shares, List.map_cons, ih (by rw [List.length_drop]; omega), Prod.map_apply,
      List.length_take, Nat.min_eq_left (by omega)]
    rfl

/-- Every argument is given to a level. -/
theorem flatten_shares {levels : List (String × Nat)} {args : List α}
    (h : (levels.map Prod.snd).sum = args.length) :
    ((shares levels args).map Prod.snd).flatten = args := by
  induction levels generalizing args with
  | nil => exact (List.eq_nil_of_length_eq_zero h.symm).symm
  | cons level levels ih =>
    rw [List.map_cons, List.sum_cons] at h
    rw [shares, List.map_cons, List.flatten_cons, ih (by rw [List.length_drop]; omega),
      List.take_append_drop]

/-- A share has the name of a level and some of the arguments. -/
theorem of_mem_shares {p : String → Prop} {levels : List (String × Nat)}
    (names : ∀ level ∈ levels, p level.1) {args : List α} {share : String × List α}
    (h : share ∈ shares levels args) : p share.1 ∧ share.2 ⊆ args := by
  induction levels generalizing args with
  | nil => cases h
  | cons level levels ih =>
    obtain ⟨hname, hnames⟩ := List.forall_mem_cons.1 names
    rw [shares, List.mem_cons] at h
    rcases h with rfl | h
    · exact ⟨hname, List.take_subset _ _⟩
    · obtain ⟨hname, hsub⟩ := ih hnames h
      exact ⟨hname, List.Subset.trans hsub (List.drop_subset _ _)⟩

theorem shares_ne_nil {levels : List (String × Nat)} (h : levels ≠ []) (args : List α) :
    shares levels args ≠ [] := by
  cases levels with
  | nil => exact absurd rfl h
  | cons level levels => exact List.cons_ne_nil _ _

/-- Where every argument belongs to a level, the shares tell the levels and the arguments. -/
theorem shares_inj {levels levels' : List (String × Nat)} {args args' : List α}
    (h : (levels.map Prod.snd).sum = args.length)
    (h' : (levels'.map Prod.snd).sum = args'.length)
    (hsame : shares levels args = shares levels' args') : levels = levels' ∧ args = args' := by
  constructor
  · rw [← map_length_shares (Nat.le_of_eq h), ← map_length_shares (Nat.le_of_eq h'), hsame]
  · rw [← flatten_shares h, ← flatten_shares h', hsame]

end Shares

/-! ### Types as source text shows them -/

/-- A type as source text shows it, with the number of question marks behind it. -/
inductive SourceType where
  /-- A keyword, or the name of a parameter. -/
  | word (name : String) (marks : Nat)
  /-- The levels of a name, each with the number of its arguments, and the arguments of all
  levels, one level after the other. -/
  | path (levels : List (String × Nat)) (args : List SourceType) (marks : Nat)

namespace SourceType

/-- Induction over source types, with a hypothesis for every argument. -/
@[elab_as_elim, induction_eliminator]
theorem induction {motive : SourceType → Prop} (word : ∀ name marks, motive (.word name marks))
    (path : ∀ levels args marks, (∀ a ∈ args, motive a) → motive (.path levels args marks))
    (s : SourceType) : motive s :=
  @SourceType.rec motive (fun args => ∀ a ∈ args, motive a) word
    (fun levels args marks ih => path levels args marks ih)
    (fun _ h => absurd h List.not_mem_nil)
    (fun _ _ head tail _ h => (List.mem_cons.1 h).elim (fun e => e ▸ head) (tail _)) s

/-- Some question marks. -/
def questionMarks (count : Nat) : String :=
  String.ofList (List.replicate count '?')

theorem toList_questionMarks (count : Nat) :
    (questionMarks count).toList = List.replicate count '?' :=
  String.toList_ofList

mutual

/-- The text of a type. -/
def text : SourceType → String
  | .word name marks => name ++ questionMarks marks
  | .path levels args marks =>
    "global::" ++ ".".intercalate ((shares levels (texts args)).map fun share =>
      bracketedText share.1 share.2) ++ questionMarks marks

/-- The texts of some types. -/
def texts : List SourceType → List String
  | [] => []
  | a :: as => text a :: texts as

end

theorem texts_eq_map (args : List SourceType) : texts args = args.map text := by
  induction args with
  | nil => rfl
  | cons a as ih => rw [texts, ih, List.map_cons]

theorem text_word (name : String) (marks : Nat) :
    text (.word name marks) = name ++ questionMarks marks := by rw [text]

theorem text_path (levels : List (String × Nat)) (args : List SourceType) (marks : Nat) :
    text (.path levels args marks) =
      "global::" ++ ".".intercalate ((shares levels (args.map text)).map fun share =>
        bracketedText share.1 share.2) ++ questionMarks marks := by
  rw [text, texts_eq_map]

/-- The type with one more question mark. -/
def optional : SourceType → SourceType
  | .word name marks => .word name (marks + 1)
  | .path levels args marks => .path levels args (marks + 1)

theorem text_optional (s : SourceType) : s.optional.text = s.text ++ "?" := by
  have hmarks : ∀ count, questionMarks (count + 1) = questionMarks count ++ "?" := by
    intro count
    rw [questionMarks, List.replicate_succ', String.ofList_append]
    rfl
  cases s with
  | word name marks => rw [optional, text_word, text_word, hmarks, String.append_assoc]
  | path levels args marks => rw [optional, text_path, text_path, hmarks, ← String.append_assoc]

theorem optional_inj {s t : SourceType} (h : s.optional = t.optional) : s = t := by
  cases s <;> cases t <;> simp_all [optional]

theorem optional_ne_word (s : SourceType) (name : String) : s.optional ≠ .word name 0 := by
  cases s <;> simp [optional]

theorem optional_ne_path (s : SourceType) (levels : List (String × Nat))
    (args : List SourceType) : s.optional ≠ .path levels args 0 := by
  cases s <;> simp [optional]

/-- All names are identifiers, and the levels take all the arguments. -/
inductive Legible : SourceType → Prop
  | word {name : String} (marks : Nat) (identifier : IsIdentifier name) :
    Legible (.word name marks)
  | path {levels : List (String × Nat)} {args : List SourceType} (marks : Nat)
    (nonempty : levels ≠ []) (names : ∀ level ∈ levels, IsIdentifier level.1)
    (counts : (levels.map Prod.snd).sum = args.length) (arguments : ∀ a ∈ args, Legible a) :
    Legible (.path levels args marks)

theorem Legible.optional {s : SourceType} (h : s.Legible) : s.optional.Legible := by
  cases h with
  | word marks identifier => exact .word (marks + 1) identifier
  | path marks nonempty names counts arguments =>
    exact .path (marks + 1) nonempty names counts arguments

/-! ### One text, one type -/

/-- The text of a level with the arguments it got. -/
def levelChars (share : String × List SourceType) : List Char :=
  (bracketedText share.1 (share.2.map text)).toList

theorem toList_text_path (levels : List (String × Nat)) (args : List SourceType) (marks : Nat) :
    (text (.path levels args marks)).toList = "global::".toList ++
      (['.'].intercalate ((shares levels args).map levelChars) ++ List.replicate marks '?') := by
  rw [text_path, String.toList_append, String.toList_append, String.toList_intercalate,
    List.map_map, shares_map, List.map_map, List.append_assoc, toList_questionMarks]
  rfl

theorem toList_text_word (name : String) (marks : Nat) :
    (text (.word name marks)).toList = name.toList ++ List.replicate marks '?' := by
  rw [text_word, String.toList_append, toList_questionMarks]

theorem levelChars_nil (name : String) : levelChars (name, []) = name.toList := rfl

theorem levelChars_cons (name : String) (a : SourceType) (as : List SourceType) :
    levelChars (name, a :: as) = name.toList ++
      ('<' :: ([',', ' '].intercalate ((a :: as).map fun t => t.text.toList) ++ ['>'])) := by
  rw [levelChars, List.map_cons, bracketedText, String.toList_append, String.toList_append,
    String.toList_append, String.toList_intercalate, ← List.map_cons, List.map_map]
  · simp [Function.comp_def]
  · exact List.cons_ne_nil _ _

/-- The levels of a name can be told apart if the arguments can. -/
theorem level_tellsApart {share : String × List SourceType} (hname : IsIdentifier share.1)
    (hargs : ∀ a ∈ share.2, TellsApart (fun t => t.text.toList) Legible [',', '>'] a) :
    TellsApart levelChars (fun other => IsIdentifier other.1 ∧ ∀ a ∈ other.2, a.Legible)
      ['.', '?', ',', '>'] share := by
  obtain ⟨name, own⟩ := share
  rintro ⟨name', own'⟩ ⟨hname', hargs'⟩ r r' hr hr' h
  have hplain : ∀ {s}, Follows ['.', '?', ',', '>'] s →
      Follows ['<', ':', '.', '?', ',', '>'] s := fun hs => hs.mono (by decide)
  have hbracket : ∀ s, Follows ['<', ':', '.', '?', ',', '>'] ('<' :: s) :=
    follows_cons List.mem_cons_self
  -- behind the name there is a bracket exactly if there are arguments
  cases own with
  | nil =>
    cases own' with
    | nil =>
      rw [levelChars_nil, levelChars_nil] at h
      obtain ⟨rfl, hrest⟩ := identifier_cancel hname hname' (hplain hr) (hplain hr') h
      exact ⟨rfl, hrest⟩
    | cons b bs =>
      rw [levelChars_nil, levelChars_cons, List.append_assoc, List.cons_append] at h
      obtain ⟨-, hrest⟩ := identifier_cancel hname hname' (hplain hr) (hbracket _) h
      exact absurd (hrest ▸ hr).mem (by decide)
  | cons a as =>
    cases own' with
    | nil =>
      rw [levelChars_nil, levelChars_cons, List.append_assoc, List.cons_append] at h
      obtain ⟨-, hrest⟩ := identifier_cancel hname hname' (hbracket _) (hplain hr') h
      exact absurd (hrest ▸ hr').mem (by decide)
    | cons b bs =>
      rw [levelChars_cons, levelChars_cons, List.append_assoc, List.append_assoc,
        List.cons_append, List.cons_append, List.append_assoc, List.append_assoc] at h
      obtain ⟨rfl, hrest⟩ := identifier_cancel hname hname' (hbracket _) (hbracket _) h
      have hclosing : ∀ s, Follows ['>'] ('>' :: s) := follows_cons List.mem_cons_self
      obtain ⟨hsame, hends⟩ := row_cancel (by decide) hargs hargs' (List.cons_ne_nil _ _)
        (List.cons_ne_nil _ _) (hclosing r) (hclosing r') (List.cons.inj hrest).2
      exact ⟨congrArg (Prod.mk name) hsame, (List.cons.inj hends).2⟩

/-- The levels of legible names, with the arguments that they got, can be told apart if the
arguments can. -/
theorem levels_cancel {levels levels' : List (String × Nat)} {args args' : List SourceType}
    {marks marks' : Nat} (hs : Legible (.path levels args marks))
    (ht : Legible (.path levels' args' marks'))
    (hargs : ∀ a ∈ args, TellsApart (fun t => t.text.toList) Legible [',', '>'] a)
    {r r' : List Char} (hr : Follows ['?', ',', '>'] r) (hr' : Follows ['?', ',', '>'] r')
    (h : ['.'].intercalate ((shares levels args).map levelChars) ++ r =
      ['.'].intercalate ((shares levels' args').map levelChars) ++ r') :
    levels = levels' ∧ args = args' ∧ r = r' := by
  cases hs with
  | path _ nonempty names counts arguments =>
    cases ht with
    | path _ nonempty' names' counts' arguments' =>
      have hlevels : ∀ share ∈ shares levels args, TellsApart levelChars
          (fun other => IsIdentifier other.1 ∧ ∀ a ∈ other.2, a.Legible) ['.', '?', ',', '>']
          share := by
        intro share hshare
        obtain ⟨hname, hsub⟩ := of_mem_shares names hshare
        exact level_tellsApart hname fun a ha => hargs a (hsub ha)
      have hlevels' : ∀ share ∈ shares levels' args',
          IsIdentifier share.1 ∧ ∀ a ∈ share.2, a.Legible := by
        intro share hshare
        obtain ⟨hname, hsub⟩ := of_mem_shares names' hshare
        exact ⟨hname, fun a ha => arguments' a (hsub ha)⟩
      obtain ⟨hshares, hrest⟩ := row_cancel (by decide) hlevels hlevels'
        (shares_ne_nil nonempty args) (shares_ne_nil nonempty' args') hr hr' h
      obtain ⟨rfl, rfl⟩ := shares_inj counts counts' hshares
      exact ⟨rfl, rfl, hrest⟩

/-- Question marks end at the first other character. -/
theorem marks_cancel {marks marks' : Nat} {r r' : List Char} (hr : Follows [',', '>'] r)
    (hr' : Follows [',', '>'] r')
    (h : List.replicate marks '?' ++ r = List.replicate marks' '?' ++ r') :
    marks = marks' ∧ r = r' := by
  have hall : ∀ count, ∀ ch ∈ List.replicate count '?', (ch == '?') = true := by
    intro count ch hch
    rw [List.eq_of_mem_replicate hch]
    rfl
  obtain ⟨hsame, hrest⟩ := append_cancel_of_all (hall marks) (hall marks') (by decide) hr hr' h
  have hlength := congrArg List.length hsame
  rw [List.length_replicate, List.length_replicate] at hlength
  exact ⟨hlength, hrest⟩

/-- Behind a type without its question marks there is a question mark, or what may follow
the type. -/
theorem follows_marks (marks : Nat) {r : List Char} (hr : Follows [',', '>'] r) :
    Follows ['?', ',', '>'] (List.replicate marks '?' ++ r) := by
  cases marks with
  | zero => exact hr.mono (List.subset_cons_self _ _)
  | succ marks => exact follows_cons List.mem_cons_self _

/-- A word is not the beginning of a name with levels: the word ends before the colons. -/
theorem word_ne_path {name : String} (hname : IsIdentifier name) {r s : List Char}
    (hr : Follows ['?', ',', '>'] r) : name.toList ++ r ≠ "global::".toList ++ s := by
  intro h
  have hglobal : IsIdentifier "global" := by decide
  have hsplit : "global::".toList ++ s = "global".toList ++ (':' :: ':' :: s) := rfl
  rw [hsplit] at h
  obtain ⟨-, hrest⟩ := identifier_cancel hname hglobal (hr.mono (by decide))
    (follows_cons (by decide) _) h
  exact absurd (hrest ▸ hr).mem (by decide)

/-- In front of a comma, a closing bracket or the end, the text of a type is not that of
another type, nor the beginning of it. -/
theorem Legible.tellsApart {s : SourceType} (hs : s.Legible) :
    TellsApart (fun t => t.text.toList) Legible [',', '>'] s := by
  induction s with
  | word name marks =>
    obtain ⟨_, hname⟩ := hs
    intro t ht r r' hr hr' h
    simp only [toList_text_word, List.append_assoc] at h
    cases ht with
    | word marks' hname' =>
      rw [toList_text_word, List.append_assoc] at h
      obtain ⟨rfl, hrest⟩ := identifier_cancel hname hname'
        ((follows_marks marks hr).mono (by decide)) ((follows_marks marks' hr').mono (by decide)) h
      obtain ⟨rfl, hends⟩ := marks_cancel hr hr' hrest
      exact ⟨rfl, hends⟩
    | path marks' =>
      rw [toList_text_path, List.append_assoc] at h
      exact absurd h (word_ne_path hname (follows_marks marks hr))
  | path levels args marks ih =>
    have hargs : ∀ a ∈ args, TellsApart (fun t => t.text.toList) Legible [',', '>'] a := by
      cases hs with
      | path _ _ _ _ arguments => exact fun a ha => ih a ha (arguments a ha)
    intro t ht r r' hr hr' h
    -- the levels are read first, the question marks behind them are counted then
    simp only [toList_text_path, List.append_assoc] at h
    cases ht with
    | word marks' hname' =>
      rw [toList_text_word, List.append_assoc] at h
      exact absurd h.symm (word_ne_path hname' (follows_marks marks' hr'))
    | path marks' nonempty names counts arguments =>
      rw [toList_text_path, List.append_assoc, List.append_assoc] at h
      obtain ⟨rfl, rfl, hrest⟩ := levels_cancel hs (.path marks' nonempty names counts arguments)
        hargs (follows_marks marks hr) (follows_marks marks' hr') (List.append_cancel_left h)
      obtain ⟨rfl, hends⟩ := marks_cancel hr hr' hrest
      exact ⟨rfl, hends⟩

/-- A text is that of one legible type at most. -/
theorem Legible.text_inj {s t : SourceType} (hs : s.Legible) (ht : t.Legible) :
    s.text = t.text ↔ s = t := by
  constructor
  · intro h
    have hchars : s.text.toList ++ [] = t.text.toList ++ [] := by rw [h]
    exact (hs.tellsApart t ht (follows_nil _) (follows_nil _) hchars).1
  · exact congrArg text

end SourceType

end Generics
