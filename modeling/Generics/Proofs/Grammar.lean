import Mathlib.Data.List.TakeWhile
import Generics.TypeName.Reader

/-!
# The grammar of type names

What may be written for a type name, as a grammar:

* a text is a name, with separators before it, and possibly an assembly and
  separators behind it;
* a name is a path, possibly with a list of arguments behind it;
* a list of arguments has brackets around it and a comma between neighbours, with
  separators after the comma;
* an argument is a name, or a name in brackets, possibly with an assembly.

The grammar leaves choices that the reader makes for good when it meets them: where a
path or an assembly ends, and whether a comma begins an assembly or the next argument.
The reader chooses right, since what follows a part never looks like more of it.

## Main definitions

* `IsGap`, `IsAssembly` — the parts without names in them, apart from paths.
* `Written` — a name, an argument or a list of arguments with a text of it.
* `Derives` — a whole text with the name in it.
* `Readable` — names that can be written at all.

## Main results

* `Reader.written_of_name` — what the reader of names takes from a text is written as the
  grammar says.
* `Written.reads` — from a text that begins with a part, the reader takes this part.
* `read_eq_ok_of_derives`, `read_eq_ok_iff_derives` — reading accepts exactly what the
  grammar derives.
-/

namespace Generics.TypeName

/-! ### The grammar -/

/-- Zero or more separators. -/
def IsGap (w : List Char) : Prop :=
  ∀ c ∈ w, Text.isSeparator c = true

/-- An assembly: a comma, separators, and one or more characters other than a closing
bracket, of which the first one is no separator. -/
inductive IsAssembly : List Char → Prop
  | intro {gap : List Char} {first : Char} {others : List Char} (separators : IsGap gap)
    (first_not : Text.isSeparator first = false) (text : ∀ c ∈ first :: others, c ≠ ']') :
    IsAssembly (',' :: (gap ++ first :: others))

/-- An assembly that may be absent. -/
def IsOptionalAssembly (w : List Char) : Prop :=
  w = [] ∨ IsAssembly w

/-- What a part of a text can stand for. -/
inductive Phrase where
  | name (name : TypeName)
  | argument (name : TypeName)
  /-- A list of arguments with its brackets. -/
  | arguments (names : List TypeName)
  /-- The arguments after the first one, each with the comma before it. -/
  | further (names : List TypeName)

/-- The names in a phrase. -/
def Phrase.names : Phrase → List TypeName
  | name t => [t]
  | argument t => [t]
  | arguments ts => ts
  | further ts => ts

/-- The texts of a phrase. -/
inductive Written : Phrase → List Char → Prop
  | path {w : List Char} (path : IsPath w) : Written (.name (.node (String.ofList w) [])) w
  | application {w v : List Char} {args : List TypeName} (path : IsPath w)
    (arguments : Written (.arguments args) v) :
    Written (.name (.node (String.ofList w) args)) (w ++ v)
  | bare {t : TypeName} {w : List Char} (name : Written (.name t) w) : Written (.argument t) w
  | bracketed {t : TypeName} {w a : List Char} (name : Written (.name t) w)
    (assembly : IsOptionalAssembly a) : Written (.argument t) ('[' :: (w ++ a ++ [']']))
  | list {t : TypeName} {ts : List TypeName} {w v : List Char}
    (first : Written (.argument t) w) (others : Written (.further ts) v) :
    Written (.arguments (t :: ts)) ('[' :: (w ++ v ++ [']']))
  | done : Written (.further []) []
  | next {t : TypeName} {ts : List TypeName} {gap w v : List Char} (separators : IsGap gap)
    (first : Written (.argument t) w) (others : Written (.further ts) v) :
    Written (.further (t :: ts)) (',' :: (gap ++ w ++ v))

/-- The whole text is a name with what may stand around it. -/
def Derives (text : String) (t : TypeName) : Prop :=
  ∃ front w a back, text.toList = front ++ w ++ a ++ back ∧ IsGap front ∧ Written (.name t) w ∧
    IsOptionalAssembly a ∧ IsGap back

/-- Every path in the name is one that can be written. -/
inductive Readable : TypeName → Prop
  | node {path : String} {args : List TypeName} (head : IsPath path.toList)
    (arguments : ∀ a ∈ args, Readable a) : Readable (.node path args)

/-! ### Paths, separators and assemblies -/

/-- A separator cannot stand in a path. -/
theorem isPathChar_of_isSeparator {c : Char} (h : Text.isSeparator c = true) :
    isPathChar c = false := by
  simp [isPathChar, Text.isBlank_of_isSeparator h]

/-- The text does not go on as a path or as an argument list does. -/
def Stops (s : List Char) : Prop :=
  ∀ c rest, s = c :: rest → isPathChar c = false ∧ c ≠ '['

theorem stops_cons {c : Char} (h : isPathChar c = false) (h' : c ≠ '[') (s : List Char) :
    Stops (c :: s) := by
  intro d rest he
  cases he
  exact ⟨h, h'⟩

theorem stops_gap {w : List Char} (h : IsGap w) : Stops w := by
  intro c rest he
  have hc : Text.isSeparator c = true := h c (he ▸ List.mem_cons_self)
  refine ⟨isPathChar_of_isSeparator hc, ?_⟩
  rintro rfl
  exact absurd hc (by decide)

theorem isGap_nil : IsGap [] :=
  fun _ hc => absurd hc List.not_mem_nil

/-- Separators in front are skipped up to the first character that is none. -/
theorem skipSeparators_append {gap : List Char} (h : IsGap gap) (s : List Char) :
    Text.skipSeparators (gap ++ s) = Text.skipSeparators s :=
  List.dropWhile_append_of_pos h

theorem skipSeparators_of_isGap {gap : List Char} (h : IsGap gap) :
    Text.skipSeparators gap = [] :=
  List.dropWhile_eq_nil_iff.2 h

theorem skipSeparators_cons {c : Char} (h : Text.isSeparator c = false) (s : List Char) :
    Text.skipSeparators (c :: s) = c :: s := by
  simp [Text.skipSeparators, h]

theorem exists_gap (s : List Char) : ∃ gap, IsGap gap ∧ s = gap ++ Text.skipSeparators s :=
  ⟨s.takeWhile Text.isSeparator, fun _ => List.mem_takeWhile_imp,
    List.takeWhile_append_dropWhile.symm⟩

/-- What is left when separators are skipped does not begin with one. -/
theorem isSeparator_of_skipSeparators_eq {s rest : List Char} {c : Char}
    (h : Text.skipSeparators s = c :: rest) : Text.isSeparator c = false := by
  have hhead := List.head?_dropWhile_not Text.isSeparator s
  rw [← Text.skipSeparators, h] at hhead
  exact hhead

namespace Reader

open Generics.TypeName.Parser

theorem comma_cons (s : List Char) : comma (',' :: s) = .ok ((), Text.skipSeparators s) := by
  rw [comma, bind_of_ok (char_cons ',' s)]
  rfl

theorem comma_of_ne {s : List Char} (h : ∀ rest, s ≠ ',' :: rest) :
    comma s = .error ⟨s, .char⟩ := by
  rw [comma, bind_of_error (char_of_ne h)]

theorem assembly_of_ne {s : List Char} (h : ∀ rest, s ≠ ',' :: rest) :
    assembly s = .error ⟨s, .char⟩ := by
  rw [assembly, bind_of_error (comma_of_ne h)]

/-- The reader takes an assembly up to the next closing bracket, which the grammar does
not ask for. -/
theorem assembly_append {a : List Char} (h : IsAssembly a) (s : List Char) :
    ∃ w, assembly (a ++ s) = .ok (w, s.dropWhile (· != ']')) := by
  cases h with
  | @intro gap first others hgap hfirst htext =>
    have hskip : Text.skipSeparators (gap ++ (first :: others ++ s)) = first :: others ++ s := by
      rw [skipSeparators_append hgap]
      exact skipSeparators_cons hfirst _
    have hall : ∀ c ∈ first :: others, (c != ']') = true := fun c hc => by simp [htext c hc]
    -- the text of the assembly has no closing bracket, so the reader goes on in `s`
    have hdrop : (first :: others ++ s).dropWhile (· != ']') = s.dropWhile (· != ']') :=
      List.dropWhile_append_of_pos hall
    have htake : (first :: others ++ s).takeWhile (· != ']') ≠ [] := by
      rw [List.takeWhile_append_of_pos hall]
      simp
    rw [List.cons_append, List.append_assoc, assembly, bind_of_ok (comma_cons _), hskip]
    exact ⟨_, takeSome_eq_ok.2 ⟨htake, rfl, hdrop⟩⟩

theorem isAssembly_of_assembly {s w rest : List Char} (h : assembly s = .ok (w, rest)) :
    ∃ a, IsAssembly a ∧ s = a ++ rest := by
  obtain ⟨⟨⟩, behind, hcomma, htake⟩ := bind_eq_ok.1 h
  obtain ⟨c, s', hc, hskip⟩ := bind_eq_ok.1 hcomma
  obtain ⟨-, rfl⟩ := char_eq_ok.1 hc
  obtain ⟨gap, hgap, hs⟩ := exists_gap s'
  obtain ⟨-, hbehind⟩ := Prod.ext_iff.1 (Except.ok.inj hskip)
  obtain rfl : Text.skipSeparators s' = behind := hbehind
  obtain ⟨hne, hw, hrest⟩ := takeSome_eq_ok.1 htake
  obtain ⟨first, others, he⟩ := List.exists_cons_of_ne_nil hne
  have hsplit : Text.skipSeparators s' = first :: others ++ rest := by
    rw [← he, ← hrest]
    exact List.takeWhile_append_dropWhile.symm
  refine ⟨',' :: (gap ++ first :: others), ?_, ?_⟩
  · refine .intro hgap (isSeparator_of_skipSeparators_eq hsplit) fun c hc => ?_
    rw [← he] at hc
    simpa using List.mem_takeWhile_imp hc
  · rw [List.cons_append, List.append_assoc, ← hsplit, ← hs]

/-- The text behind an assembly that may be absent. -/
def afterAssembly (s : List Char) : List Char :=
  match assembly s with
  | .ok (_, rest) => rest
  | .error _ => s

/-- Whatever is wrong with an assembly, the text is left as it was in front of it. -/
theorem optional_assembly (s : List Char) :
    ∃ w, optional assembly s = .ok (w, afterAssembly s) := by
  unfold afterAssembly
  cases h : assembly s with
  | ok taken => exact ⟨some taken.1, optional_of_ok h⟩
  | error e => exact ⟨none, optional_of_error h⟩

theorem afterAssembly_of_ne {s : List Char} (h : ∀ rest, s ≠ ',' :: rest) :
    afterAssembly s = s := by
  rw [afterAssembly, assembly_of_ne h]

theorem afterAssembly_of_isAssembly {a : List Char} (h : IsAssembly a) (s : List Char) :
    afterAssembly (a ++ s) = s.dropWhile (· != ']') := by
  obtain ⟨w, hw⟩ := assembly_append h s
  rw [afterAssembly, hw]

/-- In front of a closing bracket an assembly that may be absent is skipped. -/
theorem afterAssembly_append {a : List Char} (h : IsOptionalAssembly a) (rest : List Char) :
    afterAssembly (a ++ ']' :: rest) = ']' :: rest := by
  rcases h with rfl | h
  · exact afterAssembly_of_ne (by simp)
  · rw [afterAssembly_of_isAssembly h]
    rfl

/-- At the end of the text separators may be left, which the reader counts as text of the
assembly if there is one. -/
theorem skipSeparators_afterAssembly {a back : List Char} (h : IsOptionalAssembly a)
    (hback : IsGap back) : Text.skipSeparators (afterAssembly (a ++ back)) = [] := by
  rcases h with rfl | h
  · -- a comma would begin an assembly, and is no separator
    have hne : ∀ rest, back ≠ ',' :: rest := by
      rintro rest rfl
      exact absurd (hback ',' List.mem_cons_self) (by decide)
    rw [List.nil_append, afterAssembly_of_ne hne, skipSeparators_of_isGap hback]
  · have hdrop : back.dropWhile (· != ']') = [] := by
      refine List.dropWhile_eq_nil_iff.2 fun c hc => ?_
      have hsep := hback c hc
      simp only [bne_iff_ne]
      rintro rfl
      exact absurd hsep (by decide)
    rw [afterAssembly_of_isAssembly h, hdrop]
    rfl

theorem exists_optionalAssembly (s : List Char) :
    ∃ a, IsOptionalAssembly a ∧ s = a ++ afterAssembly s := by
  unfold afterAssembly
  cases h : assembly s with
  | error e => exact ⟨[], Or.inl rfl, rfl⟩
  | ok taken =>
    obtain ⟨a, ha, hs⟩ := isAssembly_of_assembly h
    exact ⟨a, Or.inr ha, hs⟩

/-! ### The parsers of the parts -/

section Parts

variable {name : Parser TypeName} {s rest : List Char} {t : TypeName} {ts : List TypeName}

theorem bracketedArgument_eq_ok : bracketedArgument name s = .ok (t, rest) ↔
    ∃ s' middle, s = '[' :: s' ∧ name s' = .ok (t, middle) ∧
      afterAssembly middle = ']' :: rest := by
  constructor
  · intro h
    obtain ⟨c, s', hopen, h⟩ := bind_eq_ok.1 h
    obtain ⟨u, middle, hname, h⟩ := bind_eq_ok.1 h
    obtain ⟨w, hassembly⟩ := optional_assembly middle
    rw [bind_of_ok hassembly] at h
    obtain ⟨d, rest', hclose, h⟩ := bind_eq_ok.1 h
    cases pure_eq_ok.1 h
    exact ⟨s', middle, (char_eq_ok.1 hopen).2, hname, (char_eq_ok.1 hclose).2⟩
  · rintro ⟨s', middle, rfl, hname, hclose⟩
    obtain ⟨w, hassembly⟩ := optional_assembly middle
    rw [bracketedArgument, bind_of_ok (char_cons _ _), bind_of_ok hname, bind_of_ok hassembly,
      hclose, bind_of_ok (char_cons _ _)]
    rfl

theorem arguments_eq_ok : arguments name s = .ok (ts, rest) ↔
    ∃ s' t middle others, s = '[' :: s' ∧ argument name s' = .ok (t, middle) ∧
      further comma (argument name) middle.length middle = .ok (others, ']' :: rest) ∧
      ts = t :: others := by
  constructor
  · intro h
    obtain ⟨c, s', hopen, h⟩ := bind_eq_ok.1 h
    obtain ⟨ts', behind, hlist, h⟩ := bind_eq_ok.1 h
    obtain ⟨d, rest', hclose, h⟩ := bind_eq_ok.1 h
    cases pure_eq_ok.1 h
    obtain ⟨t, middle, others, hfirst, hothers, rfl⟩ := separated_eq_ok.1 hlist
    obtain ⟨-, rfl⟩ := char_eq_ok.1 hclose
    exact ⟨s', t, middle, others, (char_eq_ok.1 hopen).2, hfirst, hothers, rfl⟩
  · rintro ⟨s', t, middle, others, rfl, hfirst, hothers, rfl⟩
    rw [arguments, bind_of_ok (char_cons _ _),
      bind_of_ok (separated_eq_ok.2 ⟨t, middle, others, hfirst, hothers, rfl⟩),
      bind_of_ok (char_cons _ _)]
    rfl

/-- Without an opening bracket there is no argument list. -/
theorem arguments_of_ne (h : ∀ rest, s ≠ '[' :: rest) :
    arguments name s = .error ⟨s, .char⟩ := by
  rw [arguments, bind_of_error (char_of_ne h)]

theorem further_of_ne {item : Parser TypeName} (bound : Nat) (h : ∀ rest, s ≠ ',' :: rest) :
    further comma item bound s = .ok ([], s) := by
  cases bound with
  | zero => rfl
  | succ bound =>
    unfold further
    simp only [comma_of_ne h]

/-- A comma takes something from the text, so it is always allowed. -/
theorem further_cons {item : Parser TypeName} (bound : Nat) (s : List Char) :
    further comma item (bound + 1) (',' :: s) =
      match item (Text.skipSeparators s) with
      | .error _ => .ok ([], ',' :: s)
      | .ok (t, rest) =>
        match further comma item bound rest with
        | .error e => .error e
        | .ok (others, rest) => .ok (t :: others, rest) := by
  have hshorter : (Text.skipSeparators s).length ≠ (',' :: s).length := by
    have hle : (Text.skipSeparators s).length ≤ s.length := (List.dropWhile_suffix _).length_le
    rw [List.length_cons]
    omega
  rw [further]
  simp only [comma_cons, if_neg hshorter]
  cases item (Text.skipSeparators s) with
  | error e => rfl
  | ok taken =>
    obtain ⟨t, middle⟩ := taken
    cases h : further comma item bound middle <;> simp [h]

/-- A name is a path, and behind it an argument list if one can be read to its end. -/
theorem name_succ (depth : Nat) (s : List Char) : Reader.name (depth + 1) s =
    if s.takeWhile isPathChar = [] then .error ⟨s, .takeWhile1⟩
    else
      match arguments (Reader.name depth) (s.dropWhile isPathChar) with
      | .error _ => .ok (.node (String.ofList (s.takeWhile isPathChar)) [], s.dropWhile isPathChar)
      | .ok (args, rest) => .ok (.node (String.ofList (s.takeWhile isPathChar)) args, rest) := by
  split
  · next hnone =>
    have hpath : path s = .error ⟨s, .takeWhile1⟩ := bind_of_error (if_pos hnone)
    rw [Reader.name, bind_of_error hpath]
  · next hsome =>
    have hpath : path s = .ok (String.ofList (s.takeWhile isPathChar), s.dropWhile isPathChar) :=
      bind_of_ok (takeSome_eq_ok.2 ⟨hsome, rfl, rfl⟩)
    rw [Reader.name, bind_of_ok hpath]
    split
    · next e hargs => rw [bind_of_ok (optional_of_error hargs)]; rfl
    · next args rest hargs => rw [bind_of_ok (optional_of_ok hargs)]; rfl

/-- Whatever is wrong inside the argument list, a name fails only where its path should
begin. -/
theorem name_eq_error {depth : Nat} {e : Miss} (h : Reader.name depth s = .error e) :
    e = ⟨s, .takeWhile1⟩ := by
  cases depth with
  | zero => cases h; rfl
  | succ depth =>
    rw [name_succ] at h
    split at h
    · cases h
      rfl
    · split at h <;> cases h

end Parts

/-! ### What the reader takes is written -/

section Sound

/-- A reader of names that takes only what is written as a name. -/
def Sound (name : Parser TypeName) : Prop :=
  ∀ {s rest t}, name s = .ok (t, rest) → ∃ w, s = w ++ rest ∧ Written (.name t) w

variable {name : Parser TypeName} (hname : Sound name)

include hname

theorem written_of_argument {s rest : List Char} {t : TypeName}
    (h : argument name s = .ok (t, rest)) : ∃ w, s = w ++ rest ∧ Written (.argument t) w := by
  cases hbracketed : bracketedArgument name s with
  | ok taken =>
    rw [argument, orElse_of_ok hbracketed] at h
    cases h
    obtain ⟨s', middle, rfl, hread, hclose⟩ := bracketedArgument_eq_ok.1 hbracketed
    obtain ⟨w, rfl, hw⟩ := hname hread
    obtain ⟨a, ha, hmiddle⟩ := exists_optionalAssembly middle
    refine ⟨'[' :: (w ++ a ++ [']']), ?_, .bracketed hw ha⟩
    rw [hmiddle, hclose]
    simp
  | error e =>
    rw [argument, orElse_of_error hbracketed] at h
    obtain ⟨w, rfl, hw⟩ := hname h
    exact ⟨w, rfl, .bare hw⟩

theorem written_of_further {bound : Nat} {s rest : List Char} {ts : List TypeName}
    (h : further comma (argument name) bound s = .ok (ts, rest)) :
    ∃ w, s = w ++ rest ∧ Written (.further ts) w := by
  induction bound generalizing s rest ts with
  | zero =>
    cases h
    exact ⟨[], rfl, .done⟩
  | succ bound ih =>
    by_cases hcomma : ∃ s', s = ',' :: s'
    · obtain ⟨s', rfl⟩ := hcomma
      rw [further_cons] at h
      split at h
      · -- no argument follows, and the comma is left with the rest
        cases h
        exact ⟨[], rfl, .done⟩
      · next t middle hargument =>
        split at h
        · cases h
        · next others rest' hothers =>
          cases h
          obtain ⟨w, hw, hwritten⟩ := written_of_argument hname hargument
          obtain ⟨v, rfl, hfurther⟩ := ih hothers
          obtain ⟨gap, hgap, hs⟩ := exists_gap s'
          refine ⟨',' :: (gap ++ w ++ v), ?_, .next hgap hwritten hfurther⟩
          rw [List.cons_append, List.append_assoc, List.append_assoc, ← hw, ← hs]
    · rw [further_of_ne _ (not_exists.1 hcomma)] at h
      cases h
      exact ⟨[], rfl, .done⟩

theorem written_of_arguments {s rest : List Char} {ts : List TypeName}
    (h : arguments name s = .ok (ts, rest)) : ∃ w, s = w ++ rest ∧ Written (.arguments ts) w := by
  obtain ⟨s', t, middle, others, rfl, hfirst, hothers, rfl⟩ := arguments_eq_ok.1 h
  obtain ⟨w, rfl, hw⟩ := written_of_argument hname hfirst
  obtain ⟨v, rfl, hv⟩ := written_of_further hname hothers
  exact ⟨'[' :: (w ++ v ++ [']']), by simp, .list hw hv⟩

end Sound

/-- What the reader of names takes from a text is written as a name. -/
theorem written_of_name (depth : Nat) : Sound (name depth) := by
  induction depth with
  | zero => intro s rest t h; cases h
  | succ depth ih =>
    intro s rest t h
    rw [name_succ] at h
    split at h
    · cases h
    · next hne =>
      have hpath : IsPath (s.takeWhile isPathChar) :=
        isPath_iff.2 ⟨hne, fun _ => List.mem_takeWhile_imp⟩
      have hs : s = s.takeWhile isPathChar ++ s.dropWhile isPathChar :=
        List.takeWhile_append_dropWhile.symm
      split at h
      · -- a list that cannot be read to its end is not part of the name
        cases h
        exact ⟨_, hs, .path hpath⟩
      · next args rest' hargs =>
        cases h
        obtain ⟨v, hv, hwritten⟩ := written_of_arguments ih hargs
        refine ⟨s.takeWhile isPathChar ++ v, ?_, .application hpath hwritten⟩
        rw [List.append_assoc, ← hv]
        exact hs

/-! ### What is written is taken by the reader -/

end Reader

/-- The text of a name begins with a character of a path. -/
theorem Written.exists_pathChar {t : TypeName} {w : List Char} (h : Written (.name t) w) :
    ∃ c v, w = c :: v ∧ isPathChar c = true := by
  have key : ∀ {w : List Char}, IsPath w → ∃ c v, w = c :: v ∧ isPathChar c = true := by
    intro w hw
    obtain ⟨hne, hall⟩ := isPath_iff.1 hw
    cases w with
    | nil => exact absurd rfl hne
    | cons c v => exact ⟨c, v, rfl, hall c List.mem_cons_self⟩
  cases h with
  | path hpath => exact key hpath
  | @application w v args hpath _ =>
    obtain ⟨c, u, rfl, hc⟩ := key hpath
    exact ⟨c, u ++ v, rfl, hc⟩

/-- The text of an argument does not begin with a separator. -/
theorem Written.exists_not_separator {t : TypeName} {w : List Char}
    (h : Written (.argument t) w) : ∃ c v, w = c :: v ∧ Text.isSeparator c = false := by
  cases h with
  | bare hname =>
    obtain ⟨c, v, rfl, hc⟩ := hname.exists_pathChar
    refine ⟨c, v, rfl, Bool.eq_false_iff.2 fun hsep => ?_⟩
    rw [isPathChar_of_isSeparator hsep] at hc
    cases hc
  | bracketed _ _ => exact ⟨'[', _, rfl, by decide⟩

/-- An argument ends before the next one, and before the closing bracket of the list. -/
theorem Written.stops {ts : List TypeName} {w : List Char} (h : Written (.further ts) w)
    (rest : List Char) : Stops (w ++ ']' :: rest) := by
  cases h with
  | done => exact stops_cons (by decide) (by decide) rest
  | next _ _ _ => exact stops_cons (by decide) (by decide) _

/-- A name ends before an assembly, and before the closing bracket of an argument. -/
theorem IsOptionalAssembly.stops {a : List Char} (h : IsOptionalAssembly a) {rest : List Char}
    (hrest : Stops rest) : Stops (a ++ rest) := by
  rcases h with rfl | ⟨_, _, _⟩
  · exact hrest
  · exact stops_cons (by decide) (by decide) _

namespace Reader

open Generics.TypeName.Parser

/-- A path is read up to where the text does not go on as one. -/
theorem takeWhile_path {w : List Char} (h : IsPath w) {rest : List Char}
    (hrest : ∀ c v, rest = c :: v → isPathChar c = false) :
    (w ++ rest).takeWhile isPathChar = w ∧ (w ++ rest).dropWhile isPathChar = rest := by
  have hw := (isPath_iff.1 h).2
  rw [List.takeWhile_append_of_pos hw, List.dropWhile_append_of_pos hw]
  cases rest with
  | nil => simp
  | cons c v => simp [hrest c v rfl]

/-- The reader of a phrase takes the text `w` off any text that begins with it and does
not go on with more of the phrase.  The length of `w` bounds how deep and how far the
reader has to go. -/
def Reads : Phrase → List Char → Prop
  | .name t, w => ∀ depth rest, w.length ≤ depth → Stops rest →
      name depth (w ++ rest) = .ok (t, rest)
  | .argument t, w => ∀ depth rest, w.length ≤ depth → Stops rest →
      argument (name depth) (w ++ rest) = .ok (t, rest)
  | .arguments ts, w => ∀ depth rest, w.length ≤ depth →
      arguments (name depth) (w ++ rest) = .ok (ts, rest)
  | .further ts, w => ∀ depth bound rest, w.length ≤ depth → w.length ≤ bound →
      further comma (argument (name depth)) bound (w ++ ']' :: rest) = .ok (ts, ']' :: rest)

theorem reads_path {w : List Char} (h : IsPath w) :
    Reads (.name (.node (String.ofList w) [])) w := by
  intro depth rest hdepth hrest
  obtain ⟨htake, hdrop⟩ := takeWhile_path h fun c v he => (hrest c v he).1
  obtain ⟨depth, rfl⟩ : ∃ n, depth = n + 1 := by
    have hpos := List.length_pos_iff.2 h.1
    exact ⟨depth - 1, by omega⟩
  have hargs : arguments (name depth) rest = .error ⟨rest, .char⟩ :=
    arguments_of_ne fun v he => (hrest '[' v he).2 rfl
  rw [name_succ, htake, hdrop, if_neg h.1, hargs]

theorem reads_application {w v : List Char} {args : List TypeName} (h : IsPath w)
    (hv : Reads (.arguments args) v) (hbracket : ∃ u, v = '[' :: u) :
    Reads (.name (.node (String.ofList w) args)) (w ++ v) := by
  intro depth rest hdepth hrest
  obtain ⟨u, rfl⟩ := hbracket
  have hends : ∀ c v', '[' :: u ++ rest = c :: v' → isPathChar c = false := by
    intro c v' he
    cases he
    decide
  obtain ⟨htake, hdrop⟩ := takeWhile_path h hends
  have hpos := List.length_pos_iff.2 h.1
  rw [List.length_append] at hdepth
  obtain ⟨depth, rfl⟩ : ∃ n, depth = n + 1 := ⟨depth - 1, by omega⟩
  -- the path takes at least one character of the bound
  have hargs := hv depth rest (by omega)
  rw [name_succ, List.append_assoc, htake, hdrop, if_neg h.1, hargs]

theorem reads_bare {t : TypeName} {w : List Char} (hw : Reads (.name t) w)
    (hpath : ∃ c v, w = c :: v ∧ isPathChar c = true) : Reads (.argument t) w := by
  intro depth rest hdepth hrest
  obtain ⟨c, v, rfl, hc⟩ := hpath
  have hopen : ∀ s, c :: v ++ rest ≠ '[' :: s := by
    intro s he
    cases he
    exact absurd hc (by decide)
  have hbracketed : bracketedArgument (name depth) (c :: v ++ rest) = .error _ :=
    bind_of_error (char_of_ne hopen)
  rw [argument, orElse_of_error hbracketed]
  exact hw depth rest hdepth hrest

theorem reads_bracketed {t : TypeName} {w a : List Char} (hw : Reads (.name t) w)
    (ha : IsOptionalAssembly a) : Reads (.argument t) ('[' :: (w ++ a ++ [']'])) := by
  intro depth rest hdepth hrest
  have hstops : Stops (a ++ ']' :: rest) := ha.stops (stops_cons (by decide) (by decide) rest)
  have hread := hw depth (a ++ ']' :: rest) (by simp at hdepth; omega) hstops
  have hs : '[' :: (w ++ a ++ [']']) ++ rest = '[' :: (w ++ (a ++ ']' :: rest)) := by simp
  rw [hs, argument, orElse_of_ok]
  exact bracketedArgument_eq_ok.2 ⟨_, _, rfl, hread, afterAssembly_append ha rest⟩

theorem reads_list {t : TypeName} {ts : List TypeName} {w v : List Char}
    (hw : Reads (.argument t) w) (hv : Reads (.further ts) v)
    (hstops : ∀ rest, Stops (v ++ ']' :: rest)) :
    Reads (.arguments (t :: ts)) ('[' :: (w ++ v ++ [']'])) := by
  intro depth rest hdepth
  have hfirst := hw depth (v ++ ']' :: rest) (by simp at hdepth; omega) (hstops rest)
  have hothers := hv depth (v ++ ']' :: rest).length rest (by simp at hdepth; omega) (by simp)
  have hs : '[' :: (w ++ v ++ [']']) ++ rest = '[' :: (w ++ (v ++ ']' :: rest)) := by simp
  rw [hs]
  exact arguments_eq_ok.2 ⟨_, t, _, ts, rfl, hfirst, hothers, rfl⟩

theorem reads_done : Reads (.further []) [] :=
  fun _ bound _ _ _ => further_of_ne bound (by simp)

theorem reads_next {t : TypeName} {ts : List TypeName} {gap w v : List Char} (hgap : IsGap gap)
    (hw : Reads (.argument t) w) (hfirst : ∃ c u, w = c :: u ∧ Text.isSeparator c = false)
    (hv : Reads (.further ts) v) (hstops : ∀ rest, Stops (v ++ ']' :: rest)) :
    Reads (.further (t :: ts)) (',' :: (gap ++ w ++ v)) := by
  intro depth bound rest hdepth hbound
  simp only [List.length_cons, List.length_append] at hdepth hbound
  obtain ⟨bound, rfl⟩ : ∃ n, bound = n + 1 := ⟨bound - 1, by omega⟩
  have hargument := hw depth (v ++ ']' :: rest) (by omega) (hstops rest)
  have hothers := hv depth bound rest (by omega) (by omega)
  -- the gap is skipped to its end, as the argument does not begin with a separator
  have hskip : Text.skipSeparators (gap ++ w ++ v ++ ']' :: rest) = w ++ (v ++ ']' :: rest) := by
    obtain ⟨c, u, rfl, hc⟩ := hfirst
    rw [List.append_assoc, List.append_assoc, skipSeparators_append hgap]
    exact skipSeparators_cons hc _
  rw [List.cons_append, further_cons, hskip, hargument]
  simp only [hothers]

end Reader

/-- From a text that begins with a phrase and does not go on with more of it, the reader
takes the phrase. -/
theorem Written.reads {phrase : Phrase} {w : List Char} (h : Written phrase w) :
    Reader.Reads phrase w := by
  induction h with
  | path hpath => exact Reader.reads_path hpath
  | application hpath hargs ih =>
    refine Reader.reads_application hpath ih ?_
    cases hargs with
    | list _ _ => exact ⟨_, rfl⟩
  | bare hname ih => exact Reader.reads_bare ih hname.exists_pathChar
  | bracketed _ ha ih => exact Reader.reads_bracketed ih ha
  | list _ hothers ih ihs => exact Reader.reads_list ih ihs hothers.stops
  | done => exact Reader.reads_done
  | next hgap hfirst hothers ih ihs =>
    exact Reader.reads_next hgap ih hfirst.exists_not_separator ihs hothers.stops

/-! ### Whole texts -/

namespace Reader

open Generics.TypeName.Parser

theorem qualified_of_ok {depth : Nat} {s rest : List Char} {t : TypeName}
    (h : name depth s = .ok (t, rest)) : qualified depth s = .ok (t, afterAssembly rest) := by
  obtain ⟨w, hassembly⟩ := optional_assembly rest
  rw [qualified, bind_of_ok h, bind_of_ok hassembly]
  rfl

/-- The text behind a name, an assembly that may be absent, and separators. -/
def leftOver (rest : List Char) : List Char :=
  Text.skipSeparators (afterAssembly rest)

/-- The name at the beginning of a text, behind separators, and the text behind it. -/
def first (text : String) : Except Miss (TypeName × List Char) :=
  name (text.toList.length + 1) (Text.skipSeparators text.toList)

/-- A text is reported where no name begins. -/
theorem read_of_error {text : String} {miss : Miss} (h : first text = .error miss) :
    read text = .error ⟨text, miss⟩ := by
  have htext : Reader.text (text.toList.length + 1) text.toList = .error miss := by
    refine whole_of_error ?_
    rw [separators_bind]
    exact bind_of_error (bind_of_error h)
  unfold read
  rw [htext]

/-- A text with a name is the name and nothing else, or it is reported where something is
left over. -/
theorem read_of_ok {text : String} {t : TypeName} {rest : List Char}
    (h : first text = .ok (t, rest)) : read text =
      if leftOver rest = [] then .ok t else .error ⟨text, ⟨leftOver rest, .eof⟩⟩ := by
  have hwhole : (do separators; let t ← qualified (text.toList.length + 1); separators; pure t :
      Parser TypeName) text.toList = .ok (t, leftOver rest) := by
    rw [separators_bind, bind_of_ok (qualified_of_ok h), separators_bind]
    rfl
  unfold read Reader.text
  rw [whole_of_ok hwhole]
  by_cases hend : leftOver rest = [] <;> simp [hend]

end Reader

theorem read_eq_ok_iff {text : String} {t : TypeName} : read text = .ok t ↔
    ∃ rest, Reader.first text = .ok (t, rest) ∧ Reader.leftOver rest = [] := by
  constructor
  · intro h
    cases hfirst : Reader.first text with
    | error miss =>
      rw [Reader.read_of_error hfirst] at h
      cases h
    | ok taken =>
      obtain ⟨u, rest⟩ := taken
      rw [Reader.read_of_ok hfirst] at h
      split_ifs at h with hend
      cases h
      exact ⟨rest, rfl, hend⟩
  · rintro ⟨rest, hfirst, hend⟩
    rw [Reader.read_of_ok hfirst, if_pos hend]

/-- What reading accepts is derived. -/
theorem derives_of_read {text : String} {t : TypeName} (h : read text = .ok t) :
    Derives text t := by
  obtain ⟨rest, hname, hend⟩ := read_eq_ok_iff.1 h
  obtain ⟨front, hfront, htext⟩ := exists_gap text.toList
  obtain ⟨w, hw, hwritten⟩ := Reader.written_of_name _ hname
  obtain ⟨a, ha, hrest⟩ := Reader.exists_optionalAssembly rest
  refine ⟨front, w, a, Reader.afterAssembly rest, ?_, hfront, hwritten, ha,
    List.dropWhile_eq_nil_iff.1 hend⟩
  rw [List.append_assoc, List.append_assoc, ← hrest, ← hw, ← htext]

/-- What is derived is read. -/
theorem read_eq_ok_of_derives {text : String} {t : TypeName} (h : Derives text t) :
    read text = .ok t := by
  obtain ⟨front, w, a, back, htext, hfront, hw, ha, hback⟩ := h
  have hskip : Text.skipSeparators text.toList = w ++ (a ++ back) := by
    obtain ⟨c, v, rfl, hc⟩ := hw.exists_pathChar
    have hsep : Text.isSeparator c = false := by
      refine Bool.eq_false_iff.2 fun hsep => ?_
      rw [isPathChar_of_isSeparator hsep] at hc
      cases hc
    rw [htext, List.append_assoc, List.append_assoc, skipSeparators_append hfront]
    exact skipSeparators_cons hsep _
  have hdepth : w.length ≤ text.toList.length + 1 := by
    rw [htext]
    simp only [List.length_append]
    omega
  refine read_eq_ok_iff.2 ⟨a ++ back, ?_, Reader.skipSeparators_afterAssembly ha hback⟩
  rw [Reader.first, hskip]
  exact hw.reads _ _ hdepth (ha.stops (stops_gap hback))

/-- The paths in what is written are paths. -/
theorem Written.readable {phrase : Phrase} {w : List Char} (h : Written phrase w) :
    ∀ t ∈ phrase.names, Readable t := by
  induction h with
  | path hpath =>
    refine List.forall_mem_singleton.2 (.node ?_ fun a ha => absurd ha List.not_mem_nil)
    rwa [String.toList_ofList]
  | application hpath hargs ih =>
    refine List.forall_mem_singleton.2 (.node ?_ ih)
    rwa [String.toList_ofList]
  | bare hname ih => exact ih
  | bracketed hname ha ih => exact ih
  | list hfirst hothers ih ihs => exact List.forall_mem_cons.2 ⟨List.forall_mem_singleton.1 ih, ihs⟩
  | done => exact fun t ht => absurd ht List.not_mem_nil
  | next hgap hfirst hothers ih ihs =>
    exact List.forall_mem_cons.2 ⟨List.forall_mem_singleton.1 ih, ihs⟩

theorem readable_of_read {text : String} {t : TypeName} (h : read text = .ok t) :
    Readable t := by
  obtain ⟨front, w, a, back, -, -, hw, -, -⟩ := derives_of_read h
  exact hw.readable t (List.mem_singleton_self t)

/-- Reading accepts exactly the texts that the grammar derives, each with the name that
it derives; so there is one such name at most. -/
theorem read_eq_ok_iff_derives (text : String) :
    (∀ t, read text = .ok t ↔ Derives text t) ∧
      ∀ t u, Derives text t → Derives text u → t = u := by
  refine ⟨fun t => ⟨derives_of_read, read_eq_ok_of_derives⟩, ?_⟩
  intro t u ht hu
  have h := (read_eq_ok_of_derives ht).symm.trans (read_eq_ok_of_derives hu)
  exact Except.ok.inj h

/-- Assemblies may contain brackets and commas; they are dropped with the separators, and
arguments in brackets are names like others. -/
theorem read_eq_ok_iff_derives_map :
    let text := "\tN.Map`2[[N.Seq`1[K,\r\n[V]], lib[0, x],U],\n v 1, a[ "
    let t : TypeName :=
      .node "N.Map`2" [.node "N.Seq`1" [.node "K" [], .node "V" []], .node "U" []]
    Derives text t ∧ ∀ u, Derives text u → u = t := by
  intro text t
  have hread : read text = .ok t := by decide +kernel
  obtain ⟨hiff, hunique⟩ := read_eq_ok_iff_derives text
  have ht : Derives text t := (hiff t).1 hread
  exact ⟨ht, fun u hu => hunique u t hu ht⟩

end Generics.TypeName
