import Generics.Proofs.Grammar

/-!
# Where reading stops

A text that is not a type name is reported with the place from which on it could not be
read.  Inside it, argument lists and assemblies may begin that do not come to their end;
the reader goes back in front of them and fails later, at a place of its own choice.  It
chooses well: what stands before that place is a type name, and no longer piece of the
text from its beginning is one.  Only a text that does not even begin with a path has no
such piece.

## Main definitions

* `Accepts` — reading succeeds.
* `LacksPath` — behind separators the text does not begin with a path.
* `LongestAccepted` — the longest type name at the beginning of a text.

## Main results

* `Reader.exists_of_written` — the reader takes no less than a name that is written at the
  beginning of the text.
* `suffix_of_accepts` — what is left over lies behind every type name at the beginning of
  the text.
* `malformed_at_longest_prefix` — what the report of a text that is not a type name says.
-/

namespace Generics.TypeName

/-- The text is a type name. -/
def Accepts (text : String) : Prop :=
  ∃ t, read text = .ok t

/-- The text without the separators at its front is empty, or its first character cannot
stand in a path. -/
def LacksPath (text : String) : Prop :=
  ∀ c rest, Text.skipSeparators text.toList = c :: rest → isPathChar c = false

/-- Of the type names with which the text begins, `front` is the longest. -/
structure LongestAccepted (front text : String) : Prop where
  begins : ∃ rest, text = front ++ rest
  accepts : Accepts front
  longest : ∀ other rest, text = other ++ rest → Accepts other → other.length ≤ front.length

theorem accepts_iff {text : String} : Accepts text ↔ ∃ t, Derives text t :=
  exists_congr fun _ => ⟨derives_of_read, read_eq_ok_of_derives⟩

/-! ### Texts that begin with a path -/

/-- A path is all that a name needs to begin with; an argument list that cannot be read to
its end does no harm. -/
theorem Reader.name_eq_error_iff {depth : Nat} {s : List Char} {miss : Miss} :
    name (depth + 1) s = .error miss ↔
      s.takeWhile isPathChar = [] ∧ miss = ⟨s, .takeWhile1⟩ := by
  constructor
  · intro h
    refine ⟨?_, name_eq_error h⟩
    by_contra hpath
    rw [name_succ, if_neg hpath] at h
    split at h <;> cases h
  · rintro ⟨hpath, rfl⟩
    rw [name_succ, if_pos hpath]

/-- Without separators in front, what is derived begins with a name. -/
theorem skipSeparators_of_written {front w : List Char} {t : TypeName} (hfront : IsGap front)
    (hw : Written (.name t) w) (rest : List Char) :
    Text.skipSeparators (front ++ (w ++ rest)) = w ++ rest := by
  obtain ⟨c, v, rfl, hc⟩ := hw.exists_pathChar
  have hsep : Text.isSeparator c = false := by
    refine Bool.eq_false_iff.2 fun hsep => ?_
    rw [isPathChar_of_isSeparator hsep] at hc
    cases hc
  rw [skipSeparators_append hfront]
  exact skipSeparators_cons hsep _

/-! ### What is left over -/

namespace Reader

open Generics.TypeName.Parser

theorem afterAssembly_suffix (s : List Char) : afterAssembly s <:+ s := by
  obtain ⟨a, -, hs⟩ := exists_optionalAssembly s
  exact ⟨a, hs.symm⟩

theorem leftOver_suffix (rest : List Char) : leftOver rest <:+ rest :=
  (List.dropWhile_suffix _).trans (afterAssembly_suffix rest)

/-- From a text that begins with a path the reader takes at least this path. -/
theorem exists_of_path {w : List Char} (h : IsPath w) (depth : Nat) (more : List Char) :
    ∃ u rest, name (depth + 1) (w ++ more) = .ok (u, rest) ∧ rest <:+ more := by
  have hw := (isPath_iff.1 h).2
  have hne : w ++ more.takeWhile isPathChar ≠ [] := fun he => h.1 (List.append_eq_nil_iff.1 he).1
  have hmore : more.dropWhile isPathChar <:+ more := List.dropWhile_suffix _
  rw [name_succ, List.takeWhile_append_of_pos hw, List.dropWhile_append_of_pos hw, if_neg hne]
  cases hargs : arguments (name depth) (more.dropWhile isPathChar) with
  | error miss => exact ⟨_, _, rfl, hmore⟩
  | ok taken =>
    obtain ⟨args, rest⟩ := taken
    obtain ⟨v, hv, -⟩ := written_of_arguments (written_of_name depth) hargs
    exact ⟨_, rest, rfl, (hv ▸ List.suffix_append v rest).trans hmore⟩

/-- From a text that begins with a name the reader takes at least this name, also where
the text goes on with more of it. -/
theorem exists_of_written {t : TypeName} {w : List Char} (h : Written (.name t) w)
    {depth : Nat} (hdepth : w.length ≤ depth) (more : List Char) :
    ∃ u rest, name depth (w ++ more) = .ok (u, rest) ∧ rest <:+ more := by
  have hpos : 0 < w.length := by
    obtain ⟨c, v, rfl, -⟩ := h.exists_pathChar
    exact Nat.succ_pos _
  obtain ⟨depth, rfl⟩ : ∃ n, depth = n + 1 := ⟨depth - 1, by omega⟩
  cases h with
  | path hpath => exact exists_of_path hpath depth more
  | @application w v args hpath hargs =>
    -- a list that has come to its end is taken, whatever follows
    have hread := hargs.reads depth more (by
      have := List.length_pos_iff.2 hpath.1
      rw [List.length_append] at hdepth
      omega)
    obtain ⟨u, rfl⟩ : ∃ u, v = '[' :: u := by
      cases hargs
      exact ⟨_, rfl⟩
    have hends : ∀ c v, '[' :: u ++ more = c :: v → isPathChar c = false := by
      intro c v he
      cases he
      decide
    obtain ⟨htake, hdrop⟩ := takeWhile_path hpath hends
    refine ⟨.node (String.ofList w) args, more, ?_, List.suffix_refl more⟩
    rw [name_succ, List.append_assoc, htake, hdrop, if_neg hpath.1, hread]

/-- Behind a name, an assembly and separators that stand at the beginning of the text, the
reader leaves over no more than what follows them. -/
theorem leftOver_suffix_of_optionalAssembly {a back : List Char} (ha : IsOptionalAssembly a)
    (hback : IsGap back) (hne : a ++ back ≠ []) (more : List Char) :
    leftOver (a ++ back ++ more) <:+ more := by
  unfold leftOver
  rcases ha with rfl | ha
  · have hcomma : ∀ rest, back ++ more ≠ ',' :: rest := by
      intro rest he
      obtain ⟨c, others, rfl⟩ := List.exists_cons_of_ne_nil hne
      cases he
      exact absurd (hback ',' List.mem_cons_self) (by decide)
    rw [List.nil_append, afterAssembly_of_ne hcomma, skipSeparators_append hback]
    exact List.dropWhile_suffix _
  · have hskip : ∀ c ∈ back, (c != ']') = true := by
      intro c hc
      have hsep := hback c hc
      simp only [bne_iff_ne]
      rintro rfl
      exact absurd hsep (by decide)
    rw [List.append_assoc, afterAssembly_of_isAssembly ha, List.dropWhile_append_of_pos hskip]
    exact (List.dropWhile_suffix _).trans (List.dropWhile_suffix _)

end Reader

theorem Stops.append {s : List Char} (h : Stops s) (hne : s ≠ []) (more : List Char) :
    Stops (s ++ more) := by
  obtain ⟨d, others, rfl⟩ := List.exists_cons_of_ne_nil hne
  intro c rest he
  cases he
  exact h d others rfl

/-! ### Whole texts -/

/-- A text has no name at its beginning if it does not begin with a path. -/
theorem first_eq_error_iff {text : String} {miss : Miss} : Reader.first text = .error miss ↔
    LacksPath text ∧ miss = ⟨Text.skipSeparators text.toList, .takeWhile1⟩ := by
  unfold Reader.first LacksPath
  rw [Reader.name_eq_error_iff]
  cases Text.skipSeparators text.toList with
  | nil => simp
  | cons c rest => simp [List.takeWhile_cons]

/-- What is left over lies behind every type name at the beginning of the text. -/
theorem suffix_of_accepts {other : String} (h : Accepts other) (more : String) :
    ∃ u rest, Reader.first (other ++ more) = .ok (u, rest) ∧
      Reader.leftOver rest <:+ more.toList := by
  obtain ⟨t, front, w, a, back, hother, hfront, hw, ha, hback⟩ := accepts_iff.1 h
  have hstart : Text.skipSeparators (other ++ more).toList = w ++ (a ++ back ++ more.toList) := by
    rw [String.toList_append, hother,
      ← skipSeparators_of_written hfront hw (a ++ back ++ more.toList)]
    simp only [List.append_assoc]
  have hdepth : w.length ≤ (other ++ more).toList.length + 1 := by
    rw [String.toList_append, hother]
    simp only [List.length_append]
    omega
  unfold Reader.first
  rw [hstart]
  by_cases hne : a ++ back = []
  · rw [hne, List.nil_append]
    obtain ⟨u, rest, hname, hrest⟩ := Reader.exists_of_written hw hdepth more.toList
    exact ⟨u, rest, hname, (Reader.leftOver_suffix rest).trans hrest⟩
  · -- a comma or a separator follows, so the name ends where it was written to end
    have hstops : Stops (a ++ back ++ more.toList) :=
      (ha.stops (stops_gap hback)).append hne more.toList
    exact ⟨t, _, hw.reads _ _ hdepth hstops,
      Reader.leftOver_suffix_of_optionalAssembly ha hback hne more.toList⟩

/-- What stands before the place at which the reader stops is a type name, and the longest
one. -/
theorem longestAccepted_of_first {text : String} {t : TypeName} {rest : List Char}
    (h : Reader.first text = .ok (t, rest)) :
    ∃ front, text = front ++ String.ofList (Reader.leftOver rest) ∧
      LongestAccepted front text := by
  obtain ⟨gap, hgap, htext⟩ := exists_gap text.toList
  obtain ⟨w, hw, hwritten⟩ := Reader.written_of_name _ h
  obtain ⟨a, ha, hrest⟩ := Reader.exists_optionalAssembly rest
  obtain ⟨back, hback, hleft⟩ := exists_gap (Reader.afterAssembly rest)
  have hsplit : text = String.ofList (gap ++ w ++ a ++ back) ++
      String.ofList (Reader.leftOver rest) := by
    rw [← String.ofList_append, ← String.ofList_toList (s := text), htext, hw]
    congr 1
    simp only [List.append_assoc, Reader.leftOver, ← hleft, ← hrest]
  refine ⟨_, hsplit, ⟨⟨_, hsplit⟩, ?_, fun other more hother haccepts => ?_⟩⟩
  · exact accepts_iff.2 ⟨t, gap, w, a, back, String.toList_ofList, hgap, hwritten, ha, hback⟩
  · obtain ⟨u, rest', hfirst, hsuffix⟩ := suffix_of_accepts haccepts more
    rw [← hother, h] at hfirst
    cases hfirst
    -- both split the text, and the one that leaves less over is longer
    have hle := hsuffix.length_le
    have hlength := congrArg String.length (hother.symm.trans hsplit)
    have hleft : (String.ofList (Reader.leftOver rest)).length = (Reader.leftOver rest).length :=
      String.length_ofList
    rw [String.length_append, String.length_append] at hlength
    rw [String.length_toList] at hle
    omega

/-- A text has a type name at its beginning if and only if it begins with a path. -/
theorem lacksPath_iff {text : String} :
    LacksPath text ↔ ∀ front rest, text = front ++ rest → ¬ Accepts front := by
  constructor
  · rintro hlacks front rest rfl haccepts
    obtain ⟨u, left, hfirst, -⟩ := suffix_of_accepts haccepts rest
    rw [first_eq_error_iff.2 ⟨hlacks, rfl⟩] at hfirst
    cases hfirst
  · intro h
    cases hfirst : Reader.first text with
    | error miss => exact (first_eq_error_iff.1 hfirst).1
    | ok taken =>
      obtain ⟨front, hsplit, hlongest⟩ := longestAccepted_of_first hfirst
      exact absurd hlongest.accepts (h front _ hsplit)

/-- The report of a text that is not a type name shows it as it is.  If no piece from its
beginning is a type name, which is when it does not begin with a path, the report tells
that a path is missing, and shows the text behind the separators at the front.  Otherwise
it tells that the end is missing, and shows what is left over behind the longest piece
from the beginning that is a type name.  What was missed inside an argument list or an
assembly is never told. -/
theorem malformed_at_longest_prefix {text : String} {e : Malformed} (h : read text = .error e) :
    e.input = text ∧
    (LacksPath text ↔ ∀ front rest, text = front ++ rest → ¬ Accepts front) ∧
    (LacksPath text →
      e.miss = ⟨Text.skipSeparators text.toList, .takeWhile1⟩ ∧
      e.reason = "Parsing Error: Error \x7b input: "
        ++ Text.quote (String.ofList (Text.skipSeparators text.toList))
        ++ ", code: TakeWhile1 \x7d") ∧
    (¬ LacksPath text → ∃ front rest, text = front ++ rest ∧ rest ≠ "" ∧
      LongestAccepted front text ∧
      e.miss = ⟨rest.toList, .eof⟩ ∧
      e.reason = "Parsing Error: Error \x7b input: " ++ Text.quote rest
        ++ ", code: Eof \x7d") := by
  cases hfirst : Reader.first text with
  | error miss =>
    rw [Reader.read_of_error hfirst] at h
    cases h
    obtain ⟨hlacks, rfl⟩ := first_eq_error_iff.1 hfirst
    have hcode : ", code: " ++ Rule.takeWhile1.code ++ " \x7d" = ", code: TakeWhile1 \x7d" := by
      decide +kernel
    refine ⟨rfl, lacksPath_iff, fun _ => ⟨rfl, ?_⟩, fun hpath => absurd hlacks hpath⟩
    rw [Malformed.reason_mk, hcode]
  | ok taken =>
    obtain ⟨t, rest⟩ := taken
    rw [Reader.read_of_ok hfirst] at h
    obtain ⟨front, hsplit, hlongest⟩ := longestAccepted_of_first hfirst
    have hpath : ¬ LacksPath text := fun hlacks => by
      rw [first_eq_error_iff.2 ⟨hlacks, rfl⟩] at hfirst
      cases hfirst
    split_ifs at h with hend
    cases h
    have hcode : ", code: " ++ Rule.eof.code ++ " \x7d" = ", code: Eof \x7d" := by decide +kernel
    refine ⟨rfl, lacksPath_iff, fun hlacks => absurd hlacks hpath, fun _ => ⟨front, _, hsplit,
      fun hempty => hend (String.ofList_eq_empty_iff.1 hempty), hlongest, ?_, ?_⟩⟩
    · rw [String.toList_ofList]
    · rw [Malformed.reason_mk, hcode]

/-- The list of arguments is closed, and the assembly in it is dropped; the comma behind the
space begins neither an argument nor an assembly. -/
theorem malformed_at_longest_prefix_comma :
    let front := "\tN.Map`2[[K, lib, 1],V] "
    let text := front ++ ", x]"
    ∃ e, read text = .error e ∧ e.input = text ∧ e.reason =
      "Parsing Error: Error \x7b input: \", x]\", code: Eof \x7d" ∧
      LongestAccepted front text := by
  intro front text
  have hread : read text = .error ⟨text, ⟨[',', ' ', 'x', ']'], .eof⟩⟩ := by decide +kernel
  obtain ⟨hinput, hlacks, -, hlongest⟩ := malformed_at_longest_prefix hread
  have haccepts : Accepts front :=
    ⟨.node "N.Map`2" [.node "K" [], .node "V" []], by decide +kernel⟩
  obtain ⟨front', rest, hsplit, -, hfront, hmiss, hreason⟩ :=
    hlongest fun h => hlacks.1 h front ", x]" rfl haccepts
  obtain rfl : rest = ", x]" := String.toList_inj.1 (congrArg Miss.rest hmiss).symm
  obtain rfl : front = front' := (String.append_left_inj _).1 hsplit
  exact ⟨_, hread, hinput, hreason.trans (by decide +kernel), hfront⟩

end Generics.TypeName
