import Generics.Proofs.Rendering

/-!
# Source names, without the holes

A template with the name of a parameter in each hole is a text, and the text can be
said directly: the texts of the arguments are put in brackets behind the levels they
belong to.  A generic definition is written with the names of its own parameters.

## Main definitions

* `bracketedText` — a name with some texts in angle brackets behind it.
* `Catalog.applicationText` — a definition with the texts of its arguments.
* `Catalog.written` — the source name of a descriptor, short or full.

## Main results

* `write_applicationTemplate` — an application is written as the texts of its
  arguments are put together.
* `written_named`, `written_constructed` — the source name, case by case.
* `written_eq_applicationText` — the same for both cases at once.
-/

namespace Generics

/-- A name with some texts in angle brackets, or without any. -/
def bracketedText (name : String) : List String → String
  | [] => name
  | own => name ++ "<" ++ ", ".intercalate own ++ ">"

theorem Template.write_bracketed (paramName : DefId → Nat → String) (name : String)
    (ls : List Template) : (bracketed name ls).write paramName =
      bracketedText name (ls.map (write paramName)) := by
  cases ls with
  | nil => rw [bracketed, write_text, write_nil, String.append_empty]; rfl
  | cons t ts =>
    rw [bracketed, write_text, write_text, write_append, write_separate, write_text, write_nil,
      String.append_empty, List.map_cons, bracketedText, String.append_assoc, String.append_assoc]
    all_goals exact List.cons_ne_nil _ _

namespace Catalog

open Descriptor Template

variable {c : Catalog}

/-! ### Applications -/

/-- One level of a name, with those of the texts behind it that belong to the level. -/
def levelText (c : Catalog) (args : List String) (level : DefId) : String :=
  bracketedText (stripArity (c.definition level).name) ((c.definition level).ownSlice args)

/-- What stands in front of the levels of a full name. -/
def spaceText (c : Catalog) (id : DefId) : String :=
  match (c.definition (c.outermost id)).nameSpace with
  | some space => "global::" ++ space ++ "."
  | none => "global::"

/-- A definition with the texts of its arguments, level by level. -/
def levelsText (c : Catalog) (style : NameStyle) (id : DefId) (args : List String) : String :=
  match style with
  | .short => c.levelText args id
  | .full => c.spaceText id ++ ".".intercalate ((c.enclosing id).map (c.levelText args))

/-- A definition with the texts of its arguments.  An optional value is its only argument
with a question mark. -/
def applicationText (c : Catalog) (style : NameStyle) (id : DefId) (args : List String) :
    String :=
  match args with
  | [value] => if id = .nullable then value ++ "?" else c.levelsText style id [value]
  | _ => c.levelsText style id args

theorem write_levelTemplate (paramName : DefId → Nat → String) (args : List Template)
    (level : DefId) : (c.levelTemplate args level).write paramName =
      c.levelText (args.map (write paramName)) level := by
  rw [levelTemplate_eq, write_bracketed, levelText, Definition.ownSlice_map]

theorem write_levelsTemplate (paramName : DefId → Nat → String) (style : NameStyle) (id : DefId)
    (args : List Template) : (c.levelsTemplate style id args).write paramName =
      c.levelsText style id (args.map (write paramName)) := by
  cases style with
  | short => exact write_levelTemplate paramName args id
  | full =>
    have hlevels : (separate "." ((c.enclosing id).map (c.levelTemplate args))).write paramName =
        ".".intercalate ((c.enclosing id).map (c.levelText (args.map (write paramName)))) := by
      rw [write_separate, List.map_map]
      refine congrArg _ (List.map_congr_left fun level _ => ?_)
      exact write_levelTemplate paramName args level
    unfold levelsTemplate levelsText spaceText
    cases (c.definition (c.outermost id)).nameSpace with
    | none => rw [write_text, hlevels]
    | some space => rw [write_text, hlevels]

theorem applicationText_nullable (style : NameStyle) (value : String) :
    c.applicationText style .nullable [value] = value ++ "?" := by
  rw [applicationText, if_pos rfl]

theorem applicationText_of_not {style : NameStyle} {id : DefId} {args : List String}
    (h : ¬ (id = .nullable ∧ args.length = 1)) :
    c.applicationText style id args = c.levelsText style id args := by
  unfold applicationText
  split
  · next value => rw [if_neg fun hid => h ⟨hid, rfl⟩]
  · rfl

theorem write_applicationTemplate (paramName : DefId → Nat → String) (style : NameStyle)
    (id : DefId) (args : List Template) : (c.applicationTemplate style id args).write paramName =
      c.applicationText style id (args.map (write paramName)) := by
  by_cases hone : id = .nullable ∧ args.length = 1
  · obtain ⟨rfl, hlen⟩ := hone
    obtain ⟨value, rfl⟩ := List.length_eq_one_iff.1 hlen
    rw [applicationTemplate_nullable, write_append, write_text, write_nil, String.append_empty,
      List.map_singleton, applicationText_nullable]
  · rw [applicationTemplate_of_not hone, write_levelsTemplate,
      applicationText_of_not (by rwa [List.length_map])]

/-! ### Types -/

/-- The source name of a descriptor. -/
def written (c : Catalog) (style : NameStyle) (ty : Descriptor) : String :=
  (c.template style ty).write c.paramName

theorem sourceName_eq_written (ty : Descriptor) : c.sourceName ty = c.written .short ty := rfl

theorem sourceFullName_eq_written (ty : Descriptor) :
    c.sourceFullName ty = c.written .full ty := rfl

@[simp] theorem written_param (style : NameStyle) (owner : DefId) (position : Nat) :
    c.written style (.param owner position) = c.paramName owner position := by
  rw [written, template_param, write_hole, write_nil, String.append_empty]

theorem written_constructed (style : NameStyle) (id : DefId) (args : List Descriptor) :
    c.written style (.constructed id args) =
      c.applicationText style id (args.map (c.written style)) := by
  rw [written, template_constructed, write_applicationTemplate, List.map_map]
  rfl

theorem written_of_builtin (style : NameStyle) {id : DefId} {builtin : Builtin}
    (h : (c.definition id).builtin = some builtin) :
    c.written style (.named id) = builtin.keyword := by
  rw [written, template, h, write_text, write_nil, String.append_empty]

/-- The placeholders of a definition show the names of its parameters. -/
theorem map_written_placeholders (style : NameStyle) (id : DefId) :
    (placeholders id (c.definition id).params.length).map (c.written style) =
      (c.definition id).params := by
  refine List.ext_getElem (by simp) fun i hi hi' => ?_
  rw [List.getElem_map]
  simp [placeholders, paramName, hi']

/-- A generic definition is written with its own parameters, any other one alone. -/
theorem written_named (style : NameStyle) {id : DefId} (h : (c.definition id).builtin = none) :
    c.written style (.named id) = c.applicationText style id (c.definition id).params := by
  rw [written, template_named style h, write_applicationTemplate, List.map_map]
  exact congrArg _ (map_written_placeholders style id)

/-- A type that is not shown by a keyword is written as its definition with its arguments,
which are placeholders if none were given. -/
theorem written_eq_applicationText (style : NameStyle) {ty : Descriptor} {id : DefId}
    (hid : ty.definition? = some id) (hb : c.builtin? ty = none) :
    c.written style ty = c.applicationText style id ((c.arguments ty).map (c.written style)) := by
  cases ty with
  | named other =>
    cases hid
    rw [written_named style hb, arguments, map_written_placeholders]
  | param owner position => cases hid
  | constructed other args =>
    cases hid
    rw [written_constructed, arguments]

end Catalog

end Generics
