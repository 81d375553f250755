import Generics.Name.Basic
import Generics.Proofs.Findable

/-!
# Qualified names resolve back

The qualified name of a type is written in the grammar of type names, and resolving it
looks up the paths that were written.  So it gives the type again, if the definitions in
the type can be found at all; and a type that was itself obtained by names is made of
such definitions.

## Main results

* `isSome_qualifiedName?` — which types have a qualified name.
* `Written.application_of_names` — the names of some arguments, put in brackets.
* `resolve_qualifiedName?` — a qualified name resolves to the type that it was written
  for.
* `NamedRun.resolve_fullName` — so it is with every type viewed in a run.
-/

namespace Generics

open Catalog

/-! ### Writing an application -/

namespace TypeName

/-- The further arguments are written one behind the other, each with a comma in front. -/
theorem Written.further_of_forall₂ {ts : List TypeName} {ws : List (List Char)}
    (h : List.Forall₂ (fun t w => Written (.argument t) w) ts ws) :
    Written (.further ts) (ws.flatMap ([','] ++ ·)) := by
  induction h with
  | nil => exact .done
  | cons hfirst _ ih => exact .next isGap_nil hfirst ih

/-- A name in brackets is an argument. -/
theorem Written.argument_of_name {t : TypeName} {name : String}
    (h : Written (.name t) name.toList) :
    Written (.argument t) ("[" ++ name ++ "]").toList := by
  have hbracketed : Written (.argument t) ('[' :: (name.toList ++ [] ++ [']'])) :=
    .bracketed h (Or.inl rfl)
  rw [String.toList_append, String.toList_append]
  simpa using hbracketed

/-- A path with the names of some arguments behind it, each of them in brackets, is written
as a name. -/
theorem Written.application_of_names {path : String} (hpath : IsPath path.toList)
    {ts : List TypeName} {names : List String} (hne : names ≠ [])
    (h : List.Forall₂ (fun t name => Written (.name t) name.toList) ts names) :
    Written (.name (.node path ts))
      (path ++ "[" ++ ",".intercalate (names.map fun name => "[" ++ name ++ "]") ++ "]").toList := by
  cases h with
  | nil => exact absurd rfl hne
  | @cons t name ts names hfirst hothers =>
    have hall : List.Forall₂ (fun t w => Written (.argument t) w) ts
        (names.map fun name => ("[" ++ name ++ "]").toList) :=
      List.forall₂_map_right_iff.2 (hothers.imp fun _ _ hwritten => hwritten.argument_of_name)
    have hname := Written.application hpath
      (.list hfirst.argument_of_name (further_of_forall₂ hall))
    rw [String.ofList_toList] at hname
    -- the text between the outer brackets is the first argument and the further ones
    have htext : (path ++ "[" ++ ",".intercalate ((name :: names).map fun name =>
        "[" ++ name ++ "]") ++ "]").toList = path.toList ++ '[' :: (("[" ++ name ++ "]").toList ++
          (names.map fun name => ("[" ++ name ++ "]").toList).flatMap ([','] ++ ·) ++ [']']) := by
      simp only [String.toList_append, String.toList_intercalate, List.map_cons,
        List.intercalate_cons_eq_append, List.map_map]
      simp [Function.comp_def]
    rw [htext]
    exact hname

end TypeName

namespace Catalog

open Descriptor Generics.TypeName

variable {c : Catalog}

/-! ### Which types have a qualified name -/

theorem qualifiedName?_constructed {id : DefId} {args : List Descriptor}
    (h : c.hasFree (.constructed id args) = false) :
    c.qualifiedName? (.constructed id args) = (args.mapM c.qualifiedName?).map fun names =>
      c.path id ++ "[" ++ ",".intercalate (names.map fun name => "[" ++ name ++ "]") ++ "]" := by
  have hargs : c.anyFree args = false := by rwa [hasFree] at h
  rw [qualifiedName?, hargs, qualifiedNames?_eq_mapM]
  rfl

/-- A type has a qualified name if it has no free parameters or is a generic definition,
and no other type has. -/
theorem isSome_qualifiedName? (ty : Descriptor) : (c.qualifiedName? ty).isSome = true ↔
    c.hasFree ty = false ∨ c.isGenericDefinition ty = true := by
  induction ty with
  | named id =>
    rw [qualifiedName?, hasFree_named, isGenericDefinition]
    cases (c.definition id).isGeneric <;> simp
  | param owner position => simp [qualifiedName?, isGenericDefinition]
  | constructed id args ih =>
    cases hfree : c.hasFree (.constructed id args) with
    | true =>
      have hargs : c.anyFree args = true := by rwa [hasFree] at hfree
      simp [qualifiedName?, hargs, isGenericDefinition]
    | false =>
      have hclosed := hasFree_constructed_eq_false_iff.1 hfree
      rw [qualifiedName?_constructed hfree]
      -- the arguments are closed, so each of them has a name
      have hall : ∀ a ∈ args, ∃ name, c.qualifiedName? a = some name := fun a ha =>
        Option.isSome_iff_exists.1 ((ih a ha).2 (Or.inl (hclosed a ha)))
      obtain ⟨names, hnames⟩ := Option.exists_mapM_eq_some hall
      simp [hnames]

/-! ### Resolving a qualified name -/

/-- The name is written for a type name that resolves to the type. -/
def NameOf (c : Catalog) (ty : Descriptor) (text : String) (t : TypeName) : Prop :=
  Written (.name t) text.toList ∧ c.resolveIn none t = .ok ty

/-- The names of some types are written for type names that resolve to these types. -/
theorem exists_nameOf_of_forall₂ {args : List Descriptor} {names : List String}
    (h : List.Forall₂ (fun a name => c.qualifiedName? a = some name) args names)
    (step : ∀ a ∈ args, ∀ text, c.qualifiedName? a = some text → ∃ t, c.NameOf a text t) :
    ∃ ts, List.Forall₂ (fun t name => Written (.name t) name.toList) ts names ∧
      List.Forall₂ (fun t a => c.resolveIn none t = .ok a) ts args := by
  induction h with
  | nil => exact ⟨[], .nil, .nil⟩
  | cons hfirst _ ih =>
    obtain ⟨stepa, steps⟩ := List.forall_mem_cons.1 step
    obtain ⟨t, hwritten, hresolve⟩ := stepa _ hfirst
    obtain ⟨ts, hall, hresolves⟩ := ih steps
    exact ⟨t :: ts, .cons hwritten hall, .cons hresolve hresolves⟩

/-- The qualified name of a type is written for a type name that resolves to the type. -/
theorem Indexed.exists_nameOf (h : c.Indexed) {ty : Descriptor} (hfits : c.ArityCorrect ty)
    (hfound : c.AllFindable ty) {text : String} (htext : c.qualifiedName? ty = some text) :
    ∃ t, c.NameOf ty text t := by
  induction ty generalizing text with
  | named id =>
    obtain ⟨hdeclared, hpath⟩ := allFindable_named.1 hfound
    rw [qualifiedName?] at htext
    cases htext
    have hwritten : Written (.name (.node (c.path id) [])) (c.path id).toList := by
      have := Written.path hpath
      rwa [String.ofList_toList] at this
    refine ⟨.node (c.path id) [], hwritten, ?_⟩
    rw [resolveIn_leaf]
    exact resolvePath_eq_ok_iff.2 ⟨id, h.lookup?_path hdeclared, rfl⟩
  | param owner position =>
    rw [qualifiedName?] at htext
    cases htext
  | constructed id args ih =>
    obtain ⟨⟨hg, hl⟩, hargs⟩ := throughout_constructed.1 hfits
    obtain ⟨⟨hdeclared, hpath⟩, hfounds⟩ := allFindable_constructed.1 hfound
    have hfree : c.hasFree (.constructed id args) = false := by
      have hsome := (isSome_qualifiedName? (c := c) (.constructed id args)).1 (by rw [htext]; rfl)
      exact hsome.resolve_right (by simp [isGenericDefinition])
    rw [qualifiedName?_constructed hfree] at htext
    obtain ⟨names, hnames, rfl⟩ := Option.map_eq_some_iff.1 htext
    obtain ⟨ts, hall, hresolves⟩ := exists_nameOf_of_forall₂ (Option.mapM_eq_some_iff.1 hnames)
      fun a ha text htext => ih a ha (hargs a ha) (hfounds a ha) htext
    -- a generic definition has parameters, so there are arguments in brackets
    have hlength : ts.length = (c.definition id).params.length := hresolves.length_eq.trans hl
    have hne : ts ≠ [] := Definition.ne_nil_of_isGeneric hg hlength
    have hnames : names ≠ [] :=
      Definition.ne_nil_of_isGeneric hg (hall.length_eq.symm.trans hlength)
    refine ⟨.node (c.path id) ts, .application_of_names hpath hnames hall, ?_⟩
    have hclosed := hasFree_constructed_eq_false_iff.1 hfree
    have hpath : c.resolvePath (c.path id) = .ok (.named id) :=
      resolvePath_eq_ok_iff.2 ⟨id, h.lookup?_path hdeclared, rfl⟩
    have hmake : c.makeGeneric (.named id) args = .ok (.constructed id args) :=
      makeGeneric_eq_ok_iff.2 ⟨id, rfl, hg, hl, generic_of_closed hclosed⟩
    rw [resolveIn_application _ _ _ hne, hpath, Except.mapM_eq_ok_iff.2 hresolves]
    exact hmake

/-- A qualified name resolves to the type that it was written for. -/
theorem Indexed.resolve_qualifiedName? (h : c.Indexed) {ty : Descriptor}
    (hfits : c.ArityCorrect ty) (hfound : c.AllFindable ty) {text : String}
    (htext : c.qualifiedName? ty = some text) : c.resolve text = .ok ty := by
  obtain ⟨t, hwritten, hresolve⟩ := h.exists_nameOf hfits hfound htext
  have hderives : Derives text t :=
    ⟨[], text.toList, [], [], by simp, isGap_nil, hwritten, Or.inl rfl, isGap_nil⟩
  have hread : TypeName.read text = .ok t := read_eq_ok_of_derives hderives
  unfold resolve
  rw [hread]
  exact hresolve

end Catalog

/-! ### Runs -/

namespace View

variable {c : Catalog} {made : List View}

/-- In a run over a loaded catalog that begins with names, a type has a full name exactly
if it has no free parameters or is a generic definition, and its full name resolves to
the type itself. -/
theorem NamedRun.resolve_fullName {document : Json} (loaded : ofJson document = .ok c)
    (run : NamedRun c made) : ∀ v ∈ made,
      ((c.name v.raw).fullName.isSome = true ↔
        c.hasFree v.raw = false ∨ c.isGenericDefinition v.raw = true) ∧
      ∀ text, (c.name v.raw).fullName = some text → c.resolve text = .ok v.raw := by
  intro v hv
  have hindexed : c.Indexed := (reachable_ofJson loaded).indexed
  have hfits : c.ArityCorrect v.raw := (run.run.wellFormed loaded v hv).fits
  refine ⟨isSome_qualifiedName? v.raw, fun text htext => ?_⟩
  exact hindexed.resolve_qualifiedName? hfits (run.allFindable loaded v hv) htext

/-- ``Twin`1`` has the base ``Pair`2[T,T]``, which has no full name before the parameter
is replaced.  The full name of the base of a closed twin resolves to this base. -/
theorem NamedRun.resolve_fullName_twin :
    let document : Json := .object [("types", .array
      [.object [("name", .string "Pair"), ("params", .array [.string "K", .string "V"])],
       .object [("base", .string "Pair`2[T,T]"), ("name", .string "Twin"),
         ("params", .array [.string "T"])]])]
    let number : Descriptor := .named Builtin.int32.id
    let openBase : Descriptor := .constructed ⟨17⟩ [.param ⟨18⟩ 0, .param ⟨18⟩ 0]
    let twin : Descriptor := .constructed ⟨18⟩ [number]
    let pair : Descriptor := .constructed ⟨17⟩ [number, number]
    let made := [ofSketch ⟨.named ⟨18⟩⟩, ofSketch ⟨openBase⟩, ofSketch (Sketch.of Int32),
      ofClosed ⟨number⟩, ofClosed ⟨twin⟩, ofClosed ⟨pair⟩]
    ∃ c, ofJson document = .ok c ∧ NamedRun c made ∧
      made.map (fun v => (c.name v.raw).fullName) = [some "Twin`1", none, some "System.Int32",
        some "System.Int32", some "Twin`1[[System.Int32]]",
        some "Pair`2[[System.Int32],[System.Int32]]"] ∧
      ∀ v ∈ made, ((c.name v.raw).fullName.isSome = true ↔
          c.hasFree v.raw = false ∨ c.isGenericDefinition v.raw = true) ∧
        ∀ text, (c.name v.raw).fullName = some text → c.resolve text = .ok v.raw := by
  intro document number openBase twin pair made
  obtain ⟨c, hc, hnamed, hopen, hclose, happly, hbase, hnames⟩ :=
    exists_ofJson_eq_ok document (P := fun c =>
      c.sketch? "Twin`1" = some ⟨.named ⟨18⟩⟩ ∧
      (ofSketch ⟨.named ⟨18⟩⟩).base c = some (ofSketch ⟨openBase⟩) ∧
      ((ofSketch (Sketch.of Int32)).apply c []).toOption = some ⟨number⟩ ∧
      ((ofSketch ⟨.named ⟨18⟩⟩).apply c [⟨number⟩]).toOption = some ⟨twin⟩ ∧
      (ofClosed ⟨twin⟩).base c = some (ofClosed ⟨pair⟩) ∧
      made.map (fun v => (c.name v.raw).fullName) = [some "Twin`1", none, some "System.Int32",
        some "System.Int32", some "Twin`1[[System.Int32]]",
        some "Pair`2[[System.Int32],[System.Int32]]"]) (by decide +kernel)
  have run : NamedRun c made := by
    refine .step (.step (.step (.step (.step (.step .start ?_) ?_) ?_) ?_) ?_) ?_
    · exact .named (Except.toOption_eq_some.1 hnamed)
    · exact .base (.head _) hopen
    · exact .reflected Int32
    · exact .apply (.tail _ (.tail _ (.head _))) (fun a ha => absurd ha List.not_mem_nil)
        (Except.toOption_eq_some.1 hclose)
    · refine .apply (.head _) ?_ (Except.toOption_eq_some.1 happly)
      intro a ha
      rw [List.mem_singleton.1 ha]
      exact .tail _ (.tail _ (.tail _ (.head _)))
    · exact .base (.tail _ (.tail _ (.tail _ (.tail _ (.head _))))) hbase
  exact ⟨c, hc, run, hnames, run.resolve_fullName hc⟩

end View

end Generics
