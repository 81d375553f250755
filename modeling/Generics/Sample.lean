import Generics.Catalog.Load

/-!
# A sample catalog

A small catalog with every kind of type: generic types, bases that pass their
parameters on, fix some or repeat one, types nested several levels deep, and
nested types of every visibility.

## Main definitions

* `Sample.document` — the catalog as a document.
-/

namespace Generics.Sample

/-- A list of texts. -/
private def texts (items : List String) : Json :=
  .array (items.map .string)

/-- An entry with a name and parameters alone. -/
private def plain (name : String) (params : List String) : Json :=
  .ofFields ([("namespace", .string "N"), ("name", .string name)]
    ++ if params.isEmpty then [] else [("params", texts params)])

/-- An entry with a base. -/
private def derived (name : String) (params : List String) (base : String) : Json :=
  .ofFields ([("namespace", .string "N"), ("name", .string name), ("base", .string base)]
    ++ if params.isEmpty then [] else [("params", texts params)])

/-- An entry inside another one. -/
private def inner (name : String) (params : List String) (nested : List Json) : Json :=
  .ofFields ([("name", .string name)]
    ++ (if params.isEmpty then [] else [("params", texts params)])
    ++ if nested.isEmpty then [] else [("nested", .array nested)])

/-- An entry inside another one, with its visibility. -/
private def visible (name visibility : String) : Json :=
  .ofFields [("name", .string name), ("visibility", .string visibility)]

/-- A generic type around types nested up to five levels deep. -/
private def parent : Json :=
  .ofFields
    [("namespace", .string "N"), ("name", .string "Parent"), ("params", texts ["T"]),
     ("nested", .array
       [inner "Nested" [] [],
        inner "Nested" ["U"] [],
        inner "Nested" ["T1", "T2"]
          [inner "Nested2" []
            [inner "Nested3" []
              [inner "Nested4" ["T3"]
                [inner "Nested5" [] []]]]]])]

/-- A type around one nested type of every visibility. -/
private def container : Json :=
  .ofFields
    [("namespace", .string "N"), ("name", .string "Container"),
     ("nested", .array
       [visible "Nested1" "public",
        visible "Nested2" "internal",
        visible "Nested3" "private",
        visible "Nested4" "protected",
        visible "Nested5" "protected internal"])]

/-- The catalog as a document. -/
def document : Json :=
  .ofFields
    [("types", .array
      [plain "Seq" ["T"],
       plain "Base1" [],
       plain "Base2" ["T"],
       plain "Base3" ["T", "U"],
       derived "Sub1" [] "N.Base1",
       derived "Sub2" ["T"] "N.Base2`1[T]",
       derived "Sub3" [] "N.Base2`1[System.Int32]",
       derived "Sub4" ["T"] "N.Base3`2[T,System.Int32]",
       derived "Sub5" ["T"] "N.Base3`2[System.Int32,T]",
       parent,
       derived "Sub" ["T"] "N.Parent`1+Nested`2[T,T,System.Boolean]",
       container])]

end Generics.Sample
