import Generics.Catalog.Basic

/-!
# The nesting graph

The definitions of a catalog and which is declared inside which, in the DOT
language.

## Main definitions

* `Catalog.graph` — the text of the graph.
-/

namespace Generics.Catalog

/-- A character of a label.  A line break becomes a line of its own, flush left. -/
def labelChar (c : Char) : List Char :=
  if c = '"' then ['\\', '"']
  else if c = '\\' then ['\\', '\\']
  else if c = '\n' then ['\\', 'l']
  else [c]

/-- The line of a definition: its number, and its signature as the label. -/
def nodeLine (index : Nat) (d : Definition) : String :=
  "    " ++ toString index ++ " [ label = \""
    ++ String.ofList (d.signature.toList.flatMap labelChar) ++ "\" ]\n"

/-- The line of a pair of definitions, the outer one first. -/
def edgeLine (edge : DefId × DefId) : String :=
  "    " ++ toString edge.1.index ++ " -> " ++ toString edge.2.index ++ " [ ]\n"

/-- The graph, with every definition and then every pair. -/
def graph (c : Catalog) : String :=
  "digraph \x7b\n"
    ++ String.join (c.definitions.toList.zipIdx.map fun (d, index) => nodeLine index d)
    ++ String.join (c.nesting.toList.map edgeLine)
    ++ "\x7d\n"

end Generics.Catalog
