import Generics.Catalog.Graph
import Generics.CommandLine.Run

/-!
# The program

Reads the catalog, runs the options and prints the outcome.  When the variable
`DEBUG_CATALOG_GRAPH` names a file, the nesting graph of the catalog is written
there.
-/

namespace Generics.CommandLine

/-- The catalog that is read when no other is named. -/
def defaultCatalog : String := "tests/catalog-sample.json"

/-- What is printed when the arguments make no sense. -/
def usage : String :=
  "usage: generics [--catalog FILE] [--base] [--unapply] [--partial TYPE...] "
    ++ "[--apply TYPE...] [--nested] TYPE"

/-- The catalog in a file. -/
def readCatalog (file : String) : IO (Except LoadError Catalog) := do
  try
    let bytes ← IO.FS.readBinFile file
    match String.fromUTF8? bytes with
    | some text => return Catalog.ofText text
    | none => return .error .malformedJson
  catch
    | .noFileOrDirectory .. => return .error .missingFile
    | e => throw e

/-- Writes the nesting graph where the environment asks for it. -/
def writeGraph (c : Catalog) : IO Unit := do
  match ← IO.getEnv "DEBUG_CATALOG_GRAPH" with
  | some file => IO.FS.writeFile file c.graph
  | none => return

end Generics.CommandLine

open Generics.CommandLine

/-- The program. -/
def main (args : List String) : IO UInt32 := do
  match Options.ofArgs? args with
  | none =>
    IO.eprintln usage
    return 2
  | some options =>
    let loaded ← readCatalog (options.catalog.getD defaultCatalog)
    if let .ok c := loaded then
      writeGraph c
    let outcome := options.run loaded
    IO.print outcome.stdout
    IO.eprint outcome.stderr
    return UInt32.ofNat outcome.code
