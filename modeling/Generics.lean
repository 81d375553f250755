import Generics.Main
import Generics.Reflected
import Generics.Sample
import Generics.Proofs.Parts
import Generics.Proofs.Slots
import Generics.Proofs.Growth
import Generics.Proofs.Runs
import Generics.Proofs.Filling
import Generics.Proofs.Levels
import Generics.Proofs.Rendering
import Generics.Proofs.Loading
import Generics.Proofs.Bases
import Generics.Proofs.Grammar
import Generics.Proofs.Index
import Generics.Proofs.Requests
import Generics.Proofs.Applying
import Generics.Proofs.Findable
import Generics.Proofs.Resolving
import Generics.Proofs.Wording
import Generics.Proofs.Known
import Generics.Proofs.Renumbering
import Generics.Proofs.ClosedBases
import Generics.Proofs.Extension
import Generics.Proofs.Plans
import Generics.Proofs.WrittenBases
import Generics.Proofs.Rearranging
import Generics.Proofs.TellingApart
import Generics.Proofs.SourceTypes
import Generics.Proofs.Identity
import Generics.Proofs.Cursors
import Generics.Proofs.AcceptedBases
import Generics.Proofs.Instantiating
import Generics.Proofs.CommandRuns
import Generics.Proofs.LongestPrefix
import Generics.Proofs.ScopedNames
import Generics.Proofs.Entries
import Generics.Proofs.Places
import Generics.Proofs.Described
import Generics.Proofs.Conforming
import Generics.Proofs.TakingApart
import Generics.Proofs.ReadablePaths
import Generics.Proofs.SharedNames
import Generics.Proofs.HiddenParameters
import Generics.Proofs.OwnArguments
import Generics.Proofs.Expansion
import Generics.Proofs.DescriptorTexts
