import FlatSchema.Main
import FlatSchema.Source.Cursor
import FlatSchema.Proofs.Resolution.Run
import FlatSchema.Proofs.Numbering
import FlatSchema.Proofs.Resolution.Later
import FlatSchema.Proofs.Resolution.Steps
import FlatSchema.Proofs.Resolution.Replay
import FlatSchema.Proofs.Registration
import FlatSchema.Proofs.Resolution.WellFormed
import FlatSchema.Proofs.Resolution.Resolves
import FlatSchema.Proofs.Resolution.Sound
import FlatSchema.Proofs.Resolution.Outcome
import FlatSchema.Proofs.Resolution.Reordering
import FlatSchema.Proofs.Resolution.Levels
import FlatSchema.Proofs.Resolution.Placement
import FlatSchema.Proofs.Resolution.Extent
import FlatSchema.Proofs.Lookahead
import FlatSchema.Proofs.Resolution.References
import FlatSchema.Proofs.Consistency
import FlatSchema.Proofs.Grammar.Document
import FlatSchema.Proofs.Grammar.Reading
import FlatSchema.Proofs.Grammar.Sentences
import FlatSchema.Proofs.Grammar.Places
import FlatSchema.Proofs.Grammar.Declaring
import FlatSchema.Proofs.Grammar.Accepted
import FlatSchema.Proofs.Includes.Texts
import FlatSchema.Proofs.Includes.Visits
import FlatSchema.Proofs.Includes.Traversal
import FlatSchema.Proofs.Pieces
import FlatSchema.Proofs.Script.Members
import FlatSchema.Proofs.Script.Objects
import FlatSchema.Proofs.Script.Presents
import FlatSchema.Proofs.Lookup
import FlatSchema.Proofs.Script.Paths
import FlatSchema.Proofs.Script.Classes
import FlatSchema.Proofs.Script.Getters
import FlatSchema.Proofs.Script.Defaults
import FlatSchema.Proofs.Script.Literals
import FlatSchema.Proofs.Source.Numerals
import FlatSchema.Proofs.Source.Lexemes
import FlatSchema.Proofs.Source.Layout
import FlatSchema.Proofs.Grammar.Spacing
import FlatSchema.Proofs.Paths.Components
import FlatSchema.Proofs.Paths.Normal
import FlatSchema.Proofs.Includes.Spellings
import FlatSchema.Proofs.Includes.Keys
import FlatSchema.Proofs.Resolution.Extent
import FlatSchema.Proofs.Grammar.Faults
import FlatSchema.Proofs.Source.Rules
import FlatSchema.Proofs.Script.Unbroken
import FlatSchema.Proofs.Script.Namespaces
import FlatSchema.Proofs.Grammar.Additions
import FlatSchema.Proofs.Paths.Places
import FlatSchema.Proofs.Anchors
import FlatSchema.Proofs.Resolution.Aliases
import FlatSchema.Proofs.Source.Integers
import FlatSchema.Proofs.Paths.Canonical
import FlatSchema.Proofs.Resolution.Versions
import FlatSchema.Proofs.Grammar.Progress
