import FlatSheet.Main
import FlatSheet.Proofs.Compile.Sound
import FlatSheet.Proofs.Folding.Resolved
import FlatSheet.Proofs.Prelude.Leading
import FlatSheet.Proofs.Reading.Exact
import FlatSheet.Proofs.Typing.Exact
import FlatSheet.Proofs.Typing.Rebinding
import FlatSheet.Proofs.Token.Comment
import FlatSheet.Proofs.Token.Longest
import FlatSheet.Proofs.Token.Munch
import FlatSheet.Proofs.Source.Positions
import FlatSheet.Proofs.Token.Lossless
import FlatSheet.Proofs.Token.Spelling
import FlatSheet.Proofs.Folding.Flat
import FlatSheet.Proofs.Folding.Legible
import FlatSheet.Proofs.Prelude.Legible
import FlatSheet.Proofs.Sheet.Css
import FlatSheet.Proofs.Compile.ReadBack
import FlatSheet.Proofs.Token.Between
import FlatSheet.Proofs.Compile.Filling
import FlatSheet.Proofs.Compile.Concatenation
import FlatSheet.Proofs.Source.Order
import FlatSheet.Proofs.Token.Places
import FlatSheet.Proofs.Reading.Placed
import FlatSheet.Proofs.Typing.Blame
import FlatSheet.Proofs.Compile.Diagnostics
import FlatSheet.Proofs.Compile.Extension
import FlatSheet.Proofs.Folding.Settled
import FlatSheet.Proofs.Session.Reuse
import FlatSheet.Proofs.Reading.Follows
import FlatSheet.Proofs.Reading.Earliest
import FlatSheet.Proofs.Folding.Integers
import FlatSheet.Proofs.Typing.Dynamic
import FlatSheet.Proofs.CommandLine.Effects
import FlatSheet.Proofs.Folding.Stuck
import FlatSheet.Proofs.Typing.Relabelling
import FlatSheet.Proofs.Typing.Annotation
import FlatSheet.Proofs.Scopes.Isolation
import FlatSheet.Proofs.Reading.Literals
import FlatSheet.Proofs.Reading.Printed
import FlatSheet.Proofs.Typing.Cascade
import FlatSheet.Proofs.Scopes.History
import FlatSheet.Proofs.Prelude.Entries
import FlatSheet.Proofs.Prelude.History
import FlatSheet.Proofs.Source.Offsets
import FlatSheet.Proofs.Sheet.Cursor
