import BraceScript.Main
import BraceScript.Tree.Progress
import BraceScript.Proofs.Grammar.Refusals
import BraceScript.Proofs.Run.Immutable
import BraceScript.Proofs.Run.Attribution
import BraceScript.Proofs.Session.Lines
import BraceScript.Proofs.Run.Joined
import BraceScript.Proofs.Grammar.Languages
import BraceScript.Proofs.Grammar.Leftmost
import BraceScript.Proofs.Printing.Printer
import BraceScript.Proofs.Printing.Numerals
import BraceScript.Proofs.Printing.Written
import BraceScript.Proofs.Printing.RoundTrip
import BraceScript.Proofs.Scan.Coverage
import BraceScript.Proofs.Run.Frames
import BraceScript.Proofs.Json.Canonical
import BraceScript.Proofs.Value.Equality
import BraceScript.Proofs.Value.Encoding
import BraceScript.Proofs.Value.Identity
import BraceScript.Proofs.Run.Reserved
import BraceScript.Proofs.Run.Connected
import BraceScript.Proofs.Environment.Changes
import BraceScript.Proofs.Run.Returns
import BraceScript.Proofs.Run.Includes
import BraceScript.Proofs.Grammar.Slices
import BraceScript.Proofs.Run.Crossings
import BraceScript.Proofs.Scan.Fillings
import BraceScript.Proofs.Run.Arrays
import BraceScript.Proofs.Run.Limits
import BraceScript.Proofs.Run.Targets
import BraceScript.Proofs.Run.Children
import BraceScript.Proofs.Session.Inputs
import BraceScript.Proofs.Scan.Munches
import BraceScript.Proofs.Diagnostic.Offsets
import BraceScript.Proofs.Diagnostic.Carets
import BraceScript.Proofs.Files.Normal
import BraceScript.Proofs.Printing.Shown
import BraceScript.Proofs.Text.Words
