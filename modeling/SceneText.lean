import SceneText.Format.Document
import SceneText.Format.Printing
import SceneText.Proofs.Number.Bits
import SceneText.Proofs.Number.Decimal
import SceneText.Proofs.Number.Numeral
import SceneText.Proofs.Text.Runs
import SceneText.Proofs.Text.Lines
import SceneText.Proofs.Text.Seams
import SceneText.Proofs.Text.LineFeeds
import SceneText.Proofs.Text.Words
import SceneText.Proofs.Grammar.Match
import SceneText.Proofs.Grammar.Tokens
import SceneText.Proofs.Grammar.LineEnds
import SceneText.Proofs.Grammar.Notes
import SceneText.Proofs.Grammar.Laws
import SceneText.Proofs.Grammar.Firm
import SceneText.Proofs.Format.Alike
import SceneText.Proofs.Format.Place
import SceneText.Proofs.Format.Reads
import SceneText.Proofs.Format.Language
import SceneText.Proofs.Format.TokenLines
import SceneText.Proofs.Format.Blocks
import SceneText.Proofs.Format.ShapeLines
import SceneText.Proofs.Format.DocumentLines
import SceneText.Proofs.Format.Part
import SceneText.Proofs.Format.Tree
import SceneText.Proofs.Format.Canonical
import SceneText.Proofs.Format.Writes
import SceneText.Proofs.Format.RoundTrip
import SceneText.Proofs.Format.Relaid
import SceneText.Proofs.Format.Layout
import SceneText.Proofs.Format.Joined
import SceneText.Proofs.Format.Nested
import SceneText.Proofs.Format.Offenders
import SceneText.Proofs.Format.FirstOffender
import SceneText.Proofs.Format.LineFeeds
import SceneText.Proofs.Format.Items
import SceneText.Proofs.Format.ItemNotes
import SceneText.Proofs.Format.Stuck
import SceneText.Proofs.Format.Completion
import SceneText.Proofs.Format.Separators
import SceneText.Proofs.Format.EmptyLines
import SceneText.Proofs.Format.Marks
import SceneText.Proofs.Format.Operands
import SceneText.Proofs.Format.BadNumbers
import SceneText.Proofs.Format.InRange
import SceneText.Proofs.Plane.Placements
import SceneText.Proofs.Format.Labels
import SceneText.Proofs.Grammar.Fork
import SceneText.Proofs.Format.Locality
import SceneText.Proofs.Format.Defects
import SceneText.Proofs.Format.Endings
import SceneText.Proofs.Format.Trailing
import SceneText.Proofs.Format.Spacing
import SceneText.Proofs.Format.Printing
import SceneText.Proofs.Format.Mended
