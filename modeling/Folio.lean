import Folio.Session.Feedback
import Folio.Session.Logging
import Folio.Session.Settings
import Folio.Session.Spans
import Folio.Session.Tree
import Folio.Failure.Json
import Folio.Proofs.Moves
import Folio.Proofs.Effects
import Folio.Proofs.Traversal
import Folio.Proofs.Course
import Folio.Proofs.Interleaving
import Folio.Proofs.Interruption
import Folio.Proofs.Brackets
import Folio.Proofs.LayoutLog
import Folio.Proofs.Contexts
import Folio.Proofs.DepthLimit
import Folio.Proofs.Relocation
import Folio.Proofs.Covering
import Folio.Proofs.DocumentOrder
import Folio.Proofs.Identity
import Folio.Proofs.Cloning
import Folio.Proofs.LoggerLevels
import Folio.Proofs.Origins
import Folio.Proofs.Counting
import Folio.Proofs.ReadingBack
import Folio.Proofs.WholeOrder
import Folio.Proofs.Locations
import Folio.Proofs.LoaderHistory
import Folio.Proofs.AcceptedSettings
import Folio.Proofs.Underlining
import Folio.Proofs.Independence
import Folio.Proofs.StoredCopies
import Folio.Proofs.OrderEmbedding
import Folio.Proofs.StableOrder
import Folio.Proofs.ValidSpans
import Folio.Proofs.FirstOffence
import Folio.Proofs.Precedence
import Folio.Proofs.LoaderAnswers
import Folio.Proofs.Drawings
import Folio.Proofs.CaretRun
import Folio.Proofs.Colours
import Folio.Proofs.FeedbackBlocks
