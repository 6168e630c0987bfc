import Folio.Proofs.Drawings
import Folio.Proofs.Traversal

/-!
# Names under carets

An unknown name is reported where its call stands in the document, however deep the call lies in
it. Drawn below the source that the document was read from, the carets stand under the name.

1. `unknownName_mem_gathered`: what a layout says of an unknown name.
2. `drawingOn_unknownName`: what is drawn below it.
3. `unknown_name_underlined`: from the layout of a document to the carets.
-/

namespace Folio

open Text

/-! ## From a call to its diagnostic -/

end Folio
