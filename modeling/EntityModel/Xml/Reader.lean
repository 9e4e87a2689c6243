import EntityModel.Xml.Assembly
import EntityModel.Xml.StartTag

/-
**Reading an XML document.**

* `read` — the root element of a document given as bytes, or the first fault in reading order: the
  document is cut into pieces, each piece becomes a token and is assembled before the next, and a
  fault of the cut counts after all the pieces before it.

A byte order mark at the front is skipped. Offsets in faults count from behind it; the places of
start tags are reckoned from the very start of the document with these offsets.
-/

namespace EntityModel.Xml

/-- Why a document cannot be read. -/
inductive ReadFault where
  /-- The bytes from this offset on are no markup. -/
  | markup (offset : Nat) (fault : MarkupFault)
  | tag (fault : TagFault)
  | text (fault : TextFault)
  | assembly (fault : AssemblyFault)
  deriving DecidableEq, Repr

/-- The wording of a fault, without the class of error it belongs to. -/
def ReadFault.message : ReadFault → String
  | .markup offset fault => "XML parse error at byte " ++ toString offset ++ ": " ++ fault.message
  | .tag fault => fault.message
  | .text fault => "Text error: " ++ fault.message
  | .assembly (.unclosed name) => "document ended inside <" ++ name ++ ">"
  | .assembly .nothingOpen => "unbalanced end tag"
  | .assembly .noRoot => "document root"
  | .assembly .secondRoot => "more than one root element"

/-- The bytes behind the byte order mark, if there is one. -/
def withoutMark : List UInt8 → List UInt8
  | 0xEF :: 0xBB :: 0xBF :: rest => rest
  | bytes => bytes

/-- The place of a tag, and the cursor behind it. -/
def spanAt (document : List UInt8) (cursor : Cursor) (start stop : Nat) : Span × Cursor :=
  let atStart := cursor.moveTo document start
  let atStop := atStart.moveTo document stop
  (⟨atStart.position, atStop.position⟩, atStop)

/-- The token that a piece of the document is, and the cursor behind it. Where a tag begins is
counted back from behind it: its content, two brackets, and a slash if it has one. -/
def readPiece (document : List UInt8) (cursor : Cursor) :
    Piece → Except ReadFault (Token × Cursor)
  | .text bytes => do
    let text ← (readText bytes).mapError .text
    .ok (.text text, cursor)
  | .verbatim bytes => .ok (.text (Utf8.decodeLossy bytes), cursor)
  | .startTag content stop => do
    let (span, cursor) := spanAt document cursor (stop - (content.length + 2)) stop
    let head ← (readHead content span).mapError .tag
    .ok (.opening head, cursor)
  | .emptyTag content stop => do
    let (span, cursor) := spanAt document cursor (stop - (content.length + 3)) stop
    let head ← (readHead content span).mapError .tag
    .ok (.empty head, cursor)
  | .endTag => .ok (.closing, cursor)
  | .aside => .ok (.aside, cursor)

/-- The assembly and the cursor after one more piece. -/
def readStep (document : List UInt8) (state : Assembly × Cursor) (piece : Piece) :
    Except ReadFault (Assembly × Cursor) := do
  let (token, cursor) ← readPiece document state.2 piece
  let assembly ← (state.1.step token).mapError .assembly
  .ok (assembly, cursor)

/-- The root element of the document. -/
def read (document : List UInt8) : Except ReadFault Element := do
  let (pieces, fault) := cut (withoutMark document)
  let (assembly, _) ← pieces.foldlM (readStep document) (Assembly.start, Cursor.origin)
  match fault with
  | some (offset, fault) => .error (.markup offset fault)
  | none => assembly.finish.mapError .assembly

end EntityModel.Xml
