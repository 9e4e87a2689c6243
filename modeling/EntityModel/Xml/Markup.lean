import EntityModel.Text.Pieces
import EntityModel.Text.Trim
import EntityModel.Text.Utf8

/-
**The pieces of an XML document.**

A document is cut into runs of text and markup before anything in it is understood.

* `Piece` — what the cut yields: text, verbatim text, tags, and asides (comments, instructions,
  document type declarations) that mean nothing here.
* `enclosed` — the bytes between an opening angle bracket and the closing one that belongs to it.
  Which one that is depends on what begins: quotes hide a bracket inside a tag, a comment ends at
  `-->`, a document type at the bracket that balances its own.
* `next?` — the next piece, or the fault that stops the cut. End tags are matched here: the names of
  the open elements are part of the state.
* `cut` — all pieces up to the end or the first fault; `next?_shorter` is why it ends.
-/

namespace EntityModel.Xml

open EntityModel.Text

/-- The bytes of an ASCII text. -/
def ascii (text : String) : List UInt8 :=
  text.toList.map fun c => c.toNat.toUInt8

/-- The blanks of the format: space, tab, carriage return, line feed. -/
def isSpace (byte : UInt8) : Bool :=
  byte == 0x20 || byte == 0x09 || byte == 0x0D || byte == 0x0A

/-- What stops the cut of a document into pieces. -/
inductive MarkupFault where
  /-- An exclamation mark that begins no known markup. -/
  | unknownDeclaration
  | unclosedInstruction
  | unclosedComment
  | unclosedDoctype
  | unclosedVerbatim
  | unclosedTag
  /-- An end tag for another element than the innermost open one. -/
  | mismatchedEnd (expected found : String)
  /-- An end tag where no element is open. -/
  | unmatchedEnd (name : String)
  | namelessDoctype
  deriving DecidableEq, Repr

/-- The wording of a fault. -/
def MarkupFault.message : MarkupFault → String
  | .unknownDeclaration => "syntax error: unknown or missed symbol in markup"
  | .unclosedInstruction =>
    "syntax error: processing instruction or xml declaration not closed: `?>` not found before " ++
      "end of input"
  | .unclosedComment => "syntax error: comment not closed: `-->` not found before end of input"
  | .unclosedDoctype => "syntax error: DOCTYPE not closed: `>` not found before end of input"
  | .unclosedVerbatim => "syntax error: CDATA not closed: `]]>` not found before end of input"
  | .unclosedTag => "syntax error: tag not closed: `>` not found before end of input"
  | .mismatchedEnd expected found =>
    "ill-formed document: expected `</" ++ expected ++ ">`, but `</" ++ found ++ ">` was found"
  | .unmatchedEnd name =>
    "ill-formed document: close tag `</" ++ name ++ ">` does not match any open tag"
  | .namelessDoctype =>
    "ill-formed document: `<!DOCTYPE>` declaration does not contain a name of a document type"

/-- A piece of a document. -/
inductive Piece where
  /-- A run of text without the blanks around it. -/
  | text (bytes : List UInt8)
  /-- A section whose text stands for itself. -/
  | verbatim (bytes : List UInt8)
  /-- A start tag with the offset behind its `>`. -/
  | startTag (content : List UInt8) (stop : Nat)
  /-- The tag of an element without content; the slash is not part of `content`. -/
  | emptyTag (content : List UInt8) (stop : Nat)
  | endTag
  /-- Comments, instructions, declarations. -/
  | aside
  deriving DecidableEq, Repr

/-! ### Markup and its closing bracket -/

/-- Two sides with one more byte in front of the first. -/
def keep (byte : UInt8) (sides : Option (List UInt8 × List UInt8)) :
    Option (List UInt8 × List UInt8) :=
  sides.map fun sides => (byte :: sides.1, sides.2)

/-- The bytes up to the first `>` outside quotes, and those after it; `quote` is open before. -/
def closeTag : Option UInt8 → List UInt8 → Option (List UInt8 × List UInt8)
  | _, [] => none
  | some mark, byte :: rest => keep byte (closeTag (if byte = mark then none else some mark) rest)
  | none, byte :: rest =>
    if byte = 0x3E then some ([], rest)
    else keep byte (closeTag (if byte = 0x22 ∨ byte = 0x27 then some byte else none) rest)

/-- The bytes up to the `>` that balances so many brackets opened before, and those after it. -/
def closeDoctype : Nat → List UInt8 → Option (List UInt8 × List UInt8)
  | _, [] => none
  | 0, byte :: rest =>
    if byte = 0x3E then some ([], rest)
    else keep byte (closeDoctype (if byte = 0x3C then 1 else 0) rest)
  | depth + 1, byte :: rest =>
    keep byte (closeDoctype
      (if byte = 0x3E then depth else if byte = 0x3C then depth + 2 else depth + 1) rest)

/-- The bytes up to the `>` that ends the first `mark` after `skipped` bytes, and those after it. -/
def closeAtMark (skipped : Nat) (mark : List UInt8) (bytes : List UInt8) :
    Option (List UInt8 × List UInt8) :=
  (cutStretch? mark (bytes.drop skipped)).map fun sides =>
    (bytes.take skipped ++ sides.1 ++ mark.dropLast, sides.2)

/-- The kinds of markup. -/
inductive Form where
  | verbatim
  | comment
  | doctype
  | instruction
  | tag
  deriving DecidableEq, Repr

/-- The kind of the markup that begins with these bytes. -/
def form : List UInt8 → Except MarkupFault Form
  | [] => .error .unclosedTag
  | 0x21 :: rest =>
    match rest.head? with
    | some 0x5B => .ok .verbatim
    | some 0x2D => .ok .comment
    | some 0x44 | some 0x64 => .ok .doctype
    | _ => .error .unknownDeclaration
  | 0x3F :: _ => .ok .instruction
  | _ => .ok .tag

/-- The fault of markup that is not closed. -/
def Form.unclosed : Form → MarkupFault
  | .verbatim => .unclosedVerbatim
  | .comment => .unclosedComment
  | .doctype => .unclosedDoctype
  | .instruction => .unclosedInstruction
  | .tag => .unclosedTag

/-- The bytes inside markup of the kind, and those after its closing bracket. A comment has room for
its two opening dashes before the closing ones; an instruction may close with its own mark. -/
def Form.close (bytes : List UInt8) : Form → Option (List UInt8 × List UInt8)
  | .verbatim => closeAtMark 0 (ascii "]]>") bytes
  | .comment => closeAtMark 3 (ascii "-->") bytes
  | .doctype => closeDoctype 0 bytes
  | .instruction => closeAtMark 0 (ascii "?>") bytes
  | .tag => closeTag none bytes

/-- The kind of the markup after an opening bracket, the bytes inside it, and those after it. -/
def enclosed (bytes : List UInt8) : Except MarkupFault (Form × List UInt8 × List UInt8) := do
  let form ← form bytes
  match form.close bytes with
  | some sides => .ok (form, sides)
  | none => .error form.unclosed

/-! ### One piece -/

/-- How far the cut has come: the offset, the names of the open elements, the innermost first, and
the bytes still to read. -/
structure Lexer where
  offset : Nat
  openNames : List (List UInt8)
  rest : List UInt8

/-- The name at the front of a tag: the bytes before the first blank. -/
def tagName (content : List UInt8) : List UInt8 :=
  content.takeWhile fun byte => !isSpace byte

/-- The name in an end tag, from what stands after the slash: blanks after it are left out, and a name
of blanks alone stays as it is. -/
def endTagName (content : List UInt8) : List UInt8 :=
  if content.all isSpace then content else dropTrailing isSpace content

/-- A name for a message: empty when it is not UTF-8. -/
def shownName (name : List UInt8) : String :=
  match Utf8.decode name with
  | .ok text => text
  | .error _ => ""

/-- The piece that a tag is which ends at `stop`, and the elements open after it. -/
def tagPiece (openNames : List (List UInt8)) (inside : List UInt8) (stop : Nat) :
    Except MarkupFault (Piece × List (List UInt8)) :=
  if inside.head? = some 0x2F then
    let name := endTagName inside.tail
    match openNames with
    | [] => .error (.unmatchedEnd (shownName name))
    | innermost :: outer =>
      if innermost = name then .ok (.endTag, outer)
      else .error (.mismatchedEnd (shownName innermost) (shownName name))
  else if inside.getLast? = some 0x2F then
    .ok (.emptyTag inside.dropLast stop, openNames)
  else .ok (.startTag inside stop, tagName inside :: openNames)

/-- Whether the bytes begin with the text, whatever the case of its letters. -/
def beginsAnyCase (text : String) (bytes : List UInt8) : Bool :=
  let upper := fun byte : UInt8 => if 0x61 ≤ byte && byte ≤ 0x7A then byte - 0x20 else byte
  (bytes.take text.length).map upper == ascii text

/-- The piece that markup from `start` to `stop` is, and the elements open after it; or its fault
with the offset it is reported at. -/
def markupPiece (openNames : List (List UInt8)) (form : Form) (inside : List UInt8)
    (start stop : Nat) : Except (Nat × MarkupFault) (Piece × List (List UInt8)) :=
  match form with
  | .verbatim =>
    if (ascii "![CDATA[").isPrefixOf inside then
      .ok (.verbatim ((inside.drop 8).dropLast.dropLast), openNames)
    else .error (start, form.unclosed)
  | .comment =>
    if (ascii "!--").isPrefixOf inside then .ok (.aside, openNames)
    else .error (start, form.unclosed)
  | .doctype =>
    if !beginsAnyCase "!DOCTYPE" inside then .error (start, form.unclosed)
    else if (inside.drop 8).all isSpace then .error (stop - 1, .namelessDoctype)
    else .ok (.aside, openNames)
  | .instruction =>
    if 2 ≤ inside.length then .ok (.aside, openNames) else .error (start, form.unclosed)
  | .tag => (tagPiece openNames inside stop).mapError fun fault => (start, fault)

/-- The next piece and how far the cut has come then; `none` at the end. -/
def next? (lexer : Lexer) : Option (Except (Nat × MarkupFault) (Piece × Lexer)) :=
  let start := lexer.offset + (lexer.rest.takeWhile isSpace).length
  match lexer.rest.dropWhile isSpace with
  | [] => none
  | 0x3C :: bytes => some <|
    match enclosed bytes with
    | .error fault => .error (start, fault)
    | .ok (form, inside, rest) =>
      let stop := start + inside.length + 2
      (markupPiece lexer.openNames form inside start stop).map fun (piece, openNames) =>
        (piece, ⟨stop, openNames, rest⟩)
  | byte :: bytes => some <|
    let run := byte :: bytes.takeWhile fun byte => byte != 0x3C
    .ok (.text (dropTrailing isSpace run),
      ⟨start + run.length, lexer.openNames, bytes.dropWhile fun byte => byte != 0x3C⟩)

/-! ### Every piece takes something away -/

theorem length_dropWhile_le {α : Type} (drops : α → Bool) (items : List α) :
    (items.dropWhile drops).length ≤ items.length :=
  (List.dropWhile_sublist drops).length_le

theorem cutStretch?_whole {α : Type} [DecidableEq α] {stretch items : List α}
    {sides : List α × List α} (found : cutStretch? stretch items = some sides) :
    sides.1 ++ stretch ++ sides.2 = items := by
  induction items generalizing sides with
  | nil =>
    by_cases empty : stretch = []
    · simp only [cutStretch?, empty, if_true, Option.some.injEq] at found
      simp [empty, ← found]
    · simp [cutStretch?, empty] at found
  | cons item rest ih =>
    rw [cutStretch?] at found
    split at found
    · rename_i begins
      obtain rfl := Option.some.inj found
      obtain ⟨behind, whole⟩ := List.isPrefixOf_iff_prefix.mp begins
      rw [← whole, List.nil_append, List.drop_left]
    · obtain ⟨inner, innerFound, rfl⟩ := Option.map_eq_some_iff.mp found
      rw [List.cons_append, List.cons_append, ih innerFound]

theorem keep_whole {byte : UInt8} {rest : List UInt8}
    {inner : Option (List UInt8 × List UInt8)} {sides : List UInt8 × List UInt8}
    (found : keep byte inner = some sides)
    (whole : ∀ sides, inner = some sides → sides.1 ++ 0x3E :: sides.2 = rest) :
    sides.1 ++ 0x3E :: sides.2 = byte :: rest := by
  obtain ⟨inside, insideFound, rfl⟩ := Option.map_eq_some_iff.mp found
  rw [List.cons_append, whole inside insideFound]

theorem closeTag_whole {quote : Option UInt8} {bytes : List UInt8}
    {sides : List UInt8 × List UInt8} (found : closeTag quote bytes = some sides) :
    sides.1 ++ 0x3E :: sides.2 = bytes := by
  induction bytes generalizing quote sides with
  | nil => cases quote <;> simp [closeTag] at found
  | cons byte rest ih =>
    cases quote with
    | some mark =>
      rw [closeTag] at found
      exact keep_whole found fun _ inner => ih inner
    | none =>
      rw [closeTag] at found
      split at found
      · rename_i bracket
        obtain rfl := Option.some.inj found
        rw [bracket, List.nil_append]
      · exact keep_whole found fun _ inner => ih inner

theorem closeDoctype_whole {depth : Nat} {bytes : List UInt8}
    {sides : List UInt8 × List UInt8} (found : closeDoctype depth bytes = some sides) :
    sides.1 ++ 0x3E :: sides.2 = bytes := by
  induction bytes generalizing depth sides with
  | nil => cases depth <;> simp [closeDoctype] at found
  | cons byte rest ih =>
    cases depth with
    | zero =>
      rw [closeDoctype] at found
      split at found
      · rename_i bracket
        obtain rfl := Option.some.inj found
        rw [bracket, List.nil_append]
      · exact keep_whole found fun _ inner => ih inner
    | succ depth =>
      rw [closeDoctype] at found
      exact keep_whole found fun _ inner => ih inner

theorem closeAtMark_whole {skipped : Nat} {mark bytes : List UInt8}
    {sides : List UInt8 × List UInt8} (marked : mark = mark.dropLast ++ [0x3E])
    (found : closeAtMark skipped mark bytes = some sides) :
    sides.1 ++ 0x3E :: sides.2 = bytes := by
  obtain ⟨inner, innerFound, rfl⟩ := Option.map_eq_some_iff.mp found
  have whole := cutStretch?_whole innerFound
  rw [marked] at whole
  simp only [List.append_assoc, List.singleton_append] at whole ⊢
  rw [whole, List.take_append_drop]

/-- What is enclosed, its bracket, and what stands behind make up the bytes. -/
theorem enclosed_whole {bytes inside rest : List UInt8} {form : Form}
    (found : enclosed bytes = .ok (form, inside, rest)) : inside ++ 0x3E :: rest = bytes := by
  unfold enclosed at found
  cases known : Xml.form bytes with
  | error fault => rw [known] at found; simp [bind, Except.bind] at found
  | ok form =>
    rw [known] at found
    simp only [bind, Except.bind] at found
    split at found
    · rename_i sides closed
      injection found with same
      injection same with sameForm sameSides
      subst sameSides
      cases form with
      | verbatim | comment | instruction => exact closeAtMark_whole (by decide) closed
      | doctype => exact closeDoctype_whole closed
      | tag => exact closeTag_whole closed
    · exact absurd found (by simp)

theorem next?_shorter {lexer after : Lexer} {piece : Piece}
    (found : next? lexer = some (.ok (piece, after))) :
    after.rest.length < lexer.rest.length := by
  have blanks := length_dropWhile_le isSpace lexer.rest
  unfold next? at found
  split at found
  · exact absurd found (by simp)
  · rename_i bytes begins
    rw [begins, List.length_cons] at blanks
    rw [Option.some.injEq] at found
    split at found
    · exact absurd found (by simp)
    · rename_i form inside rest closed
      have shorter := congrArg List.length (enclosed_whole closed)
      rw [List.length_append, List.length_cons] at shorter
      dsimp only at found
      cases result : markupPiece lexer.openNames form inside
          (lexer.offset + (lexer.rest.takeWhile isSpace).length)
          (lexer.offset + (lexer.rest.takeWhile isSpace).length + inside.length + 2) with
      | error fault => rw [result] at found; simp [Except.map] at found
      | ok outcome =>
        rw [result] at found
        simp only [Except.map, Except.ok.injEq, Prod.mk.injEq] at found
        rw [← found.2]
        simp only
        omega
  · rename_i byte bytes _ begins
    rw [begins, List.length_cons] at blanks
    simp only [Option.some.injEq, Except.ok.injEq, Prod.mk.injEq] at found
    rw [← found.2]
    have shorter := length_dropWhile_le (fun byte : UInt8 => byte != 0x3C) bytes
    simp only
    omega

/-! ### All pieces -/

/-- The pieces from here on, and the fault that stops them with its offset. -/
def cutFrom (lexer : Lexer) : List Piece × Option (Nat × MarkupFault) :=
  match _found : next? lexer with
  | none => ([], none)
  | some (.error fault) => ([], some fault)
  | some (.ok (piece, after)) =>
    let others := cutFrom after
    (piece :: others.1, others.2)
termination_by lexer.rest.length
decreasing_by exact next?_shorter _found

/-- The pieces of a document, and the fault that stops them with its offset. -/
def cut (bytes : List UInt8) : List Piece × Option (Nat × MarkupFault) :=
  cutFrom ⟨0, [], bytes⟩

end EntityModel.Xml
