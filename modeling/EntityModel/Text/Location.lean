/-
**Lines, columns and stretches of a document.**

* `Position` — a line and a column, both counted from zero; a column counts characters, so the
  continuation bytes of a character of several bytes do not move it.
* `Position.atOffset` — the position of a byte offset, counted from the start of the document;
  an offset past the end counts as the end.
* `Cursor` — the same answer for a reader that asks at growing offsets: it counts on from the
  offset asked before, and from the start only when asked to go back.
* `Span` — from where to where an element's start tag runs.
-/

namespace EntityModel

/-- A line and a column of a document, both counted from zero. -/
structure Position where
  line : Nat
  column : Nat
  deriving DecidableEq, Repr

namespace Position

/-- The start of a document. -/
def origin : Position := ⟨0, 0⟩

/-- The position after one more byte: a line feed opens the next line, a byte that begins a
character moves one column, a continuation byte moves nothing. -/
def step (position : Position) (byte : UInt8) : Position :=
  if byte = 0x0A then ⟨position.line + 1, 0⟩
  else if byte &&& 0xC0 = 0x80 then position
  else ⟨position.line, position.column + 1⟩

/-- The position after more bytes. -/
def advance (position : Position) (bytes : List UInt8) : Position :=
  bytes.foldl step position

/-- The position of a byte offset in a document. -/
def atOffset (document : List UInt8) (offset : Nat) : Position :=
  origin.advance (document.take offset)

/-- Line and column as people count them, from one. -/
def display (position : Position) : String :=
  toString (position.line + 1) ++ ":" ++ toString (position.column + 1)

theorem advance_append (position : Position) (front back : List UInt8) :
    position.advance (front ++ back) = (position.advance front).advance back := by
  simp [advance]

end Position

/-- From where to where something stands in a document. -/
structure Span where
  start : Position
  stop : Position
  deriving DecidableEq, Repr

/-- Whether the position lies in the span; both ends belong to it. -/
def Span.contains (span : Span) (position : Position) : Bool :=
  !(position.line < span.start.line || span.stop.line < position.line) &&
  !(position.line == span.start.line && position.column < span.start.column) &&
  !(position.line == span.stop.line && span.stop.column < position.column)

/-- An offset of a document together with its position. -/
structure Cursor where
  offset : Nat
  position : Position
  deriving DecidableEq, Repr

namespace Cursor

/-- The cursor at the start of a document. -/
def origin : Cursor := ⟨0, Position.origin⟩

/-- The cursor moved to another offset of the document, at most its end. -/
def moveTo (document : List UInt8) (target : Nat) (cursor : Cursor) : Cursor :=
  let target := min target document.length
  let base := if target < cursor.offset then origin else cursor
  ⟨target, base.position.advance ((document.drop base.offset).take (target - base.offset))⟩

end Cursor

end EntityModel
