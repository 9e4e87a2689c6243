import EntityModel.Text.Identifier.Continue
import EntityModel.Text.Identifier.Start

/-
**Identifiers.**

A declared name should be an identifier: a letter or an underscore, then letters, digits, marks and
connecting characters, by the Unicode properties XID_Start and XID_Continue.

* `isIdentifierStart`, `isIdentifierContinue` — the two properties, the second including the first.
* `isIdentifier` — the rule for a whole name; the empty text is not an identifier.
-/

namespace EntityModel.Text

/-- Whether the code point lies in one of the ranges. -/
def inRanges (ranges : List (Nat × Nat)) (code : Nat) : Bool :=
  ranges.any fun range => range.1 ≤ code && code ≤ range.2

/-- Whether the character has the property XID_Start. -/
def isIdentifierStart (c : Char) : Bool :=
  inRanges identifierStartRanges c.toNat

/-- Whether the character has the property XID_Continue. -/
def isIdentifierContinue (c : Char) : Bool :=
  isIdentifierStart c || inRanges identifierContinueRanges c.toNat

/-- Whether the text is an identifier. -/
def isIdentifier (text : String) : Bool :=
  match text.toList with
  | [] => false
  | first :: rest => (first == '_' || isIdentifierStart first) && rest.all isIdentifierContinue

end EntityModel.Text
