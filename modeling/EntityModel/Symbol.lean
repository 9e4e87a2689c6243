import EntityModel.Text.Pieces
import EntityModel.Text.Trim

/-
**Symbols: comparable names.**

A symbol is the dotted form of a declared or referenced name (`Model.Customer.Id`), with an optional
scope that keeps equal names of different sections apart. Two nodes declare the same thing exactly
when their symbols are equal.

* `empty` — the symbol of a blank name: it is never declared and never found.
* `ofText`, `ofParts`, `inScope` — symbols from a whole name, from its parts, from a name and a
  scope. All of them trim; `ofParts` leaves blank parts out.
* `child` — one more part at the end: the way a reference names a member. A blank part gives the
  empty symbol, so a member without a name names nothing.
* `Symbol.before` — the order of lists of symbols: by name, then by scope, no scope first.
-/

namespace EntityModel

/-- A dotted name, and the scope it belongs to when there is one. -/
structure Symbol where
  name : String
  scope : Option String
  deriving DecidableEq, Repr

namespace Symbol

/-- The character between the parts of a name. -/
def separator : Char := '.'

/-- The symbol of a blank name. -/
def empty : Symbol := ⟨"", none⟩

/-- Whether the symbol names nothing. -/
def isEmpty (symbol : Symbol) : Bool :=
  symbol.name.isEmpty

/-- The symbol of a name as written. -/
def ofText (text : String) : Symbol :=
  ⟨Text.trim text, none⟩

/-- The symbol whose name has these parts, the blank ones left out. -/
def ofParts (parts : List String) : Symbol :=
  ⟨".".intercalate ((parts.map Text.trim).filter (!·.isEmpty)), none⟩

/-- The symbol of a name within a scope; a blank scope is none. -/
def inScope (name scope : String) : Symbol :=
  ⟨Text.trim name, if Text.isBlank scope then none else some (Text.trim scope)⟩

/-- The parts of the name that are not empty. -/
def parts (symbol : Symbol) : List String :=
  (Text.pieces separator symbol.name).filter (!·.isEmpty)

/-- What stands after the last separator of the name; the whole name without one. -/
def lastPart (symbol : Symbol) : String :=
  match Text.cutLast? separator symbol.name.toList with
  | some sides => String.ofList sides.2
  | none => symbol.name

/-- The symbol of what stands before the last separator of the name. -/
def parent? (symbol : Symbol) : Option Symbol :=
  (Text.cutLast? separator symbol.name.toList).map fun sides =>
    ⟨String.ofList sides.1, symbol.scope⟩

/-- The symbol of a member: the name with one more part, in the same scope. A member of the empty
symbol is just its part; a blank part gives the empty symbol. -/
def child (symbol : Symbol) (part : String) : Symbol :=
  if Text.isBlank part then empty
  else if symbol.name.isEmpty then ⟨Text.trim part, symbol.scope⟩
  else ⟨symbol.name ++ "." ++ Text.trim part, symbol.scope⟩

/-- The symbol as people read it: `scope::name`, or just the name. -/
def display (symbol : Symbol) : String :=
  match symbol.scope with
  | some scope => scope ++ "::" ++ symbol.name
  | none => symbol.name

/-- Names in the order of their code points, equal names by scope, no scope first. -/
instance : Ord Symbol :=
  ⟨compareLex (compareOn Symbol.name) (compareOn Symbol.scope)⟩

/-- Whether one symbol may stand before another in a sorted list. -/
def before (first second : Symbol) : Bool :=
  (compare first second).isLE

end Symbol

end EntityModel
