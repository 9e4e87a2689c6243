import EntityModel.Element

/-
**From tokens to one tree.**

A document is a sequence of tokens: an element opens, another closes, text stands in between.

* `Token` — what the sequence is made of, everything in it understood.
* `Assembly` — the open elements, the innermost first, and the root once it is closed.
* `Assembly.step`, `Assembly.finish` — a token more, and the end. A second root is noticed when it
  closes; text goes to the innermost open element and outside of all elements nowhere.
-/

namespace EntityModel.Xml

/-- A token of a document. -/
inductive Token where
  | opening (head : Head)
  | closing
  /-- An element without content. -/
  | empty (head : Head)
  | text (text : String)
  /-- What means nothing: a comment, an instruction, a declaration. -/
  | aside
  deriving DecidableEq

/-- Why tokens do not make up one tree. -/
inductive AssemblyFault where
  /-- The end comes inside an element, shown with its prefix. -/
  | unclosed (tag : String)
  /-- An element closes where none is open. -/
  | nothingOpen
  | noRoot
  | secondRoot
  deriving DecidableEq, Repr

/-- The part of a tree that the tokens so far make up: the open elements with the children they
have, the innermost first, and the finished root. -/
structure Assembly where
  stack : List (Head × List Element)
  root : Option Element

namespace Assembly

/-- Nothing read yet. -/
def start : Assembly := ⟨[], none⟩

/-- A finished element goes to the innermost open one, or becomes the root. -/
def add (assembly : Assembly) (element : Element) : Except AssemblyFault Assembly :=
  match assembly.stack, assembly.root with
  | (head, children) :: outer, root => .ok ⟨(head, children ++ [element]) :: outer, root⟩
  | [], none => .ok ⟨[], some element⟩
  | [], some _ => .error .secondRoot

/-- The assembly after one more token. -/
def step (assembly : Assembly) : Token → Except AssemblyFault Assembly
  | .opening head => .ok { assembly with stack := (head, []) :: assembly.stack }
  | .closing =>
    match assembly.stack with
    | [] => .error .nothingOpen
    | (head, children) :: outer => { assembly with stack := outer }.add (.node head children)
  | .empty head => assembly.add (.node head [])
  | .text text =>
    match assembly.stack with
    | [] => .ok assembly
    | (head, children) :: outer =>
      .ok { assembly with stack := (head.appendText text, children) :: outer }
  | .aside => .ok assembly

/-- The root once all tokens are read. -/
def finish (assembly : Assembly) : Except AssemblyFault Element :=
  match assembly.stack, assembly.root with
  | (head, _) :: _, _ => .error (.unclosed head.qualifiedTag)
  | [], none => .error .noRoot
  | [], some root => .ok root

end Assembly

/-- The one tree that the tokens make up. -/
def assemble (tokens : List Token) : Except AssemblyFault Element := do
  (← tokens.foldlM Assembly.step Assembly.start).finish

end EntityModel.Xml
