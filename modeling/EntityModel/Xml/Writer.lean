import EntityModel.Element
import EntityModel.Xml.CharacterReference

/-
**Writing an XML document.**

* `write` — the document with a declaration in front and a line feed at the end. Every tag stands on
  a line of its own, two blanks further in for each level, except right after text: text is written
  without anything around it. An element with neither children nor text is one empty tag.
-/

namespace EntityModel.Xml

/-- The line break and the indentation before a tag at the depth, or nothing after text. -/
def lineBreak (afterText : Bool) (depth : Nat) : String :=
  if afterText then "" else "\n" ++ String.ofList (List.replicate (2 * depth) ' ')

/-- The attributes as written in a tag. -/
def writeAttributes (attributes : Attributes) : String :=
  String.join <| attributes.entries.map fun entry =>
    " " ++ entry.1 ++ "=\x22" ++ escape entry.2 ++ "\x22"

mutual

/-- The element at the depth, right after text or not. -/
def writeElement (afterText : Bool) (depth : Nat) : Element → String
  | .node head children =>
    let opening := lineBreak afterText depth ++ "<" ++ head.qualifiedTag ++
      writeAttributes head.attributes
    if children.isEmpty && head.text.isNone then opening ++ "/>"
    else
      opening ++ ">" ++ escape (head.text.getD "") ++
        writeElements head.text.isSome (depth + 1) children ++
        lineBreak (children.isEmpty && head.text.isSome) depth ++ "</" ++ head.qualifiedTag ++ ">"

/-- Sibling elements at the depth, the first right after text or not. -/
def writeElements (afterText : Bool) (depth : Nat) : List Element → String
  | [] => ""
  | element :: elements =>
    writeElement afterText depth element ++ writeElements false depth elements

end

/-- The document with this root. -/
def write (root : Element) : String :=
  "<?xml version=\x221.0\x22 encoding=\x22utf-8\x22?>" ++ writeElement false 0 root ++ "\n"

end EntityModel.Xml
