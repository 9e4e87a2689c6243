import EntityModel.Text.Location
import EntityModel.Tree

/-
**Elements: documents as written.**

* `Attributes` — names and values in the order of writing, every name once. Setting a name again
  keeps its place (`names_set_of_mem`), a new name goes last (`names_set_of_not_mem`).
* `Head` — an element apart from its children: local name, prefix, attributes, text, place.
* `Element` — a tree of heads.
-/

namespace EntityModel

/-- Attribute names and values in the order of writing. No name occurs twice. -/
structure Attributes where
  entries : List (String × String)
  nodup : (entries.map Prod.fst).Nodup
  deriving DecidableEq

namespace Attributes

/-- The names, in order. -/
def names (attributes : Attributes) : List String :=
  attributes.entries.map Prod.fst

/-- No attributes. -/
def empty : Attributes := ⟨[], List.nodup_nil⟩

/-- The value of the name. -/
def get? (attributes : Attributes) (name : String) : Option String :=
  attributes.entries.lookup name

theorem map_fst_replace (name value : String) (entries : List (String × String)) :
    (entries.map fun entry => if entry.1 = name then (name, value) else entry).map Prod.fst =
      entries.map Prod.fst := by
  rw [List.map_map]
  refine List.map_congr_left fun entry _ => ?_
  by_cases same : entry.1 = name <;> simp [same]

/-- The attributes with the name set to the value: in its place if it is there, else at the end. -/
def set (attributes : Attributes) (name value : String) : Attributes :=
  if present : name ∈ attributes.entries.map Prod.fst then
    { entries := attributes.entries.map fun entry =>
        if entry.1 = name then (name, value) else entry
      nodup := (map_fst_replace name value attributes.entries).symm ▸ attributes.nodup }
  else
    { entries := attributes.entries ++ [(name, value)]
      nodup := by
        rw [List.map_append, List.nodup_append]
        refine ⟨attributes.nodup, by simp, ?_⟩
        intro first firstMem second secondMem same
        obtain rfl : second = name := by simpa using secondMem
        exact present (same ▸ firstMem) }

/-- The attributes without the name. -/
def erase (attributes : Attributes) (name : String) : Attributes where
  entries := attributes.entries.filter fun entry => entry.1 ≠ name
  nodup := attributes.nodup.sublist (List.filter_sublist.map Prod.fst)

/-- The attributes set one after the other. -/
def ofList (entries : List (String × String)) : Attributes :=
  entries.foldl (fun attributes entry => attributes.set entry.1 entry.2) empty

theorem names_set_of_mem {attributes : Attributes} {name : String} (value : String)
    (present : name ∈ attributes.names) : (attributes.set name value).names = attributes.names := by
  rw [names, set, dif_pos (show name ∈ attributes.entries.map Prod.fst from present)]
  exact map_fst_replace name value attributes.entries

theorem names_set_of_not_mem {attributes : Attributes} {name : String} (value : String)
    (absent : name ∉ attributes.names) :
    (attributes.set name value).names = attributes.names ++ [name] := by
  rw [names, set, dif_neg (show name ∉ attributes.entries.map Prod.fst from absent)]
  simp [names]

end Attributes

/-- An element apart from its children. -/
structure Head where
  /-- The local name. -/
  tag : String
  /-- The prefix before the colon of the written name. -/
  nsPrefix : Option String
  attributes : Attributes
  text : Option String
  /-- Where the start tag stands in the document it was read from. -/
  span : Option Span
  deriving DecidableEq

namespace Head

/-- The head with a local name alone. -/
def ofTag (tag : String) : Head :=
  ⟨tag, none, Attributes.empty, none, none⟩

/-- The name as written, with its prefix. -/
def qualifiedTag (head : Head) : String :=
  match head.nsPrefix with
  | some written => written ++ ":" ++ head.tag
  | none => head.tag

/-- The value of an attribute. -/
def attribute? (head : Head) (name : String) : Option String :=
  head.attributes.get? name

/-- The head with the text appended to its own. -/
def appendText (head : Head) (text : String) : Head :=
  { head with text := some (head.text.getD "" ++ text) }

end Head

/-- An element of a document with everything in it. -/
abbrev Element := Tree Head

namespace Element

/-- The local name of the element. -/
def tag (element : Element) : String :=
  element.label.tag

/-- The children with the local name, in order. -/
def childrenNamed (element : Element) (tag : String) : List Element :=
  element.children.filter fun child => child.label.tag = tag

/-- The first child with the local name. -/
def child? (element : Element) (tag : String) : Option Element :=
  element.children.find? fun child => child.label.tag = tag

end Element

end EntityModel
