import EntityModel.Proofs.Tree.Links
import EntityModel.Proofs.Xml.Steps

/-
**Writing a document and reading it.**

The writer breaks lines, indents, escapes, and puts the text of an element before its children; the
reader trims every run of text, resolves references and glues runs together. What is lost are the
blanks around texts; for trees of proper names and tight texts the two cancel out.

* `unplaced` — an element without the places of its tags: what a written document keeps of it.
* `settled` — an element without the blanks around its texts: what it becomes when it is written and
  read.
* `Rewritable` — a head whose tags are found again where they are written.
* `encode_writeElement_empty`, `encode_writeElement_filled` — the bytes of an element, from the
  content of its tag on.
* `ReadBack` — an element that is read back wherever it is written in a document, with reading going
  on behind it. Siblings are read one by one (`readFrom_siblings`), an element is when its children
  are (`readBack_node`), so every rewritable element is (`readBack_of_rewritable`).
* `read_write` — **a document that is written is read as its tree,** apart from places.
-/

namespace EntityModel.Xml

/-- The element without the places of its tags. -/
def unplaced (element : Element) : Element :=
  element.map fun head => { head with span := none }

theorem unplaced_node (head : Head) (children : List Element) :
    unplaced (.node head children) =
      .node { head with span := none } (children.map unplaced) :=
  Tree.map_node _ _ _

/-- The element without the blanks around its texts; nothing is left of a text of blanks alone. -/
def settled (element : Element) : Element :=
  element.map fun head => { head with text := head.text.bind trimmed }

theorem settled_node (head : Head) (children : List Element) :
    settled (.node head children) =
      .node { head with text := head.text.bind trimmed } (children.map settled) :=
  Tree.map_node _ _ _

/-- Where all texts are tight, nothing is lost. -/
theorem settled_of_tight {element : Element}
    (tight : ∀ head ∈ element.labels, ∀ text ∈ head.text, Tight text) :
    settled element = element := by
  refine (Tree.map_congr element fun head member => ?_).trans (Tree.map_id element)
  have kept : head.text.bind trimmed = head.text := by
    cases text : head.text with
    | none => rfl
    | some written => exact trimmed_eq_some_self_iff.mpr (tight head member written text)
  rw [kept]
  rfl

/-! ### Tags that are found again -/

/-- Whether an element with these children is written as one empty tag. -/
def isBare (head : Head) (children : List Head) : Bool :=
  children.isEmpty && head.text.isNone

/-- The start tag of an element with these children is found again where it is written: its quotes
pair up, an empty tag is more than its slash, and no slash ends any other. -/
structure Recognised (head : Head) (children : List Head) : Prop where
  closed : Closed (tagContent head)
  nonempty : isBare head children = true → tagContent head ≠ []
  full : isBare head children = false → (tagContent head).getLast? ≠ some 0x2F

instance (head : Head) (children : List Head) : Decidable (Recognised head children) :=
  decidable_of_iff
    (Closed (tagContent head) ∧ (isBare head children = true → tagContent head ≠ []) ∧
      (isBare head children = false → (tagContent head).getLast? ≠ some 0x2F))
    ⟨fun parts => ⟨parts.1, parts.2.1, parts.2.2⟩,
      fun recognised => ⟨recognised.closed, recognised.nonempty, recognised.full⟩⟩

/-- The tags of an element with these children are read as they are written, and so is its end tag if
it has one. -/
structure Accepted (head : Head) (children : List Head) : Prop where
  legible : Legible head
  ended : isBare head children = false → Closed (Utf8.encode head.qualifiedTag)

/-- Both tags of an element with these children are found again where they are written, and are read
as they are written. -/
structure Rewritable (head : Head) (children : List Head) : Prop
    extends Recognised head children, Accepted head children

/-- **Proper heads are rewritable**, whatever children they have. -/
theorem Proper.rewritable {head : Head} (proper : Proper head) (children : List Head) :
    Rewritable head children where
  closed := closed_tagContent proper
  nonempty _ := proper.nonempty
  full _ := proper.content_ends
  legible := proper.legible
  ended _ := proper.closed_name

/-! ### The bytes of an element -/

/-- The bytes before a tag: none after text. -/
def indentation (afterText : Bool) (depth : Nat) : List UInt8 :=
  Utf8.encode (lineBreak afterText depth)

theorem indentation_after (depth : Nat) : indentation true depth = [] :=
  rfl

theorem isSpace_of_mem_indentation {afterText : Bool} {depth : Nat} :
    ∀ byte ∈ indentation afterText depth, isSpace byte = true := by
  intro byte member
  cases afterText with
  | true =>
    rw [indentation_after] at member
    exact absurd member List.not_mem_nil
  | false =>
    rw [indentation, lineBreak, if_neg Bool.false_ne_true, Utf8.encode_append, List.mem_append,
      Utf8.encode_ofList (List.replicate (2 * depth) ' '), Utf8.encodeChars,
      List.mem_flatMap] at member
    rcases member with lineFeed | ⟨c, blank, inside⟩
    · obtain rfl := List.mem_singleton.mp (show byte ∈ [0x0A] from lineFeed)
      decide
    · obtain rfl := List.eq_of_mem_replicate blank
      obtain rfl := List.mem_singleton.mp (show byte ∈ [0x20] from inside)
      decide

section Bytes

variable (afterText : Bool) (depth : Nat) {head : Head} {children : List Element}

/-- An element without content is its indentation and one tag. -/
theorem encode_writeElement_empty (bare : head.text = none) (rest : List UInt8) :
    Utf8.encode (writeElement afterText depth (.node head [])) ++ rest =
      indentation afterText depth ++ 0x3C :: (tagContent head ++ 0x2F :: 0x3E :: rest) := by
  rw [writeElement, bare, ← encode_tagContent]
  simp only [List.isEmpty_nil, Option.isNone_none, Bool.and_self, if_true, Utf8.encode_append,
    show Utf8.encode "<" = [0x3C] from rfl, show Utf8.encode "/>" = [0x2F, 0x3E] from rfl,
    indentation, List.append_assoc, List.cons_append, List.nil_append]

/-- An element with content is its indentation and its start tag, its text and its children, and its
end tag. -/
theorem encode_writeElement_filled (filled : (children.isEmpty && head.text.isNone) = false)
    (rest : List UInt8) :
    Utf8.encode (writeElement afterText depth (.node head children)) ++ rest =
      indentation afterText depth ++ 0x3C :: (tagContent head ++ 0x3E ::
        (Utf8.encode (escape (head.text.getD "")) ++
          (Utf8.encode (writeElements head.text.isSome (depth + 1) children) ++
            (indentation (children.isEmpty && head.text.isSome) depth ++ 0x3C :: 0x2F ::
              (Utf8.encode head.qualifiedTag ++ 0x3E :: rest))))) := by
  rw [writeElement, filled, ← encode_tagContent]
  simp only [Bool.false_eq_true, if_false, Utf8.encode_append,
    show Utf8.encode "<" = [0x3C] from rfl, show Utf8.encode ">" = [0x3E] from rfl,
    show Utf8.encode "</" = [0x3C, 0x2F] from rfl, indentation, List.append_assoc,
    List.cons_append, List.nil_append]

end Bytes

/-- The bytes of an element begin with its indentation and a bracket. -/
theorem encode_writeElement_begins (afterText : Bool) (depth : Nat) (element : Element)
    (rest : List UInt8) :
    ∃ markup, Utf8.encode (writeElement afterText depth element) ++ rest =
      indentation afterText depth ++ 0x3C :: markup := by
  rcases element with ⟨head, children⟩
  cases content : children.isEmpty && head.text.isNone with
  | true =>
    rw [Bool.and_eq_true, List.isEmpty_iff, Option.isNone_iff_eq_none] at content
    obtain ⟨rfl, bare⟩ := content
    exact ⟨_, encode_writeElement_empty afterText depth bare rest⟩
  | false => exact ⟨_, encode_writeElement_filled afterText depth content rest⟩

/-- Behind a text comes a bracket, that of a child or that of the end tag. -/
theorem bracket_after_text (depth : Nat) (children : List Element) (rest : List UInt8) :
    ∃ markup, Utf8.encode (writeElements true (depth + 1) children) ++
      (indentation children.isEmpty depth ++ 0x3C :: rest) = 0x3C :: markup := by
  cases children with
  | nil => exact ⟨rest, rfl⟩
  | cons child children =>
    rw [writeElements, Utf8.encode_append, List.append_assoc]
    exact encode_writeElement_begins true (depth + 1) child _

/-! ### Reading through an element -/

/-- Wherever the element is written in the document, it is read as an element that differs from it
in places and in the blanks around texts alone, and reading goes on behind it. -/
def ReadBack (document : List UInt8) (element : Element) : Prop :=
  ∀ (afterText : Bool) (depth offset : Nat) (openNames : List (List UInt8)) (cursor : Cursor)
    (rest : List UInt8),
    ∃ (found : Element) (place : Nat) (there : Cursor),
      unplaced found = unplaced (settled element) ∧
      ∀ assembly extended : Assembly, assembly.add found = .ok extended →
        readFrom document
            ⟨offset, openNames, Utf8.encode (writeElement afterText depth element) ++ rest⟩
            (assembly, cursor) =
          readFrom document ⟨place, openNames, rest⟩ (extended, there)

section Elements

variable {document : List UInt8}

/-- **Siblings are read one by one**, each into the innermost open element. -/
theorem readFrom_siblings (elements : List Element) :
    (∀ element ∈ elements, ReadBack document element) →
    ∀ (afterText : Bool) (depth offset : Nat) (openNames : List (List UInt8)) (cursor : Cursor)
      (rest : List UInt8),
      ∃ (found : List Element) (place : Nat) (there : Cursor),
        found.map unplaced = elements.map (fun element => unplaced (settled element)) ∧
        ∀ (opened : Head) (children : List Element) (outer : List (Head × List Element))
          (root : Option Element),
          readFrom document
              ⟨offset, openNames, Utf8.encode (writeElements afterText depth elements) ++ rest⟩
              (⟨(opened, children) :: outer, root⟩, cursor) =
            readFrom document ⟨place, openNames, rest⟩
              (⟨(opened, children ++ found) :: outer, root⟩, there) := by
  induction elements with
  | nil =>
    intro _ afterText depth offset openNames cursor rest
    refine ⟨[], offset, cursor, rfl, fun opened children outer root => ?_⟩
    rw [List.append_nil]
    rfl
  | cons element elements ih =>
    intro readBack afterText depth offset openNames cursor rest
    obtain ⟨first, place, there, same, read⟩ :=
      readBack element List.mem_cons_self afterText depth offset openNames cursor
        (Utf8.encode (writeElements false depth elements) ++ rest)
    obtain ⟨others, lastPlace, last, sameOthers, readOthers⟩ :=
      ih (fun other member => readBack other (List.mem_cons_of_mem element member)) false depth
        place openNames there rest
    refine ⟨first :: others, lastPlace, last, ?_, fun opened children outer root => ?_⟩
    · rw [List.map_cons, List.map_cons, same, sameOthers]
    · rw [writeElements, Utf8.encode_append, List.append_assoc, read _ _ rfl, readOthers,
        List.append_assoc, List.singleton_append]

/-- **An element is read back when its children are.** -/
theorem readBack_node {head : Head} {children : List Element}
    (rewritable : Rewritable head (children.map Tree.label))
    (readBack : ∀ child ∈ children, ReadBack document child) :
    ReadBack document (.node head children) := by
  intro afterText depth offset openNames cursor rest
  have blank := @isSpace_of_mem_indentation afterText depth
  have written : isBare head (children.map Tree.label) =
      (children.isEmpty && head.text.isNone) := by
    rw [isBare, List.isEmpty_map]
  by_cases empty : (children.isEmpty && head.text.isNone) = true
  · have nonempty := rewritable.nonempty (written.trans empty)
    rw [Bool.and_eq_true, List.isEmpty_iff, Option.isNone_iff_eq_none] at empty
    obtain ⟨rfl, bare⟩ := empty
    obtain ⟨place, span, there, read⟩ := readFrom_empty rewritable.legible blank offset openNames
      cursor rest rewritable.closed nonempty
    refine ⟨.node { head with text := none, span := some span } [], place, there, ?_,
      fun assembly extended added => ?_⟩
    · rw [settled_node, unplaced_node, unplaced_node, bare]
      rfl
    · rw [encode_writeElement_empty afterText depth bare]
      exact read assembly extended added
  · rw [Bool.not_eq_true] at empty
    have closing := @isSpace_of_mem_indentation (children.isEmpty && head.text.isSome) depth
    have begins : head.text.isSome = true → ∃ markup,
        Utf8.encode (writeElements head.text.isSome (depth + 1) children) ++
          (indentation (children.isEmpty && head.text.isSome) depth ++ 0x3C :: 0x2F ::
            (Utf8.encode head.qualifiedTag ++ 0x3E :: rest)) = 0x3C :: markup := by
      intro text
      rw [text, Bool.and_true]
      exact bracket_after_text depth children _
    -- The way through the element: start tag, text, children, end tag.
    obtain ⟨inside, span, there, started⟩ := readFrom_start rewritable.legible blank offset
      openNames cursor _ rewritable.closed (rewritable.full (written.trans empty))
    obtain ⟨behindText, texted⟩ := readFrom_text inside
      (Utf8.encode head.qualifiedTag :: openNames) there _ begins
    obtain ⟨found, behindChildren, last, same, siblings⟩ := readFrom_siblings children readBack
      head.text.isSome (depth + 1) behindText (Utf8.encode head.qualifiedTag :: openNames) there _
    obtain ⟨place, ended⟩ := readFrom_end rewritable.legible closing behindChildren openNames last
      rest (rewritable.ended (written.trans empty))
    refine ⟨.node { head with text := head.text.bind trimmed, span := some span } found, place,
      last, ?_, fun assembly extended added => ?_⟩
    · rw [settled_node, unplaced_node, unplaced_node, same, List.map_map]
      rfl
    · rw [encode_writeElement_filled afterText depth empty, started, texted _ _ _ _ rfl, siblings]
      exact ended _ _ _ _ _ added

/-- **Every rewritable element is read back.** -/
theorem readBack_of_rewritable (element : Element) :
    (∀ link ∈ element.links, Rewritable link.label link.children) →
      ReadBack document element := by
  induction element using Tree.induct with
  | step head children ih =>
    intro rewritable
    obtain ⟨here, below⟩ := Tree.forall_links_node.mp rewritable
    exact readBack_node here fun child member => ih child member (below child member)

end Elements

/-! ### The whole document -/

/-- The bytes of the declaration between its bracket and its last one. -/
def declaration : List UInt8 :=
  ascii "?xml version=\x221.0\x22 encoding=\x22utf-8\x22?"

theorem encode_write (element : Element) :
    Utf8.encode (write element) =
      0x3C :: (declaration ++ 0x3E :: (Utf8.encode (writeElement false 0 element) ++ [0x0A])) := by
  have lines : ∀ front middle : String, Utf8.encode (front ++ middle ++ "\n") =
      Utf8.encode front ++ (Utf8.encode middle ++ [0x0A]) := by
    intro front middle
    rw [Utf8.encode_append, Utf8.encode_append, List.append_assoc]
    rfl
  have front : Utf8.encode "<?xml version=\x221.0\x22 encoding=\x22utf-8\x22?>" =
      0x3C :: (declaration ++ [0x3E]) := by decide
  refine (lines _ _).trans ?_
  rw [front, List.cons_append, List.append_assoc, List.singleton_append]

/-- The declaration is passed over. -/
theorem next?_declaration (rest : List UInt8) : ∃ place,
    next? ⟨0, [], 0x3C :: (declaration ++ 0x3E :: rest)⟩ =
      some (.ok (.aside, ⟨place, [], rest⟩)) := by
  have closed : enclosed (declaration ++ 0x3E :: rest) = .ok (.instruction, declaration, rest) :=
    rfl
  exact ⟨_, next?_markup (fun _ inside => absurd inside List.not_mem_nil) closed rfl⟩

/-- **A document that is written is read as its tree without the blanks around its texts**, apart
from the places of its tags. -/
theorem read_write_of_rewritable {element : Element}
    (rewritable : ∀ link ∈ element.links, Rewritable link.label link.children) :
    (read (write element).toUTF8.toList).map unplaced = .ok (unplaced (settled element)) := by
  have document := (Utf8.toList_toUTF8 (write element)).trans (encode_write element)
  obtain ⟨place, declared⟩ :=
    next?_declaration (Utf8.encode (writeElement false 0 element) ++ [0x0A])
  obtain ⟨found, last, there, same, read⟩ := readBack_of_rewritable element rewritable false 0 place
    [] Cursor.origin [0x0A]
  have finished : next? ⟨last, [], [0x0A]⟩ = none := rfl
  have unmarked : ∀ bytes, withoutMark (0x3C :: bytes) = 0x3C :: bytes := fun _ => rfl
  rw [read_eq_readFrom, document, unmarked, readFrom_next declared rfl rfl,
    read Assembly.start ⟨[], some found⟩ rfl, readFrom_finished _ finished]
  exact congrArg Except.ok same

/-- Names that mean nothing in markup are always found again. -/
theorem read_write_of_proper {element : Element} (proper : ∀ head ∈ element.labels, Proper head) :
    (read (write element).toUTF8.toList).map unplaced = .ok (unplaced (settled element)) := by
  refine read_write_of_rewritable fun link member => (proper link.label ?_).rewritable link.children
  rw [← Tree.map_label_links]
  exact List.mem_map_of_mem member

/-- **A document that is written is read as its tree**, apart from the places of its tags. -/
theorem read_write {element : Element} (writable : ∀ head ∈ element.labels, Writable head) :
    (read (write element).toUTF8.toList).map unplaced = .ok (unplaced element) := by
  rw [read_write_of_proper fun head member => (writable head member).proper,
    settled_of_tight fun head member => (writable head member).text]

/-- A schema with a prefix, a text between its children, and values full of markup. -/
def annotated : Element :=
  .node ⟨"Schema", some "edm", ⟨[("Namespace", "Model"), ("xmlns:edm", "<a> & \x22b\x22")],
      by decide⟩, some "A & B", none⟩
    [.node (Head.ofTag "Key") [],
      .node { Head.ofTag "Summary" with text := some "\x27x\x27 >\n  y" }
        [.node (Head.ofTag "Remark") []]]

theorem read_write_annotated :
    (∀ head ∈ annotated.labels, Writable head) ∧
      (read (write annotated).toUTF8.toList).map unplaced = .ok (unplaced annotated) := by
  have writable : ∀ head ∈ annotated.labels, Writable head := by decide +kernel
  exact ⟨writable, read_write writable⟩

end EntityModel.Xml
