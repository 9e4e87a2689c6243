import EntityModel.Proofs.Xml.Names
import EntityModel.Xml.Writer

/-
**Tags as the writer writes them.**

* `Writable` — the heads that can be written: names of the format and a tight text.
* `Proper` — the heads whose names mean nothing in markup. Those of writable heads do not.
* `Legible` — the heads whose names are cut where they were: no blank in a name, no equals sign in a
  key, no colon before the one that ends the prefix. Proper heads are (`Proper.legible`).
* `tagContent` — what stands in the start tag of a head.
* `Closed` — bytes after which the search for the closing bracket stands where it stood before;
  `closed_iff` follows the quotes. Of a proper head the content of the tag is closed
  (`closed_tagContent`), whatever brackets and quotes its values had.
* `enclosed_tag`, `tagPiece_start`, `tagPiece_empty`, `tagPiece_end` — closed tags are cut out as
  such.
* `readAttributes_entries`, `readHead_tagContent` — **the content of a tag is read back as its
  head**, every attribute in its place.
-/

namespace EntityModel.Xml

open EntityModel.Text

/-- A head whose names are names and whose text has no blanks at its ends. -/
structure Writable (head : Head) : Prop where
  tag : isLocalName head.tag = true
  nsPrefix : ∀ written ∈ head.nsPrefix, isLocalName written = true
  names : ∀ name ∈ head.attributes.names, isName name = true
  text : ∀ text ∈ head.text, Tight text

instance (head : Head) : Decidable (Writable head) :=
  decidable_of_iff
    (isLocalName head.tag = true ∧ (∀ written ∈ head.nsPrefix, isLocalName written = true) ∧
      (∀ name ∈ head.attributes.names, isName name = true) ∧ ∀ text ∈ head.text, Tight text)
    ⟨fun parts => ⟨parts.1, parts.2.1, parts.2.2.1, parts.2.2.2⟩,
      fun writable => ⟨writable.tag, writable.nsPrefix, writable.names, writable.text⟩⟩

/-- A head whose names mean nothing in markup, its prefix being what stands before the first colon. -/
structure Proper (head : Head) : Prop where
  plain : Plain (Utf8.encode head.qualifiedTag)
  named : Utf8.encode head.qualifiedTag ≠ []
  nsPrefix : ∀ written ∈ head.nsPrefix, 0x3A ∉ Utf8.encode written
  tag : head.nsPrefix = none → 0x3A ∉ Utf8.encode head.tag
  names : ∀ name ∈ head.attributes.names, isName name = true

/-- The bytes of a key that is cut where it was: something that is no blank, and then neither blanks
nor equals signs. -/
def IsKey (bytes : List UInt8) : Prop :=
  ∃ first rest, bytes = first :: rest ∧ isSpace first = false ∧
    ∀ byte ∈ rest, byte ≠ 0x3D ∧ isSpace byte = false

/-- A head whose names are cut where they were when it is read in a tag. -/
structure Legible (head : Head) : Prop where
  name : ∀ byte ∈ Utf8.encode head.qualifiedTag, isSpace byte = false
  /-- Nothing makes the tag another kind of markup. -/
  begins : ∀ first ∈ (Utf8.encode head.qualifiedTag).head?, first ∉ [0x2F, 0x21, 0x3F]
  nsPrefix : ∀ written ∈ head.nsPrefix, 0x3A ∉ Utf8.encode written
  tag : head.nsPrefix = none → 0x3A ∉ Utf8.encode head.tag
  keys : ∀ name ∈ head.attributes.names, IsKey (Utf8.encode name)

/-! ### The bytes of a tag -/

/-- The bytes of an attribute in a tag. -/
def attributeBytes (entry : String × String) : List UInt8 :=
  0x20 :: Utf8.encode entry.1 ++ 0x3D :: 0x22 :: Utf8.encode (escape entry.2) ++ [0x22]

/-- The bytes between the brackets of a start tag. -/
def tagContent (head : Head) : List UInt8 :=
  Utf8.encode head.qualifiedTag ++ head.attributes.entries.flatMap attributeBytes

theorem encode_tagContent (head : Head) :
    Utf8.encode (head.qualifiedTag ++ writeAttributes head.attributes) = tagContent head := by
  rw [Utf8.encode_append, writeAttributes, Utf8.encode_join, List.flatMap_map, tagContent]
  congr 1
  refine List.flatMap_congr fun entry _ => ?_
  rw [Utf8.encode_append, Utf8.encode_append, Utf8.encode_append, Utf8.encode_append,
    show Utf8.encode " " = [0x20] from rfl, show Utf8.encode "=\x22" = [0x3D, 0x22] from rfl,
    show Utf8.encode "\x22" = [0x22] from rfl, attributeBytes]
  simp only [List.append_assoc, List.cons_append, List.nil_append]

theorem encode_qualifiedTag_of_some {head : Head} {written : String}
    (prefixed : head.nsPrefix = some written) :
    Utf8.encode head.qualifiedTag = Utf8.encode written ++ 0x3A :: Utf8.encode head.tag := by
  rw [Head.qualifiedTag, prefixed, Utf8.encode_append, Utf8.encode_append, List.append_assoc]
  rfl

theorem encode_qualifiedTag_of_none {head : Head} (bare : head.nsPrefix = none) :
    Utf8.encode head.qualifiedTag = Utf8.encode head.tag := by
  rw [Head.qualifiedTag, bare]

/-- **A writable head is proper.** -/
theorem Writable.proper {head : Head} (writable : Writable head) : Proper head := by
  have tagName := isName_of_isLocalName writable.tag
  have tagPlain := plain_encode tagName
  have noColon : ∀ written ∈ head.nsPrefix, 0x3A ∉ Utf8.encode written :=
    fun written prefixed => colon_not_mem_encode (writable.nsPrefix written prefixed)
  have bare : head.nsPrefix = none → 0x3A ∉ Utf8.encode head.tag :=
    fun _ => colon_not_mem_encode writable.tag
  cases prefixed : head.nsPrefix with
  | none =>
    have name := encode_qualifiedTag_of_none prefixed
    exact ⟨name ▸ tagPlain, name ▸ encode_ne_nil tagName, noColon, bare, writable.names⟩
  | some written =>
    have name := encode_qualifiedTag_of_some prefixed
    refine ⟨?_, ?_, noColon, bare, writable.names⟩
    · rw [name]
      exact (plain_encode (isName_of_isLocalName (writable.nsPrefix written prefixed))).append
        (plain_cons_iff.mpr ⟨by decide, tagPlain⟩)
    · rw [name]
      simp

theorem isKey_of_isName {text : String} (name : isName text = true) : IsKey (Utf8.encode text) := by
  have plain := plain_encode name
  obtain ⟨first, rest, shape⟩ := List.exists_cons_of_ne_nil (encode_ne_nil name)
  rw [shape] at plain
  refine ⟨first, rest, shape, plain.notSpace first List.mem_cons_self, fun byte member => ?_⟩
  have inside := List.mem_cons_of_mem first member
  exact ⟨fun same => plain 0x3D (by decide) (same ▸ inside), plain.notSpace byte inside⟩

theorem Proper.legible {head : Head} (proper : Proper head) : Legible head where
  name := proper.plain.notSpace
  begins := by
    intro first found kind
    have member := List.mem_of_head? found
    refine proper.plain first ?_ member
    revert kind
    simp only [marks, List.mem_cons, List.not_mem_nil, or_false]
    tauto
  nsPrefix := proper.nsPrefix
  tag := proper.tag
  keys name member := isKey_of_isName (proper.names name member)

theorem Proper.nonempty {head : Head} (proper : Proper head) : tagContent head ≠ [] :=
  fun empty => proper.named (List.append_eq_nil_iff.mp empty).1

/-! ### The closing bracket -/

/-- Bytes after which the search for the closing bracket stands where it stood before them. -/
def Closed (bytes : List UInt8) : Prop :=
  ∀ rest, closeTag none (bytes ++ rest) =
    (closeTag none rest).map fun sides => (bytes ++ sides.1, sides.2)

theorem Closed.append {front back : List UInt8} (closedFront : Closed front)
    (closedBack : Closed back) : Closed (front ++ back) := by
  intro rest
  rw [List.append_assoc, closedFront, closedBack, Option.map_map]
  simp only [Function.comp_def, List.append_assoc]

theorem Closed.flatMap {α : Type} {bytes : α → List UInt8} {items : List α}
    (closed : ∀ item ∈ items, Closed (bytes item)) : Closed (items.flatMap bytes) := by
  induction items with
  | nil => intro rest; simp
  | cons item items ih =>
    rw [List.flatMap_cons]
    exact (closed item List.mem_cons_self).append
      (ih fun other member => closed other (List.mem_cons_of_mem item member))

theorem closed_single {byte : UInt8} (other : byte ∉ [0x3E, 0x22, 0x27]) : Closed [byte] := by
  simp only [List.mem_cons, List.not_mem_nil, or_false, not_or] at other
  obtain ⟨noBracket, noQuote⟩ := other
  rw [← not_or] at noQuote
  intro rest
  rw [List.singleton_append, closeTag, if_neg noBracket, if_neg noQuote]
  rfl

theorem closed_slash : Closed [0x2F] :=
  closed_single (by decide)

theorem closed_of_plain {bytes : List UInt8} (plain : Plain bytes) : Closed bytes := by
  induction bytes with
  | nil => intro rest; simp
  | cons byte bytes ih =>
    obtain ⟨unmarked, plain⟩ := plain_cons_iff.mp plain
    have other : byte ∉ [0x3E, 0x22, 0x27] := fun member => unmarked (by
      revert member
      simp only [marks, List.mem_cons, List.not_mem_nil, or_false]
      tauto)
    exact (closed_single other).append (ih plain)

theorem closeTag_quoted {value : List UInt8} (unquoted : 0x22 ∉ value) (rest : List UInt8) :
    closeTag (some 0x22) (value ++ 0x22 :: rest) =
      (closeTag none rest).map fun sides => (value ++ 0x22 :: sides.1, sides.2) := by
  induction value with
  | nil => rfl
  | cons byte value ih =>
    rw [List.mem_cons, not_or] at unquoted
    rw [List.cons_append, closeTag, if_neg fun same => unquoted.1 same.symm, ih unquoted.2, keep,
      Option.map_map]
    rfl

/-- A quoted value hides the brackets in it. -/
theorem closed_quoted {value : List UInt8} (unquoted : 0x22 ∉ value) :
    Closed (0x22 :: (value ++ [0x22])) := by
  intro rest
  rw [List.cons_append, List.append_assoc, List.singleton_append, closeTag, if_neg (by decide),
    if_pos (Or.inl rfl), closeTag_quoted unquoted, keep, Option.map_map]
  simp only [Function.comp_def, List.append_assoc, List.cons_append, List.nil_append]

theorem closed_attributeBytes {entry : String × String} (name : isName entry.1 = true) :
    Closed (attributeBytes entry) := by
  have value := not_mem_encode_escape (show 0x22 ∈ delimiters by decide) entry.2
  have blank : Closed [0x20] := closed_single (by decide)
  have equals : Closed [0x3D] := closed_single (by decide)
  have shape : attributeBytes entry = [0x20] ++ Utf8.encode entry.1 ++
      ([0x3D] ++ 0x22 :: (Utf8.encode (escape entry.2) ++ [0x22])) := by
    simp only [attributeBytes, List.append_assoc, List.cons_append, List.nil_append]
  rw [shape]
  exact (blank.append (closed_of_plain (plain_encode name))).append
    (equals.append (closed_quoted value))

/-- **The content of a tag is closed.** -/
theorem closed_tagContent {head : Head} (proper : Proper head) : Closed (tagContent head) :=
  (closed_of_plain proper.plain).append (Closed.flatMap fun entry member =>
    closed_attributeBytes (proper.names entry.1 (List.mem_map_of_mem member)))

/-! ### Quotes -/

/-- The quote that is open behind the bytes, if no bracket closes them. -/
def quoteAfter : Option UInt8 → List UInt8 → Option (Option UInt8)
  | quote, [] => some quote
  | some mark, byte :: rest => quoteAfter (if byte = mark then none else some mark) rest
  | none, byte :: rest =>
    if byte = 0x3E then none
    else quoteAfter (if byte = 0x22 ∨ byte = 0x27 then some byte else none) rest

theorem quoteAfter_append (quote : Option UInt8) (front back : List UInt8) :
    quoteAfter quote (front ++ back) =
      (quoteAfter quote front).bind fun later => quoteAfter later back := by
  induction front generalizing quote with
  | nil => cases quote <;> rfl
  | cons byte front ih =>
    cases quote with
    | some mark => exact ih _
    | none =>
      rw [List.cons_append, quoteAfter, quoteAfter]
      split
      · rfl
      · exact ih _

/-- A byte that is neither a bracket nor a quote leaves the quote that is open. -/
theorem quoteAfter_of_other {bytes : List UInt8}
    (other : ∀ byte ∈ bytes, byte ∉ [0x3E, 0x22, 0x27]) (quote : Option UInt8)
    (isQuote : ∀ mark ∈ quote, mark = 0x22 ∨ mark = 0x27) :
    quoteAfter quote bytes = some quote := by
  induction bytes with
  | nil => cases quote <;> rfl
  | cons byte bytes ih =>
    obtain ⟨here, later⟩ := List.forall_mem_cons.mp other
    simp only [List.mem_cons, List.not_mem_nil, or_false, not_or] at here
    cases quote with
    | none =>
      rw [quoteAfter, if_neg here.1, if_neg (not_or.mpr here.2)]
      exact ih later
    | some mark =>
      have differs : byte ≠ mark := by
        rintro rfl
        exact not_or.mpr here.2 (isQuote byte rfl)
      rw [quoteAfter, if_neg differs]
      exact ih later

/-- The quote that is open is always one of the two. -/
theorem isQuote_of_quoteAfter {quote later : Option UInt8} {bytes : List UInt8}
    (isQuote : ∀ mark ∈ quote, mark = 0x22 ∨ mark = 0x27)
    (found : quoteAfter quote bytes = some later) : ∀ mark ∈ later, mark = 0x22 ∨ mark = 0x27 := by
  induction bytes generalizing quote with
  | nil =>
    cases quote <;> exact Option.some.inj found ▸ isQuote
  | cons byte bytes ih =>
    cases quote with
    | some mark =>
      refine ih ?_ found
      intro other member
      split at member
      · exact nomatch member
      · exact Option.some.inj member ▸ isQuote mark rfl
    | none =>
      rw [quoteAfter] at found
      split at found
      · exact nomatch found
      · refine ih ?_ found
        intro other member
        split at member
        · rename_i either
          exact Option.some.inj member ▸ either
        · exact nomatch member

/-- The search for the bracket goes on with the quote that is open. -/
theorem closeTag_append {quote later : Option UInt8} {front : List UInt8}
    (found : quoteAfter quote front = some later) (rest : List UInt8) :
    closeTag quote (front ++ rest) =
      (closeTag later rest).map fun sides => (front ++ sides.1, sides.2) := by
  induction front generalizing quote with
  | nil =>
    obtain rfl : quote = later := by cases quote <;> exact Option.some.inj found
    simp
  | cons byte front ih =>
    cases quote with
    | some mark =>
      rw [List.cons_append, closeTag, ih found, keep, Option.map_map]
      rfl
    | none =>
      rw [quoteAfter] at found
      split at found
      · cases found
      · rename_i noBracket
        rw [List.cons_append, closeTag, if_neg noBracket, ih found, keep, Option.map_map]
        rfl

/-- Where the bracket is found, no quote is open. -/
theorem quoteAfter_of_closeTag {quote : Option UInt8} {bytes inside rest : List UInt8}
    (found : closeTag quote bytes = some (inside, rest)) :
    quoteAfter quote inside = some none := by
  induction bytes generalizing quote inside with
  | nil => cases quote <;> exact nomatch found
  | cons byte bytes ih =>
    have kept : ∀ later, keep byte (closeTag later bytes) = some (inside, rest) →
        ∃ others, inside = byte :: others ∧ quoteAfter later others = some none := by
      intro later whole
      obtain ⟨⟨others, after⟩, closed, same⟩ := Option.map_eq_some_iff.mp whole
      obtain ⟨rfl, rfl⟩ := Prod.mk.inj same
      exact ⟨others, rfl, ih closed⟩
    cases quote with
    | some mark =>
      rw [closeTag] at found
      obtain ⟨others, rfl, closed⟩ := kept _ found
      exact closed
    | none =>
      rw [closeTag] at found
      split at found
      · obtain ⟨rfl, rfl⟩ := Prod.mk.inj (Option.some.inj found)
        rfl
      · rename_i noBracket
        obtain ⟨others, rfl, closed⟩ := kept _ found
        rw [quoteAfter, if_neg noBracket]
        exact closed

/-- **Bytes are closed when no bracket closes them and no quote is open behind them.** -/
theorem closed_iff {bytes : List UInt8} : Closed bytes ↔ quoteAfter none bytes = some none := by
  constructor
  · intro closed
    have found := closed [0x3E]
    rw [closeTag, if_pos rfl, Option.map_some, List.append_nil] at found
    exact quoteAfter_of_closeTag found
  · exact closeTag_append

instance (bytes : List UInt8) : Decidable (Closed bytes) :=
  decidable_of_iff _ closed_iff.symm

/-- Bytes between others that leave every quote are closed when the whole is. -/
theorem Closed.middle {front bytes back : List UInt8} (closed : Closed (front ++ bytes ++ back))
    (plainFront : ∀ byte ∈ front, byte ∉ [0x3E, 0x22, 0x27])
    (plainBack : ∀ byte ∈ back, byte ∉ [0x3E, 0x22, 0x27]) : Closed bytes := by
  have noQuote : ∀ mark ∈ (none : Option UInt8), mark = 0x22 ∨ mark = 0x27 :=
    fun _ member => nomatch member
  have whole := closed_iff.mp closed
  rw [quoteAfter_append, quoteAfter_append, quoteAfter_of_other plainFront none noQuote,
    Option.bind_some, Option.bind_eq_some_iff] at whole
  obtain ⟨later, here, there⟩ := whole
  rw [quoteAfter_of_other plainBack later (isQuote_of_quoteAfter noQuote here)] at there
  exact closed_iff.mpr (here.trans there)

/-! ### The kinds of tags -/

/-- What begins no other kind of markup is a tag. -/
theorem form_tag {bytes : List UInt8} (nonempty : bytes ≠ [])
    (begins : ∀ first ∈ bytes.head?, first ≠ 0x21 ∧ first ≠ 0x3F) : form bytes = .ok .tag := by
  unfold form
  split
  · exact absurd rfl nonempty
  · exact absurd rfl (begins 0x21 rfl).1
  · exact absurd rfl (begins 0x3F rfl).2
  · rfl

/-- Closed bytes that begin no other kind of markup are the inside of a tag. -/
theorem enclosed_tag {bytes : List UInt8} (closed : Closed bytes)
    (begins : ∀ first ∈ bytes.head?, first ≠ 0x21 ∧ first ≠ 0x3F) (rest : List UInt8) :
    enclosed (bytes ++ 0x3E :: rest) = .ok (.tag, bytes, rest) := by
  have close : Form.close (bytes ++ 0x3E :: rest) .tag = some (bytes, rest) := by
    rw [Form.close, closed, closeTag, if_pos rfl, Option.map_some, List.append_nil]
  have isTag : form (bytes ++ 0x3E :: rest) = .ok .tag := by
    refine form_tag (by simp) fun first found => ?_
    cases bytes with
    | nil =>
      obtain rfl := Option.some.inj found
      decide
    | cons byte bytes => exact begins first found
  simp only [enclosed, isTag, bind, Except.bind, close]

section Pieces

variable {head : Head}

theorem Proper.content_ends (proper : Proper head) :
    (tagContent head).getLast? ≠ some 0x2F := by
  intro last
  rcases List.eq_nil_or_concat head.attributes.entries with none | ⟨entries, entry, shape⟩
  · rw [tagContent, none, List.flatMap_nil, List.append_nil] at last
    exact proper.plain 0x2F (by decide) (List.mem_of_getLast? last)
  · rw [tagContent, shape, List.concat_eq_append, List.flatMap_append, List.flatMap_singleton,
      attributeBytes, ← List.append_assoc, ← List.append_assoc, List.getLast?_concat] at last
    exact absurd (Option.some.inj last) (by decide)

theorem Proper.closed_name (proper : Proper head) : Closed (Utf8.encode head.qualifiedTag) :=
  closed_of_plain proper.plain

variable (legible : Legible head)

include legible

/-- The content of a tag begins with the name, or with the blank before an attribute. -/
theorem Legible.content_begins : ∀ first ∈ (tagContent head).head?,
    first ∉ [0x2F, 0x21, 0x3F] := by
  intro first found
  unfold tagContent at found
  cases name : Utf8.encode head.qualifiedTag with
  | cons byte bytes =>
    rw [name] at found
    exact legible.begins first (by rw [name]; exact found)
  | nil =>
    rw [name, List.nil_append] at found
    cases attributes : head.attributes.entries with
    | nil =>
      rw [attributes] at found
      exact nomatch found
    | cons entry entries =>
      rw [attributes] at found
      obtain rfl := Option.some.inj found
      decide

theorem Legible.noDeclaration : ∀ first ∈ (tagContent head).head?,
    first ≠ 0x21 ∧ first ≠ 0x3F := by
  intro first found
  have other := legible.content_begins first found
  simp only [List.mem_cons, List.not_mem_nil, or_false, not_or] at other
  exact other.2

/-- The start tag of a head is cut out as such. -/
theorem enclosed_start (closed : Closed (tagContent head)) (rest : List UInt8) :
    enclosed (tagContent head ++ 0x3E :: rest) = .ok (.tag, tagContent head, rest) :=
  enclosed_tag closed legible.noDeclaration rest

/-- So is the tag of a head without content. -/
theorem enclosed_empty (closed : Closed (tagContent head)) (rest : List UInt8) :
    enclosed (tagContent head ++ 0x2F :: 0x3E :: rest) =
      .ok (.tag, tagContent head ++ [0x2F], rest) := by
  have begins : ∀ first ∈ (tagContent head ++ [0x2F]).head?, first ≠ 0x21 ∧ first ≠ 0x3F := by
    intro first found
    have other := legible.noDeclaration
    cases content : tagContent head with
    | nil =>
      rw [content] at found
      obtain rfl := Option.some.inj found
      decide
    | cons byte bytes =>
      rw [content] at found other
      exact other first found
  have cut := enclosed_tag (closed.append closed_slash) begins rest
  rw [List.append_assoc] at cut
  exact cut

omit legible in
/-- And the end tag. -/
theorem enclosed_end (closed : Closed (Utf8.encode head.qualifiedTag)) (rest : List UInt8) :
    enclosed (0x2F :: (Utf8.encode head.qualifiedTag ++ 0x3E :: rest)) =
      .ok (.tag, 0x2F :: Utf8.encode head.qualifiedTag, rest) := by
  refine enclosed_tag (closed_slash.append closed) (fun first found => ?_) rest
  obtain rfl := Option.some.inj found
  decide

theorem tagName_tagContent : tagName (tagContent head) = Utf8.encode head.qualifiedTag := by
  have bare : ∀ byte ∈ Utf8.encode head.qualifiedTag, (!isSpace byte) = true := by
    intro byte member
    rw [legible.name byte member, Bool.not_false]
  rw [tagName, tagContent, List.takeWhile_append_of_pos bare]
  cases head.attributes.entries with
  | nil => exact List.append_nil _
  | cons entry entries => exact List.append_nil _

theorem endTagName_qualifiedTag :
    endTagName (Utf8.encode head.qualifiedTag) = Utf8.encode head.qualifiedTag := by
  unfold endTagName
  split
  · rfl
  · exact dropTrailing_of_last fun last found => legible.name last (List.mem_of_getLast? found)

theorem tagPiece_start (full : (tagContent head).getLast? ≠ some 0x2F)
    (openNames : List (List UInt8)) (stop : Nat) :
    tagPiece openNames (tagContent head) stop =
      .ok (.startTag (tagContent head) stop, Utf8.encode head.qualifiedTag :: openNames) := by
  have noEnd : (tagContent head).head? ≠ some 0x2F := fun found =>
    legible.content_begins 0x2F found List.mem_cons_self
  rw [tagPiece, if_neg noEnd, if_neg full, tagName_tagContent legible]

theorem tagPiece_empty (nonempty : tagContent head ≠ []) (openNames : List (List UInt8))
    (stop : Nat) :
    tagPiece openNames (tagContent head ++ [0x2F]) stop =
      .ok (.emptyTag (tagContent head) stop, openNames) := by
  have noEnd : (tagContent head ++ [0x2F]).head? ≠ some 0x2F := by
    rw [List.head?_append_of_ne_nil _ nonempty]
    exact fun found => legible.content_begins 0x2F found List.mem_cons_self
  rw [tagPiece, if_neg noEnd, if_pos List.getLast?_concat, List.dropLast_concat]

theorem tagPiece_end (outer : List (List UInt8)) (stop : Nat) :
    tagPiece (Utf8.encode head.qualifiedTag :: outer) (0x2F :: Utf8.encode head.qualifiedTag) stop =
      .ok (.endTag, outer) := by
  rw [tagPiece, if_pos List.head?_cons, List.tail_cons, endTagName_qualifiedTag legible]
  exact if_pos rfl

end Pieces

/-! ### Attributes -/

theorem nextKey_entry (position : Nat) {name : List UInt8} (isKey : IsKey name)
    (rest : List UInt8) :
    nextKey position (0x20 :: (name ++ 0x3D :: rest)) =
      .ok (some ⟨position + 1, name, position + 1 + name.length + 1, rest⟩) := by
  obtain ⟨first, others, rfl, noBlank, plain⟩ := isKey
  have inKey : ∀ byte ∈ others, (!(byte == 0x3D) && !isSpace byte) = true := by
    intro byte member
    obtain ⟨noEquals, bare⟩ := plain byte member
    rw [beq_eq_false_iff_ne.mpr noEquals, bare]
    rfl
  have blank : isSpace 0x20 = true := by decide
  have equals : isSpace 0x3D = false := by decide
  unfold nextKey
  simp only [List.cons_append, List.takeWhile_cons, List.dropWhile_cons, blank, noBlank, if_true,
    Bool.false_eq_true, if_false, List.takeWhile_append_of_pos inKey,
    List.dropWhile_append_of_pos inKey, equals, beq_self_eq_true, Bool.not_true, Bool.false_and,
    List.append_nil, List.length_cons, List.length_nil, Nat.zero_add, Nat.add_zero]

theorem nextValue_quoted (position : Nat) {value : List UInt8} (unquoted : 0x22 ∉ value)
    (rest : List UInt8) :
    nextValue position (0x22 :: (value ++ 0x22 :: rest)) =
      .ok (value, position + value.length + 2, rest) := by
  have inside : ∀ byte ∈ value, (byte != 0x22) = true := fun byte member =>
    bne_iff_ne.mpr fun same => unquoted (same ▸ member)
  have quote : isSpace 0x22 = false := by decide
  unfold nextValue
  simp only [List.takeWhile_cons, List.dropWhile_cons, quote, Bool.false_eq_true, if_false, true_or,
    if_true, List.takeWhile_append_of_pos inside, List.dropWhile_append_of_pos inside,
    bne_self_eq_false, List.append_nil, List.length_nil, Nat.add_zero]

theorem readAttributesFrom_step {seen : List (List UInt8 × Nat)} {attributes : Attributes}
    {position next : Nat} {bytes value rest : List UInt8} {key : Key}
    (keyFound : nextKey position bytes = .ok (some key)) (fresh : seen.lookup key.bytes = none)
    (valueFound : nextValue key.next key.rest = .ok (value, next, rest)) :
    readAttributesFrom seen attributes position bytes =
      (do
        let name ← (Utf8.decode key.bytes).mapError .key
        let text ← (readText value).mapError .value
        readAttributesFrom ((key.bytes, key.start) :: seen) (attributes.set name text) next
          rest) := by
  rw [readAttributesFrom]
  split <;> rename_i keyFound' <;> rw [keyFound] at keyFound' <;> cases keyFound'
  rw [fresh]
  dsimp only
  split <;> rename_i valueFound' <;> rw [valueFound] at valueFound' <;> cases valueFound'
  rfl

/-- An attribute is read into the attributes before it. -/
theorem readAttributesFrom_entry {seen : List (List UInt8 × Nat)} {entry : String × String}
    (isKey : IsKey (Utf8.encode entry.1)) (fresh : seen.lookup (Utf8.encode entry.1) = none)
    (attributes : Attributes) (position : Nat) (rest : List UInt8) :
    ∃ next, readAttributesFrom seen attributes position (attributeBytes entry ++ rest) =
      readAttributesFrom ((Utf8.encode entry.1, position + 1) :: seen)
        (attributes.set entry.1 entry.2) next rest := by
  have shape : attributeBytes entry ++ rest = 0x20 :: (Utf8.encode entry.1 ++ 0x3D ::
      0x22 :: (Utf8.encode (escape entry.2) ++ 0x22 :: rest)) := by
    simp only [attributeBytes, List.append_assoc, List.cons_append, List.nil_append]
  have unquoted := not_mem_encode_escape (show 0x22 ∈ delimiters by decide) entry.2
  have key := nextKey_entry position isKey
    (0x22 :: (Utf8.encode (escape entry.2) ++ 0x22 :: rest))
  have value := nextValue_quoted (position + 1 + (Utf8.encode entry.1).length + 1) unquoted rest
  refine ⟨position + 1 + (Utf8.encode entry.1).length + 1 +
    (Utf8.encode (escape entry.2)).length + 2, ?_⟩
  rw [shape, readAttributesFrom_step key fresh value, Utf8.decode_encode, readText_escape]
  rfl

theorem readAttributesFrom_nil (seen : List (List UInt8 × Nat)) (attributes : Attributes)
    (position : Nat) : readAttributesFrom seen attributes position [] = .ok attributes := by
  rw [readAttributesFrom]
  split <;> rename_i found <;> cases found
  rfl

theorem entries_set_of_not_mem {attributes : Attributes} {name : String} (value : String)
    (absent : name ∉ attributes.names) :
    (attributes.set name value).entries = attributes.entries ++ [(name, value)] := by
  rw [Attributes.set, dif_neg (show name ∉ attributes.entries.map Prod.fst from absent)]

theorem attributes_ext {first second : Attributes} (same : first.entries = second.entries) :
    first = second := by
  cases first
  cases second
  obtain rfl := same
  rfl

/-- **Attributes with names of their own are read in the order of writing.** -/
theorem readAttributesFrom_entries (entries : List (String × String)) :
    ∀ (seen : List (List UInt8 × Nat)) (attributes : Attributes) (position : Nat),
      (∀ entry ∈ entries, IsKey (Utf8.encode entry.1)) →
      (∀ entry ∈ entries, seen.lookup (Utf8.encode entry.1) = none) →
      (attributes.names ++ entries.map Prod.fst).Nodup →
      ∃ result, readAttributesFrom seen attributes position (entries.flatMap attributeBytes) =
        .ok result ∧ result.entries = attributes.entries ++ entries := by
  induction entries with
  | nil =>
    intro seen attributes position _ _ _
    exact ⟨attributes, readAttributesFrom_nil seen attributes position, (List.append_nil _).symm⟩
  | cons entry entries ih =>
    intro seen attributes position keys fresh distinct
    have absent : entry.1 ∉ attributes.names := fun present =>
      (List.nodup_append.mp distinct).2.2 entry.1 present entry.1 List.mem_cons_self rfl
    have later : entry.1 ∉ entries.map Prod.fst :=
      (List.nodup_cons.mp (List.nodup_append.mp distinct).2.1).1
    obtain ⟨next, step⟩ := readAttributesFrom_entry (keys entry List.mem_cons_self)
      (fresh entry List.mem_cons_self) attributes position (entries.flatMap attributeBytes)
    obtain ⟨result, read, shape⟩ := ih ((Utf8.encode entry.1, position + 1) :: seen)
      (attributes.set entry.1 entry.2) next
      (fun other member => keys other (List.mem_cons_of_mem entry member))
      (fun other member => by
        have differs : Utf8.encode other.1 ≠ Utf8.encode entry.1 := fun same =>
          later (Utf8.encode_injective same ▸ List.mem_map_of_mem member)
        rw [List.lookup_cons, beq_eq_false_iff_ne.mpr differs]
        exact fresh other (List.mem_cons_of_mem entry member))
      (by
        rw [Attributes.names_set_of_not_mem entry.2 absent, List.append_assoc]
        exact distinct)
    refine ⟨result, by rw [List.flatMap_cons, step, read], ?_⟩
    rw [shape, entries_set_of_not_mem entry.2 absent, List.append_assoc]
    rfl

/-! ### Heads -/

theorem readAttributes_entries {head : Head} (legible : Legible head) (nameLength : Nat) :
    readAttributes nameLength (head.attributes.entries.flatMap attributeBytes) =
      .ok head.attributes := by
  obtain ⟨result, read, shape⟩ := readAttributesFrom_entries head.attributes.entries []
    Attributes.empty nameLength
    (fun entry member => legible.keys entry.1 (List.mem_map_of_mem member))
    (fun _ _ => rfl) head.attributes.nodup
  rw [readAttributes, read, attributes_ext (shape.trans (List.nil_append _))]

/-- **The content of a tag is read back as the head**, without a text and at its place. -/
theorem readHead_tagContent {head : Head} (legible : Legible head) (span : Span) :
    readHead (tagContent head) span = .ok { head with text := none, span := some span } := by
  have name := tagName_tagContent legible
  have behind : (tagContent head).drop (Utf8.encode head.qualifiedTag).length =
      head.attributes.entries.flatMap attributeBytes := by
    rw [tagContent, List.drop_left]
  unfold readHead
  dsimp only
  rw [name, behind, readAttributes_entries legible]
  cases prefixed : head.nsPrefix with
  | none =>
    rw [encode_qualifiedTag_of_none prefixed,
      cutFirst?_of_not_mem (legible.tag prefixed)]
    dsimp only
    rw [Utf8.decode_encode]
    rfl
  | some written =>
    rw [encode_qualifiedTag_of_some prefixed,
      cutFirst?_append (legible.nsPrefix written prefixed)]
    dsimp only
    rw [Utf8.decode_encode, Utf8.decode_encode]
    rfl

end EntityModel.Xml
