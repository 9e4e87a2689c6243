import EntityModel.Proofs.Text.Encoding
import EntityModel.Proofs.Text.Parts
import EntityModel.Xml.StartTag

/-
**Names, texts and their bytes.**

What the writer puts into markup never looks like markup itself:

* `isName`, `isLocalName` — the names of the format. Their bytes are plain (`plain_encode`): no
  blank, no bracket, no quote, nothing that begins or ends a kind of markup.
* `not_mem_encode_escape` — an escaped text has neither brackets nor quotes, and it is read back as
  the text it was (`readText_escape`).
* `Tight` — the texts without blanks at their ends. Escaped, they are runs of text that the cut into
  pieces takes as they are (`run_escape`).
* `trimmed` — what is left of a text without the blanks around it, if anything is. It is tight, and
  a text is tight when nothing is lost (`trimmed_eq_some_self_iff`).
-/

namespace EntityModel.Xml

open EntityModel.Text

/-! ### The names of the format -/

/-- The code points that may begin a name, as ranges with both ends included. -/
def nameStartRanges : List (Nat × Nat) :=
  [(0x3A, 0x3A), (0x41, 0x5A), (0x5F, 0x5F), (0x61, 0x7A), (0xC0, 0xD6), (0xD8, 0xF6),
    (0xF8, 0x2FF), (0x370, 0x37D), (0x37F, 0x1FFF), (0x200C, 0x200D), (0x2070, 0x218F),
    (0x2C00, 0x2FEF), (0x3001, 0xD7FF), (0xF900, 0xFDCF), (0xFDF0, 0xFFFD), (0x10000, 0xEFFFF)]

/-- The code points that may follow in a name but not begin it. -/
def nameFollowRanges : List (Nat × Nat) :=
  [(0x2D, 0x2E), (0x30, 0x39), (0xB7, 0xB7), (0x300, 0x36F), (0x203F, 0x2040)]

/-- Whether the character lies in one of the ranges. -/
def inRanges (ranges : List (Nat × Nat)) (c : Char) : Bool :=
  ranges.any fun range => range.1 ≤ c.toNat && c.toNat ≤ range.2

/-- Whether the character may follow in a name. -/
def isNameChar (c : Char) : Bool :=
  inRanges nameStartRanges c || inRanges nameFollowRanges c

/-- Whether the text is a name. -/
def isName (text : String) : Bool :=
  match text.toList with
  | [] => false
  | first :: rest => inRanges nameStartRanges first && rest.all isNameChar

/-- Whether the text is a name without a colon. -/
def isLocalName (text : String) : Bool :=
  isName text && !text.toList.contains ':'

theorem isNameChar_of_isName {text : String} (name : isName text = true) :
    ∀ c ∈ text.toList, isNameChar c = true := by
  unfold isName at name
  split at name
  · exact absurd name Bool.false_ne_true
  · rename_i first rest shape
    rw [Bool.and_eq_true] at name
    rw [shape, List.forall_mem_cons]
    exact ⟨by rw [isNameChar, name.1, Bool.true_or], List.all_eq_true.mp name.2⟩

theorem isName_of_isLocalName {text : String} (name : isLocalName text = true) :
    isName text = true :=
  ((Bool.and_eq_true _ _).mp name).1

theorem encode_ne_nil {text : String} (name : isName text = true) : Utf8.encode text ≠ [] := by
  intro empty
  obtain rfl : text = "" := Utf8.encode_injective empty
  exact absurd name (by decide)

/-! ### Plain bytes -/

/-- The bytes with a meaning in markup: blanks, brackets, quotes, and what tells the kinds of tags
apart. -/
def marks : List UInt8 :=
  [0x20, 0x09, 0x0D, 0x0A, 0x3C, 0x3E, 0x22, 0x27, 0x3D, 0x2F, 0x21, 0x3F]

/-- Bytes without any meaning in markup. -/
def Plain (bytes : List UInt8) : Prop :=
  ∀ mark ∈ marks, mark ∉ bytes

theorem plain_cons_iff {byte : UInt8} {bytes : List UInt8} :
    Plain (byte :: bytes) ↔ byte ∉ marks ∧ Plain bytes := by
  simp only [Plain, List.mem_cons, not_or]
  constructor
  · intro plain
    exact ⟨fun isMark => (plain byte isMark).1 rfl, fun mark isMark => (plain mark isMark).2⟩
  · rintro ⟨unmarked, plain⟩ mark isMark
    exact ⟨fun same => unmarked (same ▸ isMark), plain mark isMark⟩

theorem Plain.append {front back : List UInt8} (plainFront : Plain front)
    (plainBack : Plain back) : Plain (front ++ back) := by
  intro mark isMark member
  rcases List.mem_append.mp member with inFront | inBack
  · exact plainFront mark isMark inFront
  · exact plainBack mark isMark inBack

theorem isSpace_iff (byte : UInt8) :
    isSpace byte = true ↔ byte ∈ [0x20, 0x09, 0x0D, 0x0A] := by
  simp [isSpace, or_assoc]

/-- No byte of plain bytes is a blank. -/
theorem Plain.notSpace {bytes : List UInt8} (plain : Plain bytes) :
    ∀ byte ∈ bytes, isSpace byte = false := by
  intro byte member
  rw [← Bool.not_eq_true, isSpace_iff]
  intro blank
  refine plain byte ?_ member
  revert blank
  simp only [marks, List.mem_cons, List.not_mem_nil, or_false]
  tauto

/-- **The bytes of a name are plain.** -/
theorem plain_encode {text : String} (name : isName text = true) : Plain (Utf8.encode text) := by
  have foreign : ∀ mark ∈ marks,
      mark.toNat < 0x80 ∧ isNameChar (Char.ofNat mark.toNat) = false := by
    decide +kernel
  intro mark isMark member
  obtain ⟨ascii, stranger⟩ := foreign mark isMark
  have inside := isNameChar_of_isName name _ ((Utf8.mem_encodeChars ascii).mp member)
  exact absurd (inside.symm.trans stranger) (by decide)

theorem colon_not_mem_encode {text : String} (name : isLocalName text = true) :
    0x3A ∉ Utf8.encode text := by
  intro member
  have inside := (Utf8.mem_encodeChars (by decide)).mp member
  rw [isLocalName, Bool.and_eq_true, Bool.not_eq_true'] at name
  exact absurd (List.contains_iff_mem.mpr inside) (by simpa using name.2)

/-! ### Escaped texts -/

theorem encode_escape (text : String) :
    Utf8.encode (escape text) = text.toList.flatMap fun c => Utf8.encodeChars (escapeChar c) := by
  rw [escape, Utf8.encode_ofList]
  exact List.flatMap_assoc

/-- What a character is escaped to is made of named characters alone, or is that character. -/
theorem escapeChar_cases (c : Char) :
    (∃ entity ∈ entities, escapeChar c = '&' :: entity.1 ++ [';']) ∨
      escapeChar c = [c] ∧ ∀ entity ∈ entities, entity.2 ≠ c := by
  by_cases named : ∃ entity ∈ entities, entity.2 = c
  · obtain ⟨entity, member, rfl⟩ := named
    exact Or.inl ⟨entity, member, escapeChar_of_entity member⟩
  · have plain : ∀ entity ∈ entities, entity.2 ≠ c := fun entity member same =>
      named ⟨entity, member, same⟩
    exact Or.inr ⟨escapeChar_of_plain plain, plain⟩

/-- The brackets and the quotes. -/
def delimiters : List UInt8 := [0x3C, 0x3E, 0x22, 0x27]

/-- **An escaped text has neither brackets nor quotes.** -/
theorem not_mem_encode_escape {byte : UInt8} (delimiter : byte ∈ delimiters) (text : String) :
    byte ∉ Utf8.encode (escape text) := by
  have known : ∀ byte ∈ delimiters, byte.toNat < 0x80 ∧
      (∀ entity ∈ entities, Char.ofNat byte.toNat ∉ '&' :: entity.1 ++ [';']) ∧
      ∃ entity ∈ entities, entity.2 = Char.ofNat byte.toNat := by
    decide +kernel
  obtain ⟨ascii, unnamed, entity, isEntity, meant⟩ := known byte delimiter
  rw [encode_escape, List.mem_flatMap]
  rintro ⟨c, -, inside⟩
  rw [Utf8.mem_encodeChars ascii] at inside
  rcases escapeChar_cases c with ⟨other, isOther, shape⟩ | ⟨shape, plain⟩
  · rw [shape] at inside
    exact unnamed other isOther inside
  · rw [shape, List.mem_singleton] at inside
    exact plain entity isEntity (meant.trans inside)

/-- **An escaped text is read back.** -/
theorem readText_escape (text : String) : readText (Utf8.encode (escape text)) = .ok text := by
  have resolved : resolve (escape text) = .ok text := by
    rw [resolve, escape, String.toList_ofList, resolveFrom_escape]
    exact congrArg Except.ok String.ofList_toList
  rw [readText, Utf8.decode_encode]
  show (resolve (escape text)).mapError TextFault.reference = .ok text
  rw [resolved]
  rfl

/-! ### Runs of text -/

/-- The blanks as characters. -/
def spaces : List Char := [' ', '\t', '\r', '\n']

/-- A text that is not empty and has no blank at either end. -/
structure Tight (text : String) : Prop where
  nonempty : text ≠ ""
  front : ∀ first ∈ text.toList.head?, first ∉ spaces
  back : ∀ last ∈ text.toList.getLast?, last ∉ spaces

instance (text : String) : Decidable (Tight text) :=
  decidable_of_iff
    (text ≠ "" ∧ (text.toList.head?.all fun first => !spaces.contains first) = true ∧
      (text.toList.getLast?.all fun last => !spaces.contains last) = true)
    (by
      simp only [Option.all_eq_true, Bool.not_eq_true', List.contains_eq_mem,
        decide_eq_false_iff_not]
      exact ⟨fun ends => ⟨ends.1, ends.2.1, ends.2.2⟩,
        fun tight => ⟨tight.nonempty, tight.front, tight.back⟩⟩)

/-- The bytes of a text between tags, just as the cut into pieces yields them. -/
structure Run (bytes : List UInt8) : Prop where
  begins : ∃ first rest, bytes = first :: rest ∧ isSpace first = false
  ends : dropTrailing isSpace bytes = bytes
  unbroken : 0x3C ∉ bytes

theorem encodeChars_escapeChar_ne_nil (c : Char) : Utf8.encodeChars (escapeChar c) ≠ [] := by
  have single : ∀ other chars, Utf8.encodeChars (other :: chars) ≠ [] := by
    intro other chars empty
    exact String.utf8EncodeChar_ne_nil (List.flatMap_eq_nil_iff.mp empty other List.mem_cons_self)
  rcases escapeChar_cases c with ⟨entity, -, shape⟩ | ⟨shape, -⟩ <;> rw [shape] <;>
    exact single _ _

/-- The bytes that a character other than a blank is escaped to are no blanks. -/
theorem notSpace_of_mem_escapeChar {c : Char} (bare : c ∉ spaces) {byte : UInt8}
    (member : byte ∈ Utf8.encodeChars (escapeChar c)) : isSpace byte = false := by
  have known : ∀ byte : UInt8, byte ∈ [0x20, 0x09, 0x0D, 0x0A] → byte.toNat < 0x80 ∧
      Char.ofNat byte.toNat ∈ spaces ∧
      ∀ entity ∈ entities, Char.ofNat byte.toNat ∉ '&' :: entity.1 ++ [';'] := by
    intro byte blank
    simp only [List.mem_cons, List.not_mem_nil, or_false] at blank
    rcases blank with rfl | rfl | rfl | rfl <;> decide
  rw [← Bool.not_eq_true, isSpace_iff]
  intro blank
  obtain ⟨ascii, isSpace, unnamed⟩ := known byte blank
  rw [Utf8.mem_encodeChars ascii] at member
  rcases escapeChar_cases c with ⟨entity, isEntity, shape⟩ | ⟨shape, -⟩
  · rw [shape] at member
    exact unnamed entity isEntity member
  · rw [shape, List.mem_singleton] at member
    exact bare (member ▸ isSpace)

/-- **A text without blanks at its ends, escaped, is a run of text.** -/
theorem run_escape {text : String} (tight : Tight text) : Run (Utf8.encode (escape text)) where
  begins := by
    rw [encode_escape]
    cases shape : text.toList with
    | nil => exact absurd (String.toList_eq_nil_iff.mp shape) tight.nonempty
    | cons c chars =>
      have bare : c ∉ spaces := tight.front c (by rw [shape]; rfl)
      obtain ⟨first, rest, front⟩ := List.exists_cons_of_ne_nil (encodeChars_escapeChar_ne_nil c)
      rw [List.flatMap_cons, front]
      exact ⟨first, _, rfl, notSpace_of_mem_escapeChar bare (front ▸ List.mem_cons_self)⟩
  ends := by
    rw [encode_escape]
    rcases List.eq_nil_or_concat text.toList with empty | ⟨chars, c, shape⟩
    · exact absurd (String.toList_eq_nil_iff.mp empty) tight.nonempty
    · rw [List.concat_eq_append] at shape
      have bare : c ∉ spaces := tight.back c (by rw [shape, List.getLast?_concat]; rfl)
      rw [shape, List.flatMap_append, List.flatMap_singleton]
      refine dropTrailing_of_last fun last found => notSpace_of_mem_escapeChar bare ?_
      rw [List.getLast?_append_of_ne_nil _ (encodeChars_escapeChar_ne_nil c)] at found
      exact List.mem_of_getLast? found
  unbroken := not_mem_encode_escape (by decide) text

/-! ### Texts without the blanks around them -/

/-- The text without the blanks around it; none if nothing else is in it. -/
def trimmed (text : String) : Option String :=
  match dropAround spaces.contains text.toList with
  | [] => none
  | core => some (String.ofList core)

theorem trimmed_eq_some_iff {text core : String} : trimmed text = some core ↔
    core ≠ "" ∧ dropAround spaces.contains text.toList = core.toList := by
  unfold trimmed
  split
  · rename_i empty
    rw [empty]
    constructor
    · exact fun found => nomatch found
    · rintro ⟨nonempty, same⟩
      exact absurd (String.toList_eq_nil_iff.mp same.symm) nonempty
  · rename_i nonempty
    constructor
    · intro found
      obtain rfl := Option.some.inj found
      refine ⟨fun empty => nonempty ?_, String.toList_ofList.symm⟩
      have none := congrArg String.toList empty
      rwa [String.toList_ofList] at none
    · rintro ⟨_, same⟩
      rw [same, String.ofList_toList]

theorem trimmed_eq_none_iff {text : String} :
    trimmed text = none ↔ ∀ c ∈ text.toList, c ∈ spaces := by
  have blank : dropAround spaces.contains text.toList = [] ↔ ∀ c ∈ text.toList, c ∈ spaces := by
    rw [dropAround_eq_nil_iff]
    simp only [List.contains_iff_mem]
  unfold trimmed
  split
  · rename_i empty
    exact iff_of_true rfl (blank.mp empty)
  · rename_i nonempty
    exact iff_of_false (fun found => nomatch found) fun blanks => nonempty (blank.mpr blanks)

/-- A text stands between the blanks around it. -/
theorem exists_blanks_around {text core : String} (found : trimmed text = some core) :
    ∃ front back, text.toList = front ++ core.toList ++ back ∧ (∀ c ∈ front, c ∈ spaces) ∧
      ∀ c ∈ back, c ∈ spaces := by
  obtain ⟨front, back, whole, blankFront, blankBack⟩ :=
    exists_dropped spaces.contains text.toList
  rw [(trimmed_eq_some_iff.mp found).2] at whole
  exact ⟨front, back, whole, fun c member => List.contains_iff_mem.mp (blankFront c member),
    fun c member => List.contains_iff_mem.mp (blankBack c member)⟩

/-- **What is left of a text is tight.** -/
theorem tight_of_trimmed {text core : String} (found : trimmed text = some core) : Tight core := by
  obtain ⟨nonempty, same⟩ := trimmed_eq_some_iff.mp found
  refine ⟨nonempty, fun first isFirst blank => ?_, fun last isLast blank => ?_⟩
  · rw [← same] at isFirst
    have bare := not_drops_of_head?_dropAround isFirst
    exact Bool.false_ne_true (bare.symm.trans (List.contains_iff_mem.mpr blank))
  · rw [← same] at isLast
    have bare := not_drops_of_getLast?_dropAround isLast
    exact Bool.false_ne_true (bare.symm.trans (List.contains_iff_mem.mpr blank))

/-- **A text is tight when nothing of it is lost.** -/
theorem trimmed_eq_some_self_iff {text : String} : trimmed text = some text ↔ Tight text := by
  refine ⟨tight_of_trimmed, fun tight => trimmed_eq_some_iff.mpr ⟨tight.nonempty, ?_⟩⟩
  have bare : ∀ c, c ∉ spaces → spaces.contains c = false := fun c other =>
    Bool.eq_false_iff.mpr fun blank => other (List.contains_iff_mem.mp blank)
  exact dropAround_of_ends (fun first isFirst => bare first (tight.front first isFirst))
    fun last isLast => bare last (tight.back last isLast)

/-- Blanks are not escaped. -/
theorem isSpace_of_mem_escapeChar {c : Char} (blank : c ∈ spaces) {byte : UInt8}
    (member : byte ∈ Utf8.encodeChars (escapeChar c)) : isSpace byte = true := by
  simp only [spaces, List.mem_cons, List.not_mem_nil, or_false] at blank
  rcases blank with rfl | rfl | rfl | rfl
  all_goals
    obtain rfl := List.mem_singleton.mp member
    decide

theorem isSpace_of_mem_flatMap {chars : List Char} (blank : ∀ c ∈ chars, c ∈ spaces) :
    ∀ byte ∈ chars.flatMap fun c => Utf8.encodeChars (escapeChar c), isSpace byte = true := by
  intro byte member
  obtain ⟨c, inside, here⟩ := List.mem_flatMap.mp member
  exact isSpace_of_mem_escapeChar (blank c inside) here

/-- A text of blanks alone is written as blanks. -/
theorem isSpace_of_trimmed_eq_none {text : String} (none : trimmed text = none) :
    ∀ byte ∈ Utf8.encode (escape text), isSpace byte = true := by
  rw [encode_escape]
  exact isSpace_of_mem_flatMap (trimmed_eq_none_iff.mp none)

/-- Another text is written as a run of text between blanks. -/
theorem exists_run {text core : String} (found : trimmed text = some core) :
    ∃ front back, Utf8.encode (escape text) = front ++ (Utf8.encode (escape core) ++ back) ∧
      (∀ byte ∈ front, isSpace byte = true) ∧ ∀ byte ∈ back, isSpace byte = true := by
  obtain ⟨front, back, whole, blankFront, blankBack⟩ := exists_blanks_around found
  refine ⟨_, _, ?_, isSpace_of_mem_flatMap blankFront, isSpace_of_mem_flatMap blankBack⟩
  rw [encode_escape, encode_escape, whole, List.append_assoc, List.flatMap_append,
    List.flatMap_append]

end EntityModel.Xml
