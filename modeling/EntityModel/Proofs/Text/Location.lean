import Mathlib.Data.List.DropRight
import EntityModel.Proofs.Text.Decoding
import EntityModel.Text.Location

/-
**Positions counted on from one another, and positions of characters.**

A reader asks one cursor for one place after the other, and the cursor counts bytes. Neither shows:
the answers are those that counting from the start gives, and where the bytes are UTF-8 what is
counted are lines and characters.

* `Cursor.Stands` — the position of a cursor is that of its offset; `Cursor.moveTo_eq` — so it is
  wherever the cursor is moved.
* `Utf8.exists_lead` — the first byte of a character moves a column or a line, the others do not.
* `Position.atOffset_ne` — positions grow, and a byte that begins a character makes a difference.
* `Position.behind` — line and column told from the characters; `atOffset_of_boundary` — they are
  those of an offset between two characters.
* `Cursor.answers_located` — **the answers of a cursor do not depend on what it was asked before, and
  they count lines and characters.**
-/

namespace EntityModel

/-! ### The cursor -/

namespace Cursor

/-- The position of the cursor is that of its offset, which lies in the document. -/
structure Stands (document : List UInt8) (cursor : Cursor) : Prop where
  within : cursor.offset ≤ document.length
  counted : cursor.position = Position.atOffset document cursor.offset

theorem stands_origin (document : List UInt8) : Stands document origin :=
  ⟨Nat.zero_le _, rfl⟩

/-- **Wherever the cursor comes from, it arrives at the position of the offset.** -/
theorem moveTo_eq {document : List UInt8} {cursor : Cursor} (stands : Stands document cursor)
    (target : Nat) : cursor.moveTo document target =
      ⟨min target document.length, Position.atOffset document target⟩ := by
  have clamped : Position.atOffset document target =
      Position.atOffset document (min target document.length) := by
    unfold Position.atOffset
    rw [List.take_eq_take_min]
  rw [clamped]
  unfold moveTo
  dsimp only
  generalize min target document.length = place
  by_cases back : place < cursor.offset
  · rw [if_pos back]
    rfl
  · have split : document.take place = document.take cursor.offset ++
        (document.drop cursor.offset).take (place - cursor.offset) := by
      rw [← List.take_add, Nat.add_sub_cancel' (Nat.le_of_not_lt back)]
    rw [if_neg back, stands.counted, Position.atOffset, Position.atOffset, split,
      Position.advance_append]

theorem stands_moveTo {document : List UInt8} {cursor : Cursor} (stands : Stands document cursor)
    (target : Nat) : Stands document (cursor.moveTo document target) := by
  rw [moveTo_eq stands]
  refine ⟨Nat.min_le_right _ _, ?_⟩
  unfold Position.atOffset
  rw [List.take_eq_take_min]

/-- The positions that the cursor answers with when it is asked for one offset after the other. -/
def answers (document : List UInt8) : Cursor → List Nat → List Position
  | _, [] => []
  | cursor, target :: targets =>
    let there := cursor.moveTo document target
    there.position :: answers document there targets

theorem answers_eq {document : List UInt8} {cursor : Cursor} (stands : Stands document cursor)
    (targets : List Nat) :
    answers document cursor targets = targets.map (Position.atOffset document) := by
  induction targets generalizing cursor with
  | nil => rfl
  | cons target targets ih =>
    rw [answers, ih (stands_moveTo stands target), moveTo_eq stands, List.map_cons]

end Cursor

/-! ### Bytes of characters -/

namespace Utf8

/-- The byte continues a character. -/
def Continues (byte : UInt8) : Prop :=
  byte &&& 0xC0 = 0x80

instance (byte : UInt8) : Decidable (Continues byte) :=
  inferInstanceAs (Decidable (_ = _))

/-- The offset lies in the byte list, at its end or before a byte that continues no character. -/
structure IsBoundary (bytes : List UInt8) (offset : Nat) : Prop where
  within : offset ≤ bytes.length
  begins : ∀ byte ∈ bytes[offset]?, ¬ Continues byte

theorem continues_tail (share : Nat) : Continues (UInt8.ofNat (share % 0x40 + 0x80)) := by
  have all : ∀ low < 0x40, Continues (UInt8.ofNat (low + 0x80)) := by decide
  exact all _ (Nat.mod_lt _ (by decide))

/-- A byte that announces several is no continuation and no line feed. -/
theorem lead_of_announcing {number : Nat} (atLeast : 0xC0 ≤ number) (byte : number < 0x100) :
    ¬ Continues (UInt8.ofNat number) ∧ UInt8.ofNat number ≠ 0x0A := by
  have all : ∀ high < 0x40, ¬ Continues (UInt8.ofNat (high + 0xC0)) ∧
      UInt8.ofNat (high + 0xC0) ≠ 0x0A := by decide
  have here := all (number - 0xC0) (by omega)
  rwa [Nat.sub_add_cancel atLeast] at here

/-- The first byte of a character continues none and all others do; the line feed is a byte of its
own. -/
theorem exists_lead (c : Char) : ∃ lead others, String.utf8EncodeChar c = lead :: others ∧
    ¬ Continues lead ∧ (lead = 0x0A ↔ c = '\n') ∧ ∀ byte ∈ others, Continues byte := by
  by_cases one : c.toNat < 0x80
  · have plain : ∀ number < 0x80, ¬ Continues (UInt8.ofNat number) ∧
        (UInt8.ofNat number = 0x0A → number = 0x0A) := by decide
    obtain ⟨lead, feed⟩ := plain c.toNat one
    refine ⟨_, [], utf8EncodeChar_of_lt one, lead, ⟨fun same => ?_, fun same => by rw [same]; rfl⟩,
      fun _ member => absurd member List.not_mem_nil⟩
    rw [← Char.ofNat_toNat c, feed same]
  have noFeed : c ≠ '\n' := by
    rintro rfl
    exact one (by decide)
  by_cases two : c.toNat ≤ 0x7FF
  · obtain ⟨lead, other⟩ := @lead_of_announcing (c.toNat / 64 % 0x20 + 0xC0) (by omega) (by omega)
    refine ⟨_, _, utf8EncodeChar_two (by omega) two, lead, iff_of_false other noFeed, ?_⟩
    exact List.forall_mem_singleton.mpr (continues_tail _)
  by_cases three : c.toNat ≤ 0xFFFF
  · obtain ⟨lead, other⟩ := @lead_of_announcing (c.toNat / 4096 % 0x10 + 0xE0) (by omega) (by omega)
    refine ⟨_, _, utf8EncodeChar_three (by omega) three, lead, iff_of_false other noFeed, ?_⟩
    exact List.forall_mem_cons.mpr
      ⟨continues_tail _, List.forall_mem_singleton.mpr (continues_tail _)⟩
  · obtain ⟨lead, other⟩ := @lead_of_announcing (c.toNat / 262144 % 0x08 + 0xF0) (by omega) (by omega)
    refine ⟨_, _, utf8EncodeChar_four (by omega), lead, iff_of_false other noFeed, ?_⟩
    exact List.forall_mem_cons.mpr ⟨continues_tail _, List.forall_mem_cons.mpr
      ⟨continues_tail _, List.forall_mem_singleton.mpr (continues_tail _)⟩⟩

/-- **A boundary lies between two characters.** -/
theorem exists_front_of_boundary {chars : List Char} {offset : Nat}
    (boundary : IsBoundary (encodeChars chars) offset) :
    ∃ front back, chars = front ++ back ∧ offset = (encodeChars front).length := by
  induction chars generalizing offset with
  | nil =>
    refine ⟨[], [], rfl, Nat.le_zero.mp boundary.within⟩
  | cons c chars ih =>
    obtain ⟨lead, others, bytes, _, _, continued⟩ := exists_lead c
    have whole : encodeChars (c :: chars) = (lead :: others) ++ encodeChars chars := by
      rw [← bytes]
      rfl
    rw [whole] at boundary
    rcases Nat.eq_zero_or_pos offset with rfl | positive
    · exact ⟨[], c :: chars, rfl, rfl⟩
    by_cases inside : offset < (lead :: others).length
    · -- behind its first byte, and before its last, a character has no boundary
      have bound : offset - 1 < others.length := by
        rw [List.length_cons] at inside
        omega
      have there := List.getElem?_eq_getElem bound
      rw [← @List.getElem?_cons_succ _ lead, Nat.sub_add_cancel positive,
        ← List.getElem?_append_left inside] at there
      exact absurd (continued _ (List.getElem_mem bound)) (boundary.begins _ there)
    · have beyond := Nat.le_of_not_lt inside
      have later : IsBoundary (encodeChars chars) (offset - (lead :: others).length) := by
        refine ⟨?_, fun byte found => boundary.begins byte ?_⟩
        · have within := boundary.within
          rw [List.length_append] at within
          omega
        · rwa [List.getElem?_append_right beyond]
      obtain ⟨front, back, rfl, same⟩ := ih later
      refine ⟨c :: front, back, rfl, ?_⟩
      have here : encodeChars (c :: front) = (lead :: others) ++ encodeChars front := by
        rw [← bytes]
        rfl
      rw [here, List.length_append, ← same]
      omega

end Utf8

/-! ### Lines and characters -/

namespace Position

/-- The position behind one more character. -/
def stepChar (position : Position) (c : Char) : Position :=
  if c = '\n' then ⟨position.line + 1, 0⟩ else ⟨position.line, position.column + 1⟩

/-- The position behind a text: as many lines as it has line feeds, and as many columns as it has
characters behind the last of them. -/
def behind (text : String) : Position :=
  ⟨text.toList.count '\n', (text.toList.rtakeWhile (· != '\n')).length⟩

theorem step_of_continues (position : Position) {byte : UInt8} (continued : Utf8.Continues byte) :
    position.step byte = position := by
  have noFeed : byte ≠ 0x0A := by
    rintro rfl
    exact absurd continued (by decide)
  rw [step, if_neg noFeed, if_pos (show byte &&& 0xC0 = 0x80 from continued)]

theorem advance_of_continues (position : Position) {bytes : List UInt8}
    (continued : ∀ byte ∈ bytes, Utf8.Continues byte) : position.advance bytes = position := by
  induction bytes with
  | nil => rfl
  | cons byte bytes ih =>
    obtain ⟨here, later⟩ := List.forall_mem_cons.mp continued
    rw [advance, List.foldl_cons, step_of_continues position here]
    exact ih later

/-- Bytes never move back. -/
theorem advance_grows (position : Position) (bytes : List UInt8) :
    position.line < (position.advance bytes).line ∨
      position.line = (position.advance bytes).line ∧
        position.column ≤ (position.advance bytes).column := by
  induction bytes using List.reverseRecOn with
  | nil => exact Or.inr ⟨rfl, Nat.le_refl _⟩
  | append_singleton bytes byte ih =>
    rw [advance_append]
    generalize position.advance bytes = between at ih ⊢
    show _ < (between.step byte).line ∨ _ = (between.step byte).line ∧ _ ≤ (between.step byte).column
    unfold step
    split
    · show _ < between.line + 1 ∨ _
      omega
    · split
      · exact ih
      · show _ < between.line ∨ _ = between.line ∧ _ ≤ between.column + 1
        omega

/-- Behind a byte that begins a character there is another position than anywhere before it. -/
theorem atOffset_ne {document front : List UInt8} {byte : UInt8} {earlier stop : Nat}
    (split : document.take stop = front ++ [byte]) (noFeed : byte ≠ 0x0A)
    (begins : ¬ Utf8.Continues byte) (before : earlier ≤ front.length) (forwards : earlier ≤ stop) :
    atOffset document earlier ≠ atOffset document stop := by
  have here : document.take earlier = front.take earlier := by
    rw [← List.take_append_of_le_length before, ← split, List.take_take, Nat.min_eq_left forwards]
  have there : document.take stop = document.take earlier ++ front.drop earlier ++ [byte] := by
    rw [here, List.take_append_drop, split]
  have grows := advance_grows (origin.advance (document.take earlier)) (front.drop earlier)
  rw [atOffset, atOffset, there, advance_append, advance_append]
  generalize (origin.advance (document.take earlier)).advance (front.drop earlier) = between
    at grows ⊢
  have moved : between.advance [byte] = ⟨between.line, between.column + 1⟩ := by
    show between.step byte = _
    rw [step, if_neg noFeed, if_neg (show ¬ byte &&& 0xC0 = 0x80 from begins)]
  intro same
  rw [same, moved] at grows
  dsimp only at grows
  omega

/-- The bytes of a character move as the character. -/
theorem advance_encodeChar (position : Position) (c : Char) :
    position.advance (String.utf8EncodeChar c) = position.stepChar c := by
  obtain ⟨lead, others, bytes, begins, feed, continued⟩ := Utf8.exists_lead c
  have first : position.step lead = position.stepChar c := by
    unfold step stepChar
    rw [if_neg (show ¬ lead &&& 0xC0 = 0x80 from begins)]
    simp only [feed]
  rw [bytes, ← List.singleton_append, advance_append]
  rw [advance_of_continues _ continued]
  exact first

theorem advance_encodeChars (position : Position) (chars : List Char) :
    position.advance (Utf8.encodeChars chars) = chars.foldl stepChar position := by
  induction chars generalizing position with
  | nil => rfl
  | cons c chars ih =>
    rw [Utf8.encodeChars, List.flatMap_cons, advance_append, advance_encodeChar, List.foldl_cons]
    exact ih _

/-- Counting from the left, character by character, is counting all line feeds and what stands
behind the last. -/
theorem foldl_stepChar (chars : List Char) : chars.foldl stepChar origin =
    ⟨chars.count '\n', (chars.rtakeWhile (· != '\n')).length⟩ := by
  induction chars using List.reverseRecOn with
  | nil => rfl
  | append_singleton chars c ih =>
    rw [List.foldl_append, List.foldl_cons, List.foldl_nil, ih, stepChar, List.count_append]
    by_cases feed : c = '\n'
    · rw [if_pos feed, feed, List.rtakeWhile_concat_neg _ _ _ (by decide)]
      rfl
    · have other : (c != '\n') = true := bne_iff_ne.mpr feed
      rw [if_neg feed, List.rtakeWhile_concat_pos (· != '\n') _ _ other, List.length_append,
        List.count_eq_zero_of_not_mem fun member => feed (List.mem_singleton.mp member).symm]
      rfl

theorem advance_encode (text : String) :
    origin.advance (Utf8.encode text) = behind text := by
  rw [Utf8.encode, advance_encodeChars, foldl_stepChar]
  rfl

/-- **The position of an offset between two characters** is that behind the text before it. -/
theorem atOffset_of_boundary {document : List UInt8} {text : String} {offset : Nat}
    (read : Utf8.decode document = .ok text) (boundary : Utf8.IsBoundary document offset) :
    ∃ front back, text = front ++ back ∧ offset = (Utf8.encode front).length ∧
      atOffset document offset = behind front := by
  obtain rfl := Utf8.encode_of_decode read
  obtain ⟨front, back, split, same⟩ := Utf8.exists_front_of_boundary boundary
  refine ⟨String.ofList front, String.ofList back, ?_, ?_, ?_⟩
  · rw [← String.ofList_append, ← split, String.ofList_toList]
  · rw [Utf8.encode_ofList, same]
  · rw [atOffset, Utf8.encode, split, Utf8.encodeChars_append, same, List.take_left,
      ← Utf8.encode_ofList, advance_encode]

end Position

/-- **Whatever a cursor is asked, and in whatever order, it answers with the positions of the
offsets**; in a document of UTF-8, the position of an offset between two characters has as many
lines as line feeds stand before it, and as many columns as characters behind the last of them. -/
theorem Cursor.answers_located (document : List UInt8) (offsets : List Nat) :
    answers document origin offsets = offsets.map (Position.atOffset document) ∧
      ∀ text, Utf8.decode document = .ok text → ∀ offset, Utf8.IsBoundary document offset →
        ∃ front back, text = front ++ back ∧ offset = (Utf8.encode front).length ∧
          Position.atOffset document offset = Position.behind front :=
  ⟨answers_eq (stands_origin document) offsets,
    fun _ read _ boundary => Position.atOffset_of_boundary read boundary⟩

/-- Forwards, backwards, inside a character, past the end, and again. -/
theorem Cursor.answers_located_umlaut :
    answers (Utf8.encode "ö\n€x") origin [6, 1, 99, 4, 6] =
        [⟨1, 1⟩, ⟨0, 1⟩, ⟨1, 2⟩, ⟨1, 1⟩, ⟨1, 1⟩] ∧
      ∃ front back, "ö\n€x" = front ++ back ∧ 6 = (Utf8.encode front).length ∧
        Position.atOffset (Utf8.encode "ö\n€x") 6 = Position.behind front := by
  obtain ⟨answered, located⟩ :=
    answers_located (Utf8.encode "ö\n€x") [6, 1, 99, 4, 6]
  have boundary : Utf8.IsBoundary (Utf8.encode "ö\n€x") 6 :=
    ⟨by decide +kernel, by decide +kernel⟩
  exact ⟨answered.trans (by decide +kernel), located _ (Utf8.decode_encode _) 6 boundary⟩

end EntityModel
