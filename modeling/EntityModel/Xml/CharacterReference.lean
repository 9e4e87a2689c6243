import EntityModel.Text.Digit

/-
**Character references and named entities.**

Text and attribute values write five characters by name and any character by number between `&` and
`;`.

* `resolve` — the text with its references replaced, or the first fault with its byte offsets.
* `escape` — the text with the five named characters written as references.
* `resolveFrom_escape` — resolving what `escape` writes gives the text back.
-/

namespace EntityModel.Xml

/-- The characters that have a name, each with it. -/
def entities : List (List Char × Char) :=
  [("lt".toList, '<'), ("gt".toList, '>'), ("amp".toList, '&'), ("apos".toList, '\x27'),
    ("quot".toList, '\x22')]

/-- What is wrong with a reference. -/
inductive ReferenceFault where
  /-- An ampersand at byte offset `start` without its semicolon in a text of `stop` bytes. -/
  | unterminated (start stop : Nat)
  /-- A name, with the byte offsets of its ends, that stands for nothing. -/
  | unknownEntity (start stop : Nat) (name : String)
  | signedNumber
  | noDigits
  | invalidDigit
  /-- A number of more than thirty-two bits. -/
  | tooLarge
  | nullCharacter
  | noCharacter (code : Nat)
  deriving DecidableEq, Repr

/-- The wording of a fault. -/
def ReferenceFault.message : ReferenceFault → String
  | .unterminated start stop =>
    s!"Error while escaping character at range {start}..{stop}: Cannot find ';' after '&'"
  | .unknownEntity start stop name => s!"at {start}..{stop}: unrecognized entity `{name}`"
  | .signedNumber => "invalid character reference: unexpected number sign"
  | .noDigits => "invalid character reference: cannot parse integer from empty string"
  | .invalidDigit => "invalid character reference: invalid digit found in string"
  | .tooLarge => "invalid character reference: number too large to fit in target type"
  | .nullCharacter => "invalid character reference: 0x0 character is not permitted in XML"
  | .noCharacter code => s!"invalid character reference: `{code}` is not a valid codepoint"

/-- The number that the digits continue; it has to fit in thirty-two bits at every digit. -/
def numberFrom (base value : Nat) : List Char → Except ReferenceFault Nat
  | [] => .ok value
  | c :: rest =>
    match Text.digit? base c with
    | none => .error .invalidDigit
    | some digit =>
      if 2 ^ 32 ≤ value * base + digit then .error .tooLarge
      else numberFrom base (value * base + digit) rest

/-- The number written in the base, without a sign. -/
def number (base : Nat) (digits : List Char) : Except ReferenceFault Nat :=
  if digits.head? = some '+' ∨ digits.head? = some '-' then .error .signedNumber
  else if digits = [] then .error .noDigits
  else numberFrom base 0 digits

/-- The character of a numeric reference, written after the number sign. -/
def numbered (body : List Char) : Except ReferenceFault Char := do
  let code ← match body with
    | 'x' :: digits => number 16 digits
    | digits => number 10 digits
  if code = 0 then .error .nullCharacter
  else if code.isValidChar then .ok (Char.ofNat code)
  else .error (.noCharacter code)

/-- The number of bytes the characters take. -/
def byteLength (chars : List Char) : Nat :=
  chars.foldr (fun c bytes => c.utf8Size + bytes) 0

/-- The character of a reference, written between `&` and `;` from the byte offset on. -/
def referenced (offset : Nat) (body : List Char) : Except ReferenceFault Char :=
  match body with
  | '#' :: rest => numbered rest
  | name =>
    match entities.lookup name with
    | some c => .ok c
    | none =>
      .error (.unknownEntity offset (offset + byteLength name) (String.ofList name))

/-- Whether the character ends the search for a semicolon. -/
def endsReference (c : Char) : Bool :=
  c == '&' || c == ';'

/-- What stands before and after the semicolon of a reference; `none` when another ampersand or the
end comes first. -/
def closeReference? (chars : List Char) : Option (List Char × List Char) :=
  match chars.dropWhile fun c => !endsReference c with
  | ';' :: after => some (chars.takeWhile fun c => !endsReference c, after)
  | _ => none

theorem closeReference?_shorter {chars : List Char} {sides : List Char × List Char}
    (found : closeReference? chars = some sides) : sides.2.length < chars.length := by
  have shorter := (List.dropWhile_sublist (l := chars) fun c => !endsReference c).length_le
  unfold closeReference? at found
  split at found
  · rename_i after ends
    rw [ends, List.length_cons] at shorter
    obtain rfl := Option.some.inj found
    exact shorter
  · exact absurd found (by simp)

/-- The characters with their references replaced, where `offset` bytes of a text of `total` bytes
stand before them. -/
def resolveFrom (total offset : Nat) (chars : List Char) : Except ReferenceFault (List Char) :=
  match chars with
  | [] => .ok []
  | c :: rest =>
    if c = '&' then
      match _found : closeReference? rest with
      | some sides => do
        let meant ← referenced (offset + 1) sides.1
        let others ← resolveFrom total (offset + byteLength sides.1 + 2) sides.2
        .ok (meant :: others)
      | none => .error (.unterminated offset total)
    else do
      let others ← resolveFrom total (offset + c.utf8Size) rest
      .ok (c :: others)
termination_by chars.length
decreasing_by
  · have shorter := closeReference?_shorter _found
    simp only [List.length_cons]
    omega
  · simp

/-- The text with its references replaced. -/
def resolve (text : String) : Except ReferenceFault String :=
  (resolveFrom text.utf8ByteSize 0 text.toList).map String.ofList

/-- The characters that stand for a character in a document. -/
def escapeChar (c : Char) : List Char :=
  match entities.find? fun entity => entity.2 == c with
  | some entity => '&' :: entity.1 ++ [';']
  | none => [c]

/-- The text with the named characters written as references. -/
def escape (text : String) : String :=
  String.ofList (text.toList.flatMap escapeChar)

/-! ### Resolving what is escaped -/

theorem escapeChar_of_entity {entity : List Char × Char} (member : entity ∈ entities) :
    escapeChar entity.2 = '&' :: entity.1 ++ [';'] := by
  simp only [entities, List.mem_cons, List.not_mem_nil, or_false] at member
  rcases member with rfl | rfl | rfl | rfl | rfl <;> rfl

theorem escapeChar_of_plain {c : Char} (plain : ∀ entity ∈ entities, entity.2 ≠ c) :
    escapeChar c = [c] := by
  have absent : (entities.find? fun entity => entity.2 == c) = none := by
    rw [List.find?_eq_none]
    intro entity member
    simpa using plain entity member
  simp [escapeChar, absent]

theorem resolveFrom_reference (total offset : Nat) {rest : List Char}
    {sides : List Char × List Char} (closed : closeReference? rest = some sides) :
    resolveFrom total offset ('&' :: rest) =
      (do
        let meant ← referenced (offset + 1) sides.1
        let others ← resolveFrom total (offset + byteLength sides.1 + 2) sides.2
        .ok (meant :: others)) := by
  rw [resolveFrom, if_pos rfl]
  split
  · rename_i found closed'
    obtain rfl := Option.some.inj (closed.symm.trans closed')
    rfl
  · rename_i open'
    exact absurd (closed.symm.trans open') (by simp)

theorem resolveFrom_entity {entity : List Char × Char} (member : entity ∈ entities)
    (total offset : Nat) (rest : List Char) :
    resolveFrom total offset (escapeChar entity.2 ++ rest) =
      (resolveFrom total (offset + byteLength entity.1 + 2) rest).map (entity.2 :: ·) := by
  have closed : closeReference? (entity.1 ++ ';' :: rest) = some (entity.1, rest) := by
    simp only [entities, List.mem_cons, List.not_mem_nil, or_false] at member
    rcases member with rfl | rfl | rfl | rfl | rfl <;> rfl
  have meant : referenced (offset + 1) entity.1 = .ok entity.2 := by
    simp only [entities, List.mem_cons, List.not_mem_nil, or_false] at member
    rcases member with rfl | rfl | rfl | rfl | rfl <;> rfl
  rw [escapeChar_of_entity member, List.cons_append, List.cons_append, List.append_assoc,
    List.singleton_append, resolveFrom_reference total offset closed, meant]
  cases resolveFrom total (offset + byteLength entity.1 + 2) rest <;> rfl

theorem resolveFrom_escape (total : Nat) (chars : List Char) : ∀ offset : Nat,
    resolveFrom total offset (chars.flatMap escapeChar) = .ok chars := by
  induction chars with
  | nil => intro offset; rw [List.flatMap_nil, resolveFrom]
  | cons c rest ih =>
    intro offset
    rw [List.flatMap_cons]
    by_cases named : ∃ entity ∈ entities, entity.2 = c
    · obtain ⟨entity, member, rfl⟩ := named
      rw [resolveFrom_entity member, ih]
      rfl
    · have plain : ∀ entity ∈ entities, entity.2 ≠ c := fun entity member same =>
        named ⟨entity, member, same⟩
      rw [escapeChar_of_plain plain, List.singleton_append, resolveFrom,
        if_neg (fun same => plain ("amp".toList, '&') (by simp [entities]) same.symm), ih]
      rfl

end EntityModel.Xml
