import EntityModel.Json.Basic

/-
**Reading JSON.**

The text is cut into lexemes, and the lexemes are put together with a stack of the arrays and
objects that are still open.

* `lexemes?` — the lexemes of a text: punctuation, literals, numbers, strings.
* `read?` — the one value that a text holds. Nothing but blanks may stand around it, commas only
  between items, and control characters in strings only as escapes.
-/

namespace EntityModel.Json

/-- A lexeme of JSON. -/
inductive Lexeme where
  | openArray
  | closeArray
  | openObject
  | closeObject
  | comma
  | colon
  /-- A value that holds no others. -/
  | scalar (value : Json)

/-! ### Strings -/

/-- The code unit that four hexadecimal digits spell. -/
def unit? (a b c d : Char) : Option Nat := do
  let high := (← Text.digit? 16 a) * 16 + (← Text.digit? 16 b)
  let low := (← Text.digit? 16 c) * 16 + (← Text.digit? 16 d)
  some (high * 256 + low)

/-- The character that a one-letter escape stands for. -/
def shortEscape? (c : Char) : Option Char :=
  [('\x22', '\x22'), ('\\', '\\'), ('/', '/'), ('b', '\x08'), ('f', '\x0c'), ('n', '\n'),
    ('r', '\r'), ('t', '\t')].lookup c

/-- The code units and code points of a string up to its closing quote, and what follows that. -/
def stringUnits? : List Char → Option (List Nat × List Char)
  | [] => none
  | '\x22' :: rest => some ([], rest)
  | '\\' :: 'u' :: a :: b :: c :: d :: rest => do
    let unit ← unit? a b c d
    let (units, after) ← stringUnits? rest
    some (unit :: units, after)
  | '\\' :: c :: rest => do
    let escaped ← shortEscape? c
    let (units, after) ← stringUnits? rest
    some (escaped.toNat :: units, after)
  | c :: rest =>
    if c.toNat < 0x20 || c = '\\' then none
    else do
      let (units, after) ← stringUnits? rest
      some (c.toNat :: units, after)

/-- Whether the unit is the first half of a character. -/
def isHighHalf (unit : Nat) : Bool :=
  0xD800 ≤ unit && unit < 0xDC00

/-- Whether the unit is the second half of a character. -/
def isLowHalf (unit : Nat) : Bool :=
  0xDC00 ≤ unit && unit < 0xE000

/-- The characters that the units spell; `none` when a half stands alone. -/
def pairHalves? : List Nat → Option (List Char)
  | [] => some []
  | high :: low :: rest =>
    if isHighHalf high then
      if isLowHalf low then
        (pairHalves? rest).map
          (Char.ofNat (0x10000 + (high - 0xD800) * 0x400 + (low - 0xDC00)) :: ·)
      else none
    else if isLowHalf high then none
    else (pairHalves? (low :: rest)).map (Char.ofNat high :: ·)
  | [unit] => if isHighHalf unit || isLowHalf unit then none else some [Char.ofNat unit]

/-! ### Numbers -/

/-- One digit or more at the front, and what follows. -/
def digits? (chars : List Char) : Option (List Char × List Char) :=
  match chars.takeWhile Char.isDigit with
  | [] => none
  | run => some (run, chars.dropWhile Char.isDigit)

/-- The part of a number before the point, without a sign: a zero stands alone. -/
def whole? (chars : List Char) : Option (List Char × List Char) := do
  let (run, rest) ← digits? chars
  if run.head? = some '0' ∧ run.length ≠ 1 then none else some (run, rest)

/-- The point and the digits after it; nothing without a point. -/
def fraction? : List Char → Option (List Char × List Char)
  | '.' :: rest => (digits? rest).map fun (run, after) => ('.' :: run, after)
  | chars => some ([], chars)

/-- The exponent with its mark and sign; nothing without a mark. -/
def exponent? : List Char → Option (List Char × List Char)
  | mark :: rest =>
    if mark = 'e' ∨ mark = 'E' then
      match rest with
      | sign :: digits =>
        if sign = '+' ∨ sign = '-' then
          (digits? digits).map fun (run, after) => (mark :: sign :: run, after)
        else (digits? rest).map fun (run, after) => (mark :: run, after)
      | [] => none
    else some ([], mark :: rest)
  | [] => some ([], [])

/-- The number at the front, and what follows. -/
def number? (chars : List Char) : Option (List Char × List Char) := do
  let (sign, unsigned) := match chars with
    | '-' :: rest => (['-'], rest)
    | chars => ([], chars)
  let (whole, afterWhole) ← whole? unsigned
  let (fraction, afterFraction) ← fraction? afterWhole
  let (exponent, rest) ← exponent? afterFraction
  some (sign ++ whole ++ fraction ++ exponent, rest)

/-! ### Lexemes -/

/-- Whether the character is a blank of the format. -/
def isSpace (c : Char) : Bool :=
  c == ' ' || c == '\t' || c == '\r' || c == '\n'

/-- What follows the word; nothing when the text begins otherwise. -/
def afterWord? (word : String) (chars : List Char) : Option (List Char) :=
  if word.toList.isPrefixOf chars then some (chars.drop word.toList.length) else none

/-- The value of a literal or a number at the front, and what follows. -/
def literal? (chars : List Char) : Option (Json × List Char) :=
  ((afterWord? "null" chars).map (Json.null, ·)) <|>
    ((afterWord? "true" chars).map (Json.bool true, ·)) <|>
    ((afterWord? "false" chars).map (Json.bool false, ·)) <|>
    ((number? chars).map fun (spelling, rest) => (.number (String.ofList spelling), rest))

/-- The lexeme that begins with the character, and what follows it. -/
def lexeme? (first : Char) (rest : List Char) : Option (Lexeme × List Char) :=
  match first with
  | '[' => some (.openArray, rest)
  | ']' => some (.closeArray, rest)
  | '\x7b' => some (.openObject, rest)
  | '\x7d' => some (.closeObject, rest)
  | ',' => some (.comma, rest)
  | ':' => some (.colon, rest)
  | '\x22' => (stringUnits? rest).map fun (units, after) =>
      (.scalar (.string ((pairHalves? units).map String.ofList)), after)
  | _ => (literal? (first :: rest)).map fun (value, after) => (.scalar value, after)

/-! ### What is left is shorter -/

theorem length_stringUnits? (chars : List Char) (units : List Nat) (rest : List Char)
    (found : stringUnits? chars = some (units, rest)) : rest.length < chars.length := by
  fun_induction stringUnits? chars generalizing units rest with
  | case1 => simp at found
  | case2 => simp_all
  | case3 a b c d tail ih =>
    simp only [Option.bind_eq_bind, Option.bind_eq_some_iff] at found
    obtain ⟨_, _, ⟨units, after⟩, inner, whole⟩ := found
    have shorter := ih units after inner
    simp only [Option.some.injEq, Prod.mk.injEq] at whole
    simp only [List.length_cons, ← whole.2]
    omega
  | case4 c tail _ ih =>
    simp only [Option.bind_eq_bind, Option.bind_eq_some_iff] at found
    obtain ⟨_, _, ⟨units, after⟩, inner, whole⟩ := found
    have shorter := ih units after inner
    simp only [Option.some.injEq, Prod.mk.injEq] at whole
    simp only [List.length_cons, ← whole.2]
    omega
  | case5 => simp at found
  | case6 c tail _ _ _ _ ih =>
    simp only [Option.bind_eq_bind, Option.bind_eq_some_iff] at found
    obtain ⟨⟨units, after⟩, inner, whole⟩ := found
    have shorter := ih units after inner
    simp only [Option.some.injEq, Prod.mk.injEq] at whole
    simp only [List.length_cons, ← whole.2]
    omega

theorem length_digits? (chars run rest : List Char) (found : digits? chars = some (run, rest)) :
    rest.length < chars.length := by
  have whole := congrArg List.length (List.takeWhile_append_dropWhile (p := Char.isDigit) (l := chars))
  rw [List.length_append] at whole
  rw [digits?] at found
  split at found
  · simp at found
  · rename_i nonempty
    simp only [Option.some.injEq, Prod.mk.injEq] at found
    have : 0 < (chars.takeWhile Char.isDigit).length := List.length_pos_iff.mpr nonempty
    rw [← found.2]
    omega

theorem length_whole? (chars run rest : List Char) (found : whole? chars = some (run, rest)) :
    rest.length < chars.length := by
  simp only [whole?, Option.bind_eq_bind, Option.bind_eq_some_iff] at found
  obtain ⟨⟨digits, after⟩, inner, result⟩ := found
  have shorter := length_digits? chars digits after inner
  split at result <;> simp_all

theorem length_fraction? (chars run rest : List Char)
    (found : fraction? chars = some (run, rest)) : rest.length ≤ chars.length := by
  unfold fraction? at found
  split at found
  · rename_i digits
    obtain ⟨⟨_, after⟩, inner, result⟩ := Option.map_eq_some_iff.mp found
    have shorter := length_digits? digits _ after inner
    simp_all
    omega
  · simp_all

theorem length_exponent? (chars run rest : List Char)
    (found : exponent? chars = some (run, rest)) : rest.length ≤ chars.length := by
  unfold exponent? at found
  split at found
  · split at found
    · split at found
      · split at found
        all_goals
          obtain ⟨⟨_, after⟩, inner, result⟩ := Option.map_eq_some_iff.mp found
          have shorter := length_digits? _ _ after inner
          simp_all
          omega
      · simp at found
    · simp_all
  · simp_all

theorem length_number? (chars spelling rest : List Char)
    (found : number? chars = some (spelling, rest)) : rest.length < chars.length := by
  have unsigned : ∀ sign tail : List Char,
      (do
        let (whole, afterWhole) ← whole? tail
        let (fraction, afterFraction) ← fraction? afterWhole
        let (exponent, rest) ← exponent? afterFraction
        some (sign ++ whole ++ fraction ++ exponent, rest)) = some (spelling, rest) →
      rest.length < tail.length := by
    intro sign tail found
    simp only [Option.bind_eq_bind, Option.bind_eq_some_iff] at found
    obtain ⟨⟨_, _⟩, first, ⟨_, _⟩, second, ⟨_, _⟩, third, result⟩ := found
    have := length_whole? _ _ _ first
    have := length_fraction? _ _ _ second
    have := length_exponent? _ _ _ third
    simp_all
    omega
  unfold number? at found
  split at found
  rename_i sign tail signed
  have shorter := unsigned sign tail found
  split at signed <;> simp_all
  omega

theorem length_afterWord? (word : String) (chars rest : List Char)
    (found : afterWord? word chars = some rest) :
    rest.length + word.toList.length = chars.length := by
  unfold afterWord? at found
  split at found
  · rename_i begins
    have fits := (List.isPrefixOf_iff_prefix.mp begins).length_le
    rw [← Option.some.inj found, List.length_drop]
    omega
  · simp at found

theorem length_literal? (chars rest : List Char) (value : Json)
    (found : literal? chars = some (value, rest)) : rest.length < chars.length := by
  have word : ∀ (word : String) (read : Json), word.toList ≠ [] →
      (afterWord? word chars).map (read, ·) = some (value, rest) →
      rest.length < chars.length := by
    intro word read nonempty found
    obtain ⟨after, inner, result⟩ := Option.map_eq_some_iff.mp found
    have whole := length_afterWord? word chars after inner
    have : 0 < word.toList.length := List.length_pos_iff.mpr nonempty
    simp_all
    omega
  unfold literal? at found
  simp only [Option.orElse_eq_orElse, Option.orElse_eq_or, Option.or_eq_some_iff] at found
  rcases found with found | ⟨_, found | ⟨_, found | ⟨_, found⟩⟩⟩
  · exact word _ _ (by decide) found
  · exact word _ _ (by decide) found
  · exact word _ _ (by decide) found
  · obtain ⟨⟨_, after⟩, inner, result⟩ := Option.map_eq_some_iff.mp found
    have shorter := length_number? _ _ _ inner
    simp_all

theorem length_lexeme? (first : Char) (rest after : List Char) (lexeme : Lexeme)
    (found : lexeme? first rest = some (lexeme, after)) : after.length ≤ rest.length := by
  unfold lexeme? at found
  split at found
  case h_7 =>
    obtain ⟨⟨units, tail⟩, inner, result⟩ := Option.map_eq_some_iff.mp found
    have shorter := length_stringUnits? rest units tail inner
    obtain ⟨_, rfl⟩ := Prod.mk.inj result
    exact Nat.le_of_lt shorter
  case h_8 =>
    obtain ⟨⟨value, tail⟩, inner, result⟩ := Option.map_eq_some_iff.mp found
    have shorter := length_literal? (first :: rest) tail value inner
    obtain ⟨_, rfl⟩ := Prod.mk.inj result
    exact Nat.le_of_lt_succ shorter
  all_goals
    obtain ⟨_, rfl⟩ := Prod.mk.inj (Option.some.inj found)
    exact Nat.le_refl _

/-! ### The lexemes of a text -/

/-- The lexemes of a text, blanks aside. -/
def lexemes? : List Char → Option (List Lexeme)
  | [] => some []
  | first :: rest =>
    if isSpace first then lexemes? rest
    else match _found : lexeme? first rest with
      | none => none
      | some (lexeme, after) => (lexemes? after).map (lexeme :: ·)
termination_by chars => chars.length
decreasing_by
  · simp
  · have := length_lexeme? _ _ _ _ _found
    simp only [List.length_cons]
    omega

/-! ### The value of a text -/

/-- An array or an object that is still open: what it holds so far, and the key that a value is read
for. -/
inductive Frame where
  | array (items : List Json)
  | object (members : List (Option String × Json)) (key : Option String)

/-- What has been read, and so what may come next, within the open arrays and objects. -/
inductive Progress where
  /-- A value has to come. -/
  | beforeValue (frames : List Frame)
  /-- An array has just been opened. -/
  | arrayOpened (frames : List Frame)
  /-- An object has just been opened. -/
  | objectOpened (frames : List Frame)
  /-- The key of a further member has to come. -/
  | beforeKey (members : List (Option String × Json)) (frames : List Frame)
  /-- The colon after a key has to come. -/
  | afterKey (members : List (Option String × Json)) (key : Option String) (frames : List Frame)
  /-- A value is complete. -/
  | afterValue (value : Json) (frames : List Frame)

/-- A value begins with the lexeme. -/
def beginValue? (lexeme : Lexeme) (frames : List Frame) : Option Progress :=
  match lexeme with
  | .openArray => some (.arrayOpened frames)
  | .openObject => some (.objectOpened frames)
  | .scalar value => some (.afterValue value frames)
  | _ => none

/-- The progress after one more lexeme. -/
def Progress.step? (progress : Progress) (lexeme : Lexeme) : Option Progress :=
  match progress, lexeme with
  | .beforeValue frames, lexeme => beginValue? lexeme frames
  | .arrayOpened frames, .closeArray => some (.afterValue (.array []) frames)
  | .arrayOpened frames, lexeme => beginValue? lexeme (.array [] :: frames)
  | .objectOpened frames, .closeObject => some (.afterValue (.object []) frames)
  | .objectOpened frames, .scalar (.string key) => some (.afterKey [] key frames)
  | .beforeKey members frames, .scalar (.string key) => some (.afterKey members key frames)
  | .afterKey members key frames, .colon => some (.beforeValue (.object members key :: frames))
  | .afterValue value (.array items :: frames), .comma =>
    some (.beforeValue (.array (items ++ [value]) :: frames))
  | .afterValue value (.array items :: frames), .closeArray =>
    some (.afterValue (.array (items ++ [value])) frames)
  | .afterValue value (.object members key :: frames), .comma =>
    some (.beforeKey (members ++ [(key, value)]) frames)
  | .afterValue value (.object members key :: frames), .closeObject =>
    some (.afterValue (.object (members ++ [(key, value)])) frames)
  | _, _ => none

/-- The one value that the text holds. -/
def read? (text : String) : Option Json := do
  let lexemes ← lexemes? text.toList
  match ← lexemes.foldlM Progress.step? (.beforeValue []) with
  | .afterValue value [] => some value
  | _ => none

end EntityModel.Json
