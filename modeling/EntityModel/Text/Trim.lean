/-
**Blank characters and trimming.**

Names and references are compared after the blanks around them are dropped, so every module that
reads text goes through this one.

* `isBlankChar` — the characters with the Unicode property White_Space, twenty-five of them in ten
  ranges. Zero-width characters (U+200B, U+FEFF) do not have it.
* `dropTrailing`, `dropAround` — the two cuts, on lists of any symbols: the document reader trims
  bytes with its own class of blanks.
* `trim`, `isBlank` — the same on text; `trimChars_eq_nil_iff` says that they agree.
-/

namespace EntityModel.Text

/-- The list without the longest run of `drops` at its end. -/
def dropTrailing {α : Type} (drops : α → Bool) (items : List α) : List α :=
  (items.reverse.dropWhile drops).reverse

/-- The list without the longest runs of `drops` at its two ends. -/
def dropAround {α : Type} (drops : α → Bool) (items : List α) : List α :=
  dropTrailing drops (items.dropWhile drops)

/-- The code points with the property White_Space, as ranges with both ends included. -/
def blankRanges : List (Nat × Nat) :=
  [(0x09, 0x0D), (0x20, 0x20), (0x85, 0x85), (0xA0, 0xA0), (0x1680, 0x1680), (0x2000, 0x200A),
    (0x2028, 0x2029), (0x202F, 0x202F), (0x205F, 0x205F), (0x3000, 0x3000)]

/-- Whether the character has the property White_Space. -/
def isBlankChar (c : Char) : Bool :=
  blankRanges.any fun range => range.1 ≤ c.toNat && c.toNat ≤ range.2

/-- The characters between the blanks at the two ends. -/
def trimChars (chars : List Char) : List Char :=
  dropAround isBlankChar chars

/-- The text between the blanks at the two ends. -/
def trim (text : String) : String :=
  String.ofList (trimChars text.toList)

/-- Whether the text holds nothing but blanks. -/
def isBlank (text : String) : Bool :=
  text.toList.all isBlankChar

/-! ### What a cut leaves -/

theorem dropTrailing_eq_nil_iff {α : Type} (drops : α → Bool) (items : List α) :
    dropTrailing drops items = [] ↔ ∀ item ∈ items, drops item = true := by
  have empty : ∀ rest : List α, rest.dropWhile drops = [] ↔ ∀ item ∈ rest, drops item = true := by
    intro rest
    induction rest with
    | nil => simp
    | cons item rest ih =>
      by_cases dropped : drops item = true <;> simp [dropped, ih]
  simp [dropTrailing, empty]

theorem dropAround_eq_nil_iff {α : Type} (drops : α → Bool) (items : List α) :
    dropAround drops items = [] ↔ ∀ item ∈ items, drops item = true := by
  induction items with
  | nil => simp [dropAround, dropTrailing]
  | cons item rest ih =>
    by_cases dropped : drops item = true
    · simpa [dropAround, dropped] using ih
    · simp [dropAround, dropped, dropTrailing_eq_nil_iff]

theorem trimChars_eq_nil_iff (text : String) :
    trimChars text.toList = [] ↔ isBlank text = true := by
  simp [trimChars, dropAround_eq_nil_iff, isBlank]

end EntityModel.Text
