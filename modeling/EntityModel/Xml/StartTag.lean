import EntityModel.Element
import EntityModel.Xml.CharacterReference
import EntityModel.Xml.Markup

/-
**Start tags: names and attributes.**

* `readAttributes` — the attributes of a tag one after the other. Of several faults the first in the
  order of reading wins: the key and its equals sign, a key met before, the quoted value, then the
  encoding of the key and the value.
* `readHead` — name, prefix and attributes of a tag.

Positions in faults count bytes from the start of the tag's content.
-/

namespace EntityModel.Xml

/-- What is wrong with the way an attribute is written. -/
inductive AttributeFault where
  | expectedEquals (position : Nat)
  | expectedValue (position : Nat)
  | unquotedValue (position : Nat)
  | expectedQuote (position : Nat) (quote : Char)
  | duplicated (position earlier : Nat)
  deriving DecidableEq, Repr

/-- The wording of a fault. -/
def AttributeFault.message : AttributeFault → String
  | .expectedEquals position =>
    s!"position {position}: attribute key must be directly followed by `=` or space"
  | .expectedValue position =>
    s!"position {position}: `=` must be followed by an attribute value"
  | .unquotedValue position =>
    "position " ++ toString position ++
      ": attribute value must be enclosed in `\x22` or `\x27`"
  | .expectedQuote position quote =>
    "position " ++ toString position ++ ": missing closing quote `" ++ quote.toString ++
      "` in attribute value"
  | .duplicated position earlier =>
    s!"position {position}: duplicated attribute, previous declaration at position {earlier}"

/-- Why the bytes of a text or a value have no meaning. -/
inductive TextFault where
  | encoding (failure : Utf8.Failure)
  | reference (fault : ReferenceFault)
  deriving DecidableEq, Repr

/-- The wording of a fault. -/
def TextFault.message : TextFault → String
  | .encoding failure => "cannot decode input using UTF-8: " ++ failure.message
  | .reference fault => fault.message

/-- The text that bytes with references stand for. -/
def readText (bytes : List UInt8) : Except TextFault String := do
  let text ← (Utf8.decode bytes).mapError .encoding
  (resolve text).mapError .reference

/-- Why a tag cannot be read. -/
inductive TagFault where
  | name (failure : Utf8.Failure)
  | nsPrefix (failure : Utf8.Failure)
  | attributes (fault : AttributeFault)
  | key (failure : Utf8.Failure)
  | value (fault : TextFault)
  deriving DecidableEq, Repr

/-- The wording of a fault. -/
def TagFault.message : TagFault → String
  | .name failure => "Element name error: " ++ failure.message
  | .nsPrefix failure => "Element prefix error: " ++ failure.message
  | .attributes fault => "Attribute error: " ++ fault.message
  | .key failure => "Attribute key error: " ++ failure.message
  | .value fault => "Attribute value error: " ++ fault.message

/-! ### Attributes -/

/-- A key: where it begins, its bytes, and what follows its equals sign, where and with what. -/
structure Key where
  start : Nat
  bytes : List UInt8
  next : Nat
  rest : List UInt8

/-- The next key from the position on, `none` when only blanks are left. The first byte belongs to
the key whatever it is. -/
def nextKey (position : Nat) (bytes : List UInt8) : Except AttributeFault (Option Key) :=
  let start := position + (bytes.takeWhile isSpace).length
  match bytes.dropWhile isSpace with
  | [] => .ok none
  | first :: rest =>
    let inKey := fun byte : UInt8 => !(byte == 0x3D) && !isSpace byte
    let key := first :: rest.takeWhile inKey
    let after := rest.dropWhile inKey
    let equals := start + key.length + (after.takeWhile isSpace).length
    match after.dropWhile isSpace with
    | 0x3D :: rest => .ok (some ⟨start, key, equals + 1, rest⟩)
    | _ => .error (.expectedEquals equals)

/-- A quoted value from the position on, and what follows it, where and with what. -/
def nextValue (position : Nat) (bytes : List UInt8) :
    Except AttributeFault (List UInt8 × Nat × List UInt8) :=
  let start := position + (bytes.takeWhile isSpace).length
  match bytes.dropWhile isSpace with
  | [] => .error (.expectedValue start)
  | quote :: rest =>
    if quote = 0x22 ∨ quote = 0x27 then
      let value := rest.takeWhile fun byte => byte != quote
      match rest.dropWhile fun byte => byte != quote with
      | [] => .error (.expectedQuote (start + 1 + value.length) (Char.ofNat quote.toNat))
      | _ :: rest => .ok (value, start + value.length + 2, rest)
    else .error (.unquotedValue start)

theorem nextKey_shorter {position : Nat} {bytes : List UInt8} {key : Key}
    (found : nextKey position bytes = .ok (some key)) : key.rest.length < bytes.length := by
  have blanks := length_dropWhile_le isSpace bytes
  unfold nextKey at found
  dsimp only at found
  split at found
  · exact absurd found (by simp)
  · rename_i first rest begins
    rw [begins, List.length_cons] at blanks
    split at found
    · rename_i after ends
      simp only [Except.ok.injEq, Option.some.injEq] at found
      subst found
      have behindKey := length_dropWhile_le
        (fun byte : UInt8 => !(byte == 0x3D) && !isSpace byte) rest
      have behindBlanks := length_dropWhile_le isSpace
        (rest.dropWhile fun byte : UInt8 => !(byte == 0x3D) && !isSpace byte)
      rw [ends, List.length_cons] at behindBlanks
      dsimp only
      omega
    · exact absurd found (by simp)

theorem nextValue_shorter {position : Nat} {bytes value rest : List UInt8} {next : Nat}
    (found : nextValue position bytes = .ok (value, next, rest)) :
    rest.length < bytes.length := by
  have blanks := length_dropWhile_le isSpace bytes
  unfold nextValue at found
  dsimp only at found
  split at found
  · exact absurd found (by simp)
  · rename_i quote behind begins
    rw [begins, List.length_cons] at blanks
    split at found
    · split at found
      · exact absurd found (by simp)
      · rename_i closing after ends
        simp only [Except.ok.injEq, Prod.mk.injEq] at found
        obtain ⟨_, _, rfl⟩ := found
        have behindValue := length_dropWhile_le (fun byte : UInt8 => byte != quote) behind
        rw [ends, List.length_cons] at behindValue
        omega
    · exact absurd found (by simp)

/-- The attributes from the position on, added to those read before; `seen` holds the keys of these
and where each begins. -/
def readAttributesFrom (seen : List (List UInt8 × Nat)) (attributes : Attributes)
    (position : Nat) (bytes : List UInt8) : Except TagFault Attributes :=
  match _keyFound : nextKey position bytes with
  | .error fault => .error (.attributes fault)
  | .ok none => .ok attributes
  | .ok (some key) =>
    match seen.lookup key.bytes with
    | some earlier => .error (.attributes (.duplicated key.start earlier))
    | none =>
      match _valueFound : nextValue key.next key.rest with
      | .error fault => .error (.attributes fault)
      | .ok (value, next, rest) => do
        let name ← (Utf8.decode key.bytes).mapError .key
        let text ← (readText value).mapError .value
        readAttributesFrom ((key.bytes, key.start) :: seen) (attributes.set name text) next rest
termination_by bytes.length
decreasing_by
  have behindKey := nextKey_shorter _keyFound
  have behindValue := nextValue_shorter _valueFound
  omega

/-- The attributes of a tag after a name of so many bytes. -/
def readAttributes (nameLength : Nat) (bytes : List UInt8) : Except TagFault Attributes :=
  readAttributesFrom [] Attributes.empty nameLength bytes

/-! ### The whole tag -/

/-- The head of an element from the content of its tag and the place of that tag. The name is cut at
its first colon into prefix and local name. -/
def readHead (content : List UInt8) (span : Span) : Except TagFault Head := do
  let name := tagName content
  let (written, localName) := match Text.cutFirst? 0x3A name with
    | some (before, after) => (some before, after)
    | none => (none, name)
  let tag ← (Utf8.decode localName).mapError .name
  let nsPrefix ← match written with
    | none => pure none
    | some bytes => ((Utf8.decode bytes).mapError .nsPrefix).map some
  let attributes ← readAttributes name.length (content.drop name.length)
  .ok { tag, nsPrefix, attributes, text := none, span := some span }

end EntityModel.Xml
