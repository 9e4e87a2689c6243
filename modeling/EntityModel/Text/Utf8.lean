/-
**Reading UTF-8.**

Documents are bytes; names, values and texts are taken out of them as characters. A sequence that is
not well formed is reported with the length of the good part before it and, unless the input ends
inside it, with the number of bytes that no continuation can mend.

* `announce` — what a leading byte says of the bytes to come.
* `scan` — the first character of a byte list, or how it fails.
* `decode` — the whole list, or its first failure.
* `decodeLossy` — the whole list with a replacement character for each failure.
-/

namespace EntityModel.Utf8

/-- What a leading byte announces: its own share of the code point, the number of bytes to follow
and the range the first of these has to lie in. The ranges leave out overlong forms, surrogates and
what lies past the last code point. -/
structure Announcement where
  share : Nat
  following : Nat
  low : Nat
  high : Nat

/-- The announcement of a byte that begins a character of several bytes. -/
def announce (byte : UInt8) : Option Announcement :=
  let code := byte.toNat
  if 0xC2 ≤ code && code ≤ 0xDF then some ⟨code - 0xC0, 1, 0x80, 0xBF⟩
  else if code = 0xE0 then some ⟨0, 2, 0xA0, 0xBF⟩
  else if code = 0xED then some ⟨0xD, 2, 0x80, 0x9F⟩
  else if 0xE1 ≤ code && code ≤ 0xEF then some ⟨code - 0xE0, 2, 0x80, 0xBF⟩
  else if code = 0xF0 then some ⟨0, 3, 0x90, 0xBF⟩
  else if 0xF1 ≤ code && code ≤ 0xF3 then some ⟨code - 0xF0, 3, 0x80, 0xBF⟩
  else if code = 0xF4 then some ⟨4, 3, 0x80, 0x8F⟩
  else none

/-- What stands at the front of a byte list. -/
inductive Scan where
  /-- The list is empty. -/
  | finished
  /-- A character of `width` bytes with its code point, and the bytes after it. -/
  | character (code width : Nat) (rest : List UInt8)
  /-- So many bytes that begin no character, and the bytes after them. -/
  | invalid (width : Nat) (rest : List UInt8)
  /-- The list ends inside a character. -/
  | truncated

/-- The bytes after a leading one: `read` of them are taken in, `following` are to come. The first
to come has to lie between `low` and `high`. -/
def scanFollowing (code read : Nat) : Nat → Nat → Nat → List UInt8 → Scan
  | 0, _, _, rest => .character code read rest
  | _ + 1, _, _, [] => .truncated
  | following + 1, low, high, byte :: rest =>
    if low ≤ byte.toNat && byte.toNat ≤ high then
      scanFollowing (code * 64 + (byte.toNat - 0x80)) (read + 1) following 0x80 0xBF rest
    else .invalid read (byte :: rest)

/-- The first character of a byte list. -/
def scan : List UInt8 → Scan
  | [] => .finished
  | byte :: rest =>
    if byte.toNat < 0x80 then .character byte.toNat 1 rest
    else match announce byte with
      | none => .invalid 1 rest
      | some announcement =>
        scanFollowing announcement.share 1 announcement.following announcement.low
          announcement.high rest

/-- Why a byte list is not UTF-8. -/
inductive Failure where
  /-- After `valid` good bytes come `width` bytes that begin no character. -/
  | invalid (width valid : Nat)
  /-- The list ends inside a character that begins after `valid` good bytes. -/
  | truncated (valid : Nat)
  deriving DecidableEq, Repr

/-- The wording of a failure. -/
def Failure.message : Failure → String
  | .invalid width valid =>
    s!"invalid utf-8 sequence of {width} bytes from index {valid}"
  | .truncated valid => s!"incomplete utf-8 byte sequence from index {valid}"

/-- What is left after a scan is shorter than what was scanned. -/
def Scan.restBelow (bound : Nat) : Scan → Prop
  | .finished | .truncated => True
  | .character _ _ rest | .invalid _ rest => rest.length < bound

theorem Scan.restBelow_mono {found : Scan} {small large : Nat} (bound : small ≤ large)
    (below : found.restBelow small) : found.restBelow large := by
  cases found with
  | finished | truncated => trivial
  | character _ _ _ | invalid _ _ => exact Nat.lt_of_lt_of_le below bound

theorem scanFollowing_restBelow (following : Nat) : ∀ (code read low high : Nat)
    (bytes : List UInt8),
    (scanFollowing code read following low high bytes).restBelow (bytes.length + 1) := by
  induction following with
  | zero => intro code read low high bytes; simp [scanFollowing, Scan.restBelow]
  | succ following ih =>
    intro code read low high bytes
    cases bytes with
    | nil => simp [scanFollowing, Scan.restBelow]
    | cons byte rest =>
      rw [scanFollowing]
      split
      · exact Scan.restBelow_mono (Nat.le_succ _) (ih _ _ _ _ rest)
      · simp [Scan.restBelow]

theorem scan_restBelow (bytes : List UInt8) : (scan bytes).restBelow bytes.length := by
  cases bytes with
  | nil => simp [scan, Scan.restBelow]
  | cons byte rest =>
    rw [scan]
    split
    · simp [Scan.restBelow]
    · split
      · simp [Scan.restBelow]
      · exact scanFollowing_restBelow _ _ _ _ _ _

/-- The characters of a byte list of which `valid` bytes are read already. -/
def decodeFrom (valid : Nat) (bytes : List UInt8) : Except Failure (List Char) :=
  match _found : scan bytes with
  | .finished => .ok []
  | .character code width rest => (decodeFrom (valid + width) rest).map (Char.ofNat code :: ·)
  | .invalid width _ => .error (.invalid width valid)
  | .truncated => .error (.truncated valid)
termination_by bytes.length
decreasing_by
  have shorter := scan_restBelow bytes
  rw [_found] at shorter
  exact shorter

/-- The text a byte list encodes. -/
def decode (bytes : List UInt8) : Except Failure String :=
  (decodeFrom 0 bytes).map String.ofList

/-- The characters of a byte list, U+FFFD for every sequence that is none. -/
def decodeLossyChars (bytes : List UInt8) : List Char :=
  match _found : scan bytes with
  | .finished => []
  | .character code _ rest => Char.ofNat code :: decodeLossyChars rest
  | .invalid _ rest => Char.ofNat 0xFFFD :: decodeLossyChars rest
  | .truncated => [Char.ofNat 0xFFFD]
termination_by bytes.length
decreasing_by
  all_goals
    have shorter := scan_restBelow bytes
    rw [_found] at shorter
    exact shorter

/-- The text of a byte list, U+FFFD for every sequence that is none. -/
def decodeLossy (bytes : List UInt8) : String :=
  String.ofList (decodeLossyChars bytes)

end EntityModel.Utf8
