import Mathlib.Data.List.Basic
import Mathlib.Tactic.IntervalCases
import EntityModel.Text.Utf8

/-
**Writing UTF-8, and reading it back.**

* `encode` — the bytes of a text; `toList_toUTF8` — they are those of the string.
* `mem_encodeChars` — a byte below 0x80 stands for its character and is part of no other.
* `scan_encodeChar`, `decode_encode` — **what is written is read back.**
-/

namespace EntityModel.Utf8

/-- The bytes of a list of characters. -/
def encodeChars (chars : List Char) : List UInt8 :=
  chars.flatMap String.utf8EncodeChar

/-- The bytes of a text. -/
def encode (text : String) : List UInt8 :=
  encodeChars text.toList

theorem encodeChars_append (front back : List Char) :
    encodeChars (front ++ back) = encodeChars front ++ encodeChars back :=
  List.flatMap_append

theorem encode_append (front back : String) :
    encode (front ++ back) = encode front ++ encode back := by
  unfold encode
  rw [String.toList_append, encodeChars_append]

theorem encode_ofList (chars : List Char) : encode (String.ofList chars) = encodeChars chars := by
  unfold encode
  rw [String.toList_ofList]

theorem encode_join (texts : List String) :
    encode (String.join texts) = texts.flatMap encode := by
  have joined : ∀ front : String, encode (texts.foldl (· ++ ·) front) =
      encode front ++ texts.flatMap encode := by
    induction texts with
    | nil => intro front; exact (List.append_nil _).symm
    | cons text texts ih =>
      intro front
      rw [List.foldl_cons, ih, encode_append, List.flatMap_cons, List.append_assoc]
  exact joined ""

/-! ### The bytes of a string -/

theorem toList_loop (bytes : ByteArray) (left : Nat) : ∀ (index : Nat) (read : List UInt8),
    bytes.size - index = left →
      ByteArray.toList.loop bytes index read = read.reverse ++ bytes.data.toList.drop index := by
  induction left with
  | zero =>
    intro index read none
    have done : bytes.size ≤ index := Nat.le_of_sub_eq_zero none
    rw [ByteArray.toList.loop, if_neg (Nat.not_lt.mpr done), List.drop_eq_nil_of_le,
      List.append_nil]
    exact done
  | succ left ih =>
    intro index read some
    have inside : index < bytes.size := Nat.lt_of_sub_eq_succ some
    have bound : index < bytes.data.toList.length := inside
    rw [ByteArray.toList.loop, if_pos inside, ih (index + 1) _ (by omega), List.reverse_cons,
      List.append_assoc, List.drop_eq_getElem_cons bound]
    have here : bytes.get! index = bytes.data.toList[index] := by
      show bytes.data[index]! = _
      rw [getElem!_pos bytes.data index inside]
      rfl
    rw [here]
    rfl

theorem toList_toUTF8 (text : String) : text.toUTF8.toList = encode text := by
  have whole : text.toUTF8.toList = text.toUTF8.data.toList := by
    unfold ByteArray.toList
    rw [toList_loop _ _ 0 [] rfl]
    rfl
  have same : text.toUTF8 = List.utf8Encode text.toList := by
    rw [← String.toByteArray_ofList, String.ofList_toList]
    rfl
  rw [whole, same, List.utf8Encode, List.toList_data_toByteArray]
  rfl

/-! ### Single bytes -/

theorem utf8EncodeChar_of_lt {c : Char} (ascii : c.toNat < 0x80) :
    String.utf8EncodeChar c = [UInt8.ofNat c.toNat] :=
  if_pos (Nat.le_of_lt_succ ascii)

/-- The bytes of a character beyond 0x7F are beyond 0x7F themselves. -/
theorem le_of_mem_utf8EncodeChar {c : Char} (beyond : 0x80 ≤ c.toNat) {byte : UInt8}
    (member : byte ∈ String.utf8EncodeChar c) : 0x80 ≤ byte.toNat := by
  have large : ¬ c.val.toNat ≤ 0x7F := Nat.not_le.mpr beyond
  unfold String.utf8EncodeChar at member
  simp only [if_neg large] at member
  split at member
  · simp only [List.mem_cons, List.not_mem_nil, or_false] at member
    rcases member with rfl | rfl <;> simp only [UInt8.toNat_ofNat'] <;> omega
  · split at member
    · simp only [List.mem_cons, List.not_mem_nil, or_false] at member
      rcases member with rfl | rfl | rfl <;> simp only [UInt8.toNat_ofNat'] <;> omega
    · simp only [List.mem_cons, List.not_mem_nil, or_false] at member
      rcases member with rfl | rfl | rfl | rfl <;> simp only [UInt8.toNat_ofNat'] <;> omega

/-- **A byte below 0x80 stands for its character**, and is part of no other. -/
theorem mem_encodeChars {chars : List Char} {byte : UInt8} (ascii : byte.toNat < 0x80) :
    byte ∈ encodeChars chars ↔ Char.ofNat byte.toNat ∈ chars := by
  have number : (Char.ofNat byte.toNat).toNat = byte.toNat := by
    rw [Char.ofNat, dif_pos (Or.inl (by omega))]
    rfl
  unfold encodeChars
  rw [List.mem_flatMap]
  constructor
  · rintro ⟨c, member, inside⟩
    by_cases small : c.toNat < 0x80
    · rw [utf8EncodeChar_of_lt small, List.mem_singleton] at inside
      rw [inside, UInt8.toNat_ofNat', Nat.mod_eq_of_lt (by omega), Char.ofNat_toNat]
      exact member
    · have large := le_of_mem_utf8EncodeChar (Nat.le_of_not_lt small) inside
      exact absurd ascii (Nat.not_lt.mpr large)
  · intro member
    refine ⟨_, member, ?_⟩
    rw [utf8EncodeChar_of_lt (by rw [number]; exact ascii), number, UInt8.ofNat_toNat]
    exact List.mem_singleton_self byte

/-! ### Reading back -/

theorem announce_two {lead : Nat} (atLeast : 0xC2 ≤ lead) (atMost : lead ≤ 0xDF) :
    announce (UInt8.ofNat lead) = some ⟨lead - 0xC0, 1, 0x80, 0xBF⟩ := by
  interval_cases lead <;> rfl

theorem announce_three {lead : Nat} (atLeast : 0xE0 ≤ lead) (atMost : lead ≤ 0xEF) :
    announce (UInt8.ofNat lead) = some ⟨lead - 0xE0, 2, if lead = 0xE0 then 0xA0 else 0x80,
      if lead = 0xED then 0x9F else 0xBF⟩ := by
  interval_cases lead <;> rfl

theorem announce_four {lead : Nat} (atLeast : 0xF0 ≤ lead) (atMost : lead ≤ 0xF4) :
    announce (UInt8.ofNat lead) = some ⟨lead - 0xF0, 3, if lead = 0xF0 then 0x90 else 0x80,
      if lead = 0xF4 then 0x8F else 0xBF⟩ := by
  interval_cases lead <;> rfl

theorem scan_of_announced {lead : Nat} (beyond : 0x80 ≤ lead) (byte : lead < 0x100)
    {announcement : Announcement} (announced : announce (UInt8.ofNat lead) = some announcement)
    (rest : List UInt8) :
    scan (UInt8.ofNat lead :: rest) =
      scanFollowing announcement.share 1 announcement.following announcement.low
        announcement.high rest := by
  have large : ¬ (UInt8.ofNat lead).toNat < 0x80 := by
    rw [UInt8.toNat_ofNat', Nat.mod_eq_of_lt byte]
    exact Nat.not_lt.mpr beyond
  rw [scan, if_neg large, announced]

theorem scanFollowing_step {code read following low high tail : Nat} (atLeast : low ≤ tail + 0x80)
    (atMost : tail + 0x80 ≤ high) (byte : tail + 0x80 < 0x100) (rest : List UInt8) :
    scanFollowing code read (following + 1) low high (UInt8.ofNat (tail + 0x80) :: rest) =
      scanFollowing (code * 64 + tail) (read + 1) following 0x80 0xBF rest := by
  have number : (UInt8.ofNat (tail + 0x80)).toNat = tail + 0x80 := by
    rw [UInt8.toNat_ofNat', Nat.mod_eq_of_lt byte]
  rw [scanFollowing, number, if_pos (by simp [atLeast, atMost]), Nat.add_sub_cancel]

theorem scan_two {code : Nat} (beyond : 0x7F < code) (atMost : code ≤ 0x7FF) (rest : List UInt8) :
    scan (UInt8.ofNat (code / 64 % 0x20 + 0xC0) :: UInt8.ofNat (code % 0x40 + 0x80) :: rest) =
      .character code 2 rest := by
  rw [scan_of_announced (by omega) (by omega) (announce_two (by omega) (by omega))]
  dsimp only
  rw [scanFollowing_step (by omega) (by omega) (by omega), scanFollowing]
  congr 1
  omega

theorem scan_three {code : Nat} (beyond : 0x7FF < code) (atMost : code ≤ 0xFFFF)
    (valid : code < 0xD800 ∨ 0xDFFF < code) (rest : List UInt8) :
    scan (UInt8.ofNat (code / 4096 % 0x10 + 0xE0) :: UInt8.ofNat (code / 64 % 0x40 + 0x80) ::
      UInt8.ofNat (code % 0x40 + 0x80) :: rest) = .character code 3 rest := by
  rw [scan_of_announced (by omega) (by omega) (announce_three (by omega) (by omega))]
  dsimp only
  rw [scanFollowing_step (by split <;> omega) (by split <;> omega) (by omega),
    scanFollowing_step (by omega) (by omega) (by omega), scanFollowing]
  congr 1
  omega

theorem scan_four {code : Nat} (beyond : 0xFFFF < code) (atMost : code < 0x110000)
    (rest : List UInt8) :
    scan (UInt8.ofNat (code / 262144 % 0x08 + 0xF0) :: UInt8.ofNat (code / 4096 % 0x40 + 0x80) ::
      UInt8.ofNat (code / 64 % 0x40 + 0x80) :: UInt8.ofNat (code % 0x40 + 0x80) :: rest) =
      .character code 4 rest := by
  rw [scan_of_announced (by omega) (by omega) (announce_four (by omega) (by omega))]
  dsimp only
  rw [scanFollowing_step (by split <;> omega) (by split <;> omega) (by omega),
    scanFollowing_step (by omega) (by omega) (by omega),
    scanFollowing_step (by omega) (by omega) (by omega), scanFollowing]
  congr 1
  omega

/-- The bytes of a character are scanned as that character. -/
theorem scan_encodeChar (c : Char) (rest : List UInt8) :
    ∃ width, scan (String.utf8EncodeChar c ++ rest) = .character c.toNat width rest := by
  have valid : c.toNat < 0xD800 ∨ 0xDFFF < c.toNat ∧ c.toNat < 0x110000 := c.valid
  unfold String.utf8EncodeChar
  simp only [show c.val.toNat = c.toNat from rfl]
  split_ifs with one two three
  · have number : (UInt8.ofNat c.toNat).toNat = c.toNat := by
      rw [UInt8.toNat_ofNat', Nat.mod_eq_of_lt (by omega)]
    refine ⟨1, ?_⟩
    rw [List.singleton_append, scan, number, if_pos (Nat.lt_succ_of_le one)]
  · exact ⟨2, scan_two (by omega) two rest⟩
  · exact ⟨3, scan_three (by omega) three (by omega) rest⟩
  · exact ⟨4, scan_four (by omega) (by omega) rest⟩

theorem decodeFrom_of_scan {valid code width : Nat} {bytes rest : List UInt8}
    (found : scan bytes = .character code width rest) :
    decodeFrom valid bytes = (decodeFrom (valid + width) rest).map (Char.ofNat code :: ·) := by
  rw [decodeFrom]
  split <;> rename_i found' <;> rw [found] at found' <;> cases found'
  rfl

theorem decodeFrom_encodeChars (chars : List Char) : ∀ valid : Nat,
    decodeFrom valid (encodeChars chars) = .ok chars := by
  induction chars with
  | nil => intro valid; rw [show encodeChars [] = [] from rfl, decodeFrom]; rfl
  | cons c chars ih =>
    intro valid
    obtain ⟨width, found⟩ := scan_encodeChar c (encodeChars chars)
    rw [show encodeChars (c :: chars) = String.utf8EncodeChar c ++ encodeChars chars from
      List.flatMap_cons, decodeFrom_of_scan found, ih, Char.ofNat_toNat]
    rfl

/-- **What is written is read back.** -/
theorem decode_encode (text : String) : decode (encode text) = .ok text := by
  rw [decode, encode, decodeFrom_encodeChars]
  exact congrArg Except.ok String.ofList_toList

theorem encode_injective : Function.Injective encode := by
  intro first second same
  have read := congrArg decode same
  rw [decode_encode, decode_encode] at read
  exact Except.ok.inj read

end EntityModel.Utf8
