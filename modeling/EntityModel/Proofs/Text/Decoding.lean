import EntityModel.Proofs.Text.Encoding

/-
**Only what is UTF-8 is read.**

* `scan_eq_character` — a character that is scanned stands there with the bytes it is written with.
* `encode_of_decode` — **bytes that are read are the bytes of the text they give**, so every text
  has one form in bytes.
-/

namespace EntityModel.Utf8

theorem toNat_ofNat_of_valid {code : Nat}
    (valid : code < 0xD800 ∨ 0xDFFF < code ∧ code < 0x110000) : (Char.ofNat code).toNat = code := by
  rw [Char.ofNat, dif_pos valid]
  rfl

theorem ofNat_eq_byte {number : Nat} {byte : UInt8} (same : number = byte.toNat) :
    UInt8.ofNat number = byte := by
  rw [same, UInt8.ofNat_toNat]

theorem utf8EncodeChar_two {c : Char} (beyond : 0x7F < c.toNat) (atMost : c.toNat ≤ 0x7FF) :
    String.utf8EncodeChar c =
      [UInt8.ofNat (c.toNat / 64 % 0x20 + 0xC0), UInt8.ofNat (c.toNat % 0x40 + 0x80)] := by
  unfold String.utf8EncodeChar
  simp only [show c.val.toNat = c.toNat from rfl, if_neg (Nat.not_le.mpr beyond), if_pos atMost]

theorem utf8EncodeChar_three {c : Char} (beyond : 0x7FF < c.toNat) (atMost : c.toNat ≤ 0xFFFF) :
    String.utf8EncodeChar c =
      [UInt8.ofNat (c.toNat / 4096 % 0x10 + 0xE0), UInt8.ofNat (c.toNat / 64 % 0x40 + 0x80),
        UInt8.ofNat (c.toNat % 0x40 + 0x80)] := by
  unfold String.utf8EncodeChar
  simp only [show c.val.toNat = c.toNat from rfl,
    if_neg (show ¬ c.toNat ≤ 0x7F by omega), if_neg (Nat.not_le.mpr beyond), if_pos atMost]

theorem utf8EncodeChar_four {c : Char} (beyond : 0xFFFF < c.toNat) :
    String.utf8EncodeChar c =
      [UInt8.ofNat (c.toNat / 262144 % 0x08 + 0xF0), UInt8.ofNat (c.toNat / 4096 % 0x40 + 0x80),
        UInt8.ofNat (c.toNat / 64 % 0x40 + 0x80), UInt8.ofNat (c.toNat % 0x40 + 0x80)] := by
  unfold String.utf8EncodeChar
  simp only [show c.val.toNat = c.toNat from rfl, if_neg (show ¬ c.toNat ≤ 0x7F by omega),
    if_neg (show ¬ c.toNat ≤ 0x7FF by omega), if_neg (Nat.not_le.mpr beyond)]

/-! ### Announcements -/

/-- What a leading byte announces, by the number of bytes to follow. -/
inductive Announces (lead : Nat) : Announcement → Prop where
  | two (atLeast : 0xC2 ≤ lead) (atMost : lead ≤ 0xDF) :
      Announces lead ⟨lead - 0xC0, 1, 0x80, 0xBF⟩
  | three (atLeast : 0xE0 ≤ lead) (atMost : lead ≤ 0xEF) :
      Announces lead ⟨lead - 0xE0, 2, if lead = 0xE0 then 0xA0 else 0x80,
        if lead = 0xED then 0x9F else 0xBF⟩
  | four (atLeast : 0xF0 ≤ lead) (atMost : lead ≤ 0xF4) :
      Announces lead ⟨lead - 0xF0, 3, if lead = 0xF0 then 0x90 else 0x80,
        if lead = 0xF4 then 0x8F else 0xBF⟩

theorem announces_of_announce {byte : UInt8} {announcement : Announcement}
    (announced : announce byte = some announcement) : Announces byte.toNat announcement := by
  have small := byte.toNat_lt
  have known : byte = UInt8.ofNat byte.toNat := UInt8.ofNat_toNat.symm
  by_cases two : 0xC2 ≤ byte.toNat ∧ byte.toNat ≤ 0xDF
  · rw [known, announce_two two.1 two.2] at announced
    exact Option.some.inj announced ▸ .two two.1 two.2
  by_cases three : 0xE0 ≤ byte.toNat ∧ byte.toNat ≤ 0xEF
  · rw [known, announce_three three.1 three.2] at announced
    exact Option.some.inj announced ▸ .three three.1 three.2
  by_cases four : 0xF0 ≤ byte.toNat ∧ byte.toNat ≤ 0xF4
  · rw [known, announce_four four.1 four.2] at announced
    exact Option.some.inj announced ▸ .four four.1 four.2
  have silent : announce byte = none := by
    unfold announce
    simp only [Bool.and_eq_true, decide_eq_true_eq]
    repeat rw [if_neg (by omega)]
  rw [silent] at announced
  exact nomatch announced

/-! ### Bytes to follow -/

/-- One byte more of a character: what it adds, and how the scan goes on behind it. -/
theorem scanFollowing_eq_character {code read following low high found width : Nat}
    {bytes rest : List UInt8}
    (scanned : scanFollowing code read (following + 1) low high bytes =
      .character found width rest) :
    ∃ byte others, bytes = byte :: others ∧ low ≤ byte.toNat ∧ byte.toNat ≤ high ∧
      scanFollowing (code * 64 + (byte.toNat - 0x80)) (read + 1) following 0x80 0xBF others =
        .character found width rest := by
  cases bytes with
  | nil => exact nomatch scanned
  | cons byte others =>
    rw [scanFollowing] at scanned
    split at scanned
    · rename_i inside
      rw [Bool.and_eq_true, decide_eq_true_eq, decide_eq_true_eq] at inside
      exact ⟨byte, others, rfl, inside.1, inside.2, scanned⟩
    · cases scanned

theorem scanFollowing_zero_eq_character {code read low high found width : Nat}
    {bytes rest : List UInt8}
    (scanned : scanFollowing code read 0 low high bytes = .character found width rest) :
    code = found ∧ bytes = rest := by
  rw [scanFollowing] at scanned
  obtain ⟨same, _, rest⟩ := Scan.character.inj scanned
  exact ⟨same, rest⟩

section Followed

variable {lead : UInt8} {tail rest : List UInt8} {code width : Nat}

/-- A leading byte and one more are those of their character. -/
theorem encode_of_scanned_two (atLeast : 0xC2 ≤ lead.toNat) (atMost : lead.toNat ≤ 0xDF)
    (scanned : scanFollowing (lead.toNat - 0xC0) 1 1 0x80 0xBF tail = .character code width rest) :
    lead :: tail = String.utf8EncodeChar (Char.ofNat code) ++ rest := by
  obtain ⟨second, others, rfl, low, high, scanned⟩ := scanFollowing_eq_character scanned
  obtain ⟨same, rfl⟩ := scanFollowing_zero_eq_character scanned
  have number := @toNat_ofNat_of_valid code (by omega)
  rw [utf8EncodeChar_two (by omega) (by omega), number,
    @ofNat_eq_byte _ lead (by omega), @ofNat_eq_byte _ second (by omega)]
  rfl

/-- A leading byte and two more are those of their character: the bounds of the second byte leave out
longer forms of shorter characters, and surrogates. -/
theorem encode_of_scanned_three (atLeast : 0xE0 ≤ lead.toNat) (atMost : lead.toNat ≤ 0xEF)
    (scanned : scanFollowing (lead.toNat - 0xE0) 1 2 (if lead.toNat = 0xE0 then 0xA0 else 0x80)
      (if lead.toNat = 0xED then 0x9F else 0xBF) tail = .character code width rest) :
    lead :: tail = String.utf8EncodeChar (Char.ofNat code) ++ rest := by
  obtain ⟨second, others, rfl, low, high, scanned⟩ := scanFollowing_eq_character scanned
  obtain ⟨third, others, rfl, tail, tailHigh, scanned⟩ := scanFollowing_eq_character scanned
  obtain ⟨same, rfl⟩ := scanFollowing_zero_eq_character scanned
  have above : 0x7FF < code := by split at low <;> omega
  have below : code ≤ 0xFFFF := by split at high <;> omega
  have number := @toNat_ofNat_of_valid code (by split at high <;> omega)
  have first : code / 4096 % 0x10 + 0xE0 = lead.toNat := by split at high <;> omega
  have middle : code / 64 % 0x40 + 0x80 = second.toNat := by
    split at low <;> split at high <;> omega
  rw [utf8EncodeChar_three (by omega) (by omega), number, ofNat_eq_byte first,
    ofNat_eq_byte middle, @ofNat_eq_byte _ third (by omega)]
  rfl

/-- A leading byte and three more are those of their character: the bounds of the second byte leave
out longer forms of shorter characters, and what is past the last character. -/
theorem encode_of_scanned_four (atLeast : 0xF0 ≤ lead.toNat) (atMost : lead.toNat ≤ 0xF4)
    (scanned : scanFollowing (lead.toNat - 0xF0) 1 3 (if lead.toNat = 0xF0 then 0x90 else 0x80)
      (if lead.toNat = 0xF4 then 0x8F else 0xBF) tail = .character code width rest) :
    lead :: tail = String.utf8EncodeChar (Char.ofNat code) ++ rest := by
  obtain ⟨second, others, rfl, low, high, scanned⟩ := scanFollowing_eq_character scanned
  obtain ⟨third, others, rfl, tail, tailHigh, scanned⟩ := scanFollowing_eq_character scanned
  obtain ⟨fourth, others, rfl, last, lastHigh, scanned⟩ := scanFollowing_eq_character scanned
  obtain ⟨same, rfl⟩ := scanFollowing_zero_eq_character scanned
  have above : 0xFFFF < code := by split at low <;> omega
  have below : code < 0x110000 := by split at high <;> omega
  have number := @toNat_ofNat_of_valid code (by omega)
  have first : code / 262144 % 0x08 + 0xF0 = lead.toNat := by split at high <;> omega
  have middle : code / 4096 % 0x40 + 0x80 = second.toNat := by
    split at low <;> split at high <;> omega
  rw [utf8EncodeChar_four (by omega), number, ofNat_eq_byte first, ofNat_eq_byte middle,
    @ofNat_eq_byte _ third (by omega), @ofNat_eq_byte _ fourth (by omega)]
  rfl

end Followed

/-- **A character that is scanned stands there with the bytes it is written with.** -/
theorem scan_eq_character {bytes rest : List UInt8} {code width : Nat}
    (scanned : scan bytes = .character code width rest) :
    bytes = String.utf8EncodeChar (Char.ofNat code) ++ rest := by
  cases bytes with
  | nil => exact nomatch scanned
  | cons lead tail =>
    rw [scan] at scanned
    split at scanned
    · rename_i ascii
      obtain ⟨rfl, _, rfl⟩ := Scan.character.inj scanned
      have number := @toNat_ofNat_of_valid lead.toNat (Or.inl (by omega))
      rw [utf8EncodeChar_of_lt (by rw [number]; exact ascii), number, ofNat_eq_byte rfl]
      rfl
    · split at scanned
      · cases scanned
      · rename_i announcement announced
        cases announces_of_announce announced with
        | two atLeast atMost => exact encode_of_scanned_two atLeast atMost scanned
        | three atLeast atMost => exact encode_of_scanned_three atLeast atMost scanned
        | four atLeast atMost => exact encode_of_scanned_four atLeast atMost scanned

theorem scan_eq_finished {bytes : List UInt8} (scanned : scan bytes = .finished) : bytes = [] := by
  have unfinished : ∀ following code read low high rest,
      scanFollowing code read following low high rest ≠ .finished := by
    intro following
    induction following with
    | zero => exact fun _ _ _ _ _ same => nomatch same
    | succ following ih =>
      intro code read low high rest
      cases rest with
      | nil => exact fun same => nomatch same
      | cons byte rest =>
        rw [scanFollowing]
        split
        · exact ih _ _ _ _ rest
        · intro same
          cases same
  cases bytes with
  | nil => rfl
  | cons lead tail =>
    rw [scan] at scanned
    split at scanned
    · cases scanned
    · split at scanned
      · cases scanned
      · exact absurd scanned (unfinished _ _ _ _ _ _)

theorem encodeChars_of_decodeFrom {valid : Nat} {bytes : List UInt8} {chars : List Char}
    (read : decodeFrom valid bytes = .ok chars) : encodeChars chars = bytes := by
  induction valid, bytes using decodeFrom.induct generalizing chars with
  | case1 valid bytes scanned =>
    rw [decodeFrom] at read
    split at read <;> rename_i found <;> rw [scanned] at found <;> cases found
    obtain rfl := Except.ok.inj read
    rw [scan_eq_finished scanned]
    rfl
  | case2 valid bytes code width rest scanned ih =>
    rw [decodeFrom_of_scan scanned] at read
    cases others : decodeFrom (valid + width) rest with
    | error failure =>
      rw [others] at read
      cases read
    | ok later =>
      rw [others] at read
      rw [← Except.ok.inj read, scan_eq_character scanned, ← ih others]
      rfl
  | case3 valid bytes width rest scanned =>
    rw [decodeFrom] at read
    split at read <;> rename_i found <;> rw [scanned] at found <;> cases found
    cases read
  | case4 valid bytes scanned =>
    rw [decodeFrom] at read
    split at read <;> rename_i found <;> rw [scanned] at found <;> cases found
    cases read

/-- **Bytes that are read are the bytes of the text they give.** -/
theorem encode_of_decode {bytes : List UInt8} {text : String} (read : decode bytes = .ok text) :
    encode text = bytes := by
  unfold decode at read
  cases decoded : decodeFrom 0 bytes with
  | error failure =>
    rw [decoded] at read
    exact nomatch read
  | ok chars =>
    rw [decoded] at read
    rw [← Except.ok.inj read, encode_ofList, encodeChars_of_decodeFrom decoded]

end EntityModel.Utf8
