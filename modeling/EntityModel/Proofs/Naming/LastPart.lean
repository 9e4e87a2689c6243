import EntityModel.Proofs.Text.Parts
import EntityModel.Workspace.Rename

/-
**The last part of a name that a text is written for.**

* `wrapType` — a bare name alone or in the wrapper `IsTypeOf(…)`.
* `exists_wrapType` — a text is the name inside it, wrapped or not, up to blanks;
  `toList_replaceLastPart` — with another last part it is the same with that part at the end.
* `unwrapTypeChars_wrapType` — so the name inside the new text is the old one with the new part.
-/

namespace EntityModel

open Text

/-- A bare name alone, or in the wrapper that takes the derived types in. -/
def wrapType (wrapped : Bool) (bare : List Char) : List Char :=
  if wrapped then "IsTypeOf(".toList ++ bare ++ [')'] else bare

/-! ### The name inside a text -/

theorem trimmed_opening : Trimmed "IsTypeOf(".toList := by
  have head : "IsTypeOf(".toList.head? = some 'I' := by decide +kernel
  have last : "IsTypeOf(".toList.getLast? = some '(' := by decide +kernel
  refine ⟨fun c found => ?_, fun c found => ?_⟩
  · obtain rfl := Option.some.inj (head.symm.trans found)
    decide +kernel
  · obtain rfl := Option.some.inj (last.symm.trans found)
    decide +kernel

theorem trimmed_closing : Trimmed [')'] := by
  refine ⟨fun c found => ?_, fun c found => ?_⟩
  · obtain rfl := Option.some.inj found
    decide +kernel
  · obtain rfl := Option.some.inj found
    decide +kernel

theorem unwrapTypeChars_of_last {chars : List Char} (trimmed : Trimmed chars)
    (open_ : chars.getLast? ≠ some ')') : unwrapTypeChars chars = chars := by
  unfold unwrapTypeChars
  simp only [trimmed.trimChars]
  split
  · split
    · rename_i _ closed
      refine absurd ?_ open_
      rw [List.getLast?_drop] at closed
      split at closed
      · exact nomatch closed
      · exact closed
    · rfl
  · rfl

theorem unwrapTypeChars_wrapped (inner : List Char) :
    unwrapTypeChars ("IsTypeOf(".toList ++ inner ++ [')']) = trimChars inner := by
  have trimmed : Trimmed ("IsTypeOf(".toList ++ inner ++ [')']) :=
    trimmed_opening.append trimmed_closing (by decide) (by decide) inner
  have rest : ("IsTypeOf(".toList ++ inner ++ [')']).drop "IsTypeOf(".toList.length =
      inner ++ [')'] := by
    rw [List.append_assoc, List.drop_left]
  unfold unwrapTypeChars
  simp only [trimmed.trimChars, rest]
  rw [if_pos (by rw [List.append_assoc, List.isPrefixOf_iff_prefix]; exact List.prefix_append _ _),
    if_pos List.getLast?_concat, List.dropLast_concat]

/-- A trimmed text is the name inside it, or the wrapper with that name between blanks. -/
theorem exists_wrapType {chars : List Char} (trimmed : Trimmed chars) :
    unwrapTypeChars chars = chars ∨
      ∃ inner, chars = wrapType true inner ∧ unwrapTypeChars chars = trimChars inner := by
  by_cases opens : "IsTypeOf(".toList.isPrefixOf chars = true
  · obtain ⟨rest, rfl⟩ := List.isPrefixOf_iff_prefix.mp opens
    by_cases closed : rest.getLast? = some ')'
    · obtain ⟨inner, rfl⟩ := List.getLast?_eq_some_iff.mp closed
      rw [← List.append_assoc]
      exact Or.inr ⟨inner, rfl, unwrapTypeChars_wrapped inner⟩
    · left
      unfold unwrapTypeChars
      simp only [trimmed.trimChars, List.drop_left]
      rw [if_pos opens, if_neg closed]
  · left
    unfold unwrapTypeChars
    simp only [trimmed.trimChars]
    rw [if_neg opens]

theorem trimmed_unwrapTypeChars {chars : List Char} (trimmed : Trimmed chars) :
    Trimmed (unwrapTypeChars chars) := by
  rcases exists_wrapType trimmed with same | ⟨inner, _, same⟩
  · rw [same]
    exact trimmed
  · rw [same]
    exact trimmed_trimChars inner

/-! ### Another last part -/

section Replacing

variable {stem part : List Char}

theorem trimmed_wrapType (wrapped : Bool) {bare : List Char} (trimmed : Trimmed bare) :
    Trimmed (wrapType wrapped bare) := by
  cases wrapped with
  | false => exact trimmed
  | true =>
    exact trimmed_opening.append trimmed_closing (by decide) (by decide) bare

/-- **The name inside a wrapped or bare name** is that name. -/
theorem unwrapTypeChars_wrapType (wrapped : Bool) (isPart : IsPart part)
    (trimmed : Trimmed (stem ++ part)) :
    unwrapTypeChars (wrapType wrapped (stem ++ part)) = stem ++ part := by
  cases wrapped with
  | true =>
    rw [wrapType, if_pos rfl, unwrapTypeChars_wrapped, trimmed.trimChars]
  | false =>
    refine unwrapTypeChars_of_last trimmed fun closed => isPart.closing ?_
    rw [wrapType, if_neg Bool.false_ne_true, List.getLast?_append] at closed
    obtain ⟨last, isLast⟩ := Option.ne_none_iff_exists'.mp fun none =>
      isPart.nonempty (List.getLast?_eq_none_iff.mp none)
    rw [isLast] at closed
    obtain rfl : last = ')' := Option.some.inj closed
    exact List.mem_of_getLast? isLast

theorem toList_unwrapType (text : String) :
    (unwrapType text).toList = unwrapTypeChars text.toList :=
  String.toList_ofList

/-- The name inside a text with another last part. -/
def replaceBarePart (text name : String) : String :=
  match cutLast? Symbol.separator (unwrapType text).toList with
  | some sides => String.ofList sides.1 ++ "." ++ name
  | none => name

theorem replaceLastPart_eq (text name : String) : replaceLastPart text name =
    if (unwrapType text).utf8ByteSize = (trim text).utf8ByteSize then replaceBarePart text name
    else "IsTypeOf(" ++ replaceBarePart text name ++ ")" := by
  cases cut : cutLast? Symbol.separator (unwrapType text).toList with
  | none => simp only [replaceLastPart, replaceBarePart, cut]
  | some sides => simp only [replaceLastPart, replaceBarePart, cut]

theorem toList_replaceBarePart {text name : String} {last : List Char}
    (bare : unwrapTypeChars text.toList = stem ++ last) (isStem : IsStem '.' stem)
    (absent : '.' ∉ last) : (replaceBarePart text name).toList = stem ++ name.toList := by
  rw [replaceBarePart, toList_unwrapType, bare, Symbol.separator]
  rcases isStem with rfl | ⟨front, rfl⟩
  · rw [List.nil_append, cutLast?_of_not_mem absent]
    rfl
  · rw [List.append_assoc, List.singleton_append, cutLast?_append absent]
    simp [String.toList_append]

/-- **A text with another last part** is the name inside it with that part at the end, wrapped if the
text was. -/
theorem toList_replaceLastPart {text : String} {last : List Char} (trimmed : Trimmed text.toList)
    (bare : unwrapTypeChars text.toList = stem ++ last) (isStem : IsStem '.' stem)
    (absent : '.' ∉ last) : ∃ wrapped,
      (∀ name, (replaceLastPart text name).toList = wrapType wrapped (stem ++ name.toList)) ∧
        (∀ c ∈ wrapType wrapped stem, c ∈ text.toList) ∧
          (unwrapTypeChars text.toList = text.toList → wrapped = false) := by
  have inside := fun name => @toList_replaceBarePart stem text name last bare isStem absent
  rcases exists_wrapType trimmed with same | ⟨inner, whole, same⟩
  · have alike : unwrapType text = trim text := by
      rw [trimmed.trim, ← String.toList_inj, toList_unwrapType, same]
    refine ⟨false, fun name => ?_, fun c member => ?_, fun _ => rfl⟩
    · rw [replaceLastPart_eq, if_pos (congrArg String.utf8ByteSize alike)]
      exact inside name
    · rw [← same, bare]
      exact List.mem_append_left _ member
  · obtain ⟨front, back, around, _, _⟩ := exists_around inner
    have parts : trim text = "IsTypeOf(" ++ String.ofList front ++ unwrapType text ++
        String.ofList back ++ ")" := by
      have spelled : text.toList = "IsTypeOf(".toList ++ (front ++ trimChars inner ++ back) ++
          ")".toList := by
        rw [← around]
        exact whole
      rw [trimmed.trim, ← String.toList_inj, spelled]
      simp only [String.toList_append, toList_unwrapType, same, String.toList_ofList,
        List.append_assoc]
    have longer : (unwrapType text).utf8ByteSize ≠ (trim text).utf8ByteSize := by
      have closing : 0 < ")".utf8ByteSize := by decide +kernel
      rw [parts, String.utf8ByteSize_append, String.utf8ByteSize_append,
        String.utf8ByteSize_append, String.utf8ByteSize_append]
      omega
    refine ⟨true, fun name => ?_, fun c member => ?_, fun bareText => ?_⟩
    · rw [replaceLastPart_eq, if_neg longer, String.toList_append, String.toList_append,
        inside name]
      rfl
    · have within : ∀ c ∈ stem, c ∈ inner := by
        intro c member
        rw [around]
        refine List.mem_append_left _ (List.mem_append_right _ ?_)
        rw [← same, bare]
        exact List.mem_append_left _ member
      rw [wrapType, if_pos rfl, List.mem_append, List.mem_append] at member
      rw [whole, wrapType, if_pos rfl, List.mem_append, List.mem_append]
      exact member.imp_left (Or.imp_right (within c))
    · refine absurd (congrArg String.utf8ByteSize ?_) longer
      rw [trimmed.trim, ← String.toList_inj, toList_unwrapType, bareText]

end Replacing

end EntityModel
