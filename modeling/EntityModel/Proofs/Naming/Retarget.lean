import Mathlib.Data.List.Forall2
import EntityModel.Proofs.Naming.LastPart

/-
**The text of a reference in which some entries have got another last part.**

* `Reference.retargeted` — the texts a reference has after that: entry by entry the old one, or the
  old one with another last part where the slot leads to the node.
* `texts_retarget` — **the new text of the reference has these entries**: putting them together does
  not run them into each other.
-/

namespace EntityModel

open Text

theorem toList_separator (separator : Char) : separator.toString.toList = [separator] := by
  simp [Char.toString]

section Entries

variable {text name : String} (trimmed : Trimmed text.toList) (isPart : IsPart name.toList)

include trimmed isPart

theorem trimmed_replaceLastPart : Trimmed (replaceLastPart text name).toList := by
  obtain ⟨stem, last, bare, isStem, absent⟩ := exists_stem '.' (unwrapTypeChars text.toList)
  obtain ⟨wrapped, replaced, _, _⟩ := toList_replaceLastPart trimmed bare isStem absent
  rw [replaced]
  refine trimmed_wrapType wrapped (isPart.trimmed_append fun c found => ?_)
  refine (trimmed_unwrapTypeChars trimmed).head c ?_
  rw [bare, List.head?_append, found]
  rfl

theorem replaceLastPart_ne_empty : replaceLastPart text name ≠ "" := by
  obtain ⟨stem, last, bare, isStem, absent⟩ := exists_stem '.' (unwrapTypeChars text.toList)
  obtain ⟨wrapped, replaced, _, _⟩ := toList_replaceLastPart trimmed bare isStem absent
  intro empty
  have chars := replaced name
  rw [empty] at chars
  cases wrapped with
  | false => exact isPart.nonempty (List.append_eq_nil_iff.mp chars.symm).2
  | true => exact nomatch chars

omit isPart in
/-- No character comes in that is neither in the text nor in the new part. -/
theorem not_mem_replaceLastPart {c : Char} (absent : c ∉ text.toList) (apart : c ∉ name.toList) :
    c ∉ (replaceLastPart text name).toList := by
  obtain ⟨stem, last, bare, isStem, without⟩ := exists_stem '.' (unwrapTypeChars text.toList)
  obtain ⟨wrapped, replaced, old, _⟩ := toList_replaceLastPart trimmed bare isStem without
  rw [replaced]
  have outside : c ∉ wrapType wrapped stem := fun member => absent (old c member)
  cases wrapped with
  | false =>
    rw [wrapType, if_neg Bool.false_ne_true] at outside ⊢
    rw [List.mem_append, not_or]
    exact ⟨outside, apart⟩
  | true =>
    rw [wrapType, if_pos rfl, List.mem_append, List.mem_append, not_or, not_or] at outside ⊢
    rw [List.mem_append, not_or]
    exact ⟨⟨outside.1.1, outside.1.2, apart⟩, outside.2⟩

end Entries

namespace Reference

variable (reference : Reference) (separator : Char) (target : NodeId) (name : String)

/-- The texts of the reference, those whose slots lead to the node with another last part. -/
def retargeted : List String :=
  List.zipWith (fun text found => if found = some target then replaceLastPart text name else text)
    (reference.texts separator)
    (reference.slots.map Slot.target? ++ List.replicate (reference.texts separator).length none)

theorem retarget_eq : reference.retarget separator target name =
    separator.toString.intercalate (reference.retargeted separator target name) := rfl

theorem length_retargeted : (reference.retargeted separator target name).length =
    (reference.texts separator).length := by
  rw [retargeted, List.length_zipWith, List.length_append, List.length_replicate, List.length_map]
  omega

variable {reference separator target name}

/-- What stands at each place. -/
theorem getElem?_retargeted (index : Nat) : (reference.retargeted separator target name)[index]? =
    (reference.texts separator)[index]?.map fun text =>
      if reference.slots[index]?.bind Slot.target? = some target then replaceLastPart text name
      else text := by
  unfold retargeted
  rw [List.getElem?_zipWith]
  cases written : (reference.texts separator)[index]? with
  | none => rfl
  | some text =>
    have bound : index < (reference.texts separator).length :=
      (List.getElem?_eq_some_iff.mp written).1
    by_cases answered : index < reference.slots.length
    · rw [List.getElem?_append_left (by rwa [List.length_map]), List.getElem?_map,
        List.getElem?_eq_getElem answered]
      rfl
    · rw [List.getElem?_append_right (by rw [List.length_map]; omega), List.getElem?_replicate,
        if_pos (by omega), List.getElem?_eq_none (by omega)]
      rfl

/-- Where the slots follow from the texts, so do the new texts. -/
theorem retargeted_eq_map {found : String → Slot}
    (answers : reference.slots = (reference.texts separator).map found) :
    reference.retargeted separator target name = (reference.texts separator).map fun text =>
      if (found text).target? = some target then replaceLastPart text name else text := by
  refine List.ext_getElem? fun index => ?_
  rw [getElem?_retargeted, answers, List.getElem?_map, List.getElem?_map]
  cases (reference.texts separator)[index]? with
  | none => rfl
  | some text => rfl

/-- Entry by entry, what becomes of a text whose slot is known. -/
theorem forall₂_retargeted {related : Slot → String → Prop}
    (aligned : List.Forall₂ related reference.slots (reference.texts separator)) :
    List.Forall₂ (fun slot entry => ∃ text ∈ reference.texts separator, related slot text ∧
        entry = if slot.target? = some target then replaceLastPart text name else text)
      reference.slots (reference.retargeted separator target name) := by
  refine List.forall₂_iff_get.mpr ⟨?_, fun index answered bound => ?_⟩
  · rw [length_retargeted, aligned.length_eq]
  · have written : index < (reference.texts separator).length := by
      rw [← aligned.length_eq]
      exact answered
    refine ⟨(reference.texts separator)[index], List.getElem_mem written,
      aligned.get answered written, ?_⟩
    simp only [List.get_eq_getElem, retargeted, List.getElem_zipWith]
    rw [List.getElem_append_left (by rwa [List.length_map]), List.getElem_map]

theorem mem_retargeted {entry : String}
    (member : entry ∈ reference.retargeted separator target name) :
    ∃ text ∈ reference.texts separator, entry = text ∨ entry = replaceLastPart text name := by
  obtain ⟨index, bound, rfl⟩ := List.mem_iff_getElem.mp member
  rw [length_retargeted] at bound
  refine ⟨(reference.texts separator)[index], List.getElem_mem bound, ?_⟩
  simp only [retargeted, List.getElem_zipWith]
  split
  · exact Or.inr rfl
  · exact Or.inl rfl

theorem texts_of_none (absent : reference.text = none) : reference.texts separator = [] := by
  unfold texts
  rw [absent]

theorem texts_of_single {whole : String} (written : reference.text = some whole)
    (single : reference.rule.arity = .single) : reference.texts separator = [trim whole] := by
  unfold texts
  rw [written, single]

theorem texts_of_list {whole : String} (written : reference.text = some whole)
    (many : reference.rule.arity = .list) :
    reference.texts separator = (pieces separator whole).map trim := by
  unfold texts
  rw [written, many]

theorem trimmed_of_mem_texts {text : String} (member : text ∈ reference.texts separator) :
    Trimmed text.toList := by
  cases written : reference.text with
  | none =>
    rw [texts_of_none written] at member
    exact absurd member List.not_mem_nil
  | some whole =>
    cases arity : reference.rule.arity with
    | single =>
      rw [texts_of_single written arity] at member
      rw [List.mem_singleton.mp member]
      exact trimmed_trim whole
    | list =>
      rw [texts_of_list written arity] at member
      obtain ⟨piece, _, same⟩ := List.mem_map.mp member
      rw [← same]
      exact trimmed_trim piece

theorem not_mem_of_mem_texts (many : reference.rule.arity = .list) {text : String}
    (member : text ∈ reference.texts separator) : separator ∉ text.toList := by
  cases written : reference.text with
  | none =>
    rw [texts_of_none written] at member
    exact absurd member List.not_mem_nil
  | some whole =>
    rw [texts_of_list written many] at member
    obtain ⟨piece, inside, same⟩ := List.mem_map.mp member
    obtain ⟨chars, listed, spelled⟩ := List.mem_map.mp inside
    have apart := not_mem_split separator whole.toList chars listed
    intro held
    rw [← same, ← spelled, trim, String.toList_ofList, String.toList_ofList] at held
    obtain ⟨front, back, around, _, _⟩ := exists_around chars
    rw [around] at apart
    exact apart (List.mem_append_left _ (List.mem_append_right _ held))

/-- Where nothing is written, no entry has a text. -/
theorem eq_empty_of_absent (absent : reference.isAbsent = true) {text : String}
    (member : text ∈ reference.texts separator) : text = "" := by
  have bare : ∀ chars : List Char, (∀ c ∈ chars, isBlankChar c = true) →
      trim (String.ofList chars) = "" := by
    intro chars blank
    rw [trim, String.toList_ofList, trimChars, (dropAround_eq_nil_iff _ _).mpr blank]
  cases written : reference.text with
  | none =>
    rw [texts_of_none written] at member
    exact absurd member List.not_mem_nil
  | some whole =>
    have blank : ∀ c ∈ whole.toList, isBlankChar c = true := by
      rw [isAbsent, written, Option.all_some] at absent
      exact List.all_eq_true.mp absent
    cases arity : reference.rule.arity with
    | single =>
      rw [texts_of_single written arity, List.mem_singleton] at member
      rw [member, ← String.ofList_toList (s := whole)]
      exact bare _ blank
    | list =>
      rw [texts_of_list written arity] at member
      obtain ⟨piece, inside, rfl⟩ := List.mem_map.mp member
      obtain ⟨chars, listed, rfl⟩ := List.mem_map.mp inside
      exact bare chars fun c held => blank c (subset_of_mem_split _ _ chars listed held)

/-- A text put together from entries has these entries, if they are trimmed and, in a list, hold no
separator. -/
theorem texts_intercalate {entries : List String} {rule : ReferenceRule}
    (trimmed : ∀ entry ∈ entries, Trimmed entry.toList) (nonempty : entries ≠ [])
    (one : rule.arity = .single → ∃ entry, entries = [entry])
    (apart : rule.arity = .list → ∀ entry ∈ entries, separator ∉ entry.toList) :
    (Reference.written rule (some (separator.toString.intercalate entries))).texts separator =
      entries := by
  cases arity : rule.arity with
  | single =>
    obtain ⟨entry, rfl⟩ := one arity
    have whole : separator.toString.intercalate [entry] = entry := by
      rw [← String.toList_inj, String.toList_intercalate, List.map_singleton,
        List.intercalate_singleton]
    rw [whole, texts_of_single rfl arity, (trimmed entry List.mem_cons_self).trim]
  | list =>
    have split : pieces separator (separator.toString.intercalate entries) = entries := by
      rw [pieces, String.toList_intercalate, toList_separator, split_intercalate, List.map_map]
      · exact List.map_id'' (fun _ => String.ofList_toList) entries
      · simpa using nonempty
      · intro part member
        obtain ⟨entry, inside, rfl⟩ := List.mem_map.mp member
        exact apart arity entry inside
    rw [texts_of_list rfl arity, split]
    exact (List.map_congr_left fun entry member => (trimmed entry member).trim).trans
      (List.map_id entries)

/-- **The new text of the reference has the entries it was put together from.** -/
theorem texts_retarget (written : reference.texts separator ≠ []) (isPart : IsPart name.toList)
    (apart : separator ∉ name.toList) {later : Reference} (rule : later.rule = reference.rule)
    (text : later.text = some (reference.retarget separator target name)) :
    later.texts separator = reference.retargeted separator target name := by
  have same : later.texts separator =
      (Reference.written reference.rule later.text).texts separator := by
    unfold texts
    rw [rule]
    rfl
  rw [same, text, retarget_eq]
  refine texts_intercalate ?_ ?_ ?_ ?_
  · intro entry member
    obtain ⟨text, inside, same | same⟩ := mem_retargeted member
    · exact same ▸ trimmed_of_mem_texts inside
    · rw [same]
      exact trimmed_replaceLastPart (trimmed_of_mem_texts inside) isPart
  · intro none
    have length := reference.length_retargeted separator target name
    rw [none] at length
    exact written (List.eq_nil_of_length_eq_zero length.symm)
  · intro single
    have length := reference.length_retargeted separator target name
    have texts : (reference.texts separator).length ≤ 1 := by
      cases text : reference.text with
      | none => rw [texts_of_none text, List.length_nil]; omega
      | some whole => rw [texts_of_single text single, List.length_singleton]
    have some := List.length_pos_iff.mpr written
    exact List.length_eq_one_iff.mp (by omega)
  · intro many entry member
    obtain ⟨text, inside, same | same⟩ := mem_retargeted member
    · exact same ▸ not_mem_of_mem_texts many inside
    · rw [same]
      exact not_mem_replaceLastPart (trimmed_of_mem_texts inside)
        (not_mem_of_mem_texts many inside) apart

end Reference

end EntityModel
