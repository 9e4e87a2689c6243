import Mathlib.Data.List.TakeWhile
import EntityModel.Text.Identifier
import EntityModel.Text.Pieces
import EntityModel.Text.Trim

/-
**The parts of dotted names, and the pieces of lists.**

* `IsStem`, `exists_stem`, `stem_unique` — every list is a stem, which is empty or ends in the
  separator, followed by a last part without separators, in exactly one way.
* `cutFirst?_append`, `cutLast?_append` — where the two cuts fall.
* `split_intercalate` — pieces without the separator, put together with it, are the pieces again.
* `Trimmed` — no blank at either end: trimming gives such a list and leaves it as it is.
* `IsPart` — what identifiers have that names are made of: a text that is not empty, without
  separators, blanks and closing brackets.
* `exists_trimmed_stem` — trimming a name leaves its last part.
-/

namespace EntityModel.Text

/-! ### Cuts -/

section Cuts

variable {α : Type} [DecidableEq α] {mark : α}

theorem cutFirst?_of_not_mem {items : List α} (absent : mark ∉ items) :
    cutFirst? mark items = none := by
  induction items with
  | nil => rfl
  | cons item rest ih =>
    rw [List.mem_cons, not_or] at absent
    rw [cutFirst?, if_neg fun same => absent.1 same.symm, ih absent.2]
    rfl

theorem cutFirst?_append {front : List α} (absent : mark ∉ front) (rest : List α) :
    cutFirst? mark (front ++ mark :: rest) = some (front, rest) := by
  induction front with
  | nil => exact if_pos rfl
  | cons item front ih =>
    rw [List.mem_cons, not_or] at absent
    rw [List.cons_append, cutFirst?, if_neg fun same => absent.1 same.symm, ih absent.2]
    rfl

/-- Nothing is cut where the mark is missing. -/
theorem cutFirst?_eq_none_iff {items : List α} : cutFirst? mark items = none ↔ mark ∉ items := by
  refine ⟨fun uncut member => ?_, cutFirst?_of_not_mem⟩
  obtain ⟨front, rest, rfl, absent⟩ := List.eq_append_cons_of_mem member
  rw [cutFirst?_append absent] at uncut
  exact nomatch uncut

theorem cutFirst?_eq_some {items front rest : List α}
    (cut : cutFirst? mark items = some (front, rest)) :
    items = front ++ mark :: rest ∧ mark ∉ front := by
  by_cases member : mark ∈ items
  · obtain ⟨before, after, rfl, absent⟩ := List.eq_append_cons_of_mem member
    rw [cutFirst?_append absent] at cut
    obtain ⟨rfl, rfl⟩ := Prod.mk.inj (Option.some.inj cut)
    exact ⟨rfl, absent⟩
  · rw [cutFirst?_of_not_mem member] at cut
    exact nomatch cut

theorem cutLast?_of_not_mem {items : List α} (absent : mark ∉ items) :
    cutLast? mark items = none := by
  induction items with
  | nil => rfl
  | cons item rest ih =>
    rw [List.mem_cons, not_or] at absent
    rw [cutLast?, ih absent.2]
    exact if_neg fun same => absent.1 same.symm

theorem cutLast?_append {last : List α} (absent : mark ∉ last) (front : List α) :
    cutLast? mark (front ++ mark :: last) = some (front, last) := by
  induction front with
  | nil =>
    rw [List.nil_append, cutLast?, cutLast?_of_not_mem absent]
    exact if_pos rfl
  | cons item front ih => rw [List.cons_append, cutLast?, ih]

end Cuts

/-! ### Stems and last parts -/

section Stems

variable {α : Type} [DecidableEq α] {mark : α}

/-- What can stand before a last part: nothing, or something that ends in the mark. -/
def IsStem (mark : α) (items : List α) : Prop :=
  items = [] ∨ ∃ front, items = front ++ [mark]

/-- Every list is a stem with a last part. -/
theorem exists_stem (mark : α) (items : List α) :
    ∃ stem last, items = stem ++ last ∧ IsStem mark stem ∧ mark ∉ last := by
  induction items with
  | nil => exact ⟨[], [], rfl, Or.inl rfl, List.not_mem_nil⟩
  | cons item rest ih =>
    obtain ⟨stem, last, rfl, isStem, absent⟩ := ih
    rcases isStem with rfl | ⟨front, rfl⟩
    · by_cases same : mark = item
      · exact ⟨[item], last, rfl, Or.inr ⟨[], by rw [same, List.nil_append]⟩, absent⟩
      · exact ⟨[], item :: last, rfl, Or.inl rfl, by simp [same, absent]⟩
    · exact ⟨item :: (front ++ [mark]), last, rfl, Or.inr ⟨item :: front, rfl⟩, absent⟩

/-- **A list has one stem and one last part.** -/
theorem stem_unique {stem other last final : List α} (isStem : IsStem mark stem)
    (otherStem : IsStem mark other) (absent : mark ∉ last) (otherAbsent : mark ∉ final)
    (same : stem ++ last = other ++ final) : stem = other ∧ last = final := by
  have cut := congrArg (cutLast? mark) same
  rcases isStem with rfl | ⟨front, rfl⟩ <;> rcases otherStem with rfl | ⟨before, rfl⟩
  · exact ⟨rfl, same⟩
  · rw [List.nil_append, cutLast?_of_not_mem absent, List.append_assoc, List.singleton_append,
      cutLast?_append otherAbsent] at cut
    exact nomatch cut
  · rw [List.nil_append, cutLast?_of_not_mem otherAbsent, List.append_assoc,
      List.singleton_append, cutLast?_append absent] at cut
    exact nomatch cut
  · rw [List.append_assoc, List.singleton_append, cutLast?_append absent, List.append_assoc,
      List.singleton_append, cutLast?_append otherAbsent] at cut
    obtain ⟨rfl, rfl⟩ := Prod.mk.inj (Option.some.inj cut)
    exact ⟨rfl, rfl⟩

omit [DecidableEq α] in
/-- A stem behind a mark is a stem with what stands before the mark. -/
theorem IsStem.behind {stem : List α} (isStem : IsStem mark stem) (front : List α) :
    IsStem mark (front ++ mark :: stem) := by
  rcases isStem with rfl | ⟨before, rfl⟩
  · exact Or.inr ⟨front, rfl⟩
  · exact Or.inr ⟨front ++ mark :: before, by simp⟩

omit [DecidableEq α] in
theorem IsStem.append {front back : List α} (isFront : IsStem mark front)
    (isBack : IsStem mark back) : IsStem mark (front ++ back) := by
  rcases isBack with rfl | ⟨rest, rfl⟩
  · rw [List.append_nil]
    exact isFront
  · exact Or.inr ⟨front ++ rest, (List.append_assoc ..).symm⟩

omit [DecidableEq α] in
/-- What a stem has behind a mark is a stem. -/
theorem IsStem.of_behind {front back : List α} (isStem : IsStem mark (front ++ mark :: back)) :
    IsStem mark back := by
  rcases isStem with none | ⟨before, ends⟩
  · simp at none
  · rcases List.eq_nil_or_concat back with none | ⟨rest, last, rfl⟩
    · exact Or.inl none
    · rw [List.concat_eq_append, ← List.cons_append, ← List.append_assoc] at ends
      obtain ⟨_, same⟩ := List.append_inj' ends rfl
      rw [List.concat_eq_append, same]
      exact Or.inr ⟨rest, rfl⟩

end Stems

/-! ### Pieces -/

section Pieces

variable {α : Type} [DecidableEq α] {mark : α}

theorem split_of_not_mem {items : List α} (absent : mark ∉ items) : split mark items = [items] := by
  induction items with
  | nil => rfl
  | cons item rest ih =>
    rw [List.mem_cons, not_or] at absent
    rw [split, if_neg fun same => absent.1 same.symm, ih absent.2]

theorem split_append {items : List α} (absent : mark ∉ items) (rest : List α) :
    split mark (items ++ mark :: rest) = items :: split mark rest := by
  induction items with
  | nil => exact if_pos rfl
  | cons item items ih =>
    rw [List.mem_cons, not_or] at absent
    rw [List.cons_append, split, if_neg fun same => absent.1 same.symm, ih absent.2]

/-- **Pieces that are put together come apart again.** -/
theorem split_intercalate {parts : List (List α)} (nonempty : parts ≠ [])
    (absent : ∀ part ∈ parts, mark ∉ part) :
    split mark ([mark].intercalate parts) = parts := by
  induction parts with
  | nil => exact absurd rfl nonempty
  | cons part rest ih =>
    have here := absent part List.mem_cons_self
    cases rest with
    | nil => rw [List.intercalate_singleton, split_of_not_mem here]
    | cons next others =>
      rw [List.intercalate_cons_cons, List.append_assoc, List.singleton_append, split_append here,
        ih (List.cons_ne_nil _ _) fun each member => absent each (List.mem_cons_of_mem _ member)]

/-- A piece is a piece of the rest, is empty, or has the first symbol, which is no mark, in front of
one. -/
theorem mem_split_cons {item : α} {rest part : List α} (member : part ∈ split mark (item :: rest)) :
    part ∈ split mark rest ∨ part = [] ∨
      item ≠ mark ∧ ∃ first ∈ split mark rest, part = item :: first := by
  rw [split] at member
  split at member
  · rcases List.mem_cons.mp member with rfl | later
    · exact Or.inr (Or.inl rfl)
    · exact Or.inl later
  · next other =>
    obtain ⟨first, others, whole⟩ := List.exists_cons_of_ne_nil (split_ne_nil mark rest)
    rw [whole] at member ⊢
    rcases List.mem_cons.mp member with rfl | later
    · exact Or.inr (Or.inr ⟨other, first, List.mem_cons_self, rfl⟩)
    · exact Or.inl (List.mem_cons_of_mem _ later)

theorem not_mem_split (mark : α) (items : List α) : ∀ part ∈ split mark items, mark ∉ part := by
  induction items with
  | nil => simp [split]
  | cons item rest ih =>
    intro part member
    rcases mem_split_cons member with later | rfl | ⟨other, first, inside, rfl⟩
    · exact ih part later
    · exact List.not_mem_nil
    · exact List.not_mem_cons_of_ne_of_not_mem other.symm (ih first inside)

/-- The pieces hold what the whole does. -/
theorem subset_of_mem_split (mark : α) (items : List α) : ∀ part ∈ split mark items, part ⊆ items := by
  induction items with
  | nil => simp [split]
  | cons item rest ih =>
    intro part member
    rcases mem_split_cons member with later | rfl | ⟨_, first, inside, rfl⟩
    · exact List.subset_cons_of_subset item (ih part later)
    · exact List.nil_subset _
    · exact List.cons_subset_cons item (ih first inside)

end Pieces

/-! ### Symbols dropped at both ends -/

section Dropping

variable {α : Type} {drops : α → Bool} {items : List α}

theorem dropTrailing_of_last
    (last : ∀ item, items.getLast? = some item → drops item = false) :
    dropTrailing drops items = items := by
  unfold dropTrailing
  cases turned : items.reverse with
  | nil => rw [List.reverse_eq_nil_iff.mp turned]; rfl
  | cons item rest =>
    have plain : drops item = false := by
      refine last item ?_
      rw [← List.head?_reverse, turned]
      rfl
    rw [List.dropWhile_cons_of_neg (by simp [plain]), ← turned, List.reverse_reverse]

/-- Symbols that are dropped at the end may stand there or not. -/
theorem dropTrailing_append {dropped : List α} (drop : ∀ item ∈ dropped, drops item = true) :
    dropTrailing drops (items ++ dropped) = dropTrailing drops items := by
  unfold dropTrailing
  rw [List.reverse_append, List.dropWhile_append_of_pos fun item member =>
    drop item (List.mem_reverse.mp member)]

/-- Where nothing is to be dropped at either end, nothing is. -/
theorem dropAround_of_ends (first : ∀ item, items.head? = some item → drops item = false)
    (last : ∀ item, items.getLast? = some item → drops item = false) :
    dropAround drops items = items := by
  have front : items.dropWhile drops = items := by
    cases items with
    | nil => rfl
    | cons item rest => exact List.dropWhile_cons_of_neg (by simp [first item rfl])
  rw [dropAround, front, dropTrailing_of_last last]

/-- What is dropped at the end stands behind what is left. -/
theorem exists_trailing (drops : α → Bool) (items : List α) :
    ∃ back, items = dropTrailing drops items ++ back ∧ ∀ item ∈ back, drops item = true := by
  refine ⟨(items.reverse.takeWhile drops).reverse, ?_, fun item member =>
    List.mem_takeWhile_imp (List.mem_reverse.mp member)⟩
  unfold dropTrailing
  rw [← List.reverse_append, List.takeWhile_append_dropWhile, List.reverse_reverse]

/-- What is dropped stands around what is left. -/
theorem exists_dropped (drops : α → Bool) (items : List α) :
    ∃ front back, items = front ++ dropAround drops items ++ back ∧
      (∀ item ∈ front, drops item = true) ∧ ∀ item ∈ back, drops item = true := by
  obtain ⟨back, rest, dropped⟩ := exists_trailing drops (items.dropWhile drops)
  refine ⟨items.takeWhile drops, back, ?_, fun item member => List.mem_takeWhile_imp member,
    dropped⟩
  rw [dropAround, List.append_assoc, ← rest, List.takeWhile_append_dropWhile]

theorem not_drops_of_head?_dropWhile {item : α} (found : (items.dropWhile drops).head? = some item) :
    drops item = false := by
  have first := List.head?_dropWhile_not drops items
  rw [found] at first
  exact first

theorem not_drops_of_head?_dropAround {item : α}
    (found : (dropAround drops items).head? = some item) : drops item = false := by
  obtain ⟨back, whole, _⟩ := exists_trailing drops (items.dropWhile drops)
  have first : (items.dropWhile drops).head? = some item := by
    rw [whole, List.head?_append]
    exact Option.or_eq_some_iff.mpr (Or.inl found)
  exact not_drops_of_head?_dropWhile first

theorem not_drops_of_getLast?_dropAround {item : α}
    (found : (dropAround drops items).getLast? = some item) : drops item = false := by
  unfold dropAround dropTrailing at found
  rw [List.getLast?_reverse] at found
  exact not_drops_of_head?_dropWhile found

end Dropping

/-! ### Trimmed text -/

/-- There is no blank at either end. -/
structure Trimmed (chars : List Char) : Prop where
  head : ∀ c, chars.head? = some c → isBlankChar c = false
  last : ∀ c, chars.getLast? = some c → isBlankChar c = false

/-- **Trimming leaves a trimmed text as it is.** -/
theorem Trimmed.trimChars {chars : List Char} (trimmed : Trimmed chars) :
    trimChars chars = chars :=
  dropAround_of_ends trimmed.head trimmed.last

/-- What is dropped stands around what is left. -/
theorem exists_around (chars : List Char) :
    ∃ front back, chars = front ++ trimChars chars ++ back ∧
      (∀ c ∈ front, isBlankChar c = true) ∧ ∀ c ∈ back, isBlankChar c = true :=
  exists_dropped isBlankChar chars

/-- **Trimming gives a trimmed text.** -/
theorem trimmed_trimChars (chars : List Char) : Trimmed (trimChars chars) :=
  ⟨fun _ found => not_drops_of_head?_dropAround found,
    fun _ found => not_drops_of_getLast?_dropAround found⟩

theorem Trimmed.trim {text : String} (trimmed : Trimmed text.toList) : trim text = text := by
  unfold Text.trim
  rw [trimmed.trimChars, String.ofList_toList]

theorem trimmed_trim (text : String) : Trimmed (trim text).toList := by
  unfold trim
  rw [String.toList_ofList]
  exact trimmed_trimChars text.toList

/-- A text with trimmed texts at its two ends is trimmed. -/
theorem Trimmed.append {front back : List Char} (first : Trimmed front) (second : Trimmed back)
    (frontThere : front ≠ []) (backThere : back ≠ []) (middle : List Char) :
    Trimmed (front ++ middle ++ back) := by
  constructor
  · intro c found
    refine first.head c ?_
    rw [List.append_assoc, List.head?_append] at found
    obtain ⟨head, isHead⟩ := Option.ne_none_iff_exists'.mp fun none =>
      frontThere (List.head?_eq_none_iff.mp none)
    rw [isHead] at found ⊢
    exact found
  · intro c found
    refine second.last c ?_
    rw [List.getLast?_append] at found
    obtain ⟨last, isLast⟩ := Option.ne_none_iff_exists'.mp fun none =>
      backThere (List.getLast?_eq_none_iff.mp none)
    rw [isLast] at found ⊢
    exact found

theorem dropWhile_append_of_stop {stop : Char} (plain : isBlankChar stop = false)
    (front rest : List Char) : (front ++ stop :: rest).dropWhile isBlankChar =
      front.dropWhile isBlankChar ++ stop :: rest := by
  induction front with
  | nil => exact List.dropWhile_cons_of_neg (by simp [plain])
  | cons c front ih =>
    rw [List.cons_append, List.dropWhile_cons, List.dropWhile_cons, ih]
    split
    · rfl
    · rfl

/-! ### Identifiers as parts of names -/

/-- What makes a text good as the last part of a name. -/
structure IsPart (chars : List Char) : Prop where
  nonempty : chars ≠ []
  separator : '.' ∉ chars
  blank : ∀ c ∈ chars, isBlankChar c = false
  closing : ')' ∉ chars

theorem ranges_apart : ∀ range ∈ blankRanges, ∀ offset < range.2 + 1 - range.1,
    inRanges identifierStartRanges (range.1 + offset) = false ∧
      inRanges identifierContinueRanges (range.1 + offset) = false := by
  decide +kernel

theorem not_blank_of_identifier {c : Char} (inside : isIdentifierContinue c = true) :
    isBlankChar c = false := by
  refine Bool.eq_false_iff.mpr fun blank => ?_
  obtain ⟨range, listed, within⟩ := List.any_eq_true.mp blank
  rw [Bool.and_eq_true, decide_eq_true_eq, decide_eq_true_eq] at within
  obtain ⟨start, continues⟩ := ranges_apart range listed (c.toNat - range.1) (by omega)
  rw [show range.1 + (c.toNat - range.1) = c.toNat by omega] at start continues
  unfold isIdentifierContinue isIdentifierStart at inside
  rw [start, continues] at inside
  exact nomatch inside

theorem continue_of_isIdentifier {text : String} (identifier : isIdentifier text = true) :
    text.toList ≠ [] ∧ ∀ c ∈ text.toList, isIdentifierContinue c = true := by
  unfold isIdentifier at identifier
  cases chars : text.toList with
  | nil =>
    rw [chars] at identifier
    exact nomatch identifier
  | cons first rest =>
    rw [chars] at identifier
    simp only [Bool.and_eq_true, Bool.or_eq_true, List.all_eq_true, beq_iff_eq] at identifier
    refine ⟨List.cons_ne_nil _ _, fun c member => ?_⟩
    rcases List.mem_cons.mp member with rfl | later
    · rcases identifier.1 with rfl | start
      · decide +kernel
      · unfold isIdentifierContinue
        rw [start]
        rfl
    · exact identifier.2 c later

/-- **An identifier is good as the last part of a name.** -/
theorem isPart_of_isIdentifier {text : String} (identifier : isIdentifier text = true) :
    IsPart text.toList := by
  obtain ⟨nonempty, continues⟩ := continue_of_isIdentifier identifier
  have apart : ∀ c, isIdentifierContinue c = false → c ∉ text.toList := by
    intro c outside member
    rw [continues c member] at outside
    exact nomatch outside
  exact ⟨nonempty, apart '.' (by decide +kernel),
    fun c member => not_blank_of_identifier (continues c member), apart ')' (by decide +kernel)⟩

namespace IsPart

variable {chars : List Char} (isPart : IsPart chars)

include isPart

theorem trimmed : Trimmed chars :=
  ⟨fun c found => isPart.blank c (List.mem_of_head? found),
    fun c found => isPart.blank c (List.mem_of_getLast? found)⟩

/-- A part behind a trimmed text leaves it trimmed. -/
theorem trimmed_append {front : List Char} (first : ∀ c, front.head? = some c → isBlankChar c = false) :
    Trimmed (front ++ chars) := by
  constructor
  · intro c found
    cases front with
    | nil => exact isPart.trimmed.head c found
    | cons other rest => exact first c found
  · intro c found
    refine isPart.trimmed.last c ?_
    rw [List.getLast?_append] at found
    obtain ⟨last, isLast⟩ := Option.ne_none_iff_exists'.mp fun none =>
      isPart.nonempty (List.getLast?_eq_none_iff.mp none)
    rw [isLast] at found ⊢
    exact found

end IsPart

theorem IsPart.not_blank {text : String} (isPart : IsPart text.toList) : isBlank text ≠ true := by
  intro blank
  rw [← trimChars_eq_nil_iff, isPart.trimmed.trimChars] at blank
  exact isPart.nonempty blank

/-- **Trimming a name** leaves its last part and trims the stem before it, whatever the last part
is. -/
theorem exists_trimmed_stem {stem : List Char} (isStem : IsStem '.' stem) :
    ∃ kept, IsStem '.' kept ∧ (∀ part, IsPart part → trimChars (stem ++ part) = kept ++ part) ∧
      ∀ last, last ≠ [] → '.' ∉ last → (∀ c, last.getLast? = some c → isBlankChar c = false) →
        ∃ rest, rest ≠ [] ∧ '.' ∉ rest ∧ trimChars (stem ++ last) = kept ++ rest := by
  rcases isStem with rfl | ⟨front, rfl⟩
  · refine ⟨[], Or.inl rfl, fun part isPart => isPart.trimmed.trimChars, ?_⟩
    intro last nonempty absent final
    obtain ⟨before, behind, around, _, blanks⟩ := exists_around last
    refine ⟨trimChars last, fun none => ?_, fun member => absent ?_, rfl⟩
    · obtain ⟨c, isLast⟩ := Option.ne_none_iff_exists'.mp fun none =>
        nonempty (List.getLast?_eq_none_iff.mp none)
      have all : ∀ c ∈ last, isBlankChar c = true := by
        have dropped := dropAround_eq_nil_iff isBlankChar last
        exact dropped.mp none
      exact absurd (all c (List.mem_of_getLast? isLast)) (by rw [final c isLast]; decide)
    · rw [around]
      exact List.mem_append_left _ (List.mem_append_right _ member)
  · have kept : ∀ last, last ≠ [] → (∀ c, last.getLast? = some c → isBlankChar c = false) →
        trimChars (front ++ ['.'] ++ last) = front.dropWhile isBlankChar ++ ['.'] ++ last := by
      intro last nonempty final
      unfold trimChars dropAround
      rw [List.append_assoc, List.singleton_append,
        dropWhile_append_of_stop (by decide +kernel), dropTrailing_of_last, List.append_assoc,
        List.singleton_append]
      intro c found
      refine final c ?_
      rw [List.getLast?_append, List.getLast?_cons_of_ne_nil nonempty] at found
      obtain ⟨d, isLast⟩ := Option.ne_none_iff_exists'.mp fun none =>
        nonempty (List.getLast?_eq_none_iff.mp none)
      rw [isLast] at found ⊢
      exact found
    refine ⟨front.dropWhile isBlankChar ++ ['.'], Or.inr ⟨_, rfl⟩, ?_, ?_⟩
    · exact fun part isPart => kept part isPart.nonempty isPart.trimmed.last
    · exact fun last nonempty absent final => ⟨last, nonempty, absent, kept last nonempty final⟩

end EntityModel.Text
