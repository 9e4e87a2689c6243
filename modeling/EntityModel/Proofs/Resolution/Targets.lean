import EntityModel.Proofs.Resolution.Congruence

/-
**Where an evaluation leads.**

* `outcome_of_slot` — a slot with a symbol holds what is chosen among the candidates for it.
* `target_declares` — a target that is found declares the symbol of its slot.
* `contains_of_dependency` — everything a resolution depends on is a node of the catalog.
* `consulted_of_lookup` — a symbol that is looked up on the way brings the end found there along.
-/

namespace EntityModel

theorem Candidate.exists_of_choose {rule : ReferenceRule} {owner : Option Layer}
    {candidates : List Candidate} {target : NodeId} {count : Nat}
    (chosen : choose rule owner candidates = .known target count) :
    ∃ candidate ∈ candidates, candidate.fits rule owner = true ∧ candidate.id = target := by
  unfold choose at chosen
  cases fitting : candidates.filter (fits rule owner) with
  | nil =>
    rw [fitting] at chosen
    cases candidates with
    | nil => exact nomatch chosen
    | cons first others => exact nomatch chosen
  | cons first others =>
    rw [fitting] at chosen
    obtain ⟨same, _⟩ := Outcome.known.inj chosen
    have member : first ∈ candidates.filter (fits rule owner) := by
      rw [fitting]
      exact List.mem_cons_self
    obtain ⟨inside, fitting⟩ := List.mem_filter.mp member
    exact ⟨first, inside, fitting, same⟩

/-- Where a candidate fits, something is found. -/
theorem Candidate.exists_choose {rule : ReferenceRule} {owner : Option Layer}
    {candidates : List Candidate} {candidate : Candidate} (inside : candidate ∈ candidates)
    (fitting : candidate.fits rule owner = true) :
    ∃ target count, choose rule owner candidates = .known target count := by
  have member : candidate ∈ candidates.filter (fits rule owner) :=
    List.mem_filter.mpr ⟨inside, fitting⟩
  unfold choose
  cases chosen : candidates.filter (fits rule owner) with
  | nil =>
    rw [chosen] at member
    exact absurd member List.not_mem_nil
  | cons first others => exact ⟨first.id, others.length + 1, rfl⟩

theorem Slot.isKnown_of_target {slot : Slot} {target : NodeId} (leads : slot.target? = some target) :
    slot.isKnown = true := by
  rw [isKnown, leads]
  rfl

theorem Reference.status_eq_known_iff {reference : Reference} : reference.status = .known ↔
    reference.answer.isSome = true ∧ ∀ slot ∈ reference.slots, slot.isKnown = true := by
  unfold status slots
  cases reference.answer with
  | none => simp
  | some slots =>
    rw [Option.getD_some, ← List.all_eq_true]
    show Status.ofSlots slots = .known ↔ _
    unfold Status.ofSlots
    cases slots.all Slot.isKnown <;> simp

namespace Catalog

variable {catalog : Catalog} {separator : Char} {owner : NodeId} {reference : Reference}

theorem text_readSlot (catalog : Catalog) (row : Option Row) (rule : ReferenceRule)
    (text : String) : (catalog.readSlot separator row rule text).1.text = text := by
  unfold readSlot
  split
  · rfl
  · rfl

/-- A slot is that of one of the texts, if it has a symbol at all. -/
theorem readSlot_of_slot {slot : Slot}
    (member : slot ∈ (catalog.evaluate separator owner reference).slots)
    (real : slot.symbol.isEmpty = false) : ∃ text ∈ reference.texts separator,
      (catalog.readSlot separator (catalog.row? owner) reference.rule text).1 = slot := by
  by_cases absent : reference.texts separator = []
  · rw [evaluate_of_no_texts catalog owner absent] at member
    obtain rfl := List.mem_singleton.mp member
    exact nomatch real
  · rw [evaluate_of_texts catalog owner absent] at member
    obtain ⟨part, inside, rfl⟩ := List.mem_map.mp member
    obtain ⟨text, written, rfl⟩ := List.mem_map.mp inside
    exact ⟨text, written, rfl⟩

/-- What is read on the way is read for one of the texts. -/
theorem readSlot_of_consulted {id : NodeId}
    (member : id ∈ (catalog.evaluate separator owner reference).consulted) :
    ∃ text ∈ reference.texts separator,
      id ∈ (catalog.readSlot separator (catalog.row? owner) reference.rule text).2.consulted := by
  by_cases absent : reference.texts separator = []
  · rw [evaluate_of_no_texts catalog owner absent] at member
    exact absurd member List.not_mem_nil
  · rw [evaluate_of_texts catalog owner absent] at member
    obtain ⟨part, inside, consulted⟩ := List.mem_flatMap.mp member
    obtain ⟨text, written, rfl⟩ := List.mem_map.mp inside
    exact ⟨text, written, consulted⟩

/-- A reading that looks a symbol up consults the end found there. -/
theorem consulted_of_readName {view : Viewpoint} {rule : NameRule} {text : String} {symbol : Symbol}
    (looked : symbol ∈ (catalog.readName separator view rule text).lookups) :
    (catalog.readName separator view rule text).consulted =
      (catalog.consultEnd separator symbol).consulted := by
  cases rule with
  | mappedProperty =>
    simp only [readName] at looked ⊢
    unfold mappedRowType at looked ⊢
    split at looked
    · exact absurd looked List.not_mem_nil
    · split at looked
      · exact absurd looked List.not_mem_nil
      · simp only at looked
        split at looked
        · exact absurd looked List.not_mem_nil
        · rename_i typed named
          rw [lookups_consultEnd] at looked
          obtain rfl := List.mem_singleton.mp looked
          simp only [if_neg typed, if_neg named]
  | _ => exact absurd looked List.not_mem_nil

/-- What an end gives to read is among what the evaluation consults. -/
theorem consulted_of_lookup {symbol : Symbol} {id : NodeId}
    (looked : symbol ∈ (catalog.evaluate separator owner reference).lookups)
    (member : id ∈ (catalog.consultEnd separator symbol).consulted) :
    id ∈ (catalog.evaluate separator owner reference).consulted := by
  by_cases absent : reference.texts separator = []
  · rw [evaluate_of_no_texts catalog owner absent] at looked
    exact absurd looked List.not_mem_nil
  · rw [evaluate_of_texts catalog owner absent] at looked ⊢
    obtain ⟨part, inside, here⟩ := List.mem_flatMap.mp looked
    refine List.mem_flatMap.mpr ⟨part, inside, ?_⟩
    obtain ⟨text, _, rfl⟩ := List.mem_map.mp inside
    unfold readSlot at here ⊢
    by_cases blank : text.isEmpty = true
    · rw [if_pos blank] at here
      exact absurd here List.not_mem_nil
    · rw [if_neg blank] at here ⊢
      simp only at here ⊢
      rw [consulted_of_readName here]
      exact member

section Exact

variable (numbered : catalog.Numbered) (exact : catalog.SymbolsExact)

include numbered exact

section Slots

variable {row : Option Row} {rule : ReferenceRule} {text : String} {symbol : Symbol}
  (reads : (catalog.readName separator (.ofRow row) rule.reading text).symbol = symbol)

include reads

/-- What is found for a text declares its symbol and fits. -/
theorem target_of_readSlot {target : NodeId}
    (found : (catalog.readSlot separator row rule text).1.target? = some target) :
    text.isEmpty = false ∧ symbol.isEmpty = false ∧ ∃ declared ∈ catalog.declaring symbol,
      declared.candidate.fits rule (row.map Row.layer) = true ∧ declared.id = target := by
  unfold readSlot Slot.target? at found
  cases blank : text.isEmpty with
  | true =>
    rw [blank, if_pos rfl] at found
    exact nomatch found
  | false =>
    rw [blank, if_neg Bool.false_ne_true] at found
    simp only [resolveSymbol_eq numbered exact, reads] at found
    cases empty : symbol.isEmpty with
    | true =>
      rw [empty, if_pos rfl] at found
      exact nomatch found
    | false =>
      rw [empty, if_neg Bool.false_ne_true] at found
      refine ⟨rfl, rfl, ?_⟩
      split at found
      · rename_i chosen
        obtain ⟨_, inside, fits, number⟩ := Candidate.exists_of_choose chosen
        obtain ⟨declared, declares, rfl⟩ := List.mem_map.mp inside
        exact ⟨declared, declares, fits, number.trans (Option.some.inj found)⟩
      · exact nomatch found

variable (written : text.isEmpty = false) (real : symbol.isEmpty = false) {declared : Row}
  (declares : declared ∈ catalog.declaring symbol)
  (fits : declared.candidate.fits rule (row.map Row.layer) = true)

include written real declares fits

/-- A text is found a target for where some node declares its symbol and fits. -/
theorem exists_target_readSlot :
    ∃ target, (catalog.readSlot separator row rule text).1.target? = some target := by
  obtain ⟨target, count, chosen⟩ := Candidate.exists_choose
    (List.mem_map_of_mem (f := Row.candidate) declares) fits
  refine ⟨target, ?_⟩
  unfold readSlot Slot.target?
  rw [written, if_neg Bool.false_ne_true]
  simp only [resolveSymbol_eq numbered exact, reads]
  rw [real, if_neg Bool.false_ne_true, candidates, chosen]

/-- The only node that declares the symbol and fits is the target. -/
theorem target_readSlot (only : ∀ other ∈ catalog.declaring symbol,
      other.candidate.fits rule (row.map Row.layer) = true → other.id = declared.id) :
    (catalog.readSlot separator row rule text).1.target? = some declared.id := by
  obtain ⟨target, found⟩ :=
    exists_target_readSlot numbered exact reads written real declares fits
  obtain ⟨_, _, other, inside, fitting, rfl⟩ := target_of_readSlot numbered exact reads found
  rw [found, only other inside fitting]

end Slots

/-- **A slot holds what is chosen among the candidates for its symbol.** -/
theorem outcome_of_slot {slot : Slot}
    (member : slot ∈ (catalog.evaluate separator owner reference).slots)
    (real : slot.symbol.isEmpty = false) : slot.outcome =
      Candidate.choose reference.rule ((catalog.row? owner).map Row.layer)
        (catalog.candidates slot.symbol) := by
  obtain ⟨text, _, rfl⟩ := readSlot_of_slot member real
  unfold readSlot at real ⊢
  by_cases blank : text.isEmpty = true
  · rw [if_pos blank] at real
    exact nomatch real
  · rw [if_neg blank] at real ⊢
    simp only at real ⊢
    rw [resolveSymbol_eq numbered exact, if_neg (Bool.eq_false_iff.mp real)]

/-- A slot without a symbol holds no target. -/
theorem outcome_of_empty {slot : Slot}
    (member : slot ∈ (catalog.evaluate separator owner reference).slots)
    (blank : slot.symbol.isEmpty = true) : slot.outcome = .undefined .empty := by
  by_cases absent : reference.texts separator = []
  · rw [evaluate_of_no_texts catalog owner absent] at member
    obtain rfl := List.mem_singleton.mp member
    rfl
  · rw [evaluate_of_texts catalog owner absent] at member
    obtain ⟨part, inside, rfl⟩ := List.mem_map.mp member
    obtain ⟨text, _, rfl⟩ := List.mem_map.mp inside
    unfold readSlot at blank ⊢
    by_cases written : text.isEmpty = true
    · rw [if_pos written]
    · rw [if_neg written] at blank ⊢
      simp only at blank ⊢
      rw [resolveSymbol_eq numbered exact, if_pos blank]

/-- A target that is found declares the symbol of its slot. -/
theorem target_declares {slot : Slot} {target : NodeId}
    (member : slot ∈ (catalog.evaluate separator owner reference).slots)
    (found : slot.target? = some target) :
    slot.symbol.isEmpty = false ∧ ∃ row ∈ catalog.declaring slot.symbol, row.id = target := by
  cases blank : slot.symbol.isEmpty with
  | true =>
    rw [Slot.target?, outcome_of_empty numbered exact member blank] at found
    exact nomatch found
  | false =>
    have chosen := outcome_of_slot numbered exact member blank
    rcases slot with ⟨text, symbol, outcome⟩
    cases outcome with
    | undefined reason => exact nomatch found
    | known other count =>
      obtain rfl : other = target := Option.some.inj found
      obtain ⟨candidate, inside, _, same⟩ := Candidate.exists_of_choose chosen.symm
      obtain ⟨row, declares, rfl⟩ := List.mem_map.mp inside
      exact ⟨rfl, row, declares, same⟩

theorem contains_of_consultEnd {symbol : Symbol} {id : NodeId}
    (member : id ∈ (catalog.consultEnd separator symbol).consulted) : catalog.contains id = true := by
  rw [contains_iff]
  rw [consultEnd_eq numbered exact] at member
  cases found : catalog.end? symbol with
  | none =>
    rw [found] at member
    exact absurd member List.not_mem_nil
  | some row =>
    rw [found, readEnd] at member
    have inside : row ∈ catalog.rows := (mem_declaring.mp (List.mem_of_find?_eq_some found)).1
    split at member
    · obtain rfl := List.mem_singleton.mp member
      exact ⟨row, inside, rfl⟩
    · rcases List.mem_cons.mp member with rfl | outside
      · exact ⟨row, inside, rfl⟩
      · obtain ⟨node, nearest, rfl⟩ := Option.map_eq_some_iff.mp (Option.mem_toList.mp outside)
        obtain ⟨upper, above, _⟩ := row_of_mem_line inside
          (List.mem_cons_of_mem _ (List.mem_of_find?_eq_some nearest))
        exact ⟨_, above, rfl⟩

theorem contains_of_readName {view : Viewpoint} {rule : NameRule} {text : String} {id : NodeId}
    (member : id ∈ (catalog.readName separator view rule text).consulted) :
    catalog.contains id = true := by
  cases rule with
  | mappedProperty =>
    simp only [readName] at member
    unfold mappedRowType at member
    split at member
    · exact absurd member List.not_mem_nil
    · split at member
      · exact absurd member List.not_mem_nil
      · simp only at member
        split at member
        · exact absurd member List.not_mem_nil
        · exact contains_of_consultEnd numbered exact member
  | _ => exact absurd member List.not_mem_nil

theorem contains_of_consulted {id : NodeId}
    (member : id ∈ (catalog.evaluate separator owner reference).consulted) :
    catalog.contains id = true := by
  obtain ⟨text, _, consulted⟩ := readSlot_of_consulted member
  unfold readSlot at consulted
  split at consulted
  · exact absurd consulted List.not_mem_nil
  · exact contains_of_readName numbered exact consulted

/-- **Everything a resolution depends on is there.** -/
theorem contains_of_dependency {id : NodeId}
    (depends : id ∈ (catalog.evaluate separator owner reference).dependencies.targets ∨
      id ∈ (catalog.evaluate separator owner reference).dependencies.context) :
    catalog.contains id = true := by
  rcases depends with target | context
  · obtain ⟨slot, member, found⟩ := List.mem_filterMap.mp (OrderedSet.mem_ofList.mp target)
    obtain ⟨_, row, declares, rfl⟩ := target_declares numbered exact member found
    exact contains_iff.mpr ⟨row, (mem_declaring.mp declares).1, rfl⟩
  · exact contains_of_consulted numbered exact (OrderedSet.mem_ofList.mp context)

end Exact

end Catalog

end EntityModel
