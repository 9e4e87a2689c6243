import Mathlib.Data.List.Induction
import EntityModel.Proofs.Ledger.Dependencies
import EntityModel.Proofs.Naming.Retarget
import EntityModel.Proofs.Resolution.Targets
import EntityModel.Proofs.Workspace.Turns
import EntityModel.Resolution.Noting

/-
**A list is evaluated piece by piece.**

The texts of a list are gone through with one set of notes, and still every slot is the one its piece
would have alone: steps only add to the notes and never read them.

* `Noting.Adds` — what a step makes of any notes: its value and what it adds; `Adds.bind` — one step
  after the other.
* `adds_takeName`, `adds_takeSlot` — one text, as it is read without notes; `adds_takeSlots` — all of
  them, by induction on the texts.
* `evaluateNoting_eq` — **so the evaluation with notes is the plain one.**
* `Piecewise` — what a list has to do with the texts of its pieces alone; `evaluate_piecewise` — **a
  list with a text is evaluated so, whatever the catalog, the owner and the separator.**
-/

namespace EntityModel

/-! ### Steps that take notes -/

namespace Notes

theorem ext_lists {first second : Notes} (consulted : first.consulted = second.consulted)
    (lookups : first.lookups = second.lookups) : first = second := by
  cases first
  cases second
  cases consulted
  cases lookups
  rfl

theorem append_empty (notes : Notes) : notes ++ empty = notes :=
  ext_lists (List.append_nil _) (List.append_nil _)

theorem append_assoc (first second third : Notes) :
    first ++ second ++ third = first ++ (second ++ third) :=
  ext_lists (List.append_assoc ..) (List.append_assoc ..)

end Notes

namespace Noting

variable {α β : Type}

/-- Whatever has been noted before, the step gives the value and adds these notes behind. -/
def Adds (step : Noting α) (value : α) (added : Notes) : Prop :=
  ∀ notes, step.run notes = pure (value, notes ++ added)

theorem adds_pure (value : α) : (pure value : Noting α).Adds value .empty := by
  intro notes
  rw [StateT.run_pure, Notes.append_empty]

theorem adds_consulted (id : NodeId) : (consulted id).Adds () ⟨[id], []⟩ := fun _ => rfl

theorem adds_lookedUp (symbol : Symbol) : (lookedUp symbol).Adds () ⟨[], [symbol]⟩ := fun _ => rfl

/-- One step after the other. -/
theorem Adds.bind {step : Noting α} {value : α} {first : Notes} (adds : step.Adds value first)
    {next : α → Noting β} {result : β} {second added : Notes} (more : (next value).Adds result second)
    (sum : first ++ second = added) : (step >>= next).Adds result added := by
  intro notes
  rw [StateT.run_bind, adds notes, pure_bind, more, Notes.append_assoc, sum]

/-- A step behind which nothing more is noted. -/
theorem Adds.bind_pure {step : Noting α} {value : α} {added : Notes} (adds : step.Adds value added)
    {next : α → Noting β} {result : β} (more : next value = pure result) :
    (step >>= next).Adds result added := by
  intro notes
  rw [StateT.run_bind, adds notes, pure_bind, more, StateT.run_pure]

/-- The node is noted if there is one. -/
theorem adds_forM (found : Option α) (number : α → NodeId) :
    (found.forM fun item => consulted (number item)).Adds () ⟨(found.map number).toList, []⟩ := by
  cases found with
  | none => exact adds_pure ()
  | some item => exact adds_consulted (number item)

end Noting

open Noting (Adds)

/-- What reading a name notes. -/
def NameReading.notes (reading : NameReading) : Notes :=
  ⟨reading.consulted, reading.lookups⟩

theorem adds_qualifyConsulted (site : Site) (text : String) :
    (qualifyConsulted site text).Adds (qualifyType site.ancestors text)
      ⟨((nearest? site.ancestors .schema).map Node.id).toList, []⟩ :=
  (Noting.adds_forM _ Node.id).bind_pure rfl

namespace Catalog

variable (catalog : Catalog) (separator : Char)

theorem adds_consult (symbol : Symbol) (kind : Kind) :
    (catalog.consult symbol kind).Adds
      ((catalog.declarations symbol).find? fun site => site.node.kind = kind)
      ⟨(((catalog.declarations symbol).find? fun site => site.node.kind = kind).map Site.id).toList,
        [symbol]⟩ :=
  (Noting.adds_lookedUp symbol).bind ((Noting.adds_forM _ Site.id).bind_pure rfl)
    (Notes.ext_lists rfl rfl)

/-- The end is looked up and read, and with it the schema around it. -/
theorem adds_takeEndType (symbol : Symbol) :
    (catalog.takeEndType separator symbol).Adds (catalog.consultEnd separator symbol).symbol
      (catalog.consultEnd separator symbol).notes := by
  unfold takeEndType consultEnd
  have consults := catalog.adds_consult symbol .associationEnd
  cases found : (catalog.declarations symbol).find? fun site => site.node.kind = .associationEnd with
  | none =>
    rw [found] at consults
    exact consults.bind_pure rfl
  | some site =>
    rw [found] at consults
    dsimp only
    cases written : site.node.firstText? separator "Type" with
    | none => exact consults.bind_pure (by dsimp only; rw [written])
    | some text =>
      apply consults.bind
      · dsimp only
        rw [written]
        exact adds_qualifyConsulted site text
      · exact Notes.ext_lists rfl rfl

theorem adds_takeRowType (view : Viewpoint) :
    (catalog.takeRowType separator view).Adds (catalog.mappedRowType separator view).symbol
      (catalog.mappedRowType separator view).notes := by
  unfold takeRowType mappedRowType
  cases view.ancestors.find? fun node => node.kind = .entityTypeMapping ∨ node.kind = .endProperty with
  | none => exact Noting.adds_pure _
  | some scope =>
    dsimp only
    split
    · exact Noting.adds_pure _
    · split
      · exact Noting.adds_pure _
      · exact catalog.adds_takeEndType separator _

/-- **A text is read as it is without notes**, and adds to them what it reads. -/
theorem adds_takeName (view : Viewpoint) (rule : NameRule) (text : String) :
    (catalog.takeName separator view rule text).Adds
      (catalog.readName separator view rule text).symbol
      (catalog.readName separator view rule text).notes := by
  cases rule with
  | mappedProperty => exact (catalog.adds_takeRowType separator view).bind_pure rfl
  | _ => exact Noting.adds_pure _

section Slots

variable (owner : Option Site) (rule : ReferenceRule)

theorem adds_takeSlot (slots : List Slot) (text : String) :
    (catalog.takeSlot separator owner rule slots text).Adds
      (slots ++ [(catalog.evaluateText separator owner rule text).1])
      (catalog.evaluateText separator owner rule text).2.notes := by
  unfold takeSlot evaluateText
  split
  · exact Noting.adds_pure _
  · exact (catalog.adds_takeName separator _ rule.reading text).bind_pure rfl

/-- **All texts, one after the other**: what each of them gives does not depend on those before. -/
theorem adds_takeSlots (texts : List String) : ∀ slots,
    (texts.foldlM (catalog.takeSlot separator owner rule) slots).Adds
      (slots ++ (texts.map (catalog.evaluateText separator owner rule)).map Prod.fst)
      ⟨(texts.map (catalog.evaluateText separator owner rule)).flatMap fun part => part.2.consulted,
        (texts.map (catalog.evaluateText separator owner rule)).flatMap
          fun part => part.2.lookups⟩ := by
  induction texts with
  | nil =>
    intro slots
    rw [List.map_nil, List.map_nil, List.append_nil]
    exact Noting.adds_pure slots
  | cons text texts ih =>
    intro slots
    rw [List.foldlM_cons, List.map_cons, List.map_cons, List.append_cons]
    exact (catalog.adds_takeSlot separator owner rule slots text).bind (ih _)
      (Notes.ext_lists rfl rfl)

end Slots

/-- **The evaluation with notes is the plain one.** -/
theorem evaluateNoting_eq (owner : NodeId) (reference : Reference) :
    catalog.evaluateNoting separator owner reference =
      catalog.evaluate separator owner reference := by
  have adds := catalog.adds_takeSlots separator (catalog.site? owner) reference.rule
    (reference.texts separator)
  unfold evaluateNoting takeSlots evaluate
  cases texts : reference.texts separator with
  | nil => rfl
  | cons text rest =>
    rw [texts] at adds
    dsimp only
    rw [List.isEmpty_cons, if_neg Bool.false_ne_true, adds []]
    rfl

end Catalog

/-! ### Pieces of a list -/

namespace OrderedSet

variable {α : Type} [DecidableEq α]

/-- **The items of a list stand in the order of their first places.** -/
theorem pairwise_ofList (items : List α) :
    (ofList items).items.Pairwise fun first later => items.idxOf first < items.idxOf later := by
  induction items using List.reverseRecOn with
  | nil => exact List.Pairwise.nil
  | append_singleton items last ih =>
    have grown : ofList (items ++ [last]) = (ofList items).insert last := by
      rw [ofList, insertAll, List.foldl_append]
      rfl
    -- the places of earlier items stay
    have earlier : ∀ item ∈ (ofList items).items,
        (items ++ [last]).idxOf item = items.idxOf item := fun item inside =>
      List.idxOf_append_of_mem (mem_ofList.mp inside)
    have kept : (ofList items).items.Pairwise fun first later =>
        (items ++ [last]).idxOf first < (items ++ [last]).idxOf later := by
      refine ih.imp_of_mem fun firstIn laterIn below => ?_
      rw [earlier _ firstIn, earlier _ laterIn]
      exact below
    rw [grown]
    unfold insert
    split
    · exact kept
    · rename_i absent
      refine List.pairwise_append.mpr ⟨kept, List.pairwise_singleton .., ?_⟩
      intro item inside other same
      obtain rfl := List.mem_singleton.mp same
      have new : other ∉ items := fun held => absent (mem_ofList.mpr held)
      rw [earlier item inside, List.idxOf_append_of_notMem new, List.idxOf_cons_self]
      exact Nat.lt_add_right 0 (List.idxOf_lt_length_of_mem (mem_ofList.mp inside))

end OrderedSet

namespace Text

theorem intercalate_split {α : Type} [DecidableEq α] (mark : α) (items : List α) :
    [mark].intercalate (split mark items) = items := by
  induction items with
  | nil => rfl
  | cons item rest ih =>
    obtain ⟨first, others, whole⟩ := List.exists_cons_of_ne_nil (split_ne_nil mark rest)
    rw [whole] at ih
    rw [split]
    split
    · rename_i isMark
      rw [whole, List.intercalate_cons_cons, ih, isMark]
      rfl
    · rw [whole]
      dsimp only
      cases others with
      | nil =>
        rw [List.intercalate_singleton] at ih ⊢
        rw [ih]
      | cons next others =>
        rw [List.intercalate_cons_cons] at ih ⊢
        rw [← ih]
        rfl

/-- **The pieces are the text**, with the separators between them. -/
theorem intercalate_pieces (separator : Char) (text : String) :
    separator.toString.intercalate (pieces separator text) = text := by
  rw [← String.toList_inj, String.toList_intercalate, toList_separator, pieces, List.map_map]
  have spelled : String.toList ∘ String.ofList = id := funext fun _ => String.toList_ofList
  rw [spelled, List.map_id, intercalate_split]

theorem not_mem_pieces {separator : Char} {text piece : String}
    (listed : piece ∈ pieces separator text) : separator ∉ piece.toList := by
  obtain ⟨chars, inside, rfl⟩ := List.mem_map.mp listed
  rw [String.toList_ofList]
  exact not_mem_split separator text.toList chars inside

theorem pieces_of_not_mem {separator : Char} {text : String} (absent : separator ∉ text.toList) :
    pieces separator text = [text] := by
  rw [pieces, split_of_not_mem absent, List.map_singleton, String.ofList_toList]

end Text

/-- The same reference with another text. -/
def Reference.withText (reference : Reference) (text : String) : Reference :=
  { reference with text := some text }

namespace Catalog

open Text

/-- What a list with the text has to do with the pieces of the text, each of which may be written
alone. -/
structure Piecewise (catalog : Catalog) (separator : Char) (owner : NodeId) (reference : Reference)
    (text : String) : Prop where
  /-- The pieces are what stands between the separators. -/
  whole : separator.toString.intercalate (pieces separator text) = text
  apart : ∀ piece ∈ pieces separator text, separator ∉ piece.toList
  /-- One slot for each piece, in order: the only one that the piece has alone. -/
  slots : List.Forall₂
    (fun piece slot => slot.text = trim piece ∧
      (catalog.evaluate separator owner (reference.withText piece)).slots = [slot])
    (pieces separator text) (catalog.evaluate separator owner reference).slots
  consulted : (catalog.evaluate separator owner reference).consulted =
    (pieces separator text).flatMap fun piece =>
      (catalog.evaluate separator owner (reference.withText piece)).consulted
  lookups : (catalog.evaluate separator owner reference).lookups =
    (pieces separator text).flatMap fun piece =>
      (catalog.evaluate separator owner (reference.withText piece)).lookups

section Gathered

variable (parts : List (Slot × NameReading))

theorem slots_gather : (gather parts).slots = parts.map Prod.fst := rfl

theorem consulted_gather :
    (gather parts).consulted = parts.flatMap fun part => part.2.consulted := rfl

theorem lookups_gather : (gather parts).lookups = parts.flatMap fun part => part.2.lookups := rfl

end Gathered

section Pieces

variable (catalog : Catalog) (separator : Char) (owner : NodeId) {reference : Reference}
  (many : reference.rule.arity = .list)

include many

/-- A piece that is written alone is the only one. -/
theorem evaluate_alone {piece : String} (absent : separator ∉ piece.toList) :
    catalog.evaluate separator owner (reference.withText piece) =
      gather [catalog.readSlot separator (catalog.row? owner) reference.rule (trim piece)] := by
  have texts : (reference.withText piece).texts separator = (pieces separator piece).map trim :=
    Reference.texts_of_list rfl many
  rw [pieces_of_not_mem absent, List.map_singleton] at texts
  rw [catalog.evaluate_of_texts owner (by rw [texts]; exact List.cons_ne_nil _ _), texts]
  rfl

theorem evaluate_pieces {text : String} (written : reference.text = some text) :
    catalog.evaluate separator owner reference = gather ((pieces separator text).map fun piece =>
      catalog.readSlot separator (catalog.row? owner) reference.rule (trim piece)) := by
  have texts : reference.texts separator = (pieces separator text).map trim :=
    Reference.texts_of_list written many
  have nonempty : (pieces separator text).map trim ≠ [] := by
    rw [ne_eq, List.map_eq_nil_iff, pieces, List.map_eq_nil_iff]
    exact split_ne_nil separator text.toList
  rw [catalog.evaluate_of_texts owner (by rwa [texts]), texts, List.map_map, Function.comp_def]

theorem piecewise {text : String} (written : reference.text = some text) :
    catalog.Piecewise separator owner reference text := by
  have alone : ∀ piece ∈ pieces separator text,
      catalog.evaluate separator owner (reference.withText piece) =
        gather [catalog.readSlot separator (catalog.row? owner) reference.rule (trim piece)] :=
    fun piece listed => catalog.evaluate_alone separator owner many (not_mem_pieces listed)
  have whole := catalog.evaluate_pieces separator owner many written
  refine ⟨intercalate_pieces separator text, fun _ => not_mem_pieces, ?_, ?_, ?_⟩
  · rw [whole, slots_gather, List.map_map, List.forall₂_map_right_iff, List.forall₂_same]
    intro piece listed
    rw [alone piece listed, slots_gather, Function.comp_apply]
    exact ⟨catalog.text_readSlot .., rfl⟩
  · rw [whole, consulted_gather, List.flatMap_map]
    refine List.flatMap_congr fun piece listed => ?_
    rw [alone piece listed, consulted_gather, List.flatMap_singleton]
  · rw [whole, lookups_gather, List.flatMap_map]
    refine List.flatMap_congr fun piece listed => ?_
    rw [alone piece listed, lookups_gather, List.flatMap_singleton]

end Pieces

end Catalog

/-! ### Status and targets -/

/-- What the status and the targets of a resolution have to do with its slots. -/
structure Resolution.Totals (resolution : Resolution) : Prop where
  known : resolution.status = .known ↔ ∀ slot ∈ resolution.slots, slot.isKnown = true
  undefined : resolution.status = .undefined ↔ ∃ slot ∈ resolution.slots, slot.isKnown = false
  mem_targets : ∀ id, id ∈ resolution.targets ↔ ∃ slot ∈ resolution.slots, slot.target? = some id
  /-- The targets come in the order in which the slots name them first. -/
  order : resolution.targets.items.Pairwise fun first later =>
    (resolution.slots.filterMap Slot.target?).idxOf first <
      (resolution.slots.filterMap Slot.target?).idxOf later

theorem Resolution.totals (resolution : Resolution) : resolution.Totals := by
  have all : (resolution.slots.all Slot.isKnown = true) ↔
      ∀ slot ∈ resolution.slots, slot.isKnown = true := List.all_eq_true
  refine ⟨?_, ?_, fun id => ?_, OrderedSet.pairwise_ofList _⟩
  · unfold status Status.ofSlots
    rw [← all]
    split
    · simp_all
    · simp_all
  · unfold status Status.ofSlots
    split
    · simp_all
    · simp_all
  · rw [targets, OrderedSet.mem_ofList, List.mem_filterMap]

/-- **A list is evaluated piece by piece**, in every catalog, for every owner and separator: each
piece of its text has the slot it would have alone, what was read on the way is what the pieces read
one after the other, and status and targets are those of the slots. A list without text has one
empty slot. The notes that all pieces share make no difference. -/
theorem evaluate_piecewise (catalog : Catalog) (separator : Char) (owner : NodeId)
    {reference : Reference} (many : reference.rule.arity = .list) :
    (∀ text, reference.text = some text → catalog.Piecewise separator owner reference text) ∧
      (reference.text = none → catalog.evaluate separator owner reference =
        ⟨[⟨"", .empty, .undefined .empty⟩], [], []⟩) ∧
      (catalog.evaluate separator owner reference).Totals ∧
      catalog.evaluateNoting separator owner reference =
        catalog.evaluate separator owner reference :=
  ⟨fun _ written => catalog.piecewise separator owner many written,
    fun absent => catalog.evaluate_of_no_texts owner (Reference.texts_of_none absent),
    Resolution.totals _, catalog.evaluateNoting_eq separator owner reference⟩

/-- Two types, and a mapping that lists them with a blank piece, an unknown one and a repeat. -/
def typesListed : Workspace :=
  (Workspace.ofOptions .standard).after
    [.load "sales.csdl" .conceptual
        (.node { Head.ofTag "Schema" with attributes := .ofList [("Namespace", "Sales")] }
          [.node { Head.ofTag "EntityType" with attributes := .ofList [("Name", "Customer")] } [],
            .node { Head.ofTag "EntityType" with attributes := .ofList [("Name", "Order")] } []]),
      .load "sales.msl" .mapping
        (.node (.ofTag "Mapping")
          [.node (.ofTag "EntityContainerMapping")
            [.node (.ofTag "EntitySetMapping")
              [.node { Head.ofTag "EntityTypeMapping" with
                attributes := .ofList
                  [("TypeName", "IsTypeOf(Sales.Order); ;Sales.Customer;Sales.None; Sales.Order")] }
                []]]]),
      .commit]

/-- Every piece keeps its place, and the type that is named twice is one target. -/
theorem evaluate_typesListed : ∃ reference,
    typesListed.reference? ⟨⟨6⟩, "TypeName"⟩ = some reference ∧ reference.rule.arity = .list ∧
      (typesListed.catalog.evaluate ';' ⟨6⟩ reference).slots.map Slot.outcome =
        [.known ⟨2⟩ 1, .undefined .empty, .known ⟨1⟩ 1, .undefined .notFound, .known ⟨2⟩ 1] ∧
      (typesListed.catalog.evaluate ';' ⟨6⟩ reference).targets.items = [⟨2⟩, ⟨1⟩] ∧
      (∀ text, reference.text = some text →
        typesListed.catalog.Piecewise ';' ⟨6⟩ reference text) ∧
      (reference.text = none → typesListed.catalog.evaluate ';' ⟨6⟩ reference =
        ⟨[⟨"", .empty, .undefined .empty⟩], [], []⟩) ∧
      (typesListed.catalog.evaluate ';' ⟨6⟩ reference).Totals ∧
      typesListed.catalog.evaluateNoting ';' ⟨6⟩ reference =
        typesListed.catalog.evaluate ';' ⟨6⟩ reference := by
  have listed : ∃ reference ∈ typesListed.reference? ⟨⟨6⟩, "TypeName"⟩,
      reference.rule.arity = .list ∧
        (typesListed.catalog.evaluate ';' ⟨6⟩ reference).slots.map Slot.outcome =
          [.known ⟨2⟩ 1, .undefined .empty, .known ⟨1⟩ 1, .undefined .notFound, .known ⟨2⟩ 1] ∧
        (typesListed.catalog.evaluate ';' ⟨6⟩ reference).targets.items = [⟨2⟩, ⟨1⟩] := by
    decide +kernel
  obtain ⟨reference, found, many, outcomes, targets⟩ := listed
  exact ⟨reference, found, many, outcomes, targets, evaluate_piecewise _ ';' ⟨6⟩ many⟩

end EntityModel
