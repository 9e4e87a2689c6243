import EntityModel.Proofs.Catalog.Symbols
import EntityModel.Proofs.Resolution.Outline
import EntityModel.Proofs.Resolution.Renumbering

/-
**What the evaluation of a reference rests on.**

An evaluation reads the outlines of its owner and of the nodes above it, the candidates for every
symbol it forms, and the association ends it consults. Where two catalogs agree on these, up to the
numbers of the nodes, they give the same resolution.

* `Candidate` — what resolving sees of a node that declares a symbol: number, kind and layer.
* `resolveSymbol_eq`, `consultEnd_eq` — both look-ups read `declaring`, nothing else.
* `evaluate_readings`, `evaluate_congr` — the agreement, reference by reference: of the symbols
  alone, and of what is found under them.
* `evaluate_renamed` — catalogs with the same outlines in which the same is declared evaluate alike.
-/

namespace EntityModel

/-- What resolving sees of a node that declares a symbol. -/
structure Candidate where
  id : NodeId
  kind : Kind
  layer : Layer

/-- What resolving sees of the node of a row. -/
def Row.candidate (row : Row) : Candidate :=
  ⟨row.id, row.node.kind, row.layer⟩

namespace Candidate

/-- The candidate under another number. -/
def renumber (rename : NodeId → NodeId) (candidate : Candidate) : Candidate :=
  { candidate with id := rename candidate.id }

/-- Whether the candidate may be a target by the rule, seen from the owner's layer. -/
def fits (rule : ReferenceRule) (owner : Option Layer) (candidate : Candidate) : Bool :=
  rule.space.admits owner candidate.layer && rule.expected.contains candidate.kind

/-- What is found among candidates by the rule, seen from the owner's layer. -/
def choose (rule : ReferenceRule) (owner : Option Layer) (candidates : List Candidate) : Outcome :=
  match candidates.filter (fits rule owner), candidates with
  | first :: others, _ => .known first.id (others.length + 1)
  | [], [] => .undefined .notFound
  | [], first :: _ => .undefined (.wrongKind first.kind)

theorem choose_renumber (rename : NodeId → NodeId) (rule : ReferenceRule) (owner : Option Layer)
    (candidates : List Candidate) : choose rule owner (candidates.map (renumber rename)) =
      (choose rule owner candidates).renumber rename := by
  have fitting : (candidates.map (renumber rename)).filter (fits rule owner) =
      (candidates.filter (fits rule owner)).map (renumber rename) :=
    List.filter_map ..
  unfold choose
  rw [fitting]
  cases candidates.filter (fits rule owner) with
  | cons first others =>
    simp only [List.map_cons, List.length_map]
    rfl
  | nil =>
    cases candidates with
    | nil => rfl
    | cons first others => rfl

end Candidate

namespace Catalog

/-- The candidates for a symbol, in document order. -/
def candidates (catalog : Catalog) (symbol : Symbol) : List Candidate :=
  (catalog.declaring symbol).map Row.candidate

/-! ### The two look-ups -/

section Lookups

variable {catalog : Catalog} (numbered : catalog.Numbered) (exact : catalog.SymbolsExact)

include numbered exact

/-- Resolving a symbol chooses among its candidates. -/
theorem resolveSymbol_eq (rule : ReferenceRule) (owner : Option Layer) (symbol : Symbol) :
    catalog.resolveSymbol rule owner symbol =
      if symbol.isEmpty then .undefined .empty
      else Candidate.choose rule owner (catalog.candidates symbol) := by
  have seen : catalog.candidates symbol =
      (catalog.declarations symbol).map (Row.candidate ∘ Site.row) := by
    rw [candidates, ← declarations_eq numbered exact, List.map_map]
  have fitting : (catalog.candidates symbol).filter (Candidate.fits rule owner) =
      ((catalog.declarations symbol).filter (fits rule owner)).map (Row.candidate ∘ Site.row) := by
    rw [seen, List.filter_map]
    rfl
  unfold resolveSymbol Candidate.choose
  refine if_congr Iff.rfl rfl ?_
  rw [fitting, seen]
  simp only
  cases (catalog.declarations symbol).filter (fits rule owner) with
  | cons first others =>
    simp only [List.map_cons, List.length_map]
    rfl
  | nil =>
    cases catalog.declarations symbol with
    | nil => rfl
    | cons first others => rfl

end Lookups

/-- What is read at an association end: its entity type, taken from the nearest schema. -/
def readEnd (separator : Char) (symbol : Symbol) (found : Option Row) : NameReading :=
  match found with
  | none => ⟨.empty, [], [symbol]⟩
  | some row =>
    match row.node.firstText? separator "Type" with
    | none => ⟨.empty, [row.id], [symbol]⟩
    | some text =>
      ⟨qualifyType row.above text,
        row.id :: ((nearest? row.above .schema).map Node.id).toList, [symbol]⟩

/-- The association end that is consulted under a symbol. -/
def end? (catalog : Catalog) (symbol : Symbol) : Option Row :=
  (catalog.declaring symbol).find? fun row => row.node.kind = .associationEnd

theorem consultEnd_eq {catalog : Catalog} (numbered : catalog.Numbered)
    (exact : catalog.SymbolsExact) (separator : Char) (symbol : Symbol) :
    catalog.consultEnd separator symbol = readEnd separator symbol (catalog.end? symbol) := by
  have found : catalog.end? symbol = ((catalog.declarations symbol).find? fun site =>
      site.node.kind = .associationEnd).map Site.row := by
    rw [end?, ← declarations_eq numbered exact, List.find?_map]
    rfl
  unfold consultEnd
  rw [found]
  cases (catalog.declarations symbol).find? _ with
  | none => rfl
  | some site =>
    simp only [Option.map_some, readEnd]
    rw [show site.row.node = site.node from rfl]
    cases site.node.firstText? separator "Type" with
    | none => rfl
    | some text => rfl

theorem lookups_consultEnd (catalog : Catalog) (separator : Char) (symbol : Symbol) :
    (catalog.consultEnd separator symbol).lookups = [symbol] := by
  unfold consultEnd
  split
  · rfl
  · split
    · rfl
    · rfl

theorem mem_consulted_readEnd (separator : Char) (symbol : Symbol) (row : Row) :
    row.id ∈ (readEnd separator symbol (some row)).consulted := by
  unfold readEnd
  simp only
  split
  · exact List.mem_singleton_self _
  · exact List.mem_cons_self

/-- An end whose type is written brings its nearest schema along. -/
theorem mem_consulted_readEnd_of_schema (separator : Char) (symbol : Symbol) {row : Row}
    (typed : (row.node.firstText? separator "Type").isSome) {schema : Node}
    (nearest : nearest? row.above .schema = some schema) :
    schema.id ∈ (readEnd separator symbol (some row)).consulted := by
  obtain ⟨text, written⟩ := Option.isSome_iff_exists.mp typed
  unfold readEnd
  simp only [written, nearest, Option.map_some, Option.toList_some]
  exact List.mem_cons_of_mem _ (List.mem_singleton_self _)

/-- An end is read alike where its own content and, if its type is written, that of its nearest
schema are the same. -/
theorem readEnd_of_contents {rename : NodeId → NodeId} {row other : Row} (separator : Char)
    (symbol : Symbol) (ids : other.id = rename row.id)
    (contents : other.node.content.map Content.written = row.node.content.map Content.written)
    (schema : (row.node.firstText? separator "Type").isSome →
      (nearest? other.above .schema).map
          (fun node => (node.id, node.content.map Content.written)) =
        (nearest? row.above .schema).map
          (fun node => (rename node.id, node.content.map Content.written))) :
    readEnd separator symbol (some other) =
      (readEnd separator symbol (some row)).renumber rename := by
  unfold readEnd
  simp only [Node.firstText?_congr contents]
  cases written : row.node.firstText? separator "Type" with
  | none => simp only [NameReading.renumber, List.map_cons, List.map_nil, ids]
  | some text =>
    have alike := schema (by rw [written]; rfl)
    have schemas : (nearest? other.above .schema).map Node.id =
        ((nearest? row.above .schema).map Node.id).map rename := by
      have read := congrArg (Option.map Prod.fst) alike
      rw [Option.map_map, Option.map_map] at read
      rw [Option.map_map]
      exact read
    have named : qualifyType other.above text = qualifyType row.above text := by
      refine qualifyType_of_contents ?_ text
      have read := congrArg (fun found => found.bind Prod.snd) alike
      rw [Option.bind_map, Option.bind_map] at read
      rw [Option.map_bind, Option.map_bind]
      exact read
    simp only [NameReading.renumber, List.map_cons, ids, schemas, named]
    cases nearest? row.above .schema with
    | none => rfl
    | some node => rfl

/-- An end is read alike where its own outline and, if its type is written, that of its nearest
schema are the same. -/
theorem readEnd_congr {rename : NodeId → NodeId} {row other : Row} (separator : Char)
    (symbol : Symbol) (own : other.node.outline id = row.node.outline rename)
    (schema : (row.node.firstText? separator "Type").isSome →
      (nearest? other.above .schema).map (Node.outline id) =
        (nearest? row.above .schema).map (Node.outline rename)) :
    readEnd separator symbol (some other) =
      (readEnd separator symbol (some row)).renumber rename := by
  refine readEnd_of_contents separator symbol (congrArg Node.id own) (congrArg Node.content own)
    fun typed => ?_
  have read := congrArg (Option.map fun node => (node.id, node.content)) (schema typed)
  rw [Option.map_map, Option.map_map] at read
  exact read

/-! ### Reading a text -/

section Reading

variable {first second : Catalog} {separator : Char} {rename : NodeId → NodeId}

theorem mappedRowType_catalog {view : Viewpoint}
    (ends : ∀ symbol ∈ (first.mappedRowType separator view).lookups,
      second.consultEnd separator symbol = (first.consultEnd separator symbol).renumber rename) :
    second.mappedRowType separator view = (first.mappedRowType separator view).renumber rename := by
  unfold mappedRowType at ends ⊢
  cases scope : view.ancestors.find? fun node =>
      node.kind = .entityTypeMapping ∨ node.kind = .endProperty with
  | none => rfl
  | some node =>
    simp only [scope] at ends ⊢
    by_cases typed : node.kind = .entityTypeMapping
    · rw [if_pos typed, if_pos typed]
      rfl
    · rw [if_neg typed] at ends
      rw [if_neg typed, if_neg typed]
      by_cases blank : (memberOf (view.mappedType separator .associationSetMapping "TypeName")
          ((node.firstText? separator "Name").getD "")).isEmpty = true
      · rw [if_pos blank, if_pos blank]
        rfl
      · rw [if_neg blank] at ends
        rw [if_neg blank, if_neg blank]
        refine ends _ ?_
        rw [lookups_consultEnd]
        exact List.mem_singleton_self _

/-- Catalogs that consult the same ends read a text alike. -/
theorem readName_catalog {view : Viewpoint} {rule : NameRule} {text : String}
    (ends : ∀ symbol ∈ (first.readName separator view rule text).lookups,
      second.consultEnd separator symbol = (first.consultEnd separator symbol).renumber rename) :
    second.readName separator view rule text =
      (first.readName separator view rule text).renumber rename := by
  cases rule with
  | mappedProperty =>
    simp only [readName, mappedRowType_catalog ends]
    rfl
  | _ => rfl

/-- A text is read alike where the outlines around the owner are the same, too. -/
theorem readName_congr {view other : Viewpoint} {rule : NameRule} {text : String}
    (same : other.map (Node.outline id) = view.map (Node.outline rename))
    (ends : ∀ symbol ∈ (first.readName separator view rule text).lookups,
      second.consultEnd separator symbol = (first.consultEnd separator symbol).renumber rename) :
    second.readName separator other rule text =
      (first.readName separator view rule text).renumber rename := by
  have outlined := @readName_outline id second separator other rule text
  rw [same, readName_outline] at outlined
  rw [← outlined, readName_catalog ends]

end Reading

/-! ### Evaluating a reference -/

/-- The slot of one text of a reference and what was read to find it, seen from a row. -/
def readSlot (catalog : Catalog) (separator : Char) (owner : Option Row) (rule : ReferenceRule)
    (text : String) : Slot × NameReading :=
  if text.isEmpty then (⟨text, .empty, .undefined .empty⟩, .plain .empty)
  else
    let reading := catalog.readName separator (.ofRow owner) rule.reading text
    (⟨text, reading.symbol, catalog.resolveSymbol rule (owner.map Row.layer) reading.symbol⟩,
      reading)

theorem evaluateText_eq (catalog : Catalog) (separator : Char) (site : Option Site)
    (rule : ReferenceRule) (text : String) : catalog.evaluateText separator site rule text =
      catalog.readSlot separator (site.map Site.row) rule text := by
  have layers : (site.map Site.row).map Row.layer = site.map fun site => site.document.layer := by
    rw [Option.map_map]
    rfl
  unfold evaluateText readSlot
  rw [Viewpoint.of_eq, layers]

/-- The resolution that the slots of several texts and the readings for them make up. -/
def gather (parts : List (Slot × NameReading)) : Resolution :=
  ⟨parts.map Prod.fst, parts.flatMap fun part => part.2.consulted,
    parts.flatMap fun part => part.2.lookups⟩

theorem evaluate_of_texts (catalog : Catalog) {separator : Char} (owner : NodeId)
    {reference : Reference} (written : reference.texts separator ≠ []) :
    catalog.evaluate separator owner reference = gather ((reference.texts separator).map
      (catalog.readSlot separator (catalog.row? owner) reference.rule)) := by
  have each : catalog.evaluateText separator (catalog.site? owner) reference.rule =
      catalog.readSlot separator (catalog.row? owner) reference.rule := by
    funext text
    rw [evaluateText_eq, row?_eq]
  unfold evaluate
  rw [each]
  cases texts : reference.texts separator with
  | nil => exact absurd texts written
  | cons head rest => rfl

theorem evaluate_of_no_texts (catalog : Catalog) {separator : Char} (owner : NodeId)
    {reference : Reference} (absent : reference.texts separator = []) :
    catalog.evaluate separator owner reference = ⟨[⟨"", .empty, .undefined .empty⟩], [], []⟩ := by
  unfold evaluate
  rw [absent]

section Congruence

variable {first second : Catalog} {rename : NodeId → NodeId} {separator : Char}
  (numbered : first.Numbered) (exact : first.SymbolsExact)
  (twinNumbered : second.Numbered) (twinExact : second.SymbolsExact)

include numbered exact twinNumbered twinExact

/-- Read for the same text, the second slot has the symbol of the first, and what is found among the
same candidates. -/
structure Follows (first second : Catalog) (rename : NodeId → NodeId) (fresh later : Slot) :
    Prop where
  text : later.text = fresh.text
  symbol : later.symbol = fresh.symbol
  outcome : (fresh.symbol.isEmpty = false → second.candidates fresh.symbol =
      (first.candidates fresh.symbol).map (Candidate.renumber rename)) →
    later.outcome = fresh.outcome.renumber rename

theorem readSlot_congr {row other : Option Row} {rule : ReferenceRule} {text : String}
    (place : other.map (Row.map (Node.outline id)) = row.map (Row.map (Node.outline rename)))
    (ends : ∀ symbol ∈ (first.readSlot separator row rule text).2.lookups,
      second.consultEnd separator symbol = (first.consultEnd separator symbol).renumber rename) :
    Follows first second rename (first.readSlot separator row rule text).1
        (second.readSlot separator other rule text).1 ∧
      (second.readSlot separator other rule text).2 =
        (first.readSlot separator row rule text).2.renumber rename := by
  have views : (Viewpoint.ofRow other).map (Node.outline id) =
      (Viewpoint.ofRow row).map (Node.outline rename) := by
    rw [← Viewpoint.ofRow_map, place, Viewpoint.ofRow_map]
  have layers : other.map Row.layer = row.map Row.layer := by
    have read := congrArg (Option.map Row.layer) place
    rw [Option.map_map, Option.map_map] at read
    exact read
  unfold readSlot at ends ⊢
  by_cases blank : text.isEmpty = true
  · rw [if_pos blank, if_pos blank]
    exact ⟨⟨rfl, rfl, fun _ => rfl⟩, rfl⟩
  · rw [if_neg blank] at ends
    rw [if_neg blank, if_neg blank]
    simp only at ends
    rw [readName_congr views ends, layers]
    generalize first.readName separator (.ofRow row) rule.reading text = reading
    refine ⟨⟨rfl, rfl, fun found => ?_⟩, rfl⟩
    simp only at found
    show second.resolveSymbol rule (row.map Row.layer) reading.symbol =
      (first.resolveSymbol rule (row.map Row.layer) reading.symbol).renumber rename
    rw [resolveSymbol_eq numbered exact, resolveSymbol_eq twinNumbered twinExact]
    cases real : reading.symbol.isEmpty with
    | true => rfl
    | false =>
      rw [if_neg Bool.false_ne_true, if_neg Bool.false_ne_true, found real,
        Candidate.choose_renumber]

/-- **The texts of a reference are read from the outlines around its owner and the ends it
consults.** Where these are the same up to the numbers of the nodes, so are the symbols. -/
theorem evaluate_readings {owner other : NodeId} {reference twin : Reference}
    (rule : twin.rule = reference.rule) (text : twin.text = reference.text)
    (place : (second.row? other).map (Row.map (Node.outline id)) =
      (first.row? owner).map (Row.map (Node.outline rename)))
    (ends : ∀ symbol ∈ (first.evaluate separator owner reference).lookups,
      second.consultEnd separator symbol = (first.consultEnd separator symbol).renumber rename) :
    List.Forall₂ (Follows first second rename) (first.evaluate separator owner reference).slots
        (second.evaluate separator other twin).slots ∧
      (second.evaluate separator other twin).consulted =
        (first.evaluate separator owner reference).consulted.map rename ∧
      (second.evaluate separator other twin).lookups =
        (first.evaluate separator owner reference).lookups := by
  have texts : twin.texts separator = reference.texts separator := by
    unfold Reference.texts
    rw [rule, text]
  by_cases absent : reference.texts separator = []
  · rw [evaluate_of_no_texts first owner absent, evaluate_of_no_texts second other (texts ▸ absent)]
    exact ⟨.cons ⟨rfl, rfl, fun _ => rfl⟩ .nil, rfl, rfl⟩
  · rw [evaluate_of_texts first owner absent] at ends ⊢
    rw [evaluate_of_texts second other (texts ▸ absent), texts, rule]
    have each : ∀ text ∈ reference.texts separator,
        Follows first second rename
            (first.readSlot separator (first.row? owner) reference.rule text).1
            (second.readSlot separator (second.row? other) reference.rule text).1 ∧
          (second.readSlot separator (second.row? other) reference.rule text).2 =
            (first.readSlot separator (first.row? owner) reference.rule text).2.renumber rename := by
      intro text member
      refine readSlot_congr numbered exact twinNumbered twinExact place fun symbol looked => ?_
      exact ends symbol (List.mem_flatMap.mpr ⟨_, List.mem_map_of_mem member, looked⟩)
    refine ⟨?_, ?_, ?_⟩
    · simp only [gather, List.map_map]
      rw [List.forall₂_map_left_iff, List.forall₂_map_right_iff]
      exact List.forall₂_same.mpr fun text member => (each text member).1
    · simp only [gather, List.flatMap_map, List.map_flatMap]
      exact List.flatMap_congr fun text member =>
        congrArg NameReading.consulted (each text member).2
    · simp only [gather, List.flatMap_map]
      refine List.flatMap_congr fun text member => ?_
      rw [(each text member).2]
      rfl

/-- **An evaluation rests on the outlines around its owner, the candidates for the symbols it forms
and the ends it consults.** Where these are the same up to the numbers of the nodes, so is the
resolution. -/
theorem evaluate_congr {owner other : NodeId} {reference twin : Reference}
    (rule : twin.rule = reference.rule) (text : twin.text = reference.text)
    (place : (second.row? other).map (Row.map (Node.outline id)) =
      (first.row? owner).map (Row.map (Node.outline rename)))
    (ends : ∀ symbol ∈ (first.evaluate separator owner reference).lookups,
      second.consultEnd separator symbol = (first.consultEnd separator symbol).renumber rename)
    (found : ∀ slot ∈ (first.evaluate separator owner reference).slots,
      slot.symbol.isEmpty = false → second.candidates slot.symbol =
        (first.candidates slot.symbol).map (Candidate.renumber rename)) :
    second.evaluate separator other twin =
      (first.evaluate separator owner reference).renumber rename := by
  obtain ⟨slots, consulted, lookups⟩ := evaluate_readings numbered exact twinNumbered twinExact
    rule text place ends
  have same : (second.evaluate separator other twin).slots =
      (first.evaluate separator owner reference).slots.map (Slot.renumber rename) := by
    generalize (second.evaluate separator other twin).slots = later at slots
    generalize (first.evaluate separator owner reference).slots = fresh at slots found
    revert found
    induction slots with
    | nil => exact fun _ => rfl
    | @cons fresh later _ _ follows _ ih =>
      intro found
      rw [List.map_cons, ih fun slot member => found slot (List.mem_cons_of_mem _ member)]
      congr 1
      have outcome := follows.outcome (found fresh List.mem_cons_self)
      rcases later with ⟨text, symbol, reached⟩
      obtain rfl := follows.text
      obtain rfl := follows.symbol
      obtain rfl := outcome
      rfl
  generalize second.evaluate separator other twin = resolution at same consulted lookups
  rcases resolution with ⟨_, _, _⟩
  obtain rfl := same
  obtain rfl := consulted
  obtain rfl := lookups
  rfl

/-! ### The same model under other numbers -/

omit numbered exact twinNumbered twinExact in
/-- The same rows in the same order declare the same. -/
theorem declaring_renamed {f : Node → Node} (rows : second.rows = first.rows.map (Row.map f))
    (symbols : ∀ row ∈ first.rows, (f row.node).symbol = row.node.symbol) (symbol : Symbol) :
    second.declaring symbol = (first.declaring symbol).map (Row.map f) := by
  rw [declaring, declaring, rows, List.filter_map]
  congr 1
  refine List.filter_congr fun row member => ?_
  show decide ((f row.node).declared? = some symbol) = _
  rw [Node.declared?, symbols row member]
  rfl

section Renamed

variable {f : Node → Node}
  (outlines : ∀ row ∈ first.rows,
    (row.map f).map (Node.outline id) = row.map (Node.outline rename))
  (declares : ∀ symbol, second.declaring symbol = (first.declaring symbol).map (Row.map f))

include outlines declares

omit numbered exact twinNumbered twinExact in
theorem candidates_renamed (symbol : Symbol) :
    second.candidates symbol = (first.candidates symbol).map (Candidate.renumber rename) := by
  rw [candidates, candidates, declares, List.map_map, List.map_map]
  refine List.map_congr_left fun row member => ?_
  have same := outlines row (mem_declaring.mp member).1
  have ids : (f row.node).id = rename row.node.id := congrArg (fun row => row.node.id) same
  have kinds : (f row.node).kind = row.node.kind := congrArg (fun row => row.node.kind) same
  show (⟨(f row.node).id, (f row.node).kind, row.layer⟩ : Candidate) = _
  rw [ids, kinds]
  rfl

theorem consultEnd_renamed (symbol : Symbol) : second.consultEnd separator symbol =
    (first.consultEnd separator symbol).renumber rename := by
  rw [consultEnd_eq numbered exact, consultEnd_eq twinNumbered twinExact]
  have found : second.end? symbol = (first.end? symbol).map (Row.map f) := by
    have kinds : ∀ row ∈ first.declaring symbol,
        decide ((f row.node).kind = .associationEnd) = decide (row.node.kind = .associationEnd) := by
      intro row member
      have same := outlines row (mem_declaring.mp member).1
      rw [show (f row.node).kind = row.node.kind from congrArg (fun row => row.node.kind) same]
    rw [end?, end?, declares, List.find?_map]
    congr 1
    rw [← List.head?_filter, ← List.head?_filter]
    exact congrArg List.head? (List.filter_congr kinds)
  rw [found]
  cases ended : first.end? symbol with
  | none => rfl
  | some row =>
    have member : row ∈ first.rows := (mem_declaring.mp (List.mem_of_find?_eq_some ended)).1
    have same := outlines row member
    refine readEnd_congr separator symbol (congrArg Row.node same) fun _ => ?_
    have above : (row.map f).above.map (Node.outline id) = row.above.map (Node.outline rename) :=
      congrArg Row.above same
    rw [← nearest?_outline, ← nearest?_outline, above]

/-- **Catalogs with the same outlines in which the same is declared evaluate alike**, whatever
numbers their nodes have. -/
theorem evaluate_renamed {row : Row} (member : row ∈ first.rows) (inside : row.map f ∈ second.rows)
    {reference twin : Reference} (rule : twin.rule = reference.rule)
    (text : twin.text = reference.text) : second.evaluate separator (rename row.id) twin =
      (first.evaluate separator row.id reference).renumber rename := by
  have same := outlines row member
  have ids : (row.map f).id = rename row.id := congrArg (fun row => row.node.id) same
  refine evaluate_congr numbered exact twinNumbered twinExact rule text ?_ ?_ ?_
  · rw [← ids, twinNumbered.row?_of_mem inside, numbered.row?_of_mem member]
    exact congrArg some same
  · intro symbol _
    exact consultEnd_renamed numbered exact twinNumbered twinExact outlines declares symbol
  · intro slot _ _
    exact candidates_renamed outlines declares slot.symbol

end Renamed

end Congruence

end Catalog

end EntityModel
