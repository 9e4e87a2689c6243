import EntityModel.Proofs.Naming.Lineage

/-
**Two spellings of a type: by its namespace and by the short name of its schema.**

A short name stands for the whole namespace. Whether the front of a text is a short name is decided at
the first separator, also where the text is a full name whose namespace has several segments.

* `Spells`, `unwrapType_of_spells` — the text is the name, perhaps in the wrapper, up to blanks.
* `fullName`, `ofParts_namespace` — a name behind a namespace of identifiers is the symbol of the type.
* `expandShort_shortForm` — **behind the short name a name is that of the type.**
* `expandShort_fullName` — **behind the namespace it is, unless the short name is the first of several
  segments of the namespace**: then the namespace is put in for its own first segment.
-/

namespace EntityModel

open Text

/-! ### Texts -/

/-- Up to blanks the text is the name, or the wrapper with the name in it. -/
def Spells (bare text : String) : Prop :=
  trim text = bare ∨ ∃ inner, trim text = "IsTypeOf(" ++ inner ++ ")" ∧ trim inner = bare

theorem unwrapTypeChars_trimChars (chars : List Char) :
    unwrapTypeChars (trimChars chars) = unwrapTypeChars chars := by
  unfold unwrapTypeChars
  simp only [(trimmed_trimChars chars).trimChars]

/-- Nothing is blank, so there is nothing to trim. -/
theorem trimmed_of_plain {chars : List Char} (plain : ∀ c ∈ chars, isBlankChar c = false) :
    Trimmed chars :=
  ⟨fun c found => plain c (List.mem_of_head? found),
    fun c found => plain c (List.mem_of_getLast? found)⟩

/-- **The name inside a text that spells it** is that name. -/
theorem unwrapType_of_spells {bare text : String} (trimmed : Trimmed bare.toList)
    (open_ : bare.toList.getLast? ≠ some ')') (spells : Spells bare text) :
    unwrapType text = bare := by
  have chars : unwrapTypeChars text.toList = unwrapTypeChars (trim text).toList := by
    rw [trim, String.toList_ofList, unwrapTypeChars_trimChars]
  rw [unwrapType, ← String.toList_inj, String.toList_ofList, chars]
  rcases spells with alone | ⟨inner, wrapped, inside⟩
  · rw [alone, unwrapTypeChars_of_last trimmed open_]
  · have spelled : (trim text).toList = "IsTypeOf(".toList ++ inner.toList ++ [')'] := by
      rw [wrapped, String.toList_append, String.toList_append]
      rfl
    rw [spelled, unwrapTypeChars_wrapped, ← inside, trim, String.toList_ofList]

/-! ### Names behind a namespace -/

/-- The text of segments with a separator behind each of them. -/
def segmentStem (segments : List String) : List Char :=
  segments.flatMap fun segment => segment.toList ++ ['.']

theorem segmentStem_cons (first : String) (rest : List String) :
    segmentStem (first :: rest) = first.toList ++ '.' :: segmentStem rest := by
  unfold segmentStem
  rw [List.flatMap_cons, List.append_assoc, List.singleton_append]

/-- The name behind the namespace that the segments make up. -/
def fullName (segments : List String) (name : String) : String :=
  ".".intercalate segments ++ "." ++ name

theorem toList_fullName {segments : List String} (nonempty : segments ≠ []) (name : String) :
    (fullName segments name).toList = segmentStem segments ++ name.toList := by
  obtain none | ⟨front, last, rfl⟩ := List.eq_nil_or_concat segments
  · exact absurd none nonempty
  · unfold fullName segmentStem
    rw [String.toList_append, String.toList_append, String.toList_intercalate,
      List.concat_eq_append, List.map_append, List.map_singleton,
      show ".".toList = ['.'] from rfl, Symbol.intercalate_concat, List.flatMap_map,
      List.flatMap_append, List.flatMap_singleton, List.append_assoc, List.append_assoc,
      List.append_assoc, List.append_assoc]

theorem not_blank_of_trimmed {text : String} (trimmed : Trimmed text.toList)
    (nonempty : text.toList ≠ []) : isBlank text ≠ true := by
  intro blank
  rw [← trimChars_eq_nil_iff, trimmed.trimChars] at blank
  exact nonempty blank

/-- Two trimmed texts make up a symbol with a separator between them. -/
theorem ofParts_pair {outer name : String} (outerTrimmed : Trimmed outer.toList)
    (outerThere : outer.toList ≠ []) (trimmed : Trimmed name.toList) (there : name.toList ≠ []) :
    Symbol.ofParts [outer, name] = ⟨outer ++ "." ++ name, none⟩ := by
  have outerKept := isEmpty_trim (not_blank_of_trimmed outerTrimmed outerThere)
  have kept := isEmpty_trim (not_blank_of_trimmed trimmed there)
  rw [outerTrimmed.trim] at outerKept
  rw [trimmed.trim] at kept
  have parts : ([outer, name].map trim).filter (!·.isEmpty) = [outer, name] := by
    simp [outerTrimmed.trim, trimmed.trim, outerKept, kept]
  rw [Symbol.ofParts, parts]
  rfl

/-- Behind the short name a name is a name in the namespace. -/
theorem expandShort_shortForm {shortName : String} (apart : '.' ∉ shortName.toList)
    (namespaceName name : String) :
    expandShort (some (namespaceName, shortName)) (shortName ++ "." ++ name) =
      .ofParts [namespaceName, name] := by
  have cut : cutFirst? Symbol.separator (shortName ++ "." ++ name).toList =
      some (shortName.toList, name.toList) := by
    rw [String.toList_append, String.toList_append, List.append_assoc]
    exact cutFirst?_append apart name.toList
  unfold expandShort
  simp only [cut, String.ofList_toList, if_true]

section Segments

variable {first : String} {rest : List String}
  (identifiers : ∀ segment ∈ first :: rest, isIdentifier segment = true) {name : String}
  (identifier : isIdentifier name = true)

include identifiers

theorem plain_segmentStem {segments : List String} (listed : segments ⊆ first :: rest) :
    ∀ c ∈ segmentStem segments, isBlankChar c = false := by
  intro c inside
  obtain ⟨segment, there, within⟩ := List.mem_flatMap.mp inside
  rcases List.mem_append.mp within with own | mark
  · exact (isPart_of_isIdentifier (identifiers segment (listed there))).blank c own
  · obtain rfl := List.mem_singleton.mp mark
    decide +kernel

/-- A namespace of identifiers is trimmed. -/
theorem trimmed_namespace : Trimmed (".".intercalate (first :: rest)).toList ∧
    (".".intercalate (first :: rest)).toList ≠ [] := by
  have whole := toList_fullName (List.cons_ne_nil first rest) ""
  rw [fullName, String.toList_append, String.toList_append, String.toList_empty, List.append_nil,
    List.append_nil, show ".".toList = ['.'] from rfl] at whole
  refine ⟨trimmed_of_plain fun c inside => ?_, fun none => ?_⟩
  · refine plain_segmentStem identifiers (List.Subset.refl _) c ?_
    rw [← whole]
    exact List.mem_append_left _ inside
  · have there := List.length_pos_iff.mpr
      (isPart_of_isIdentifier (identifiers first List.mem_cons_self)).nonempty
    have lengths := congrArg List.length whole
    rw [none, segmentStem_cons] at lengths
    simp only [List.length_append, List.length_cons, List.length_nil] at lengths
    omega

include identifier

/-- The full name of a type is trimmed and ends in its last part. -/
theorem trimmed_fullName : Trimmed (fullName (first :: rest) name).toList ∧
    (fullName (first :: rest) name).toList.getLast? ≠ some ')' := by
  have isPart := isPart_of_isIdentifier identifier
  rw [toList_fullName (List.cons_ne_nil first rest)]
  refine ⟨trimmed_of_plain fun c inside => ?_, getLast?_ne_closing isPart⟩
  rcases List.mem_append.mp inside with front | own
  · exact plain_segmentStem identifiers (List.Subset.refl _) c front
  · exact isPart.blank c own

theorem ofParts_namespace :
    Symbol.ofParts [".".intercalate (first :: rest), name] = ⟨fullName (first :: rest) name, none⟩ := by
  have isPart := isPart_of_isIdentifier identifier
  obtain ⟨trimmed, there⟩ := trimmed_namespace identifiers
  exact ofParts_pair trimmed there isPart.trimmed isPart.nonempty

/-- Where the namespace is put in for its first segment, the other segments stand there twice. -/
theorem ofParts_first_segment :
    Symbol.ofParts [".".intercalate (first :: rest), String.ofList (segmentStem rest ++ name.toList)] =
      ⟨fullName (first :: rest) name, none⟩ ↔ rest = [] := by
  have isPart := isPart_of_isIdentifier identifier
  obtain ⟨trimmed, there⟩ := trimmed_namespace identifiers
  have back : ∀ c ∈ segmentStem rest ++ name.toList, isBlankChar c = false := by
    intro c inside
    rcases List.mem_append.mp inside with front | own
    · exact plain_segmentStem identifiers (List.subset_cons_self first rest) c front
    · exact isPart.blank c own
  rw [ofParts_pair trimmed there (by rw [String.toList_ofList]; exact trimmed_of_plain back)
    (by rw [String.toList_ofList]; simp [isPart.nonempty])]
  constructor
  · intro same
    have texts := congrArg (fun symbol => symbol.name.toList) same
    simp only [fullName, String.toList_append, String.toList_ofList] at texts
    have longer := congrArg List.length (List.append_cancel_left texts)
    cases rest with
    | nil => rfl
    | cons second others =>
      rw [segmentStem_cons] at longer
      simp only [List.length_append, List.length_cons] at longer
      omega
  · rintro rfl
    rw [fullName, segmentStem, List.flatMap_nil, List.nil_append, String.ofList_toList]

/-- **Behind its namespace a name is that of the type**, unless the short name is the first of several
segments. -/
theorem expandShort_fullName (shortName? : Option String) :
    expandShort (shortName?.map fun shortName => (".".intercalate (first :: rest), shortName))
        (fullName (first :: rest) name) = ⟨fullName (first :: rest) name, none⟩ ↔
      ¬(shortName? = some first ∧ rest ≠ []) := by
  have isPart := isPart_of_isIdentifier identifier
  have apart := (isPart_of_isIdentifier (identifiers first List.mem_cons_self)).separator
  obtain ⟨trimmed, _⟩ := trimmed_fullName identifiers identifier
  have whole : Symbol.ofText (fullName (first :: rest) name) = ⟨fullName (first :: rest) name, none⟩ := by
    rw [Symbol.ofText, trimmed.trim]
  have cut : cutFirst? Symbol.separator (fullName (first :: rest) name).toList =
      some (first.toList, segmentStem rest ++ name.toList) := by
    rw [toList_fullName (List.cons_ne_nil first rest), segmentStem_cons, List.append_assoc,
      List.cons_append]
    exact cutFirst?_append apart _
  cases shortName? with
  | none =>
    rw [Option.map_none, expandShort_none, whole]
    simp
  | some shortName =>
    rw [Option.map_some, expandShort]
    simp only [cut, String.ofList_toList]
    by_cases same : first = shortName
    · rw [if_pos same, ofParts_first_segment identifiers identifier]
      simp [same]
    · rw [if_neg same, whole]
      simp [Ne.symm same]

end Segments

end EntityModel
