import EntityModel.Proofs.Results
import EntityModel.Proofs.Text.Decoding
import EntityModel.Proofs.Xml.RoundTrip

/-
**What is read has names that are read again.**

The reader takes names that are none: all it asks is that they can be cut out of a tag. This much
holds of every element it yields, and it is what reading the element again rests on.

* `legible_of_readHead` — the head of a tag is cut where it was, and it has the name of the tag.
* `Opens`, `opens_of_next?` — what a piece says about the tag it was, and what it does to the names
  of the open elements.
* `readFrom_ok` — what holds of the cut and of the assembly and is kept piece by piece holds at the
  end of a document that is read.
* `Sound` — the open elements are those the cut knows by name, and all of them and all that is
  finished are accepted; `Sound.step` — every piece keeps it.
* `accepted_of_read` — **every element of a document that is read is legible**, and the end tag of
  its name closes if it has content. Where its names are names, it is proper (`proper_of_read`).
-/

namespace EntityModel.Xml

open EntityModel.Text

/-! ### Names and keys -/

theorem isKey_of_nextKey {position : Nat} {bytes : List UInt8} {key : Key}
    (found : nextKey position bytes = .ok (some key)) : IsKey key.bytes := by
  unfold nextKey at found
  dsimp only at found
  split at found
  · exact nomatch found
  · rename_i first rest begins
    split at found
    · obtain rfl := Option.some.inj (Except.ok.inj found)
      refine ⟨first, _, rfl, ?_, fun byte member => ?_⟩
      · refine @not_drops_of_head?_dropWhile _ _ bytes first ?_
        rw [begins]
        rfl
      · have inKey := List.mem_takeWhile_imp member
        rw [Bool.and_eq_true, Bool.not_eq_true', Bool.not_eq_true', beq_eq_false_iff_ne] at inKey
        exact inKey
    · exact nomatch found

theorem mem_names_set {attributes : Attributes} {name value other : String}
    (member : other ∈ (attributes.set name value).names) :
    other = name ∨ other ∈ attributes.names := by
  by_cases present : name ∈ attributes.names
  · rw [Attributes.names_set_of_mem value present] at member
    exact Or.inr member
  · rw [Attributes.names_set_of_not_mem value present, List.mem_append, List.mem_singleton] at member
    exact member.symm

/-- Every name that is read is a key. -/
theorem isKey_of_readAttributesFrom {seen : List (List UInt8 × Nat)}
    {attributes result : Attributes} {position : Nat} {bytes : List UInt8}
    (read : readAttributesFrom seen attributes position bytes = .ok result)
    (keys : ∀ name ∈ attributes.names, IsKey (Utf8.encode name)) :
    ∀ name ∈ result.names, IsKey (Utf8.encode name) := by
  fun_induction readAttributesFrom seen attributes position bytes with
  | case1 | case3 | case4 => exact nomatch read
  | case2 => exact Except.ok.inj read ▸ keys
  | case5 seen attributes position bytes key keyFound fresh value next rest valueFound ih =>
    obtain ⟨name, decoded, read⟩ := bind_eq_ok.mp read
    obtain ⟨text, _, read⟩ := bind_eq_ok.mp read
    refine ih name text read fun other member => ?_
    rcases mem_names_set member with rfl | earlier
    · rw [Utf8.encode_of_decode (mapError_eq_ok.mp decoded)]
      exact isKey_of_nextKey keyFound
    · exact keys other earlier

/-- The content of a tag: nothing makes it another kind of markup. -/
def Begins (content : List UInt8) : Prop :=
  ∀ first ∈ content.head?, first ∉ [0x2F, 0x21, 0x3F]

/-- A head with the name of a tag is legible when its prefix ends at the first colon and its
attributes have keys. -/
theorem legible_of_tagName {content : List UInt8} (begins : Begins content) {head : Head}
    (name : Utf8.encode head.qualifiedTag = tagName content)
    (nsPrefix : ∀ written ∈ head.nsPrefix, 0x3A ∉ Utf8.encode written)
    (tag : head.nsPrefix = none → 0x3A ∉ Utf8.encode head.tag)
    (keys : ∀ name ∈ head.attributes.names, IsKey (Utf8.encode name)) : Legible head := by
  refine ⟨?_, ?_, nsPrefix, tag, keys⟩
  · rw [name]
    intro byte member
    simpa only [Bool.not_eq_true'] using List.mem_takeWhile_imp member
  · rw [name]
    intro first found
    refine begins first ?_
    cases content with
    | nil => exact found
    | cons byte bytes =>
      rw [tagName, List.takeWhile_cons] at found
      split at found
      · exact found
      · cases found

/-- **The head of a tag is legible**: its names are cut where they were. -/
theorem legible_of_readHead {content : List UInt8} {span : Span} {head : Head}
    (read : readHead content span = .ok head) (begins : Begins content) :
    Legible head ∧ Utf8.encode head.qualifiedTag = tagName content ∧ head.text = none := by
  unfold readHead at read
  dsimp only at read
  cases parts : cutFirst? 0x3A (tagName content) with
  | none =>
    rw [parts] at read
    dsimp only at read
    obtain ⟨tag, decoded, read⟩ := bind_eq_ok.mp read
    obtain ⟨nsPrefix, same, read⟩ := bind_eq_ok.mp read
    obtain ⟨attributes, given, read⟩ := bind_eq_ok.mp read
    obtain rfl := Except.ok.inj same
    obtain rfl := Except.ok.inj read
    have name := Utf8.encode_of_decode (mapError_eq_ok.mp decoded)
    refine ⟨legible_of_tagName begins name (fun _ none => absurd none (Option.not_mem_none _))
      (fun _ => ?_) (isKey_of_readAttributesFrom given
        fun _ member => absurd member List.not_mem_nil), name, rfl⟩
    rw [name]
    exact cutFirst?_eq_none_iff.mp parts
  | some sides =>
    rcases sides with ⟨before, behind⟩
    rw [parts] at read
    dsimp only at read
    obtain ⟨tag, decoded, read⟩ := bind_eq_ok.mp read
    obtain ⟨nsPrefix, prefixed, read⟩ := bind_eq_ok.mp read
    obtain ⟨attributes, given, read⟩ := bind_eq_ok.mp read
    obtain ⟨written, decodedPrefix, rfl⟩ := map_eq_ok.mp prefixed
    obtain rfl := Except.ok.inj read
    obtain ⟨whole, absent⟩ := cutFirst?_eq_some parts
    have front := Utf8.encode_of_decode (mapError_eq_ok.mp decodedPrefix)
    have name : Utf8.encode (Head.qualifiedTag ⟨tag, some written, attributes, none, some span⟩) =
        tagName content := by
      rw [encode_qualifiedTag_of_some rfl, front, Utf8.encode_of_decode (mapError_eq_ok.mp decoded),
        whole]
    refine ⟨legible_of_tagName begins name (fun other same => ?_)
      (fun none => absurd none (Option.some_ne_none written)) (isKey_of_readAttributesFrom given
        fun _ member => absurd member List.not_mem_nil), name, rfl⟩
    obtain rfl := Option.some.inj same
    rw [front]
    exact absent

/-! ### What a piece says about its tag -/

/-- What a piece says about the tag it was, between the names of the open elements before and behind
it: the content of a tag is read as such, and the name of an end tag closes. -/
inductive Opens : List (List UInt8) → Piece → List (List UInt8) → Prop where
  | startTag {names : List (List UInt8)} {content : List UInt8} {stop : Nat}
      (begins : Begins content) :
      Opens names (.startTag content stop) (tagName content :: names)
  | emptyTag {names : List (List UInt8)} {content : List UInt8} {stop : Nat}
      (begins : Begins content) : Opens names (.emptyTag content stop) names
  | endTag {names : List (List UInt8)} {name : List UInt8} (closed : Closed name) :
      Opens (name :: names) .endTag names
  | text {names : List (List UInt8)} {bytes : List UInt8} : Opens names (.text bytes) names
  | verbatim {names : List (List UInt8)} {bytes : List UInt8} : Opens names (.verbatim bytes) names
  | aside {names : List (List UInt8)} : Opens names .aside names

theorem closed_endTagName {content : List UInt8} (closed : Closed (0x2F :: content)) :
    Closed (endTagName content) := by
  have slash : ∀ byte ∈ [(0x2F : UInt8)], byte ∉ [(0x3E : UInt8), 0x22, 0x27] := by
    intro byte member
    obtain rfl := List.mem_singleton.mp member
    decide
  unfold endTagName
  split
  · refine @Closed.middle [0x2F] content [] ?_ slash fun _ member => nomatch member
    rwa [List.append_nil]
  · obtain ⟨back, whole, blank⟩ := exists_trailing isSpace content
    rw [whole] at closed
    refine @Closed.middle [0x2F] _ back closed slash fun byte member => ?_
    have known := (isSpace_iff byte).mp (blank byte member)
    simp only [List.mem_cons, List.not_mem_nil, or_false] at known
    rcases known with rfl | rfl | rfl | rfl <;> decide

theorem begins_of_form_tag {bytes : List UInt8} (isTag : form bytes = .ok .tag) :
    ∀ first ∈ bytes.head?, first ≠ 0x21 ∧ first ≠ 0x3F := by
  intro first begins
  unfold form at isTag
  split at isTag
  · exact nomatch begins
  · split at isTag <;> exact nomatch isTag
  · exact nomatch isTag
  · rename_i _ noDeclaration noInstruction
    obtain ⟨rest, rfl⟩ := List.head?_eq_some_iff.mp begins
    exact ⟨fun same => noDeclaration rest (same ▸ rfl), fun same => noInstruction rest (same ▸ rfl)⟩

/-- The inside of a tag is closed and begins no other kind of markup. -/
theorem closed_of_enclosed {bytes inside rest : List UInt8}
    (found : enclosed bytes = .ok (.tag, inside, rest)) :
    Closed inside ∧ ∀ first ∈ inside.head?, first ≠ 0x21 ∧ first ≠ 0x3F := by
  obtain ⟨kind, isTag, found⟩ := bind_eq_ok.mp found
  split at found
  · rename_i sides closing
    obtain ⟨rfl, rfl⟩ := Prod.mk.inj (Except.ok.inj found)
    refine ⟨closed_iff.mpr (quoteAfter_of_closeTag closing), fun first begins =>
      begins_of_form_tag isTag first ?_⟩
    rw [← closeTag_whole closing, List.head?_append, begins]
    rfl
  · exact nomatch found

theorem opens_of_tagPiece {openNames names : List (List UInt8)} {inside : List UInt8}
    {stop : Nat} {piece : Piece} (closed : Closed inside)
    (tag : ∀ first ∈ inside.head?, first ≠ 0x21 ∧ first ≠ 0x3F)
    (found : tagPiece openNames inside stop = .ok (piece, names)) :
    Opens openNames piece names := by
  have begins : inside.head? ≠ some 0x2F → Begins inside := by
    intro noEnd first isFirst
    simp only [List.mem_cons, List.not_mem_nil, or_false, not_or]
    exact ⟨fun same => noEnd (same ▸ isFirst), tag first isFirst⟩
  unfold tagPiece at found
  split at found
  · rename_i slash
    dsimp only at found
    split at found
    · exact nomatch found
    · split at found
      · rename_i innermost outer same
        obtain ⟨rfl, rfl⟩ := Prod.mk.inj (Except.ok.inj found)
        subst same
        refine .endTag (closed_endTagName ?_)
        rwa [List.cons_head?_tail slash]
      · exact nomatch found
  · rename_i noEnd
    split at found
    · obtain ⟨rfl, rfl⟩ := Prod.mk.inj (Except.ok.inj found)
      refine .emptyTag fun first isFirst => begins noEnd first ?_
      cases inside with
      | nil => exact nomatch isFirst
      | cons byte inside =>
        cases inside with
        | nil => exact nomatch isFirst
        | cons next inside => exact isFirst
    · obtain ⟨rfl, rfl⟩ := Prod.mk.inj (Except.ok.inj found)
      exact .startTag (begins noEnd)

/-- **Every piece of a document opens and closes what its tag says.** -/
theorem opens_of_next? {lexer after : Lexer} {piece : Piece}
    (found : next? lexer = some (.ok (piece, after))) :
    Opens lexer.openNames piece after.openNames := by
  unfold next? at found
  dsimp only at found
  split at found
  · exact nomatch found
  · rename_i bytes _
    replace found := Option.some.inj found
    split at found
    · exact nomatch found
    · rename_i form inside rest cut
      obtain ⟨⟨piece, names⟩, known, same⟩ := map_eq_ok.mp found
      obtain ⟨rfl, rfl⟩ := Prod.mk.inj same
      unfold markupPiece at known
      cases form with
      | verbatim =>
        dsimp only at known
        split at known
        · obtain ⟨rfl, rfl⟩ := Prod.mk.inj (Except.ok.inj known)
          exact .verbatim
        · exact nomatch known
      | comment | instruction =>
        dsimp only at known
        split at known
        · obtain ⟨rfl, rfl⟩ := Prod.mk.inj (Except.ok.inj known)
          exact .aside
        · exact nomatch known
      | doctype =>
        dsimp only at known
        split at known
        · exact nomatch known
        · split at known
          · exact nomatch known
          · obtain ⟨rfl, rfl⟩ := Prod.mk.inj (Except.ok.inj known)
            exact .aside
      | tag =>
        obtain ⟨closed, tag⟩ := closed_of_enclosed cut
        exact opens_of_tagPiece closed tag (mapError_eq_ok.mp known)
  · obtain ⟨rfl, rfl⟩ := Prod.mk.inj (Except.ok.inj (Option.some.inj found))
    exact .text

/-! ### What a document leaves -/

/-- Every element of the tree is read as it is written. -/
def IsAccepted (element : Element) : Prop :=
  ∀ link ∈ element.links, Accepted link.label link.children

theorem isAccepted_node {head : Head} {children : List Element}
    (accepted : Accepted head (children.map Tree.label))
    (below : ∀ child ∈ children, IsAccepted child) : IsAccepted (.node head children) :=
  Tree.forall_links_node.mpr ⟨accepted, below⟩

/-- The open elements are those that the cut knows by name, and all of them and all that is finished
are read as they are written. -/
structure Sound (openNames : List (List UInt8)) (assembly : Assembly) : Prop where
  names : openNames = assembly.stack.map fun opened => Utf8.encode opened.1.qualifiedTag
  heads : ∀ opened ∈ assembly.stack, Legible opened.1
  children : ∀ opened ∈ assembly.stack, ∀ child ∈ opened.2, IsAccepted child
  root : ∀ root ∈ assembly.root, IsAccepted root

theorem sound_start : Sound [] Assembly.start where
  names := rfl
  heads _ member := nomatch member
  children _ member := nomatch member
  root _ member := nomatch member

theorem Sound.add {openNames : List (List UInt8)} {assembly extended : Assembly}
    {element : Element} (sound : Sound openNames assembly) (accepted : IsAccepted element)
    (added : assembly.add element = .ok extended) : Sound openNames extended := by
  rcases assembly with ⟨_ | ⟨⟨head, children⟩, outer⟩, _ | finished⟩
  · obtain rfl := Except.ok.inj added
    exact ⟨sound.names, sound.heads, sound.children,
      fun root same => Option.some.inj same ▸ accepted⟩
  · exact nomatch added
  all_goals
    obtain rfl := Except.ok.inj added
    obtain ⟨here, others⟩ := List.forall_mem_cons.mp sound.children
    obtain ⟨legible, heads⟩ := List.forall_mem_cons.mp sound.heads
    refine ⟨sound.names, List.forall_mem_cons.mpr ⟨legible, heads⟩,
      List.forall_mem_cons.mpr ⟨fun child member => ?_, others⟩, sound.root⟩
    rcases List.mem_append.mp member with earlier | new
    · exact here child earlier
    · exact List.mem_singleton.mp new ▸ accepted

/-- A text changes neither the names of the open elements nor what is finished. -/
theorem Sound.text {openNames : List (List UInt8)} {assembly extended : Assembly}
    (sound : Sound openNames assembly) {text : String}
    (step : assembly.step (.text text) = .ok extended) : Sound openNames extended := by
  rcases assembly with ⟨stack, root⟩
  unfold Assembly.step at step
  dsimp only at step
  split at step
  · exact Except.ok.inj step ▸ sound
  · obtain rfl := Except.ok.inj step
    obtain ⟨legible, heads⟩ := List.forall_mem_cons.mp sound.heads
    refine ⟨sound.names, List.forall_mem_cons.mpr ⟨⟨legible.name, legible.begins,
      legible.nsPrefix, legible.tag, legible.keys⟩, heads⟩, ?_, sound.root⟩
    exact List.forall_mem_cons.mpr (List.forall_mem_cons.mp sound.children)

/-- **Every piece keeps what is open and what is finished sound.** -/
theorem Sound.step {document : List UInt8} {openNames names : List (List UInt8)} {piece : Piece}
    {cursor there : Cursor} {token : Token} {assembly extended : Assembly}
    (sound : Sound openNames assembly) (opens : Opens openNames piece names)
    (known : readPiece document cursor piece = .ok (token, there))
    (step : assembly.step token = .ok extended) : Sound names extended := by
  cases opens with
  | startTag begins =>
    obtain ⟨head, read, same⟩ := bind_eq_ok.mp known
    obtain ⟨rfl, _⟩ := Prod.mk.inj (Except.ok.inj same)
    obtain ⟨legible, name, _⟩ := legible_of_readHead (mapError_eq_ok.mp read) begins
    obtain rfl := Except.ok.inj step
    have none : ∀ child ∈ ([] : List Element), IsAccepted child :=
      fun _ member => absurd member List.not_mem_nil
    refine ⟨?_, List.forall_mem_cons.mpr ⟨legible, sound.heads⟩,
      List.forall_mem_cons.mpr ⟨none, sound.children⟩, sound.root⟩
    rw [List.map_cons, name, sound.names]
  | emptyTag begins =>
    obtain ⟨head, read, same⟩ := bind_eq_ok.mp known
    obtain ⟨rfl, _⟩ := Prod.mk.inj (Except.ok.inj same)
    obtain ⟨legible, _, bare⟩ := legible_of_readHead (mapError_eq_ok.mp read) begins
    have accepted : Accepted head [] := by
      refine ⟨legible, fun filled => ?_⟩
      rw [isBare, bare] at filled
      cases filled
    exact sound.add (isAccepted_node accepted fun _ member => absurd member List.not_mem_nil) step
  | endTag closed =>
    obtain ⟨rfl, _⟩ := Prod.mk.inj (Except.ok.inj known)
    rcases assembly with ⟨_ | ⟨⟨head, children⟩, outer⟩, root⟩
    · cases step
    · obtain ⟨rfl, namesOutside⟩ := List.cons.inj sound.names
      obtain ⟨legible, heads⟩ := List.forall_mem_cons.mp sound.heads
      obtain ⟨here, others⟩ := List.forall_mem_cons.mp sound.children
      have outside : Sound names ⟨outer, root⟩ := ⟨namesOutside, heads, others, sound.root⟩
      exact outside.add (isAccepted_node ⟨legible, fun _ => closed⟩ here) step
  | text =>
    obtain ⟨text, _, same⟩ := bind_eq_ok.mp known
    obtain ⟨rfl, _⟩ := Prod.mk.inj (Except.ok.inj same)
    exact sound.text step
  | verbatim =>
    obtain ⟨rfl, _⟩ := Prod.mk.inj (Except.ok.inj known)
    exact sound.text step
  | aside =>
    obtain ⟨rfl, _⟩ := Prod.mk.inj (Except.ok.inj known)
    exact Except.ok.inj step ▸ sound

/-- **What holds of the cut and of the assembly and is kept piece by piece holds at the end.** -/
theorem readFrom_ok {document : List UInt8} {holds : Lexer → Assembly → Prop}
    (kept : ∀ {lexer after piece cursor there token assembly extended}, holds lexer assembly →
      next? lexer = some (.ok (piece, after)) →
      readPiece document cursor piece = .ok (token, there) →
      assembly.step token = .ok extended → holds after extended)
    {lexer : Lexer} : ∀ {state : Assembly × Cursor} {element : Element}, holds lexer state.1 →
      readFrom document lexer state = .ok element →
      ∃ last assembly, holds last assembly ∧ assembly.finish = .ok element := by
  induction lexer using cutFrom.induct with
  | case1 lexer finished =>
    intro state element here read
    rw [readFrom_finished document finished, mapError_eq_ok] at read
    exact ⟨lexer, state.1, here, read⟩
  | case2 lexer fault stopped =>
    intro state element here read
    have cut : cutFrom lexer = ([], some fault) := by
      rw [cutFrom]
      split <;> rename_i found <;> rw [stopped] at found <;> cases found
      rfl
    unfold readFrom at read
    rw [cut] at read
    cases read
  | case3 lexer piece after found ih =>
    intro state element here read
    obtain ⟨⟨assembly, cursor⟩, folded, rest⟩ := bind_eq_ok.mp read
    rw [cutFrom_next found] at folded rest
    obtain ⟨⟨extended, there⟩, stepped, folded⟩ := foldlM_cons_eq_ok.mp folded
    obtain ⟨⟨token, behind⟩, known, stepped⟩ := bind_eq_ok.mp stepped
    obtain ⟨next, step, same⟩ := bind_eq_ok.mp stepped
    obtain ⟨rfl, rfl⟩ := Prod.mk.inj (Except.ok.inj same)
    exact @ih (next, behind) element (kept here found known (mapError_eq_ok.mp step))
      (bind_eq_ok.mpr ⟨(assembly, cursor), folded, rest⟩)

/-- **Every element of a document that is read is read as it is written.** -/
theorem accepted_of_read {bytes : List UInt8} {element : Element}
    (read : Xml.read bytes = .ok element) : IsAccepted element := by
  rw [read_eq_readFrom] at read
  obtain ⟨last, assembly, sound, finished⟩ := @readFrom_ok bytes
    (fun lexer assembly => Sound lexer.openNames assembly)
    (fun sound found known step => sound.step (opens_of_next? found) known step) _ _ _
    sound_start read
  rcases assembly with ⟨stack, root⟩
  unfold Assembly.finish at finished
  split at finished
  · exact nomatch finished
  · exact nomatch finished
  · rename_i found _ same
    obtain rfl := Except.ok.inj finished
    exact sound.root _ same

/-- The names of the head are names. -/
structure Named (head : Head) : Prop where
  tag : isName head.qualifiedTag = true
  names : ∀ name ∈ head.attributes.names, isName name = true

instance (head : Head) : Decidable (Named head) :=
  decidable_of_iff
    (isName head.qualifiedTag = true ∧ ∀ name ∈ head.attributes.names, isName name = true)
    ⟨fun parts => ⟨parts.1, parts.2⟩, fun named => ⟨named.tag, named.names⟩⟩

theorem Legible.proper {head : Head} (legible : Legible head) (named : Named head) :
    Proper head where
  plain := plain_encode named.tag
  named := encode_ne_nil named.tag
  nsPrefix := legible.nsPrefix
  tag := legible.tag
  names := named.names

/-- **What is read with names that are names is proper.** -/
theorem proper_of_read {bytes : List UInt8} {element : Element}
    (read : Xml.read bytes = .ok element) (named : ∀ head ∈ element.labels, Named head) :
    ∀ head ∈ element.labels, Proper head := by
  intro head member
  refine Legible.proper ?_ (named head member)
  rw [← Tree.map_label_links] at member
  obtain ⟨link, inside, rfl⟩ := List.mem_map.mp member
  exact (accepted_of_read read link inside).legible

end EntityModel.Xml
