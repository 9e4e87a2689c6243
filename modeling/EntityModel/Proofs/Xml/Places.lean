import EntityModel.Proofs.Xml.Nesting

/-
**Where start tags stand, and what their spans say.**

The reader counts back from behind a tag to where it began, and it counts behind the byte order mark
while positions are those of the whole document.

* `next?_split` — a piece is the next bytes behind blanks; `Wrote` — a tag is its bracket, its content
  and its ending.
* `TagAt` — the bytes of a place are the tag of a head; `ReadAt` — and its span is counted from the
  place.
* `Laid`, `laid_cutFrom` — **the heads of what is cut have their tags one after the other.**
* `heads_of_document` — the heads of the tokens are those of the tree, in document order.
* `tagsCovered_of_read` — **the spans of a document that is read cover exactly the start tags of its
  elements when it begins with no mark**; with a mark they begin and end three bytes before.
-/

namespace EntityModel.Xml

/-! ### The bytes of a piece -/

/-- The piece is written with these bytes and ends at the offset; of a tag that begins an element
the bytes are its bracket, its content and its ending. -/
inductive Wrote : Piece → List UInt8 → Nat → Prop where
  | startTag {content : List UInt8} {stop : Nat} (begins : Begins content)
      (closed : Closed content) (full : content.getLast? ≠ some 0x2F) :
      Wrote (.startTag content stop) (0x3C :: (content ++ [0x3E])) stop
  | emptyTag {content : List UInt8} {stop : Nat} (begins : Begins content)
      (closed : Closed content) :
      Wrote (.emptyTag content stop) (0x3C :: (content ++ [0x2F, 0x3E])) stop
  | text {bytes own : List UInt8} {stop : Nat} : Wrote (.text bytes) own stop
  | verbatim {bytes own : List UInt8} {stop : Nat} : Wrote (.verbatim bytes) own stop
  | endTag {own : List UInt8} {stop : Nat} : Wrote .endTag own stop
  | aside {own : List UInt8} {stop : Nat} : Wrote .aside own stop

theorem wrote_of_tagPiece {openNames names : List (List UInt8)} {inside : List UInt8} {stop : Nat}
    {piece : Piece} (closed : Closed inside)
    (tag : ∀ first ∈ inside.head?, first ≠ 0x21 ∧ first ≠ 0x3F)
    (found : tagPiece openNames inside stop = .ok (piece, names)) :
    Wrote piece (0x3C :: (inside ++ [0x3E])) stop := by
  have opens := opens_of_tagPiece closed tag found
  unfold tagPiece at found
  split at found
  · dsimp only at found
    split at found
    · exact nomatch found
    · split at found
      · obtain ⟨rfl, _⟩ := Prod.mk.inj (Except.ok.inj found)
        exact .endTag
      · exact nomatch found
  · split at found
    · rename_i slash
      obtain ⟨rfl, _⟩ := Prod.mk.inj (Except.ok.inj found)
      have whole := List.dropLast_append_getLast? 0x2F slash
      cases opens with
      | emptyTag begins =>
        have inner : Closed inside.dropLast := by
          refine @Closed.middle [] _ [0x2F] ?_ (fun _ member => absurd member List.not_mem_nil)
            fun byte member => ?_
          · rwa [List.nil_append, whole]
          · rw [List.mem_singleton.mp member]
            decide
        have ends : inside.dropLast ++ [0x2F, 0x3E] = inside ++ [0x3E] := by
          conv_rhs => rw [← whole, List.append_assoc]
          rfl
        exact ends ▸ .emptyTag begins inner
    · rename_i full
      obtain ⟨rfl, _⟩ := Prod.mk.inj (Except.ok.inj found)
      cases opens with
      | startTag begins => exact .startTag begins closed full

theorem wrote_of_markupPiece {openNames names : List (List UInt8)}
    {bytes inside rest : List UInt8} {form : Form} {start stop : Nat} {piece : Piece}
    (closed : enclosed bytes = .ok (form, inside, rest))
    (found : markupPiece openNames form inside start stop = .ok (piece, names)) :
    Wrote piece (0x3C :: (inside ++ [0x3E])) stop := by
  unfold markupPiece at found
  cases form with
  | verbatim =>
    dsimp only at found
    split at found
    · obtain ⟨rfl, _⟩ := Prod.mk.inj (Except.ok.inj found)
      exact .verbatim
    · exact nomatch found
  | comment | instruction =>
    dsimp only at found
    split at found
    · obtain ⟨rfl, _⟩ := Prod.mk.inj (Except.ok.inj found)
      exact .aside
    · exact nomatch found
  | doctype =>
    dsimp only at found
    split at found
    · exact nomatch found
    · split at found
      · exact nomatch found
      · obtain ⟨rfl, _⟩ := Prod.mk.inj (Except.ok.inj found)
        exact .aside
  | tag =>
    obtain ⟨inner, tag⟩ := closed_of_enclosed closed
    exact wrote_of_tagPiece inner tag (mapError_eq_ok.mp found)

/-- **A piece is the next bytes behind blanks**, and reading goes on behind them. -/
theorem next?_split {lexer after : Lexer} {piece : Piece}
    (found : next? lexer = some (.ok (piece, after))) : ∃ blanks own,
      lexer.rest = blanks ++ own ++ after.rest ∧
        after.offset = lexer.offset + (blanks ++ own).length ∧ Wrote piece own after.offset := by
  have blanks := List.takeWhile_append_dropWhile (p := isSpace) (l := lexer.rest)
  unfold next? at found
  dsimp only at found
  split at found
  · exact nomatch found
  · rename_i bytes begins
    replace found := Option.some.inj found
    split at found
    · exact nomatch found
    · rename_i form inside rest closed
      obtain ⟨⟨piece, names⟩, known, same⟩ := map_eq_ok.mp found
      obtain ⟨rfl, rfl⟩ := Prod.mk.inj same
      refine ⟨lexer.rest.takeWhile isSpace, 0x3C :: (inside ++ [0x3E]), ?_, ?_,
        wrote_of_markupPiece closed known⟩
      · refine blanks.symm.trans ?_
        rw [begins, ← enclosed_whole closed]
        simp
      · simp only [List.length_append, List.length_cons, List.length_nil]
        omega
  · rename_i byte bytes _ begins
    obtain ⟨rfl, rfl⟩ := Prod.mk.inj (Except.ok.inj (Option.some.inj found))
    refine ⟨lexer.rest.takeWhile isSpace, byte :: bytes.takeWhile fun byte => byte != 0x3C, ?_, ?_,
      .text⟩
    · rw [List.append_assoc, List.cons_append, List.takeWhile_append_dropWhile, ← begins, blanks]
    · rw [List.length_append, Nat.add_assoc]

/-! ### Where the tags of heads stand -/

/-- From where to where something stands in a list of bytes. -/
structure Place where
  start : Nat
  stop : Nat
  deriving DecidableEq

/-- The place begins, and ends, before the other does. -/
structure Place.Before (first second : Place) : Prop where
  begins : first.start < second.start
  ends : first.stop ≤ second.start

/-- The head as its tag gives it, without the text behind the tag. -/
def withoutText (head : Head) : Head :=
  { head with text := none }

/-- The bytes are a tag that begins an element with this head: an opening bracket, a content that is
read as the head and hides no closing bracket, and the end of a start tag or of an empty one. -/
inductive TagOf (head : Head) : List UInt8 → Prop where
  | start {content : List UInt8} {span : Span} (begins : Begins content) (closed : Closed content)
      (full : content.getLast? ≠ some 0x2F)
      (read : readHead content span = .ok (withoutText head)) :
      TagOf head (0x3C :: (content ++ [0x3E]))
  | empty {content : List UInt8} {span : Span} (begins : Begins content) (closed : Closed content)
      (read : readHead content span = .ok (withoutText head)) :
      TagOf head (0x3C :: (content ++ [0x2F, 0x3E]))

/-- The tag of the head stands at the place. -/
structure TagAt (bytes : List UInt8) (head : Head) (place : Place) : Prop where
  forwards : place.start < place.stop
  within : place.stop ≤ bytes.length
  tag : TagOf head ((bytes.take place.stop).drop place.start)

/-- The tag of the head stands at the place, and the span of the head is counted from there, in the
document. -/
structure ReadAt (document bytes : List UInt8) (head : Head) (place : Place) : Prop where
  stands : TagAt bytes head place
  span : head.span = some (spanOf document place.start place.stop)

/-- The heads have their tags at the places, one after the other and none before the offset. -/
structure Laid (document bytes : List UInt8) (offset : Nat) (heads : List Head)
    (places : List Place) : Prop where
  tags : List.Forall₂ (ReadAt document bytes) heads places
  ordered : places.Pairwise Place.Before
  later : ∀ place ∈ places, offset ≤ place.start

theorem TagOf.ends {head : Head} {tag : List UInt8} (given : TagOf head tag) :
    ∃ front, tag = 0x3C :: (front ++ [0x3E]) := by
  cases given with
  | @start content _ _ _ _ _ => exact ⟨content, rfl⟩
  | @empty content _ _ _ _ => exact ⟨content ++ [0x2F], by rw [List.append_assoc]; rfl⟩

/-- What a tag is does not depend on the text behind it. -/
theorem TagOf.withText {head : Head} {tag : List UInt8} (given : TagOf (withoutText head) tag) :
    TagOf head tag := by
  cases given with
  | start begins closed full read => exact .start begins closed full read
  | empty begins closed read => exact .empty begins closed read

theorem tagAt_append {front own rest : List UInt8} {head : Head} (tag : TagOf head own) :
    TagAt (front ++ own ++ rest) head ⟨front.length, (front ++ own).length⟩ := by
  refine ⟨?_, ?_, ?_⟩
  · obtain ⟨inner, rfl⟩ := tag.ends
    simp
  · exact (List.prefix_append (front ++ own) rest).length_le
  · rw [List.take_left, List.drop_left]
    exact tag

/-- A tag further back stands where it stood. -/
theorem TagAt.behind {bytes : List UInt8} {head : Head} {place : Place}
    (stands : TagAt bytes head place) (front : List UInt8) :
    TagAt (front ++ bytes) head ⟨front.length + place.start, front.length + place.stop⟩ := by
  refine ⟨Nat.add_lt_add_left stands.forwards _, ?_, ?_⟩
  · rw [List.length_append]
    exact Nat.add_le_add_left stands.within _
  · rw [List.take_length_add_append, List.drop_length_add_append]
    exact stands.tag

section Reading

variable {document front own rest : List UInt8} {head : Head}

/-- A head that is read from its own bytes, with the span that is counted back from behind them. -/
theorem readAt_of_readHead {content : List UInt8} {around : Nat} {stop : Nat}
    (length : own.length = content.length + around) (ends : stop = (front ++ own).length)
    (read : readHead content (spanOf document (stop - (content.length + around)) stop) = .ok head)
    (tag : ∀ {span}, readHead content span = .ok (withoutText head) → TagOf head own) :
    ReadAt document (front ++ own ++ rest) head ⟨front.length, (front ++ own).length⟩ := by
  obtain ⟨bare, placed⟩ := bare_of_readHead read
  have begins : stop - (content.length + around) = front.length := by
    rw [ends, ← length, List.length_append, Nat.add_sub_cancel]
  rw [begins, ends] at placed
  refine ⟨tagAt_append (tag (read.trans ?_)), placed⟩
  rw [withoutText, ← bare]

/-- **The head of a tag is that of the bytes of its piece.** -/
theorem readAt_of_wrote {piece : Piece} {token : Token} {stop : Nat}
    (wrote : Wrote piece own stop) (ends : stop = (front ++ own).length)
    (known : tokenOf document piece = .ok token) (given : token.head? = some head) :
    ReadAt document (front ++ own ++ rest) head ⟨front.length, (front ++ own).length⟩ := by
  cases wrote with
  | startTag begins closed full =>
    obtain ⟨read, found, rfl⟩ := map_eq_ok.mp known
    obtain rfl := Option.some.inj given
    refine readAt_of_readHead ?_ ends (mapError_eq_ok.mp found) (TagOf.start begins closed full)
    rw [List.length_cons, List.length_append]
    rfl
  | emptyTag begins closed =>
    obtain ⟨read, found, rfl⟩ := map_eq_ok.mp known
    obtain rfl := Option.some.inj given
    refine readAt_of_readHead ?_ ends (mapError_eq_ok.mp found) (TagOf.empty begins closed)
    rw [List.length_cons, List.length_append]
    rfl
  | text =>
    obtain ⟨_, _, rfl⟩ := map_eq_ok.mp known
    exact nomatch given
  | verbatim | endTag | aside =>
    obtain rfl := Except.ok.inj known
    exact nomatch given

theorem Laid.mono {bytes : List UInt8} {offset next : Nat} {heads : List Head}
    {places : List Place} (laid : Laid document bytes next heads places) (before : offset ≤ next) :
    Laid document bytes offset heads places :=
  { laid with later := fun place member => before.trans (laid.later place member) }

/-- **The places of the tags that are still to come**, behind the bytes that are cut. -/
theorem laid_cutFrom {lexer : Lexer} : ∀ {front : List UInt8} {given : List Token},
    front.length = lexer.offset → (cutFrom lexer).1.mapM (tokenOf document) = .ok given →
      ∃ places, Laid document (front ++ lexer.rest) lexer.offset
        (given.filterMap Token.head?) places := by
  fun_induction cutFrom lexer with
  | case1 | case2 =>
    intro front given _ known
    obtain rfl := Except.ok.inj known
    exact ⟨[], .nil, .nil, fun _ member => absurd member List.not_mem_nil⟩
  | case3 lexer piece after found others =>
    rename_i ih
    intro front given length known
    obtain ⟨token, later, here, rest, rfl⟩ := mapM_cons_eq_ok.mp known
    obtain ⟨blanks, own, split, offset, wrote⟩ := next?_split found
    have ends : after.offset = (front ++ blanks ++ own).length := by
      rw [List.append_assoc, @List.length_append _ front, length, offset]
    have whole : front ++ lexer.rest = front ++ blanks ++ own ++ after.rest := by
      rw [split]
      simp only [List.append_assoc]
    obtain ⟨places, laid⟩ := ih ends.symm rest
    rw [← whole] at laid
    have before : lexer.offset ≤ (front ++ blanks).length := by
      rw [← length]
      exact (List.prefix_append front blanks).length_le
    have onward : (front ++ blanks).length ≤ after.offset := by
      rw [ends]
      exact (List.prefix_append (front ++ blanks) own).length_le
    cases given : token.head? with
    | none =>
      rw [List.filterMap_cons_none given]
      exact ⟨places, laid.mono (before.trans onward)⟩
    | some head =>
      rw [List.filterMap_cons_some given]
      have read := @readAt_of_wrote document _ _ after.rest _ _ _ _ wrote ends here given
      rw [← whole, ← ends] at read
      have first : ∀ place ∈ places,
          Place.Before ⟨(front ++ blanks).length, after.offset⟩ place := fun place member =>
        ⟨read.stands.forwards.trans_le (laid.later place member), laid.later place member⟩
      exact ⟨_ :: places, .cons read laid.tags, List.pairwise_cons.mpr ⟨first, laid.ordered⟩,
        List.forall_mem_cons.mpr ⟨before, (laid.mono (before.trans onward)).later⟩⟩

end Reading

/-! ### The heads of a tree -/

theorem withoutText_of_bare {head : Head} (bare : head.text = none) : withoutText head = head := by
  rw [withoutText, ← bare]

theorem Inside.heads {given : List Token} {texts : List String} {children : List Element}
    (inside : Inside given texts children) (bare : Bare given) :
    (children.map Tree.labels).flatten.map withoutText = given.filterMap Token.head? := by
  induction inside with
  | nil => rfl
  | text _ _ ih | aside _ ih => exact ih (List.forall_mem_cons.mp bare).2
  | empty head _ ih =>
    obtain ⟨here, later⟩ := List.forall_mem_cons.mp bare
    rw [List.map_cons, List.flatten_cons, Tree.labels_node, List.map_append, ih later]
    exact congrArg (· :: _) (withoutText_of_bare (here head rfl))
  | nested head _ _ within behind =>
    obtain ⟨here, others⟩ := List.forall_mem_cons.mp bare
    obtain ⟨inner, outer⟩ := Bare.of_append others
    rw [List.map_cons, List.flatten_cons, Tree.labels_node, List.map_append, List.map_cons,
      within inner, behind (List.forall_mem_cons.mp outer).2]
    show _ = head :: List.filterMap Token.head? (_ ++ .closing :: _)
    rw [List.filterMap_append]
    exact congrArg (· :: _) (withoutText_of_bare (here head rfl))

theorem filterMap_of_tagless {given : List Token} (tagless : tagsOf given = []) :
    given.filterMap Token.head? = [] := by
  refine List.filterMap_eq_nil_iff.mpr fun token member => ?_
  have plain := List.filter_eq_nil_iff.mp tagless token member
  cases token with
  | opening _ | closing | empty _ => exact absurd rfl plain
  | text _ | aside => rfl

/-- **The heads of the tree are those of the tags, in the order of the document.** -/
theorem heads_of_document {given : List Token} {element : Element}
    (spells : SpellsDocument given element) (bare : Bare given) :
    element.labels.map withoutText = given.filterMap Token.head? := by
  obtain ⟨before, own, behind, rfl, front, spelled, back⟩ := spells
  obtain ⟨bare, _⟩ := Bare.of_append bare
  have inside := spelled.inside.heads (Bare.of_append bare).2
  rw [List.map_singleton, List.flatten_singleton] at inside
  rw [List.filterMap_append, List.filterMap_append, filterMap_of_tagless front,
    filterMap_of_tagless back, List.nil_append, List.append_nil, inside]

/-! ### Behind a byte order mark -/

/-- How many bytes the byte order mark at the front takes. -/
def markLength (document : List UInt8) : Nat :=
  if [0xEF, 0xBB, 0xBF] <+: document then 3 else 0

theorem exists_mark (document : List UInt8) : ∃ mark, document = mark ++ withoutMark document ∧
    mark.length = markLength document := by
  unfold markLength
  by_cases marked : [0xEF, 0xBB, 0xBF] <+: document
  · obtain ⟨rest, rfl⟩ := marked
    rw [if_pos (List.prefix_append _ rest)]
    exact ⟨[0xEF, 0xBB, 0xBF], rfl, rfl⟩
  · rw [if_neg marked]
    refine ⟨[], ?_, rfl⟩
    unfold withoutMark
    split
    · rename_i rest
      exact absurd (List.prefix_append [0xEF, 0xBB, 0xBF] rest) marked
    · rfl

/-- The tag of the head stands at the place, the span of the head is counted from as many bytes before
it as the byte order mark takes, and it is that of the place just when there is no mark. -/
structure Covered (document : List UInt8) (head : Head) (place : Place) : Prop where
  stands : TagAt document head place
  counted : head.span = some (spanOf document (place.start - markLength document)
    (place.stop - markLength document))
  exact : head.span = some (spanOf document place.start place.stop) ↔ markLength document = 0

/-- The elements of the document have their tags at the places, in document order. -/
structure TagsCovered (document : List UInt8) (element : Element) (places : List Place) : Prop where
  tags : List.Forall₂ (Covered document) element.labels places
  ordered : places.Pairwise Place.Before

/-- A span that ends before its tag does is not that of the tag. -/
theorem TagAt.spanOf_ne {document : List UInt8} {head : Head} {place : Place}
    (stands : TagAt document head place) {earlier : Nat} (before : earlier < place.stop)
    (start : Nat) : spanOf document start earlier ≠ spanOf document place.start place.stop := by
  obtain ⟨inner, ends⟩ := stands.tag.ends
  have whole := List.take_append_drop place.start (document.take place.stop)
  rw [ends, ← List.cons_append, ← List.append_assoc] at whole
  generalize (document.take place.stop).take place.start ++ 0x3C :: inner = front at whole
  have length := congrArg List.length whole
  rw [List.length_append, List.length_take, Nat.min_eq_left stands.within] at length
  have inside : earlier ≤ front.length := Nat.le_of_lt_succ (before.trans_eq length.symm)
  have other := Position.atOffset_ne whole.symm (by decide) (by decide) inside before.le
  exact fun same => other (congrArg Span.stop same)

theorem covered_of_readAt {document : List UInt8} {head : Head} {place : Place}
    (read : ReadAt document (withoutMark document) (withoutText head) place) :
    Covered document head
      ⟨markLength document + place.start, markLength document + place.stop⟩ := by
  obtain ⟨mark, whole, length⟩ := exists_mark document
  have stands : TagAt document head
      ⟨markLength document + place.start, markLength document + place.stop⟩ := by
    have behind := read.stands.behind mark
    rw [← whole, length] at behind
    exact { behind with tag := behind.tag.withText }
  have counted : head.span = some (spanOf document place.start place.stop) := read.span
  refine ⟨stands, ?_, ?_⟩
  · dsimp only
    rw [Nat.add_sub_cancel_left, Nat.add_sub_cancel_left]
    exact counted
  · rw [counted, Option.some.injEq]
    constructor
    · intro same
      by_contra marked
      exact stands.spanOf_ne (Nat.lt_add_of_pos_left (Nat.pos_of_ne_zero marked)) _ same
    · intro unmarked
      rw [unmarked, Nat.zero_add, Nat.zero_add]

/-- **A document that is read has a start tag for each of its elements, one after the other**, and
the elements' spans cover them when it begins with no byte order mark. -/
theorem tagsCovered_of_read {document : List UInt8} {element : Element}
    (known : read document = .ok element) : ∃ places, TagsCovered document element places := by
  obtain ⟨given, understood, assembled⟩ := exists_tokens_of_read known
  have bare := bare_tokens understood
  have heads := heads_of_document ((assemble_eq_ok bare).mp assembled) bare
  obtain ⟨places, laid⟩ := @laid_cutFrom document ⟨0, [], withoutMark document⟩ [] given rfl
    (tokens_eq_ok.mp understood).1
  rw [List.nil_append, ← heads] at laid
  refine ⟨places.map fun place =>
    ⟨markLength document + place.start, markLength document + place.stop⟩, ?_, ?_⟩
  · have tags := List.forall₂_map_left_iff.mp laid.tags
    exact List.forall₂_map_right_iff.mpr (tags.imp fun _ _ => covered_of_readAt)
  · refine List.pairwise_map.mpr (laid.ordered.imp fun before => ?_)
    exact ⟨Nat.add_lt_add_left before.begins _, Nat.add_le_add_left before.ends _⟩

/-- A mark, a bracket in quotes, a character of two bytes, and a blank before the end of a tag. -/
def marked : List UInt8 :=
  [0xEF, 0xBB, 0xBF] ++ Utf8.encode "<?xml ?>\n<a x=\x27>\x27>ö<b /></a>"

theorem tagsCovered_of_read_marked : ∃ element places, read marked = .ok element ∧
    TagsCovered marked element places ∧
    element.labels.map Head.span = [some ⟨⟨0, 7⟩, ⟨1, 6⟩⟩, some ⟨⟨1, 8⟩, ⟨1, 12⟩⟩] := by
  have known : ∃ element, element ∈ (read marked).toOption ∧
      element.labels.map Head.span = [some ⟨⟨0, 7⟩, ⟨1, 6⟩⟩, some ⟨⟨1, 8⟩, ⟨1, 12⟩⟩] := by
    decide +kernel
  obtain ⟨element, found, spans⟩ := known
  obtain ⟨places, covered⟩ := tagsCovered_of_read (mem_toOption.mp found)
  exact ⟨element, places, mem_toOption.mp found, covered, spans⟩

end EntityModel.Xml
