import EntityModel.Proofs.Results
import EntityModel.Proofs.Text.Location
import EntityModel.Proofs.Xml.Accepted

/-
**A document as the sequence of its tokens.**

Reading takes one piece after the other, with a cursor that is handed on, and assembles each token
before the next piece is looked at. Apart from which of two faults comes first, this is: all tokens,
then the assembly.

* `tokenOf`, `tokens` — the token that a piece is, its place counted from the start of the document,
  and all tokens of a document.
* `readPiece_eq` — the cursor gives the same token; `foldlM_readStep` — reading pieces is assembling
  their tokens.
* `read_of_tokens`, `exists_tokens_of_read` — **a document whose tokens are all understood is read as
  they are assembled**, and only such a document is read.
* `Matched`, `Bare` — end tags close what is open and start tags carry no text; `matched_tokens`,
  `bare_tokens` — so it is in every document.
-/

namespace EntityModel.Xml

/-! ### The token of a piece -/

/-- The span between two offsets of a document. -/
def spanOf (document : List UInt8) (start stop : Nat) : Span :=
  ⟨Position.atOffset document start, Position.atOffset document stop⟩

/-- The token that a piece of the document is. -/
def tokenOf (document : List UInt8) : Piece → Except ReadFault Token
  | .text bytes => ((readText bytes).mapError .text).map .text
  | .verbatim bytes => .ok (.text (Utf8.decodeLossy bytes))
  | .startTag content stop =>
    ((readHead content (spanOf document (stop - (content.length + 2)) stop)).mapError .tag).map
      .opening
  | .emptyTag content stop =>
    ((readHead content (spanOf document (stop - (content.length + 3)) stop)).mapError .tag).map
      .empty
  | .endTag => .ok .closing
  | .aside => .ok .aside

/-- The tokens of a document, or what is wrong with a piece or with the cut. -/
def tokens (document : List UInt8) : Except ReadFault (List Token) := do
  let (pieces, fault) := cut (withoutMark document)
  let tokens ← pieces.mapM (tokenOf document)
  match fault with
  | some (offset, fault) => .error (.markup offset fault)
  | none => .ok tokens

section Reading

variable {document : List UInt8} {cursor : Cursor}

theorem exists_spanAt (stands : cursor.Stands document) (start stop : Nat) :
    ∃ there : Cursor, there.Stands document ∧
      spanAt document cursor start stop = (spanOf document start stop, there) := by
  have between := Cursor.stands_moveTo stands start
  refine ⟨_, Cursor.stands_moveTo between stop, ?_⟩
  unfold spanAt spanOf
  dsimp only
  rw [Cursor.moveTo_eq between, Cursor.moveTo_eq stands]

/-- **The cursor gives the token that counting from the start gives**, and stands where it is. -/
theorem readPiece_eq (stands : cursor.Stands document) (piece : Piece) :
    ∃ there : Cursor, there.Stands document ∧
      readPiece document cursor piece = (tokenOf document piece).map fun token => (token, there) := by
  cases piece with
  | text bytes =>
    refine ⟨cursor, stands, ?_⟩
    rw [readPiece, tokenOf]
    cases readText bytes <;> rfl
  | startTag content stop =>
    obtain ⟨there, standing, placed⟩ := exists_spanAt stands (stop - (content.length + 2)) stop
    refine ⟨there, standing, ?_⟩
    rw [readPiece, tokenOf, placed]
    dsimp only
    cases readHead content _ <;> rfl
  | emptyTag content stop =>
    obtain ⟨there, standing, placed⟩ := exists_spanAt stands (stop - (content.length + 3)) stop
    refine ⟨there, standing, ?_⟩
    rw [readPiece, tokenOf, placed]
    dsimp only
    cases readHead content _ <;> rfl
  | verbatim _ | endTag | aside => exact ⟨cursor, stands, rfl⟩

/-- A piece that is read is a step of the assembly. -/
theorem readStep_eq {piece : Piece} {token : Token} {there : Cursor}
    (read : readPiece document cursor piece = .ok (token, there)) (assembly : Assembly) :
    readStep document (assembly, cursor) piece =
      ((assembly.step token).mapError .assembly).map fun extended => (extended, there) := by
  unfold readStep
  dsimp only
  rw [read]
  show ((assembly.step token).mapError ReadFault.assembly >>= fun extended => _) = _
  cases assembly.step token <;> rfl

/-- **Reading pieces is assembling their tokens.** -/
theorem foldlM_readStep {pieces : List Piece} {given : List Token}
    (known : pieces.mapM (tokenOf document) = .ok given) (stands : cursor.Stands document)
    (assembly : Assembly) : ∃ there : Cursor,
      pieces.foldlM (readStep document) (assembly, cursor) =
        ((given.foldlM Assembly.step assembly).mapError .assembly).map fun extended =>
          (extended, there) := by
  induction pieces generalizing given cursor assembly with
  | nil =>
    obtain rfl := Except.ok.inj known
    exact ⟨cursor, rfl⟩
  | cons piece pieces ih =>
    obtain ⟨token, others, here, later, rfl⟩ := mapM_cons_eq_ok.mp known
    obtain ⟨next, standing, read⟩ := readPiece_eq stands piece
    rw [here] at read
    rw [List.foldlM_cons, List.foldlM_cons, readStep_eq read]
    cases assembly.step token with
    | error fault => exact ⟨next, rfl⟩
    | ok extended => exact ih later standing extended

/-- Pieces that are read have tokens that are assembled. -/
theorem exists_tokens_of_foldlM {pieces : List Piece} (stands : cursor.Stands document)
    {assembly extended : Assembly} {there : Cursor}
    (read : pieces.foldlM (readStep document) (assembly, cursor) = .ok (extended, there)) :
    ∃ given, pieces.mapM (tokenOf document) = .ok given ∧
      given.foldlM Assembly.step assembly = .ok extended := by
  induction pieces generalizing cursor assembly with
  | nil =>
    obtain ⟨rfl, _⟩ := Prod.mk.inj (Except.ok.inj read)
    exact ⟨[], rfl, rfl⟩
  | cons piece pieces ih =>
    obtain ⟨⟨after, further⟩, stepped, read⟩ := foldlM_cons_eq_ok.mp read
    obtain ⟨⟨token, next⟩, known, _⟩ := bind_eq_ok.mp stepped
    rw [readStep_eq known] at stepped
    obtain ⟨_, step, same⟩ := map_eq_ok.mp stepped
    obtain ⟨rfl, rfl⟩ := Prod.mk.inj same
    obtain ⟨_, standing, given⟩ := readPiece_eq stands piece
    obtain ⟨first, here, same⟩ := map_eq_ok.mp (given.symm.trans known)
    obtain ⟨rfl, rfl⟩ := Prod.mk.inj same
    obtain ⟨others, later, assembled⟩ := ih standing read
    refine ⟨first :: others, mapM_cons_eq_ok.mpr ⟨first, others, here, later, rfl⟩, ?_⟩
    rw [List.foldlM_cons, mapError_eq_ok.mp step]
    exact assembled

end Reading

/-- All tokens are there when every piece is understood and the cut comes to the end. -/
theorem tokens_eq_ok {document : List UInt8} {given : List Token} : tokens document = .ok given ↔
    (cut (withoutMark document)).1.mapM (tokenOf document) = .ok given ∧
      (cut (withoutMark document)).2 = none := by
  unfold tokens
  generalize cut (withoutMark document) = parts
  rcases parts with ⟨pieces, fault⟩
  constructor
  · intro known
    obtain ⟨_, found, ends⟩ := bind_eq_ok.mp known
    cases fault with
    | some fault => exact nomatch ends
    | none => exact ⟨Except.ok.inj ends ▸ found, rfl⟩
  · rintro ⟨found, rfl⟩
    exact bind_eq_ok.mpr ⟨given, found, rfl⟩

/-- **A document whose tokens are all understood is read as they are assembled.** -/
theorem read_of_tokens {document : List UInt8} {given : List Token}
    (known : tokens document = .ok given) :
    read document = (assemble given).mapError .assembly := by
  obtain ⟨found, ends⟩ := tokens_eq_ok.mp known
  obtain ⟨there, folded⟩ := foldlM_readStep found (Cursor.stands_origin document) Assembly.start
  unfold read
  dsimp only
  rw [folded, ends, assemble]
  cases List.foldlM Assembly.step Assembly.start given <;> rfl

/-- **Only a document whose tokens are all understood is read.** -/
theorem exists_tokens_of_read {document : List UInt8} {element : Element}
    (known : read document = .ok element) :
    ∃ given, tokens document = .ok given ∧ assemble given = .ok element := by
  simp only [tokens_eq_ok]
  unfold read at known
  generalize cut (withoutMark document) = parts at known ⊢
  rcases parts with ⟨pieces, fault⟩
  obtain ⟨⟨assembly, there⟩, folded, ends⟩ := bind_eq_ok.mp known
  cases fault with
  | some fault => exact nomatch ends
  | none =>
    obtain ⟨given, found, assembled⟩ :=
      exists_tokens_of_foldlM (Cursor.stands_origin document) folded
    exact ⟨given, ⟨found, rfl⟩, bind_eq_ok.mpr ⟨assembly, assembled, mapError_eq_ok.mp ends⟩⟩

/-! ### What all sequences of tokens have in common -/

/-- The head of a tag that begins an element. -/
def Token.head? : Token → Option Head
  | .opening head | .empty head => some head
  | .closing | .text _ | .aside => none

/-- No tag that begins an element carries a text. -/
def Bare (given : List Token) : Prop :=
  ∀ token ∈ given, ∀ head ∈ token.head?, head.text = none

/-- With so many elements open before, no end tag stands where none is open. -/
def Matched : Nat → List Token → Prop
  | _, [] => True
  | depth, .opening _ :: rest => Matched (depth + 1) rest
  | 0, .closing :: _ => False
  | depth + 1, .closing :: rest => Matched depth rest
  | depth, .empty _ :: rest | depth, .text _ :: rest | depth, .aside :: rest => Matched depth rest

/-- A head that is read has no text yet, and the place it was given. -/
theorem bare_of_readHead {content : List UInt8} {span : Span} {head : Head}
    (read : readHead content span = .ok head) : head.text = none ∧ head.span = some span := by
  unfold readHead at read
  dsimp only at read
  obtain ⟨_, _, read⟩ := bind_eq_ok.mp read
  split at read
  all_goals
    obtain ⟨_, _, read⟩ := bind_eq_ok.mp read
    obtain ⟨_, _, read⟩ := bind_eq_ok.mp read
    obtain rfl := Except.ok.inj read
    exact ⟨rfl, rfl⟩

theorem bare_of_tokenOf {document : List UInt8} {piece : Piece} {token : Token}
    (known : tokenOf document piece = .ok token) : ∀ head ∈ token.head?, head.text = none := by
  cases piece with
  | startTag content stop | emptyTag content stop =>
    obtain ⟨head, read, rfl⟩ := map_eq_ok.mp known
    intro other same
    obtain rfl := Option.some.inj same
    exact (bare_of_readHead (mapError_eq_ok.mp read)).1
  | text bytes =>
    obtain ⟨_, _, rfl⟩ := map_eq_ok.mp known
    exact fun _ none => nomatch none
  | verbatim _ | endTag | aside =>
    obtain rfl := Except.ok.inj known
    exact fun _ none => nomatch none

theorem bare_of_mapM {document : List UInt8} {pieces : List Piece} {given : List Token}
    (known : pieces.mapM (tokenOf document) = .ok given) : Bare given := by
  induction pieces generalizing given with
  | nil =>
    obtain rfl := Except.ok.inj known
    exact fun _ member => absurd member List.not_mem_nil
  | cons piece pieces ih =>
    obtain ⟨token, others, here, later, rfl⟩ := mapM_cons_eq_ok.mp known
    exact List.forall_mem_cons.mpr ⟨bare_of_tokenOf here, ih later⟩

/-- A piece changes the number of open elements as its token says. -/
theorem matched_of_opens {document : List UInt8} {names namesAfter : List (List UInt8)}
    {piece : Piece} {token : Token} {others : List Token} (opens : Opens names piece namesAfter)
    (known : tokenOf document piece = .ok token) (later : Matched namesAfter.length others) :
    Matched names.length (token :: others) := by
  cases opens with
  | startTag _ | emptyTag _ | text =>
    obtain ⟨_, _, rfl⟩ := map_eq_ok.mp known
    exact later
  | endTag _ | verbatim | aside =>
    obtain rfl := Except.ok.inj known
    exact later

theorem matched_cutFrom {document : List UInt8} {lexer : Lexer} : ∀ {given : List Token},
    (cutFrom lexer).1.mapM (tokenOf document) = .ok given →
      Matched lexer.openNames.length given := by
  fun_induction cutFrom lexer with
  | case1 | case2 =>
    intro given known
    obtain rfl := Except.ok.inj known
    trivial
  | case3 lexer piece after found others =>
    rename_i ih
    intro given known
    obtain ⟨token, later, here, rest, rfl⟩ := mapM_cons_eq_ok.mp known
    exact matched_of_opens (opens_of_next? found) here (ih rest)

section Document

variable {document : List UInt8} {given : List Token} (known : tokens document = .ok given)

include known

/-- **Start tags carry no text**: what is between the tags does. -/
theorem bare_tokens : Bare given :=
  bare_of_mapM (tokens_eq_ok.mp known).1

/-- **Every end tag closes an element that is open.** -/
theorem matched_tokens : Matched 0 given :=
  matched_cutFrom (tokens_eq_ok.mp known).1

end Document

end EntityModel.Xml
