import EntityModel.Proofs.Xml.Tags
import EntityModel.Xml.Reader

/-
**Reading on from the middle of a document.**

Reading takes all pieces of a document and then all tokens; a proof about a part of a document needs
both from one place to another.

* `readFrom` — the rest of a document from a state of the cut and of the assembly on;
  `read_eq_readFrom` — a document is read from its front.
* `readFrom_next` — one piece, one step of the assembly, and reading on behind it.
* `next?_markup`, `next?_text` — the piece that markup behind blanks is, and a run of text.
* `readFrom_start`, `readFrom_empty`, `readFrom_end`, `readFrom_text` — **the steps through an
  element as written**: its tags and its text, with whatever stands behind them.
-/

namespace EntityModel.Xml

open EntityModel.Text

/-- The rest of a document, read from a state of the cut and of the assembly on. -/
def readFrom (document : List UInt8) (lexer : Lexer) (state : Assembly × Cursor) :
    Except ReadFault Element := do
  let (pieces, fault) := cutFrom lexer
  let (assembly, _) ← pieces.foldlM (readStep document) state
  match fault with
  | some (offset, fault) => .error (.markup offset fault)
  | none => assembly.finish.mapError .assembly

theorem read_eq_readFrom (document : List UInt8) :
    read document =
      readFrom document ⟨0, [], withoutMark document⟩ (Assembly.start, Cursor.origin) :=
  rfl

/-! ### One piece -/

theorem cutFrom_next {lexer after : Lexer} {piece : Piece}
    (found : next? lexer = some (.ok (piece, after))) :
    cutFrom lexer = (piece :: (cutFrom after).1, (cutFrom after).2) := by
  rw [cutFrom]
  split <;> rename_i found' <;> rw [found] at found' <;> cases found'
  rfl

/-- What follows depends on the next piece alone. -/
theorem cutFrom_congr {lexer other : Lexer} (same : next? lexer = next? other) :
    cutFrom lexer = cutFrom other := by
  rw [cutFrom, cutFrom]
  split <;> rename_i found <;> split <;> rename_i found' <;> rw [← same, found] at found' <;>
    cases found' <;> rfl

/-- **One piece is one token and one step**, and reading goes on behind it. -/
theorem readFrom_next {document : List UInt8} {lexer after : Lexer} {piece : Piece}
    {cursor there : Cursor} {token : Token} {assembly extended : Assembly}
    (found : next? lexer = some (.ok (piece, after)))
    (known : readPiece document cursor piece = .ok (token, there))
    (step : assembly.step token = .ok extended) :
    readFrom document lexer (assembly, cursor) = readFrom document after (extended, there) := by
  have stepped : readStep document (assembly, cursor) piece = .ok (extended, there) := by
    rw [readStep, known]
    show (do
      let assembly ← (assembly.step token).mapError ReadFault.assembly
      Except.ok (assembly, there)) = _
    rw [step]
    rfl
  unfold readFrom
  rw [cutFrom_next found]
  dsimp only
  rw [List.foldlM_cons, stepped]
  rfl

/-- Behind the last piece the root is there. -/
theorem readFrom_finished (document : List UInt8) {lexer : Lexer} (found : next? lexer = none)
    (state : Assembly × Cursor) :
    readFrom document lexer state = state.1.finish.mapError .assembly := by
  have cut : cutFrom lexer = ([], none) := by
    rw [cutFrom]
    split <;> rename_i found' <;> rw [found] at found' <;> cases found'
  unfold readFrom
  rw [cut]
  rfl

section Pieces

variable {offset : Nat} {openNames names : List (List UInt8)}
  {blanks bytes inside rest : List UInt8}

/-- The piece that markup behind blanks is. -/
theorem next?_markup {form : Form} {piece : Piece} (blank : ∀ byte ∈ blanks, isSpace byte = true)
    (closed : enclosed bytes = .ok (form, inside, rest))
    (known : markupPiece openNames form inside (offset + blanks.length)
      (offset + blanks.length + inside.length + 2) = .ok (piece, names)) :
    next? ⟨offset, openNames, blanks ++ 0x3C :: bytes⟩ =
      some (.ok (piece, ⟨offset + blanks.length + inside.length + 2, names, rest⟩)) := by
  have bracket : isSpace 0x3C = false := by decide
  unfold next?
  simp only [List.takeWhile_append_of_pos blank, List.dropWhile_append_of_pos blank,
    List.takeWhile_cons, List.dropWhile_cons, bracket, Bool.false_eq_true, if_false,
    List.append_nil, closed, known]
  rfl

theorem next?_tag {piece : Piece} (blank : ∀ byte ∈ blanks, isSpace byte = true)
    (closed : enclosed bytes = .ok (.tag, inside, rest))
    (known : tagPiece openNames inside (offset + blanks.length + inside.length + 2) =
      .ok (piece, names)) :
    next? ⟨offset, openNames, blanks ++ 0x3C :: bytes⟩ =
      some (.ok (piece, ⟨offset + blanks.length + inside.length + 2, names, rest⟩)) :=
  next?_markup blank closed (by rw [markupPiece, known]; rfl)

/-- Blanks before a piece are passed over. -/
theorem next?_blanks (blank : ∀ byte ∈ blanks, isSpace byte = true) :
    next? ⟨offset, openNames, blanks ++ rest⟩ =
      next? ⟨offset + blanks.length, openNames, rest⟩ := by
  unfold next?
  simp only [List.takeWhile_append_of_pos blank, List.dropWhile_append_of_pos blank,
    List.length_append, Nat.add_assoc]

/-- A run of text before markup; the blanks behind it do not count. -/
theorem next?_text (run : Run bytes) (blank : ∀ byte ∈ blanks, isSpace byte = true) :
    next? ⟨offset, openNames, bytes ++ (blanks ++ 0x3C :: rest)⟩ =
      some (.ok (.text bytes,
        ⟨offset + (bytes ++ blanks).length, openNames, 0x3C :: rest⟩)) := by
  obtain ⟨first, others, shape, noBlank⟩ := run.begins
  have unbroken := run.unbroken
  have ends := run.ends
  subst shape
  rw [List.mem_cons, not_or] at unbroken
  have inRun : ∀ byte ∈ others ++ blanks, (byte != 0x3C) = true := by
    intro byte member
    refine bne_iff_ne.mpr fun same => ?_
    rcases List.mem_append.mp member with inside | behind
    · exact unbroken.2 (same ▸ inside)
    · exact absurd (blank byte behind) (by rw [same]; decide)
  have trimmedRun : dropTrailing isSpace (first :: (others ++ blanks)) = first :: others :=
    (@dropTrailing_append _ _ (first :: others) _ blank).trans ends
  unfold next?
  simp only [List.cons_append, List.takeWhile_cons, List.dropWhile_cons, noBlank,
    Bool.false_eq_true, if_false]
  split
  · rename_i nothing
    exact absurd nothing (List.cons_ne_nil _ _)
  · rename_i same
    exact absurd (List.cons.inj same).1.symm unbroken.1
  · rename_i byte behind _ same
    obtain ⟨rfl, rfl⟩ := List.cons.inj same
    have stop : (0x3C != (0x3C : UInt8)) = false := by decide
    rw [← List.append_assoc]
    simp only [List.takeWhile_append_of_pos inRun, List.dropWhile_append_of_pos inRun,
      List.takeWhile_cons, List.dropWhile_cons, stop, Bool.false_eq_true, if_false,
      List.append_nil, trimmedRun, List.length_nil, Nat.add_zero]

end Pieces

/-! ### The parts of an element -/

section Parts

variable {document blanks : List UInt8} {head : Head} (legible : Legible head)
  (blank : ∀ byte ∈ blanks, isSpace byte = true) (offset : Nat) (openNames : List (List UInt8))
  (cursor : Cursor) (rest : List UInt8)

include legible

theorem readPiece_start (stop : Nat) : ∃ (span : Span) (there : Cursor),
    readPiece document cursor (.startTag (tagContent head) stop) =
      .ok (.opening { head with text := none, span := some span }, there) := by
  rcases placed : spanAt document cursor (stop - ((tagContent head).length + 2)) stop with
    ⟨span, there⟩
  refine ⟨span, there, ?_⟩
  rw [readPiece, placed]
  dsimp only
  rw [readHead_tagContent legible]
  rfl

theorem readPiece_empty (stop : Nat) : ∃ (span : Span) (there : Cursor),
    readPiece document cursor (.emptyTag (tagContent head) stop) =
      .ok (.empty { head with text := none, span := some span }, there) := by
  rcases placed : spanAt document cursor (stop - ((tagContent head).length + 3)) stop with
    ⟨span, there⟩
  refine ⟨span, there, ?_⟩
  rw [readPiece, placed]
  dsimp only
  rw [readHead_tagContent legible]
  rfl

include blank

/-- A start tag opens its head. -/
theorem readFrom_start (closed : Closed (tagContent head))
    (full : (tagContent head).getLast? ≠ some 0x2F) :
    ∃ (place : Nat) (span : Span) (there : Cursor), ∀ assembly : Assembly,
      readFrom document ⟨offset, openNames, blanks ++ 0x3C :: (tagContent head ++ 0x3E :: rest)⟩
          (assembly, cursor) =
        readFrom document ⟨place, Utf8.encode head.qualifiedTag :: openNames, rest⟩
          (⟨({ head with text := none, span := some span }, []) :: assembly.stack,
            assembly.root⟩, there) := by
  have found := @next?_tag offset _ _ _ _ _ _ _ blank (enclosed_start legible closed rest)
    (tagPiece_start legible full openNames _)
  obtain ⟨span, there, known⟩ := readPiece_start legible cursor _
  exact ⟨_, span, there, fun assembly => readFrom_next found known rfl⟩

/-- The tag of a head without content adds an element. -/
theorem readFrom_empty (closed : Closed (tagContent head)) (nonempty : tagContent head ≠ []) :
    ∃ (place : Nat) (span : Span) (there : Cursor), ∀ assembly extended : Assembly,
      assembly.add (.node { head with text := none, span := some span } []) = .ok extended →
        readFrom document
            ⟨offset, openNames, blanks ++ 0x3C :: (tagContent head ++ 0x2F :: 0x3E :: rest)⟩
            (assembly, cursor) =
          readFrom document ⟨place, openNames, rest⟩ (extended, there) := by
  have found := @next?_tag offset _ _ _ _ _ _ _ blank (enclosed_empty legible closed rest)
    (tagPiece_empty legible nonempty openNames _)
  obtain ⟨span, there, known⟩ := readPiece_empty legible cursor _
  exact ⟨_, span, there, fun assembly extended added => readFrom_next found known added⟩

/-- An end tag adds the element that it closes. -/
theorem readFrom_end (closed : Closed (Utf8.encode head.qualifiedTag)) : ∃ place : Nat,
    ∀ (opened : Head) (children : List Element) (outer : List (Head × List Element))
      (root : Option Element) (extended : Assembly),
    Assembly.add ⟨outer, root⟩ (.node opened children) = .ok extended →
      readFrom document ⟨offset, Utf8.encode head.qualifiedTag :: openNames,
          blanks ++ 0x3C :: 0x2F :: (Utf8.encode head.qualifiedTag ++ 0x3E :: rest)⟩
          (⟨(opened, children) :: outer, root⟩, cursor) =
        readFrom document ⟨place, openNames, rest⟩ (extended, cursor) := by
  have found := @next?_tag offset _ _ _ _ _ _ _ blank (enclosed_end closed rest)
    (tagPiece_end legible openNames _)
  exact ⟨_, fun _ _ _ _ _ added => readFrom_next found rfl added⟩

omit legible in
/-- Blanks are passed over. -/
theorem readFrom_blanks (state : Assembly × Cursor) :
    readFrom document ⟨offset, openNames, blanks ++ rest⟩ state =
      readFrom document ⟨offset + blanks.length, openNames, rest⟩ state := by
  unfold readFrom
  rw [cutFrom_congr (next?_blanks blank)]

omit legible blank

/-- What is left of a text without the blanks around it goes to the innermost open head. -/
theorem readFrom_text {text : Option String}
    (begins : text.isSome = true → ∃ markup, rest = 0x3C :: markup) : ∃ place : Nat,
    ∀ (opened : Head) (children : List Element) (outer : List (Head × List Element))
      (root : Option Element), opened.text = none →
      readFrom document ⟨offset, openNames, Utf8.encode (escape (text.getD "")) ++ rest⟩
          (⟨(opened, children) :: outer, root⟩, cursor) =
        readFrom document ⟨place, openNames, rest⟩
          (⟨({ opened with text := text.bind trimmed }, children) :: outer, root⟩, cursor) := by
  have kept : ∀ opened : Head, opened.text = none → { opened with text := none } = opened := by
    intro opened bare
    rw [← bare]
  cases text with
  | none =>
    refine ⟨offset, fun opened children outer root bare => ?_⟩
    rw [Option.bind_none, kept opened bare]
    rfl
  | some written =>
    obtain ⟨markup, rfl⟩ := begins rfl
    rw [Option.getD_some, Option.bind_some]
    cases left : trimmed written with
    | none =>
      have blank := isSpace_of_trimmed_eq_none left
      refine ⟨offset + (Utf8.encode (escape written)).length,
        fun opened children outer root bare => ?_⟩
      rw [readFrom_blanks blank, kept opened bare]
    | some core =>
      obtain ⟨front, back, whole, blankFront, blankBack⟩ := exists_run left
      have known : readPiece document cursor (.text (Utf8.encode (escape core))) =
          .ok (.text core, cursor) := by
        rw [readPiece, readText_escape]
        rfl
      refine ⟨offset + front.length + (Utf8.encode (escape core) ++ back).length,
        fun opened children outer root bare => ?_⟩
      rw [whole, List.append_assoc, List.append_assoc, readFrom_blanks blankFront]
      refine readFrom_next (next?_text (run_escape (tight_of_trimmed left)) blankBack) known ?_
      show Except.ok (Assembly.mk ((opened.appendText core, children) :: outer) root) = _
      rw [Head.appendText, bare, Option.getD_none, String.empty_append]

end Parts

end EntityModel.Xml
