import EntityModel.Proofs.Xml.Tokens

/-
**Balanced tokens, and the tree they spell.**

The assembly goes through a flat sequence with a stack of open elements. What it accepts and what it
makes of it can be said without a stack: the tags are one balanced element, and the tree is that of
the element.

* `Balanced`, `OneElement` — sequences of tags: elements one after the other, and one element.
* `Inside`, `Spells`, `SpellsDocument` — the texts and the children that tokens give between two tags,
  the element that they spell, and the element of a document with what stands around it.
* `Reaches` — what the tokens so far have to do with the state of the assembly; `Reaches.step` — a
  token more; `Reaches.foldlM` — so after every sequence.
* `Inside.foldlM`, `SpellsDocument.foldlM` — the way back: what is spelled is assembled.
* `OneTree` — which of the four outcomes a sequence has, each with its exact condition;
  `oneTree_of_tokens` — **a document whose tokens are understood is read just when its tags are one
  balanced element**, and the tree is the one they spell.
-/

namespace EntityModel.Xml

/-! ### Sequences of tags -/

/-- The token begins or ends an element. -/
def Token.isTag : Token → Bool
  | .opening _ | .closing | .empty _ => true
  | .text _ | .aside => false

/-- The tags among the tokens. -/
def tagsOf (given : List Token) : List Token :=
  given.filter Token.isTag

/-- Elements one after the other, each with balanced tags. -/
inductive Balanced : List Token → Prop where
  | nil : Balanced []
  | empty (head : Head) {rest : List Token} (behind : Balanced rest) :
      Balanced (.empty head :: rest)
  | nested (head : Head) {inside rest : List Token} (within : Balanced inside)
      (behind : Balanced rest) : Balanced (.opening head :: (inside ++ .closing :: rest))

/-- Exactly one element with balanced tags. -/
inductive OneElement : List Token → Prop where
  | empty (head : Head) : OneElement [.empty head]
  | nested (head : Head) {inside : List Token} (within : Balanced inside) :
      OneElement (.opening head :: (inside ++ [.closing]))

/-- The tags begin with one element and, behind it, another. -/
def TwoElements (tags : List Token) : Prop :=
  ∃ first second rest, OneElement first ∧ OneElement second ∧ tags = first ++ second ++ rest

/-- Behind the start tag of an element with this name, all that is opened is closed. -/
def LeftOpen (tags : List Token) (name : String) : Prop :=
  ∃ front head inside, tags = front ++ .opening head :: inside ∧ Balanced inside ∧
    head.qualifiedTag = name

/-! ### What tokens spell -/

end EntityModel.Xml

namespace EntityModel

/-- The head with texts one after the other as its own; without any it has none. -/
def Head.withTexts (head : Head) (texts : List String) : Head :=
  { head with text := if texts = [] then none else some (String.join texts) }

theorem Head.appendText_withTexts (head : Head) (texts : List String) (text : String) :
    (head.withTexts texts).appendText text = head.withTexts (texts ++ [text]) := by
  have joined : String.join (texts ++ [text]) = String.join texts ++ text := by
    rw [String.join, List.foldl_append]
    rfl
  unfold withTexts appendText
  rw [if_neg (List.append_ne_nil_of_right_ne_nil _ (List.cons_ne_nil _ _)), joined]
  by_cases none : texts = []
  · rw [if_pos none, none]
    rfl
  · rw [if_neg none]
    rfl

/-- Texts that are appended one by one are the texts. -/
theorem Head.foldl_appendText {head : Head} (bare : head.text = none) (texts : List String) :
    texts.foldl appendText head = head.withTexts texts := by
  induction texts using List.reverseRecOn with
  | nil =>
    show head = { head with text := none }
    rw [← bare]
  | append_singleton texts text ih =>
    rw [List.foldl_append, List.foldl_cons, List.foldl_nil, ih, appendText_withTexts]

end EntityModel

namespace EntityModel.Xml

/-- Between the tags of an element, the tokens give these texts and these children. -/
inductive Inside : List Token → List String → List Element → Prop where
  | nil : Inside [] [] []
  | text (text : String) {rest : List Token} {texts : List String} {children : List Element}
      (behind : Inside rest texts children) : Inside (.text text :: rest) (text :: texts) children
  | aside {rest : List Token} {texts : List String} {children : List Element}
      (behind : Inside rest texts children) : Inside (.aside :: rest) texts children
  | empty (head : Head) {rest : List Token} {texts : List String} {children : List Element}
      (behind : Inside rest texts children) :
      Inside (.empty head :: rest) texts (.node head [] :: children)
  | nested (head : Head) {inside rest : List Token} {own texts : List String}
      {below children : List Element} (within : Inside inside own below)
      (behind : Inside rest texts children) :
      Inside (.opening head :: (inside ++ .closing :: rest)) texts
        (.node (head.withTexts own) below :: children)

/-- The tokens are those of the element, from its first tag to its last. -/
inductive Spells : List Token → Element → Prop where
  | empty (head : Head) : Spells [.empty head] (.node head [])
  | nested (head : Head) {inside : List Token} {texts : List String} {children : List Element}
      (within : Inside inside texts children) :
      Spells (.opening head :: (inside ++ [.closing])) (.node (head.withTexts texts) children)

/-- The tokens are those of the element, with no tag before it and none behind it. -/
def SpellsDocument (given : List Token) (element : Element) : Prop :=
  ∃ before own behind, given = before ++ own ++ behind ∧ tagsOf before = [] ∧
    Spells own element ∧ tagsOf behind = []

theorem Inside.append {front back : List Token} {texts others : List String}
    {children siblings : List Element} (first : Inside front texts children)
    (second : Inside back others siblings) :
    Inside (front ++ back) (texts ++ others) (children ++ siblings) := by
  induction first with
  | nil => exact second
  | text text _ ih => exact .text text ih
  | aside _ ih => exact .aside ih
  | empty head _ ih => exact .empty head ih
  | nested head within _ _ ih =>
    rw [List.cons_append, List.append_assoc]
    exact .nested head within ih

theorem Spells.inside {given : List Token} {element : Element} (spells : Spells given element) :
    Inside given [] [element] := by
  cases spells with
  | empty head => exact .empty head .nil
  | nested head within => exact .nested head within .nil

/-! ### Tags of what is spelled -/

theorem tagsOf_append (front back : List Token) :
    tagsOf (front ++ back) = tagsOf front ++ tagsOf back :=
  List.filter_append front back

theorem Inside.balanced {given : List Token} {texts : List String} {children : List Element}
    (inside : Inside given texts children) : Balanced (tagsOf given) := by
  induction inside with
  | nil => exact .nil
  | text _ _ ih | aside _ ih => exact ih
  | empty head _ ih => exact .empty head ih
  | nested head _ _ within behind =>
    show Balanced (.opening head :: tagsOf (_ ++ .closing :: _))
    rw [tagsOf_append]
    exact .nested head within behind

theorem Spells.oneElement {given : List Token} {element : Element}
    (spells : Spells given element) : OneElement (tagsOf given) := by
  cases spells with
  | empty head => exact .empty head
  | nested head within =>
    show OneElement (.opening head :: tagsOf (_ ++ [.closing]))
    rw [tagsOf_append]
    exact .nested head within.balanced

theorem SpellsDocument.oneElement {given : List Token} {element : Element}
    (spells : SpellsDocument given element) : OneElement (tagsOf given) := by
  obtain ⟨before, own, behind, rfl, front, spelled, back⟩ := spells
  rw [tagsOf_append, tagsOf_append, front, back, List.nil_append, List.append_nil]
  exact spelled.oneElement

/-- Tokens without tags give texts alone. -/
theorem exists_texts {given : List Token} (none : tagsOf given = []) :
    ∃ texts, Inside given texts [] := by
  induction given with
  | nil => exact ⟨[], .nil⟩
  | cons token rest ih =>
    cases token with
    | opening _ | closing | empty _ => exact nomatch none
    | text text =>
      obtain ⟨texts, inside⟩ := ih none
      exact ⟨text :: texts, .text text inside⟩
    | aside =>
      obtain ⟨texts, inside⟩ := ih none
      exact ⟨texts, .aside inside⟩

/-- The place of the first tag among the tokens. -/
theorem tagsOf_eq_cons {given : List Token} {tag : Token} {tags : List Token}
    (same : tagsOf given = tag :: tags) : ∃ front back, given = front ++ tag :: back ∧
      tagsOf front = [] ∧ tagsOf back = tags := by
  obtain ⟨front, back, rfl, none, _, rest⟩ := List.filter_eq_cons_iff.mp same
  exact ⟨front, back, rfl, List.filter_eq_nil_iff.mpr none, rest⟩

theorem tagsOf_eq_append {given front back : List Token} (same : tagsOf given = front ++ back) :
    ∃ before behind, given = before ++ behind ∧ tagsOf before = front ∧ tagsOf behind = back :=
  List.filter_eq_append_iff.mp same

/-- The places of a start tag and of the end tag behind balanced others. -/
theorem tagsOf_eq_nested {given inside rest : List Token} {head : Head}
    (same : tagsOf given = .opening head :: (inside ++ .closing :: rest)) :
    ∃ front inner back, given = front ++ .opening head :: (inner ++ .closing :: back) ∧
      tagsOf front = [] ∧ tagsOf inner = inside ∧ tagsOf back = rest := by
  obtain ⟨front, others, rfl, none, behind⟩ := tagsOf_eq_cons same
  obtain ⟨inner, outer, rfl, within, behind⟩ := tagsOf_eq_append behind
  obtain ⟨last, back, rfl, noTag, behind⟩ := tagsOf_eq_cons behind
  refine ⟨front, inner ++ last, back, ?_, none, ?_, behind⟩
  · rw [List.append_assoc]
  · rw [tagsOf_append, noTag, List.append_nil, within]

/-- **Tokens with balanced tags give texts and children.** -/
theorem exists_inside {tags : List Token} (balanced : Balanced tags) :
    ∀ {given : List Token}, tagsOf given = tags → ∃ texts children, Inside given texts children := by
  induction balanced with
  | nil =>
    intro given none
    obtain ⟨texts, inside⟩ := exists_texts none
    exact ⟨texts, [], inside⟩
  | empty head _ ih =>
    intro given same
    obtain ⟨front, back, rfl, none, rest⟩ := tagsOf_eq_cons same
    obtain ⟨texts, before⟩ := exists_texts none
    obtain ⟨others, children, behind⟩ := ih rest
    exact ⟨_, _, before.append (.empty head behind)⟩
  | nested head _ _ within behind =>
    intro given same
    obtain ⟨front, inner, back, rfl, none, inside, rest⟩ := tagsOf_eq_nested same
    obtain ⟨texts, before⟩ := exists_texts none
    obtain ⟨own, below, here⟩ := within inside
    obtain ⟨others, children, there⟩ := behind rest
    exact ⟨_, _, before.append (.nested head here there)⟩

/-- **Tokens whose tags are one element spell an element.** -/
theorem exists_spells {given : List Token} (one : OneElement (tagsOf given)) :
    ∃ element, SpellsDocument given element := by
  generalize same : tagsOf given = tags at one
  cases one with
  | empty head =>
    obtain ⟨front, back, rfl, none, rest⟩ := tagsOf_eq_cons same
    refine ⟨_, front, [.empty head], back, ?_, none, .empty head, rest⟩
    rw [List.append_assoc]
    rfl
  | @nested head _ within =>
    obtain ⟨front, inner, back, rfl, none, inside, rest⟩ := tagsOf_eq_nested same
    obtain ⟨texts, children, here⟩ := exists_inside within inside
    refine ⟨_, front, .opening head :: (inner ++ [.closing]), back, ?_, none, .nested head here,
      rest⟩
    simp only [List.append_assoc, List.cons_append, List.nil_append]

/-! ### From the assembly to what is spelled -/

/-- What the tokens so far have to do with the state they lead to: nothing is begun, or one element is
done, or the innermost open element has its tag among them and its content behind it. -/
inductive Reaches : List Token → Assembly → Prop where
  | outside {given : List Token} (tagless : tagsOf given = []) : Reaches given ⟨[], none⟩
  | done {given : List Token} {element : Element} (spells : SpellsDocument given element) :
      Reaches given ⟨[], some element⟩
  | within {given inside : List Token} {stack : List (Head × List Element)}
      {root : Option Element} (head : Head) {texts : List String} {children : List Element}
      (earlier : Reaches given ⟨stack, root⟩) (content : Inside inside texts children) :
      Reaches (given ++ .opening head :: inside) ⟨(head.withTexts texts, children) :: stack, root⟩

theorem reaches_start : Reaches [] Assembly.start :=
  .outside rfl

/-- Outside of all elements, what is no tag changes nothing. -/
theorem step_outside {token : Token} (plain : token.isTag = false) (root : Option Element) :
    Assembly.step ⟨[], root⟩ token = .ok ⟨[], root⟩ := by
  cases token with
  | opening _ | closing | empty _ => exact nomatch plain
  | text _ | aside => rfl

section Steps

variable {earlier given : List Token} {assembly extended : Assembly} {token : Token}

/-- An element more goes where it belongs. -/
theorem Reaches.add (reaches : Reaches earlier assembly) {own : List Token} {element : Element}
    (spells : Spells own element) (added : assembly.add element = .ok extended) :
    Reaches (earlier ++ own) extended := by
  cases reaches with
  | outside tagless =>
    obtain rfl := Except.ok.inj added
    exact .done ⟨earlier, own, [], (List.append_nil _).symm, tagless, spells, rfl⟩
  | done _ => exact nomatch added
  | within head earlier content =>
    obtain rfl := Except.ok.inj added
    rw [List.append_assoc, List.cons_append]
    have larger := content.append spells.inside
    rw [List.append_nil] at larger
    exact .within head earlier larger

/-- What is no tag changes the text of the innermost open element at most. -/
theorem Reaches.plain (reaches : Reaches earlier assembly) (plain : token.isTag = false)
    (step : assembly.step token = .ok extended) : Reaches (earlier ++ [token]) extended := by
  have tagless : tagsOf [token] = [] := List.filter_eq_nil_iff.mpr fun other member => by
    rw [List.mem_singleton.mp member, plain]
    exact Bool.false_ne_true
  cases reaches with
  | outside before =>
    obtain rfl := Except.ok.inj ((step_outside plain none).symm.trans step)
    exact .outside (by rw [tagsOf_append, before, tagless]; rfl)
  | @done _ root spells =>
    obtain rfl := Except.ok.inj ((step_outside plain (some root)).symm.trans step)
    obtain ⟨before, own, behind, rfl, front, spelled, back⟩ := spells
    refine .done ⟨before, own, behind ++ [token], List.append_assoc _ _ _, front, spelled, ?_⟩
    rw [tagsOf_append, back, tagless]
    rfl
  | within head earlier content =>
    rw [List.append_assoc, List.cons_append]
    cases token with
    | opening _ | closing | empty _ => exact nomatch plain
    | text text =>
      obtain rfl := Except.ok.inj step
      have larger := content.append (.text text .nil)
      rw [List.append_nil] at larger
      rw [Head.appendText_withTexts]
      exact .within head earlier larger
    | aside =>
      obtain rfl := Except.ok.inj step
      have larger := content.append (.aside .nil)
      rw [List.append_nil, List.append_nil] at larger
      exact .within head earlier larger

/-- **One token more.** -/
theorem Reaches.step (reaches : Reaches earlier assembly)
    (bare : ∀ head ∈ token.head?, head.text = none)
    (step : assembly.step token = .ok extended) : Reaches (earlier ++ [token]) extended := by
  cases token with
  | opening head =>
    obtain rfl := Except.ok.inj step
    have opened := Reaches.within head reaches Inside.nil
    rwa [← Head.foldl_appendText (bare head rfl), List.foldl_nil] at opened
  | closing =>
    cases reaches with
    | outside _ | done _ => exact nomatch step
    | within head outer content =>
      have closed := outer.add (.nested head content) step
      rwa [← List.cons_append, ← List.append_assoc] at closed
  | empty head => exact reaches.add (.empty head) step
  | text _ | aside => exact reaches.plain rfl step

/-- **Every sequence of tokens leads to a state that fits it.** -/
theorem Reaches.foldlM (reaches : Reaches earlier assembly) (bare : Bare given)
    (run : given.foldlM Assembly.step assembly = .ok extended) :
    Reaches (earlier ++ given) extended := by
  induction given generalizing earlier assembly with
  | nil =>
    obtain rfl := Except.ok.inj run
    rwa [List.append_nil]
  | cons token rest ih =>
    obtain ⟨here, later⟩ := List.forall_mem_cons.mp bare
    obtain ⟨between, step, run⟩ := foldlM_cons_eq_ok.mp run
    have whole := ih (reaches.step here step) later run
    rwa [List.append_assoc, List.singleton_append] at whole

/-- A second root is reported when it closes. -/
theorem Reaches.two_of_step (reaches : Reaches earlier assembly)
    (step : assembly.step token = .error .secondRoot) : TwoElements (tagsOf (earlier ++ [token])) := by
  have two : ∀ {front own root element}, SpellsDocument front root → Spells own element →
      TwoElements (tagsOf (front ++ own)) := by
    intro front own root element first second
    refine ⟨_, _, [], first.oneElement, second.oneElement, ?_⟩
    rw [tagsOf_append, List.append_nil]
  cases token with
  | opening _ | aside => exact nomatch step
  | text _ =>
    cases reaches <;> exact nomatch step
  | empty head =>
    cases reaches with
    | outside _ | within _ _ _ => exact nomatch step
    | done spells => exact two spells (.empty head)
  | closing =>
    cases reaches with
    | outside _ | done _ => exact nomatch step
    | within head outer content =>
      cases outer with
      | outside _ | within _ _ _ => exact nomatch step
      | done spells =>
        rw [List.append_assoc, List.cons_append]
        exact two spells (.nested head content)

/-- So it is reported for tags that begin with two elements. -/
theorem Reaches.two_of_foldlM (reaches : Reaches earlier assembly) (bare : Bare given)
    (run : given.foldlM Assembly.step assembly = .error .secondRoot) :
    TwoElements (tagsOf (earlier ++ given)) := by
  induction given generalizing earlier assembly with
  | nil => exact nomatch run
  | cons token rest ih =>
    obtain ⟨here, later⟩ := List.forall_mem_cons.mp bare
    rw [List.foldlM_cons] at run
    rw [← List.singleton_append, ← List.append_assoc]
    cases step : assembly.step token with
    | ok between =>
      rw [step] at run
      exact ih (reaches.step here step) later run
    | error fault =>
      rw [step] at run
      obtain rfl := Except.error.inj run
      obtain ⟨first, second, behind, one, other, same⟩ := reaches.two_of_step step
      refine ⟨first, second, behind ++ tagsOf rest, one, other, ?_⟩
      rw [tagsOf_append, same, List.append_assoc]

end Steps

/-- With matched end tags, nothing is closed where nothing is open. -/
theorem foldlM_ne_nothingOpen {given : List Token} : ∀ {depth : Nat} {assembly : Assembly},
    Matched depth given → assembly.stack.length = depth →
      given.foldlM Assembly.step assembly ≠ .error .nothingOpen := by
  induction given with
  | nil => exact fun _ _ run => nomatch run
  | cons token rest ih =>
    have added : ∀ {depth : Nat} {assembly : Assembly} {element : Element},
        Matched depth rest → assembly.stack.length = depth →
          (assembly.add element >>= fun extended => rest.foldlM Assembly.step extended) ≠
            .error .nothingOpen := by
      rintro depth ⟨_ | ⟨⟨head, children⟩, outer⟩, _ | root⟩ element matched deep
      · exact @ih _ ⟨[], some element⟩ matched deep
      · exact fun run => nomatch run
      · exact @ih _ ⟨(head, children ++ [element]) :: outer, none⟩ matched deep
      · exact @ih _ ⟨(head, children ++ [element]) :: outer, some root⟩ matched deep
    intro depth assembly matched deep
    rw [List.foldlM_cons]
    rcases assembly with ⟨stack, root⟩
    cases token with
    | opening head => exact @ih _ ⟨(head, []) :: stack, root⟩ matched (congrArg (· + 1) deep)
    | empty head => exact added matched deep
    | aside => exact ih matched deep
    | text text =>
      cases stack with
      | nil => exact @ih _ ⟨[], root⟩ matched deep
      | cons opened outer => exact @ih _ ⟨_ :: outer, root⟩ matched deep
    | closing =>
      cases stack with
      | nil =>
        obtain rfl : 0 = depth := deep
        exact matched.elim
      | cons opened outer =>
        obtain rfl : outer.length + 1 = depth := deep
        exact @added _ ⟨outer, root⟩ _ matched rfl

/-! ### From what is spelled to the assembly -/

theorem Bare.of_append {front back : List Token} (bare : Bare (front ++ back)) :
    Bare front ∧ Bare back :=
  List.forall_mem_append.mp bare

theorem foldlM_opening (head : Head) (rest : List Token) (assembly : Assembly) :
    (Token.opening head :: rest).foldlM Assembly.step assembly =
      rest.foldlM Assembly.step ⟨(head, []) :: assembly.stack, assembly.root⟩ :=
  rfl

/-- **What stands between two tags is added to the open element.** -/
theorem Inside.foldlM {given : List Token} {texts : List String} {children : List Element}
    (inside : Inside given texts children) : Bare given →
    ∀ (head : Head) (found : List Element) (outer : List (Head × List Element))
      (root : Option Element),
      given.foldlM Assembly.step ⟨(head, found) :: outer, root⟩ =
        .ok ⟨(texts.foldl Head.appendText head, found ++ children) :: outer, root⟩ := by
  induction inside with
  | nil =>
    intro _ head found outer root
    rw [List.append_nil]
    rfl
  | text text _ ih =>
    intro bare head found outer root
    exact ih (List.forall_mem_cons.mp bare).2 _ found outer root
  | aside _ ih =>
    intro bare head found outer root
    exact ih (List.forall_mem_cons.mp bare).2 head found outer root
  | empty other _ ih =>
    intro bare head found outer root
    have added := ih (List.forall_mem_cons.mp bare).2 head (found ++ [.node other []]) outer root
    rwa [List.append_assoc] at added
  | @nested other inside rest own texts below children _ _ within behind =>
    intro bare head found outer root
    obtain ⟨here, bare⟩ := List.forall_mem_cons.mp bare
    obtain ⟨inner, later⟩ := Bare.of_append bare
    have closed := behind (List.forall_mem_cons.mp later).2 head
      (found ++ [.node (other.withTexts own) below]) outer root
    rw [List.append_assoc] at closed
    rw [foldlM_opening, List.foldlM_append, within inner, Head.foldl_appendText (here other rfl)]
    exact closed

theorem Spells.foldlM {given : List Token} {element : Element} (spells : Spells given element)
    (bare : Bare given) (assembly : Assembly) :
    given.foldlM Assembly.step assembly = assembly.add element := by
  cases spells with
  | empty head => exact bind_pure (assembly.add (.node head []))
  | nested head within =>
    obtain ⟨here, bare⟩ := List.forall_mem_cons.mp bare
    rw [foldlM_opening, List.foldlM_append, within.foldlM (Bare.of_append bare).1,
      Head.foldl_appendText (here head rfl)]
    exact bind_pure (assembly.add _)

theorem foldlM_outside {given : List Token} (tagless : tagsOf given = [])
    (root : Option Element) : given.foldlM Assembly.step ⟨[], root⟩ = .ok ⟨[], root⟩ := by
  induction given with
  | nil => rfl
  | cons token rest ih =>
    obtain ⟨plain, others⟩ := List.forall_mem_cons.mp (List.filter_eq_nil_iff.mp tagless)
    rw [List.foldlM_cons, step_outside (Bool.eq_false_iff.mpr plain)]
    exact ih (List.filter_eq_nil_iff.mpr others)

/-- **A document adds its element.** -/
theorem SpellsDocument.foldlM {given : List Token} {element : Element}
    (spells : SpellsDocument given element) (bare : Bare given) (root : Option Element) :
    given.foldlM Assembly.step ⟨[], root⟩ = Assembly.add ⟨[], root⟩ element := by
  obtain ⟨before, own, behind, rfl, front, spelled, back⟩ := spells
  obtain ⟨bare, _⟩ := Bare.of_append bare
  rw [List.foldlM_append, List.foldlM_append, foldlM_outside front]
  show (List.foldlM Assembly.step ⟨[], root⟩ own >>= _) = _
  rw [spelled.foldlM (Bare.of_append bare).2]
  cases root with
  | none => exact foldlM_outside back (some element)
  | some _ => rfl

/-! ### The outcomes -/

/-- A step fails at an end tag without an open element, or at a second root. -/
theorem fault_of_step {assembly : Assembly} {token : Token} {fault : AssemblyFault}
    (step : assembly.step token = .error fault) : fault = .nothingOpen ∨ fault = .secondRoot := by
  have added : ∀ {assembly : Assembly} {element : Element},
      assembly.add element = .error fault → fault = .secondRoot := by
    rintro ⟨_ | ⟨_, _⟩, _ | _⟩ element failed
    · exact nomatch failed
    · exact (Except.error.inj failed).symm
    · exact nomatch failed
    · exact nomatch failed
  rcases assembly with ⟨stack, root⟩
  cases token with
  | opening _ | aside => exact nomatch step
  | empty head => exact Or.inr (added step)
  | text _ => cases stack <;> exact nomatch step
  | closing =>
    cases stack with
    | nil => exact Or.inl (Except.error.inj step).symm
    | cons opened outer => exact Or.inr (added step)

theorem fault_of_foldlM {given : List Token} {assembly : Assembly} {fault : AssemblyFault}
    (run : given.foldlM Assembly.step assembly = .error fault) :
    fault = .nothingOpen ∨ fault = .secondRoot := by
  induction given generalizing assembly with
  | nil => exact nomatch run
  | cons token rest ih =>
    rw [List.foldlM_cons] at run
    rcases bind_eq_error.mp run with failed | ⟨between, _, later⟩
    · exact fault_of_step failed
    · exact ih later

section Outcomes

variable {given : List Token} (bare : Bare given) (matched : Matched 0 given)

include bare

theorem assemble_eq_ok {element : Element} :
    assemble given = .ok element ↔ SpellsDocument given element := by
  constructor
  · intro assembled
    obtain ⟨⟨stack, root⟩, run, finish⟩ := bind_eq_ok.mp assembled
    have reached := reaches_start.foldlM bare run
    cases reached with
    | outside _ | within _ _ _ => exact nomatch finish
    | done spells => exact Except.ok.inj finish ▸ spells
  · intro spells
    unfold assemble
    rw [Assembly.start, spells.foldlM bare]
    rfl

theorem assemble_isOk :
    (∃ element, assemble given = .ok element) ↔ OneElement (tagsOf given) := by
  constructor
  · rintro ⟨element, assembled⟩
    exact ((assemble_eq_ok bare).mp assembled).oneElement
  · intro one
    obtain ⟨element, spells⟩ := exists_spells one
    exact ⟨element, (assemble_eq_ok bare).mpr spells⟩

theorem assemble_eq_noRoot : assemble given = .error .noRoot ↔ tagsOf given = [] := by
  constructor
  · intro assembled
    rcases bind_eq_error.mp assembled with failed | ⟨⟨stack, root⟩, run, finish⟩
    · exact absurd (fault_of_foldlM failed) (by simp)
    · have reached := reaches_start.foldlM bare run
      cases reached with
      | outside tagless => exact tagless
      | done _ | within _ _ _ => exact nomatch finish
  · intro tagless
    unfold assemble
    rw [Assembly.start, foldlM_outside tagless]
    rfl

theorem assemble_eq_secondRoot :
    assemble given = .error .secondRoot ↔ TwoElements (tagsOf given) := by
  constructor
  · intro assembled
    rcases bind_eq_error.mp assembled with failed | ⟨⟨stack, root⟩, run, finish⟩
    · exact reaches_start.two_of_foldlM bare failed
    · have reached := reaches_start.foldlM bare run
      cases reached <;> exact nomatch finish
  · rintro ⟨first, second, rest, one, other, same⟩
    obtain ⟨front, back, rfl, both, _⟩ := tagsOf_eq_append same
    obtain ⟨before, behind, rfl, rfl, rfl⟩ := tagsOf_eq_append both
    obtain ⟨root, spelled⟩ := exists_spells one
    obtain ⟨element, spells⟩ := exists_spells other
    obtain ⟨bare, _⟩ := Bare.of_append bare
    obtain ⟨bareBefore, bareBehind⟩ := Bare.of_append bare
    unfold assemble
    rw [List.foldlM_append, List.foldlM_append, Assembly.start, spelled.foldlM bareBefore]
    show (List.foldlM Assembly.step ⟨[], some root⟩ behind >>= _) >>= _ = _
    rw [spells.foldlM bareBehind]
    rfl

include matched

theorem assemble_eq_unclosed {name : String} : assemble given = .error (.unclosed name) ↔
    ¬ TwoElements (tagsOf given) ∧ LeftOpen (tagsOf given) name := by
  constructor
  · intro assembled
    refine ⟨fun two => ?_, ?_⟩
    · rw [(assemble_eq_secondRoot bare).mpr two] at assembled
      exact nomatch assembled
    rcases bind_eq_error.mp assembled with failed | ⟨⟨stack, root⟩, run, finish⟩
    · exact absurd (fault_of_foldlM failed) (by simp)
    · have reached := reaches_start.foldlM bare run
      cases reached with
      | outside _ | done _ => exact nomatch finish
      | within head earlier content =>
        refine ⟨_, head, _, tagsOf_append _ _, content.balanced, ?_⟩
        exact AssemblyFault.unclosed.inj (Except.error.inj finish)
  · rintro ⟨single, front, head, inside, same, balanced, rfl⟩
    obtain ⟨before, others, rfl, _, rest⟩ := tagsOf_eq_append same
    obtain ⟨gap, back, rfl, _, rest⟩ := tagsOf_eq_cons rest
    obtain ⟨texts, children, within⟩ := exists_inside balanced rest
    rw [← List.append_assoc] at bare matched single ⊢
    obtain ⟨_, tail⟩ := Bare.of_append bare
    obtain ⟨here, inner⟩ := List.forall_mem_cons.mp tail
    have failing : ∀ fault, (before ++ gap).foldlM Assembly.step Assembly.start ≠ .error fault := by
      intro fault run
      have whole : (before ++ gap ++ .opening head :: back).foldlM Assembly.step Assembly.start =
          .error fault := by
        rw [List.foldlM_append, run]
        rfl
      rcases fault_of_foldlM whole with rfl | rfl
      · exact foldlM_ne_nothingOpen matched rfl whole
      · exact single (reaches_start.two_of_foldlM bare whole)
    unfold assemble
    rw [List.foldlM_append]
    cases run : (before ++ gap).foldlM Assembly.step Assembly.start with
    | error fault => exact absurd run (failing fault)
    | ok between =>
      show (List.foldlM Assembly.step between (.opening head :: back) >>= _) = _
      rw [foldlM_opening, within.foldlM inner, Head.foldl_appendText (here head rfl)]
      rfl

end Outcomes

/-- What reading makes of a sequence of tokens: one tree, or one of three faults. -/
structure OneTree (given : List Token) (outcome : Except ReadFault Element) : Prop where
  accepts : (∃ element, outcome = .ok element) ↔ OneElement (tagsOf given)
  tree : ∀ element, outcome = .ok element ↔ SpellsDocument given element
  noRoot : outcome = .error (.assembly .noRoot) ↔ tagsOf given = []
  secondRoot : outcome = .error (.assembly .secondRoot) ↔ TwoElements (tagsOf given)
  /-- The name is that of the innermost element that is open at the end. -/
  unclosed : ∀ name, outcome = .error (.assembly (.unclosed name)) ↔
    ¬ TwoElements (tagsOf given) ∧ LeftOpen (tagsOf given) name
  faults : ∀ fault, outcome = .error fault → fault = .assembly .noRoot ∨
    fault = .assembly .secondRoot ∨ ∃ name, fault = .assembly (.unclosed name)

theorem oneTree_assemble {given : List Token} (bare : Bare given) (matched : Matched 0 given) :
    OneTree given ((assemble given).mapError .assembly) := by
  have failed : ∀ fault, (assemble given).mapError ReadFault.assembly = .error (.assembly fault) ↔
      assemble given = .error fault := by
    intro fault
    rw [mapError_eq_error]
    exact ⟨fun ⟨_, known, same⟩ => ReadFault.assembly.inj same ▸ known, fun known =>
      ⟨fault, known, rfl⟩⟩
  refine ⟨?_, ?_, ?_, ?_, ?_, ?_⟩
  · simp only [mapError_eq_ok]
    exact assemble_isOk bare
  · exact fun element => mapError_eq_ok.trans (assemble_eq_ok bare)
  · exact (failed _).trans (assemble_eq_noRoot bare)
  · exact (failed _).trans (assemble_eq_secondRoot bare)
  · exact fun name => (failed _).trans (assemble_eq_unclosed bare matched)
  · intro fault known
    obtain ⟨cause, assembled, rfl⟩ := mapError_eq_error.mp known
    cases cause with
    | unclosed name => exact Or.inr (Or.inr ⟨name, rfl⟩)
    | noRoot => exact Or.inl rfl
    | secondRoot => exact Or.inr (Or.inl rfl)
    | nothingOpen =>
      rcases bind_eq_error.mp assembled with run | ⟨⟨stack, root⟩, run, finish⟩
      · exact absurd run (foldlM_ne_nothingOpen matched rfl)
      · have reached := reaches_start.foldlM bare run
        cases reached <;> exact nomatch finish

/-- **A document whose tokens are understood is read just when its tags are one balanced element**,
and then as the tree that its tokens spell, each text where it stands; if not, reading reports no
root, a second root or the innermost element left open. -/
theorem oneTree_of_tokens {document : List UInt8} {given : List Token}
    (known : tokens document = .ok given) : OneTree given (read document) := by
  rw [read_of_tokens known]
  exact oneTree_assemble (bare_tokens known) (matched_tokens known)

/-- Texts around a child, a comment, a verbatim text, and what stands outside of the root. -/
def mixed : List UInt8 :=
  Utf8.encode "<?xml ?><a>x<b>1</b><!-- - --><![CDATA[ y]]><c/></a> "

theorem oneTree_of_tokens_mixed : ∃ given element, tokens mixed = .ok given ∧
    read mixed = .ok element ∧ SpellsDocument given element ∧
    element.labels.map Head.text = [some "x y", some "1", none] := by
  have known : ∃ element, element ∈ (read mixed).toOption ∧
      element.labels.map Head.text = [some "x y", some "1", none] := by
    decide +kernel
  obtain ⟨element, found, texts⟩ := known
  replace found := mem_toOption.mp found
  obtain ⟨given, understood, _⟩ := exists_tokens_of_read found
  exact ⟨given, element, understood, found,
    ((oneTree_of_tokens understood).tree element).mp found, texts⟩

end EntityModel.Xml
