/-
**Calls peeled apart.**

A call made of several yields a value when each of its parts does. `bind_eq_ok`, `mapM_cons_eq_ok`,
`foldlM_cons_eq_ok`, `map_eq_ok` and `mapError_eq_ok` say so for one part at a time, so that no proof
opens the whole call; `bind_eq_error` and `mapError_eq_error` say where a failure comes from.
`related_of_foldlM` carries what holds around one turn of a loop over to the whole loop.
`mem_toOption` is for calls on fixed inputs, which are evaluated.
-/

namespace EntityModel

variable {ε δ α β : Type}

theorem bind_eq_ok {first : Except ε α} {rest : α → Except ε β} {result : β} :
    first >>= rest = .ok result ↔ ∃ value, first = .ok value ∧ rest value = .ok result := by
  cases first with
  | error failure => simp [bind, Except.bind]
  | ok value => simp [bind, Except.bind]

/-- A list of calls is made one after the other. -/
theorem mapM_cons_eq_ok {f : α → Except ε β} {item : α} {items : List α} {results : List β} :
    (item :: items).mapM f = .ok results ↔ ∃ result others,
      f item = .ok result ∧ items.mapM f = .ok others ∧ results = result :: others := by
  rw [List.mapM_cons, bind_eq_ok]
  refine exists_congr fun result => ?_
  rw [bind_eq_ok, exists_and_left]
  exact and_congr_right fun _ => exists_congr fun others =>
    and_congr_right fun _ => ⟨fun same => (Except.ok.inj same).symm, fun same => same ▸ rfl⟩

theorem foldlM_cons_eq_ok {f : β → α → Except ε β} {state : β} {item : α} {items : List α}
    {result : β} : (item :: items).foldlM f state = .ok result ↔
      ∃ next, f state item = .ok next ∧ items.foldlM f next = .ok result := by
  rw [List.foldlM_cons, bind_eq_ok]

/-- What relates the states around every turn of a loop relates its first state to its last. -/
theorem related_of_foldlM {turn : β → α → Except ε β} {related : β → β → Prop}
    (refl : ∀ state, related state state)
    (trans : ∀ {first second third}, related first second → related second third →
      related first third) {items : List α}
    (each : ∀ state, ∀ item ∈ items, ∀ next, turn state item = .ok next → related state next)
    {state last : β} (ran : items.foldlM turn state = .ok last) : related state last := by
  induction items generalizing state with
  | nil =>
    obtain rfl : state = last := Except.ok.inj ran
    exact refl state
  | cons item items ih =>
    obtain ⟨next, taken, rest⟩ := foldlM_cons_eq_ok.mp ran
    exact trans (each state item List.mem_cons_self next taken)
      (ih (fun state item inside => each state item (List.mem_cons_of_mem _ inside)) rest)

theorem map_eq_ok {first : Except ε α} {f : α → β} {result : β} :
    first.map f = .ok result ↔ ∃ value, first = .ok value ∧ f value = result := by
  cases first with
  | error failure => simp [Except.map]
  | ok value => simp [Except.map]

theorem mapError_eq_ok {first : Except ε α} {f : ε → δ} {result : α} :
    first.mapError f = .ok result ↔ first = .ok result := by
  cases first with
  | error failure =>
    show Except.error (f failure) = .ok result ↔ _
    simp
  | ok value =>
    show Except.ok value = .ok result ↔ _
    simp

theorem bind_eq_error {first : Except ε α} {rest : α → Except ε β} {failure : ε} :
    first >>= rest = .error failure ↔
      first = .error failure ∨ ∃ value, first = .ok value ∧ rest value = .error failure := by
  cases first with
  | error other => simp [bind, Except.bind]
  | ok value => simp [bind, Except.bind]

theorem mapError_eq_error {first : Except ε α} {f : ε → δ} {failure : δ} :
    first.mapError f = .error failure ↔ ∃ cause, first = .error cause ∧ f cause = failure := by
  cases first with
  | error cause =>
    show Except.error (f cause) = .error failure ↔ _
    simp
  | ok value =>
    show Except.ok value = .error failure ↔ _
    simp

theorem mem_toOption {first : Except ε α} {result : α} :
    result ∈ first.toOption ↔ first = .ok result := by
  cases first with
  | error failure => simp [Except.toOption]
  | ok value => simp [Except.toOption]

end EntityModel
