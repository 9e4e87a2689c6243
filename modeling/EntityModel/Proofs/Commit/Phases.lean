import EntityModel.Proofs.Commit.Run

/-
**The loops of a commit.**

Once a commit has removed what is to go, it takes nodes through their life in several loops. What
every step in the life of a node respects, the commit respects.

* `view_of_foldl`, `view_of_foldlM` — what every turn of a loop keeps the loop keeps.
* `Endures` — a relation that nothing leaves and every step in the life of a node is in.
* `Endures.commit` — **a commit is in such a relation** from the removals on.
-/

namespace EntityModel

/-- What every turn of a loop keeps the loop keeps. -/
theorem view_of_foldlM {ε σ α β : Type} {turn : σ → α → Except ε σ} {view : σ → β}
    (each : ∀ {state item next}, turn state item = .ok next → view next = view state)
    (items : List α) {state last : σ} (ran : items.foldlM turn state = .ok last) :
    view last = view state :=
  @related_of_foldlM _ _ _ turn (fun state next => view next = view state) (fun _ => rfl)
    (fun first second => second.trans first) _ (fun _ _ _ _ taken => each taken) _ _ ran

/-- What every turn of a fold keeps the fold keeps. -/
theorem view_of_foldl {σ α β : Type} {turn : σ → α → σ} {view : σ → β}
    (each : ∀ state item, view (turn state item) = view state) (items : List α) :
    ∀ state, view (items.foldl turn state) = view state := by
  induction items with
  | nil => exact fun _ => rfl
  | cons item items ih => exact fun state => (ih _).trans (each state item)

namespace Workspace

/-- The relation holds from a workspace to itself and to what a step in the life of a node makes of
it, and it can be chained. -/
structure Endures (relates : Workspace → Workspace → Prop) : Prop where
  refl : ∀ workspace, relates workspace workspace
  trans : ∀ {first second third}, relates first second → relates second third → relates first third
  parsed : ∀ workspace site, relates workspace (workspace.parsed site)
  normalized : ∀ workspace site, relates workspace (workspace.normalized site)
  resolved : ∀ workspace site, relates workspace (workspace.resolved site)
  /-- A node to be resolved again is taken a step back first. -/
  atStage : ∀ workspace id, relates workspace (workspace.modify id (Node.atStage .normalized))

/-- The pass of a commit once everything that is to go is gone. -/
def cleared (workspace : Workspace) (transaction : Transaction) : Pass :=
  (transaction.deleted.items.foldl Pass.deleteTree (.start workspace.closed)).dropDocuments
    transaction.unloaded

theorem workspace_queueChanged (pass : Pass) (symbol : Symbol) :
    (pass.queueChanged symbol).workspace = pass.workspace := by
  unfold Pass.queueChanged
  exact @view_of_foldl _ _ _ Pass.queueDependents Pass.workspace (fun _ _ => rfl) _ _

namespace Endures

variable {relates : Workspace → Workspace → Prop} (endures : Endures relates)

include endures

theorem foldlM {ε σ α : Type} {view : σ → Workspace} {turn : σ → α → Except ε σ}
    (each : ∀ {state item next}, turn state item = .ok next → relates (view state) (view next))
    (items : List α) {state last : σ} (ran : items.foldlM turn state = .ok last) :
    relates (view state) (view last) :=
  @related_of_foldlM _ _ _ turn (fun state next => relates (view state) (view next))
    (fun _ => endures.refl _) endures.trans _ (fun _ _ _ _ taken => each taken) _ _ ran

section Parts

variable {pass next : Pass} {id : NodeId}

theorem reparse {state next : Pass × List (NodeId × Option Symbol)}
    (done : Pass.reparse state id = .ok next) : relates state.1.workspace next.1.workspace := by
  unfold Pass.reparse at done
  obtain ⟨⟨workspace, earlier⟩, parsed, made⟩ := bind_eq_ok.mp done
  obtain rfl := Except.ok.inj made
  obtain ⟨site, _, same⟩ := bind_eq_ok.mp parsed
  obtain ⟨rfl, _⟩ := Prod.mk.inj (Except.ok.inj same)
  exact endures.parsed _ site

theorem renormalize {earlier : List (NodeId × Option Symbol)}
    (done : Pass.renormalize earlier pass id = .ok next) : relates pass.workspace next.workspace := by
  unfold Pass.renormalize at done
  obtain ⟨⟨workspace, current, symbol⟩, named, rest⟩ := bind_eq_ok.mp done
  obtain ⟨site, _, checked⟩ := bind_eq_ok.mp named
  obtain ⟨_, _, same⟩ := bind_eq_ok.mp checked
  obtain ⟨rfl, _⟩ := Prod.mk.inj (Except.ok.inj same)
  have kept : next.workspace = pass.workspace.normalized site := by
    simp only at rest
    split at rest
    · rw [← Except.ok.inj rest]
    · rw [← Except.ok.inj rest]
      split
      · rfl
      · rfl
  rw [kept]
  exact endures.normalized _ site

theorem resolve (done : pass.resolve id = .ok next) : relates pass.workspace next.workspace := by
  unfold Pass.resolve at done
  obtain ⟨workspace, resolved, made⟩ := bind_eq_ok.mp done
  obtain rfl := Except.ok.inj made
  obtain ⟨site, _, checked⟩ := bind_eq_ok.mp resolved
  obtain ⟨_, _, same⟩ := bind_eq_ok.mp checked
  obtain rfl := Except.ok.inj same
  exact endures.resolved _ site

theorem resolveAgain (done : pass.resolveAgain id = .ok next) :
    relates pass.workspace next.workspace :=
  endures.trans (endures.atStage pass.workspace id) (endures.resolve done)

end Parts

/-- **A commit is in the relation** from the removals on. -/
theorem commit {workspace after : Workspace} {report : Report} {transaction : Transaction}
    (opened : workspace.transaction = some transaction)
    (done : workspace.commit = .ok (after, report)) :
    relates (workspace.cleared transaction).workspace after := by
  unfold Workspace.commit at done
  rw [opened] at done
  unfold propagate at done
  obtain ⟨⟨read, earlier⟩, reread, rest⟩ := bind_eq_ok.mp done
  obtain ⟨named, renamed, rest⟩ := bind_eq_ok.mp rest
  obtain ⟨resolved, answered, rest⟩ := bind_eq_ok.mp rest
  obtain ⟨last, again, rest⟩ := bind_eq_ok.mp rest
  obtain ⟨rfl, _⟩ := Prod.mk.inj (Except.ok.inj rest)
  have first := endures.foldlM endures.reparse _ reread
  have second := endures.foldlM endures.renormalize _ renamed
  have third := endures.foldlM endures.resolve _ answered
  have fourth := endures.foldlM endures.resolveAgain _ again
  rw [@view_of_foldl _ _ _ Pass.queueChanged Pass.workspace workspace_queueChanged] at third
  exact endures.trans (endures.trans first second) (endures.trans third fourth)

end Endures

end Workspace

end EntityModel
