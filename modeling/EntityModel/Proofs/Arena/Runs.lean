import Mathlib.Logic.Relation
import EntityModel.Proofs.Arena.Building

/-
**What the operations of the arena never undo.**

* `Follows` — one arena comes after another: a number once given out is never given out again, and
  what a node is and where it hangs is settled once and for all.
* `Ascending` — a parent has a smaller number than its children, so all going up ends.
* `Shrinks` — no slot is new; removing, writing and listing children are of this kind.
* `Step.follows`, `Step.ascending` — every operation keeps them; `Steps.follows`, `Steps.ascending` —
  **so does any number of operations.**
-/

namespace EntityModel

/-- What is known of a node and written in it may change, and so may its children. -/
structure Cell.Remains (earlier later : Cell) : Prop where
  id : later.node.id = earlier.node.id
  kind : later.node.kind = earlier.node.kind
  tag : later.node.head.tag = earlier.node.head.tag
  parent : later.parent = earlier.parent
  document : later.document = earlier.document

theorem Cell.Remains.refl (cell : Cell) : cell.Remains cell :=
  ⟨rfl, rfl, rfl, rfl, rfl⟩

theorem Cell.Remains.trans {earlier between later : Cell} (first : earlier.Remains between)
    (second : between.Remains later) : earlier.Remains later :=
  ⟨second.id.trans first.id, second.kind.trans first.kind, second.tag.trans first.tag,
    second.parent.trans first.parent, second.document.trans first.document⟩

namespace Arena

/-- One arena comes after another. -/
structure Follows (before after : Arena) : Prop where
  grown : before.slots.length ≤ after.slots.length
  /-- What is gone does not come back. -/
  dead : ∀ id : NodeId, id.number < before.slots.length → before.cell? id = none →
    after.cell? id = none
  kept : ∀ id earlier later, before.cell? id = some earlier → after.cell? id = some later →
    earlier.Remains later

/-- A parent has a smaller number than its children. -/
def Ascending (arena : Arena) : Prop :=
  ∀ (id : NodeId) cell parent, arena.cell? id = some cell → cell.parent = some parent →
    parent.number < id.number

/-- Any number of operations. -/
def Steps : Arena → Arena → Prop :=
  Relation.ReflTransGen Step

theorem Follows.refl (arena : Arena) : Follows arena arena := by
  refine ⟨Nat.le_refl _, fun _ _ gone => gone, fun id earlier later first second => ?_⟩
  rw [first] at second
  rw [Option.some.inj second]
  exact .refl later

theorem Follows.trans {before between after : Arena} (first : Follows before between)
    (second : Follows between after) : Follows before after := by
  have given : ∀ {id : NodeId}, id.number < before.slots.length →
      id.number < between.slots.length := fun low => Nat.lt_of_lt_of_le low first.grown
  refine ⟨Nat.le_trans first.grown second.grown, fun id low gone => ?_,
    fun id earlier later known held => ?_⟩
  · exact second.dead id (given low) (first.dead id low gone)
  · cases there : between.cell? id with
    | none =>
      rw [second.dead id (given (lt_of_cell? known)) there] at held
      exact nomatch held
    | some cell =>
      exact (first.kept id earlier cell known there).trans (second.kept id cell later there held)

/-! ### Operations without new slots -/

/-- Every filled slot was filled before, with the same node in the same place. -/
structure Shrinks (before after : Arena) : Prop where
  length : after.slots.length = before.slots.length
  earlier : ∀ id later, after.cell? id = some later →
    ∃ earlier, before.cell? id = some earlier ∧ earlier.Remains later

namespace Shrinks

variable {before after : Arena} (shrinks : Shrinks before after)

include shrinks

theorem follows : Follows before after := by
  refine ⟨Nat.le_of_eq shrinks.length.symm, fun id _ gone => ?_, fun id earlier later known held => ?_⟩
  · refine Option.eq_none_iff_forall_ne_some.mpr fun later held => ?_
    obtain ⟨earlier, known, _⟩ := shrinks.earlier id later held
    rw [gone] at known
    exact nomatch known
  · obtain ⟨cell, found, remains⟩ := shrinks.earlier id later held
    rw [known] at found
    rw [Option.some.inj found]
    exact remains

theorem ascending (ascending : before.Ascending) : after.Ascending := by
  intro id later parent held above
  obtain ⟨earlier, known, remains⟩ := shrinks.earlier id later held
  exact ascending id earlier parent known (remains.parent ▸ above)

end Shrinks

theorem shrinks_of_cell? {before after : Arena} (length : after.slots.length = before.slots.length)
    (same : ∀ id, after.cell? id = before.cell? id) : Shrinks before after :=
  ⟨length, fun id later held => ⟨later, same id ▸ held, .refl later⟩⟩

theorem shrinks_modify (arena : Arena) (id : NodeId) {change : Cell → Cell}
    (keeps : ∀ cell : Cell, cell.Remains (change cell)) : Shrinks arena (arena.modify id change) := by
  refine ⟨List.length_modify _ _ _, fun other later held => ?_⟩
  rw [cell?_modify] at held
  split at held
  · obtain ⟨earlier, known, rfl⟩ := Option.map_eq_some_iff.mp held
    exact ⟨earlier, known, keeps earlier⟩
  · exact ⟨later, held, .refl later⟩

theorem shrinks_detach (arena : Arena) (id : NodeId) (cell : Cell) :
    Shrinks arena (arena.detach id cell) := by
  unfold detach
  split
  · exact shrinks_modify arena _ fun _ => ⟨rfl, rfl, rfl, rfl, rfl⟩
  · exact shrinks_of_cell? rfl fun _ => rfl

theorem shrinks_remove (arena : Arena) (id : NodeId) (found : List NodeId) :
    Shrinks arena (arena.remove id found) := by
  unfold remove
  cases arena.cell? id with
  | none => exact shrinks_of_cell? rfl fun _ => rfl
  | some cell =>
    have detached := shrinks_detach arena id cell
    refine ⟨(length_foldl_vacate found _).trans detached.length, fun other later held => ?_⟩
    rw [cell?_foldl_vacate] at held
    split at held
    · exact nomatch held
    · exact detached.earlier other later held

/-! ### New slots -/

theorem follows_extend (arena : Arena) (cells : List Cell) : Follows arena (arena.extend cells) := by
  refine ⟨?_, fun id low gone => ?_, fun id earlier later known held => ?_⟩
  · rw [length_extend]
    exact Nat.le_add_right _ _
  · rw [cell?_extend_of_lt cells low, gone]
  · rw [cell?_extend_of_lt cells (lt_of_cell? known), known] at held
    rw [Option.some.inj held]
    exact .refl later

theorem ascending_extend {arena : Arena} (ascending : arena.Ascending) (draft : Tree Draft)
    (document : DocumentId) {upper : Option NodeId}
    (old : ∀ known, upper = some known → known.number < arena.slots.length) :
    (arena.extend ((Tree.planted arena.slots.length draft).slotsBelow document upper)).Ascending := by
  intro id cell parent held above
  rw [cell?_extend] at held
  split at held
  · exact ascending id cell parent held above
  · rename_i new
    obtain ⟨member, own⟩ := Tree.getElem?_slotsBelow.mp held
    have lower := Tree.parent_lt_slotsBelow draft old cell member parent above
    rw [own, Nat.add_sub_cancel' (Nat.le_of_not_lt new)] at lower
    exact lower

/-- A new document adds the slots of its tree. -/
theorem shrinks_load (arena : Arena) (uri : String) (layer : Layer) (root : Element) :
    ∃ draft, Shrinks (arena.extend ((Tree.planted arena.slots.length draft).slotsBelow
      ⟨arena.nextDocument⟩ none)) (arena.load uri layer root) := by
  have built := build_eq ⟨arena.nextDocument⟩ root (arena.addVolume uri layer) none
    fun _ same => nomatch same
  have slots : (arena.load uri layer root).slots = _ := congrArg (·.1.slots) built
  refine ⟨_, shrinks_of_cell? (congrArg List.length slots) fun id => ?_⟩
  unfold cell?
  rw [slots]
  rfl

/-- A new element adds the slots of its tree, and its parent lists it. -/
theorem shrinks_insert {arena : Arena} {parent : NodeId} {cell : Cell}
    (live : arena.cell? parent = some cell) (index : Option Nat) (element : Element) :
    ∃ draft, Shrinks (arena.extend ((Tree.planted arena.slots.length draft).slotsBelow
      cell.document (some parent))) (arena.insert parent index element) := by
  have built := build_eq cell.document element arena (some parent)
    fun _ same => Option.some.inj same ▸ lt_of_cell? live
  unfold insert
  rw [live]
  simp only
  rw [built]
  exact ⟨_, shrinks_modify _ parent fun _ => ⟨rfl, rfl, rfl, rfl, rfl⟩⟩

theorem shrinks_write (arena : Arena) (id : NodeId) {change : Node → Node}
    (keeps : ∀ node, (change node).id = node.id ∧ (change node).kind = node.kind ∧
      (change node).head.tag = node.head.tag) : Shrinks arena (arena.write id change) :=
  shrinks_modify arena id fun cell =>
    ⟨(keeps cell.node).1, (keeps cell.node).2.1, (keeps cell.node).2.2, rfl, rfl⟩

theorem shrinks_dropDocument (arena : Arena) (document : DocumentId) :
    Shrinks arena (arena.dropDocument document) :=
  shrinks_of_cell? rfl fun _ => rfl

/-! ### Every operation -/

/-- **An operation gives no number twice**, and changes neither what a node is nor where it hangs. -/
theorem Step.follows {before after : Arena} (step : Step before after) : Follows before after := by
  cases step with
  | load uri layer root =>
    obtain ⟨draft, shrinks⟩ := shrinks_load before uri layer root
    exact (follows_extend before _).trans shrinks.follows
  | insert live index element =>
    obtain ⟨draft, shrinks⟩ := shrinks_insert live index element
    exact (follows_extend before _).trans shrinks.follows
  | remove walk => exact (shrinks_remove before _ _).follows
  | drop hollow => exact (shrinks_dropDocument before _).follows
  | write keeps => exact (shrinks_write before _ keeps).follows

theorem Step.ascending {before after : Arena} (step : Step before after)
    (ascending : before.Ascending) : after.Ascending := by
  cases step with
  | load uri layer root =>
    obtain ⟨draft, shrinks⟩ := shrinks_load before uri layer root
    exact shrinks.ascending (ascending_extend ascending draft _ fun _ same => nomatch same)
  | insert live index element =>
    obtain ⟨draft, shrinks⟩ := shrinks_insert live index element
    refine shrinks.ascending (ascending_extend ascending draft _ ?_)
    exact fun _ same => Option.some.inj same ▸ lt_of_cell? live
  | remove walk => exact (shrinks_remove before _ _).ascending ascending
  | drop hollow => exact (shrinks_dropDocument before _).ascending ascending
  | write keeps => exact (shrinks_write before _ keeps).ascending ascending

/-! ### Every run -/

theorem ascending_empty : empty.Ascending := by
  intro id cell parent held
  exact nomatch held

theorem Steps.follows {before after : Arena} (steps : Steps before after) :
    Follows before after := by
  induction steps with
  | refl => exact .refl before
  | tail _ step ih => exact ih.trans step.follows

theorem Steps.ascending {before after : Arena} (steps : Steps before after)
    (ascending : before.Ascending) : after.Ascending := by
  induction steps with
  | refl => exact ascending
  | tail _ step ih => exact step.ascending ih

end Arena

end EntityModel
