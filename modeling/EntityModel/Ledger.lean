import EntityModel.Identity
import EntityModel.OrderedSet
import EntityModel.Sorting
import EntityModel.Symbol

/-
**The ledger: what each reference depends on, and who depends on what.**

When a node or a symbol changes, the references to look at again are read off here.

* `Dependencies` — what one evaluation of a reference rested on: the targets found, the nodes read
  on the way, the symbols that were not found, the symbols looked up on the way.
* `Ledger` — the dependencies of every reference, and the four relations back from a node or a
  symbol to the references. The relations are kept up by differences, never by scanning the
  references.
* `record`, `forget`, `dropNode` — a new evaluation, the end of a reference, the end of a node.
-/

namespace EntityModel

/-- What one evaluation of a reference rests on. -/
structure Dependencies where
  targets : OrderedSet NodeId
  /-- Nodes read on the way to the symbol, the targets aside. -/
  context : OrderedSet NodeId
  /-- Symbols of targets that were not found. -/
  dangling : OrderedSet Symbol
  /-- Symbols looked up on the way, found or not. -/
  lookups : OrderedSet Symbol
  deriving DecidableEq

namespace Dependencies

/-- No dependencies. -/
def none : Dependencies := ⟨.empty, .empty, .empty, .empty⟩

/-- The dependencies without a node. -/
def withoutNode (dependencies : Dependencies) (node : NodeId) : Dependencies :=
  { dependencies with
    targets := dependencies.targets.erase node
    context := dependencies.context.erase node }

end Dependencies

/-- How the targets of a reference change. -/
structure TargetChange where
  added : List NodeId
  removed : List NodeId
  deriving DecidableEq, Repr

/-- Whether nothing changes. -/
def TargetChange.isEmpty (change : TargetChange) : Bool :=
  change.added.isEmpty && change.removed.isEmpty

/-- The dependencies of all references, readable from both sides. -/
structure Ledger where
  entries : List (ReferenceId × Dependencies)
  byTarget : Relation NodeId ReferenceId
  byContext : Relation NodeId ReferenceId
  byDangling : Relation Symbol ReferenceId
  byLookup : Relation Symbol ReferenceId
  deriving DecidableEq

namespace Ledger

/-- The ledger of no references. -/
def empty : Ledger := ⟨[], .empty, .empty, .empty, .empty⟩

/-- The dependencies recorded for a reference. -/
def dependencies (ledger : Ledger) (id : ReferenceId) : Dependencies :=
  (ledger.entries.lookup id).getD .none

/-! ### Changes -/

/-- The relation without the pairs of the value with these keys. -/
def withdraw {κ : Type} [DecidableEq κ] (keys : List κ) (id : ReferenceId)
    (relation : Relation κ ReferenceId) : Relation κ ReferenceId :=
  keys.foldl (fun relation key => relation.erase (key, id)) relation

/-- The relation with the pairs of the value with these keys. -/
def enter {κ : Type} [DecidableEq κ] (keys : List κ) (id : ReferenceId)
    (relation : Relation κ ReferenceId) : Relation κ ReferenceId :=
  relation.insertAll (keys.map fun key => (key, id))

/-- How the targets of a reference change when these dependencies are recorded for it. -/
def targetChange (ledger : Ledger) (id : ReferenceId) (dependencies : Dependencies) :
    TargetChange :=
  let earlier := ledger.dependencies id
  ⟨dependencies.targets.missingIn earlier.targets, earlier.targets.missingIn dependencies.targets⟩

/-- The ledger with these dependencies in place of those recorded for the reference. -/
def record (ledger : Ledger) (id : ReferenceId) (dependencies : Dependencies) : Ledger :=
  let earlier := ledger.dependencies id
  let change := ledger.targetChange id dependencies
  { entries := ledger.entries.filter (fun entry => entry.1 ≠ id) ++
      if dependencies = .none then [] else [(id, dependencies)]
    byTarget := enter change.added id (withdraw change.removed id ledger.byTarget)
    byContext :=
      enter dependencies.context.items id (withdraw earlier.context.items id ledger.byContext)
    byDangling :=
      enter dependencies.dangling.items id (withdraw earlier.dangling.items id ledger.byDangling)
    byLookup :=
      enter dependencies.lookups.items id (withdraw earlier.lookups.items id ledger.byLookup) }

/-- The ledger without the reference. -/
def forget (ledger : Ledger) (id : ReferenceId) : Ledger :=
  ledger.record id .none

/-- References in their order, each once. -/
def sorted (ids : List ReferenceId) : List ReferenceId :=
  sortBy ReferenceId.before (OrderedSet.ofList ids).items

/-- The references that rest on a node, as a target or as context. -/
def dependents (ledger : Ledger) (node : NodeId) : List ReferenceId :=
  sorted (ledger.byTarget.image node ++ ledger.byContext.image node)

/-- The ledger without a node: no reference rests on it any more. -/
def dropNode (ledger : Ledger) (node : NodeId) : Ledger :=
  { ledger with
    entries := ledger.entries.map fun entry => (entry.1, entry.2.withoutNode node)
    byTarget := ledger.byTarget.dropKey node
    byContext := ledger.byContext.dropKey node }

/-! ### Questions -/

/-- The references with the node among their targets. -/
def referencers (ledger : Ledger) (node : NodeId) : List ReferenceId :=
  sorted (ledger.byTarget.image node)

/-- The references whose evaluation read the node on the way. -/
def contextDependents (ledger : Ledger) (node : NodeId) : List ReferenceId :=
  sorted (ledger.byContext.image node)

/-- The references that looked for a target under the symbol in vain. -/
def waitingOn (ledger : Ledger) (symbol : Symbol) : List ReferenceId :=
  sorted (ledger.byDangling.image symbol)

/-- The references whose evaluation looked the symbol up on the way. -/
def lookupDependents (ledger : Ledger) (symbol : Symbol) : List ReferenceId :=
  sorted (ledger.byLookup.image symbol)

/-- The targets recorded for a reference. -/
def targets (ledger : Ledger) (id : ReferenceId) : List NodeId :=
  (ledger.dependencies id).targets.items

/-- Whether some reference has the node among its targets. -/
def hasReferencers (ledger : Ledger) (node : NodeId) : Bool :=
  !(ledger.byTarget.image node).isEmpty

/-- The nodes that are targets, ascending. -/
def referencedTargets (ledger : Ledger) : List NodeId :=
  sortBy (fun first second => first.number ≤ second.number) ledger.byTarget.keys.items

/-- The number of pairs of a target and a reference to it. -/
def edgeCount (ledger : Ledger) : Nat :=
  ledger.byTarget.items.length

end Ledger

end EntityModel
