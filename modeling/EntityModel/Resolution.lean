import EntityModel.Naming
import EntityModel.Ledger

/-
**Resolution: finding the targets of a reference.**

* `Catalog.evaluate` — the slots of a reference as the catalog stands, with what the evaluation
  rested on. Nothing is stored; the same text over the same catalog always gives the same answer.
* `Catalog.resolveSymbol` — the first node that declares the symbol, has one of the expected kinds
  and stands in a document of the right layer.
* `Resolution.dependencies` — what goes into the ledger.
-/

namespace EntityModel

/-- The outcome of evaluating a reference: its slots, the nodes consulted and the symbols looked up
on the way, in the order of evaluation and with repeats. -/
structure Resolution where
  slots : List Slot
  consulted : List NodeId
  lookups : List Symbol
  deriving DecidableEq, Repr

namespace Resolution

/-- Whether the targets are found. -/
def status (resolution : Resolution) : Status :=
  .ofSlots resolution.slots

/-- The targets that are found, each once, in the order of the slots. -/
def targets (resolution : Resolution) : OrderedSet NodeId :=
  .ofList (resolution.slots.filterMap Slot.target?)

/-- The symbols of the slots that found nothing, each once; the empty symbol is not among them. -/
def dangling (resolution : Resolution) : OrderedSet Symbol :=
  .ofList <| (resolution.slots.filter fun slot => !slot.isKnown && !slot.symbol.isEmpty).map
    Slot.symbol

/-- What the evaluation rested on. -/
def dependencies (resolution : Resolution) : Dependencies :=
  ⟨resolution.targets, .ofList resolution.consulted, resolution.dangling,
    .ofList resolution.lookups⟩

end Resolution

/-- Whether a document of the layer lies in the space, seen from the owner's layer. -/
def TargetSpace.admits (space : TargetSpace) (owner : Option Layer) (layer : Layer) : Bool :=
  match space with
  | .ownLayer => owner == some layer
  | .layer required => required == layer

namespace Catalog

/-- Whether the node at the place may be a target by the rule, seen from the owner's layer. -/
def fits (rule : ReferenceRule) (owner : Option Layer) (site : Site) : Bool :=
  rule.space.admits owner site.document.layer && rule.expected.contains site.node.kind

/-- What is found under a symbol by the rule, seen from the owner's layer. -/
def resolveSymbol (catalog : Catalog) (rule : ReferenceRule) (owner : Option Layer)
    (symbol : Symbol) : Outcome :=
  if symbol.isEmpty then .undefined .empty
  else
    let declarations := catalog.declarations symbol
    match declarations.filter (fits rule owner), declarations with
    | first :: others, _ => .known first.id (others.length + 1)
    | [], [] => .undefined .notFound
    | [], first :: _ => .undefined (.wrongKind first.node.kind)

/-- The slot of one text of a reference, and what was read to find it. -/
def evaluateText (catalog : Catalog) (separator : Char) (owner : Option Site)
    (rule : ReferenceRule) (text : String) : Slot × NameReading :=
  if text.isEmpty then (⟨text, .empty, .undefined .empty⟩, .plain .empty)
  else
    let reading := catalog.readName separator (.of owner) rule.reading text
    let layer := owner.map fun site => site.document.layer
    (⟨text, reading.symbol, catalog.resolveSymbol rule layer reading.symbol⟩, reading)

/-- The outcome of evaluating a reference of the owner. A reference without text has one empty
slot. -/
def evaluate (catalog : Catalog) (separator : Char) (owner : NodeId) (reference : Reference) :
    Resolution :=
  match reference.texts separator with
  | [] => ⟨[⟨"", .empty, .undefined .empty⟩], [], []⟩
  | texts =>
    let parts := texts.map (catalog.evaluateText separator (catalog.site? owner) reference.rule)
    ⟨parts.map Prod.fst, parts.flatMap fun part => part.2.consulted,
      parts.flatMap fun part => part.2.lookups⟩

end Catalog

end EntityModel
