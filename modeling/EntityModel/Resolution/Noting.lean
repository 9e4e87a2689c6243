import EntityModel.Resolution

/-
**Evaluating a reference with notes taken on the way.**

`Catalog.evaluate` puts together what an evaluation rested on from the single texts. Here the texts
of a reference are gone through one after the other and share one set of notes: the nodes that are
consulted and the symbols that are looked up are added at the time they are.

* `Notes`, `Noting` — what has been noted so far, and a step that may note something.
* `Catalog.consult`, `qualifyConsulted` — the two steps that do.
* `Catalog.takeName`, `Catalog.takeSlots` — one text is read, and all of them with their slots.
* `Catalog.evaluateNoting` — the whole evaluation.
-/

namespace EntityModel

/-- What has been noted in an evaluation so far. -/
structure Notes where
  consulted : List NodeId
  lookups : List Symbol
  deriving DecidableEq, Repr

namespace Notes

/-- Nothing has been noted. -/
def empty : Notes := ⟨[], []⟩

/-- First the one, then the other. -/
instance : Append Notes :=
  ⟨fun earlier later =>
    ⟨earlier.consulted ++ later.consulted, earlier.lookups ++ later.lookups⟩⟩

end Notes

/-- A step of an evaluation, which may note something. -/
abbrev Noting (α : Type) := StateM Notes α

namespace Noting

/-- The node was read. -/
def consulted (id : NodeId) : Noting Unit :=
  modify fun notes => notes ++ ⟨[id], []⟩

/-- The symbol was looked up. -/
def lookedUp (symbol : Symbol) : Noting Unit :=
  modify fun notes => notes ++ ⟨[], [symbol]⟩

end Noting

/-- The symbol of a type that is named at a node that was consulted. The schema around that node
decides what a short name stands for, so it is noted as well. -/
def qualifyConsulted (site : Site) (text : String) : Noting Symbol := do
  (nearest? site.ancestors .schema).forM fun schema => Noting.consulted schema.id
  return qualifyType site.ancestors text

namespace Catalog

/-- The first node of the kind that declares the symbol. The symbol is noted whether or not there is
such a node. -/
def consult (catalog : Catalog) (symbol : Symbol) (kind : Kind) : Noting (Option Site) := do
  Noting.lookedUp symbol
  let found := (catalog.declarations symbol).find? fun site => site.node.kind = kind
  found.forM fun site => Noting.consulted site.id
  return found

/-- The entity type at an association end that is looked up by its symbol. -/
def takeEndType (catalog : Catalog) (separator : Char) (symbol : Symbol) : Noting Symbol := do
  match ← catalog.consult symbol .associationEnd with
  | none => return .empty
  | some site =>
    match site.node.firstText? separator "Type" with
    | none => return .empty
    | some text => qualifyConsulted site text

/-- The entity type whose properties a row speaks of. -/
def takeRowType (catalog : Catalog) (separator : Char) (view : Viewpoint) : Noting Symbol :=
  match view.ancestors.find? fun node =>
      node.kind = .entityTypeMapping ∨ node.kind = .endProperty with
  | none => return .empty
  | some scope =>
    if scope.kind = .entityTypeMapping then
      return match scope.firstText? separator "TypeName" with
        | some text => .ofText (unwrapType text)
        | none => .empty
    else
      let association := view.mappedType separator .associationSetMapping "TypeName"
      let role := (scope.firstText? separator "Name").getD ""
      let target := memberOf association role
      if target.isEmpty then return .empty else catalog.takeEndType separator target

/-- The symbol that the text stands for. All rules but one read only what stands around the owner. -/
def takeName (catalog : Catalog) (separator : Char) (view : Viewpoint) (rule : NameRule)
    (text : String) : Noting Symbol :=
  match rule with
  | .mappedProperty => do
    let entityType ← catalog.takeRowType separator view
    return memberOf entityType text
  | rule => return (catalog.readName separator view rule text).symbol

/-- The slots so far, with the one of the next text behind them. -/
def takeSlot (catalog : Catalog) (separator : Char) (owner : Option Site) (rule : ReferenceRule)
    (slots : List Slot) (text : String) : Noting (List Slot) := do
  if text.isEmpty then
    return slots ++ [⟨text, .empty, .undefined .empty⟩]
  let symbol ← catalog.takeName separator (.of owner) rule.reading text
  let layer := owner.map fun site => site.document.layer
  return slots ++ [⟨text, symbol, catalog.resolveSymbol rule layer symbol⟩]

/-- The slots of all texts of a reference, one after the other. -/
def takeSlots (catalog : Catalog) (separator : Char) (owner : NodeId) (reference : Reference) :
    Noting (List Slot) :=
  let texts := reference.texts separator
  let start := if texts.isEmpty then [⟨"", .empty, .undefined .empty⟩] else []
  texts.foldlM (catalog.takeSlot separator (catalog.site? owner) reference.rule) start

/-- The outcome of evaluating a reference of the owner, with the notes taken on the way. -/
def evaluateNoting (catalog : Catalog) (separator : Char) (owner : NodeId)
    (reference : Reference) : Resolution :=
  let (slots, notes) := (catalog.takeSlots separator owner reference).run .empty
  ⟨slots, notes.consulted, notes.lookups⟩

end Catalog

end EntityModel
