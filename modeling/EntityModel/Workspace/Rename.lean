import EntityModel.Workspace.Edit

/-
**Renaming a node together with the references to it.**

* `replaceLastPart` — the text of a reference with another last part, its wrapper and its
  qualification kept.
* `Reference.retarget` — the text of a whole reference in which the texts whose slots lead to a node
  get a new last part.
* `renameWithReferences` — the name of a node and the texts of all references to it, in one edit.
-/

namespace EntityModel

/-- The text of a reference to one target with another last part; a wrapper around it is kept. -/
def replaceLastPart (text name : String) : String :=
  let bare := unwrapType text
  let replaced := match Text.cutLast? Symbol.separator bare.toList with
    | some sides => String.ofList sides.1 ++ "." ++ name
    | none => name
  if bare.utf8ByteSize = (Text.trim text).utf8ByteSize then replaced
  else "IsTypeOf(" ++ replaced ++ ")"

/-- The text of a reference in which every text whose slot leads to the node ends in the new name.
The texts are paired with the slots in order; a text without a slot stays. -/
def Reference.retarget (reference : Reference) (separator : Char) (target : NodeId)
    (name : String) : String :=
  let texts := reference.texts separator
  let targets := reference.slots.map Slot.target? ++ List.replicate texts.length none
  separator.toString.intercalate <| List.zipWith
    (fun text found => if found = some target then replaceLastPart text name else text)
    texts targets

namespace Workspace

/-- The references to a node with the texts they get when its name changes. -/
def retargetedTexts (workspace : Workspace) (id : NodeId) (name : String) :
    List (ReferenceId × String) :=
  (workspace.ledger.referencers id).filterMap fun referencer =>
    (workspace.reference? referencer).map fun reference =>
      (referencer, reference.retarget workspace.options.listSeparator id name)

/-- The text of a reference is written into its owner, unless that goes with the commit. The
references written so far are carried along. -/
def writeText (state : Workspace × List ReferenceId) (change : ReferenceId × String) :
    Except WorkspaceError (Workspace × List ReferenceId) := do
  let (workspace, written) := state
  let (id, text) := change
  if workspace.isPendingDelete id.owner then .ok (workspace, written)
  else
    let opened ← if workspace.isEditing id.owner then pure workspace
      else workspace.beginEdit id.owner
    let changed ← opened.setAttribute id.owner id.role text
    .ok (changed, written ++ [id])

/-- A node is renamed and the texts of the references to it are changed along; those references go
with the result. -/
def renameWithReferences (workspace : Workspace) (id : NodeId) (name : String) :
    Except WorkspaceError (Workspace × List ReferenceId) := do
  let renamed ← workspace.renameNode id name
  (workspace.retargetedTexts id name).foldlM writeText (renamed, [])

end Workspace

end EntityModel
