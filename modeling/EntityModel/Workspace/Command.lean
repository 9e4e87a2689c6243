import EntityModel.Workspace.Commit
import EntityModel.Workspace.Rename

/-
**Commands: everything that can be asked of a workspace to change it.**

* `Command` — the calls with their arguments, `Answer` what they give back.
* `perform` — one command; a refused one gives only its error.
* `after` — the workspace after a history of commands, refused ones leaving no trace.
-/

namespace EntityModel

/-- A call that changes a workspace. -/
inductive Command where
  | load (uri : String) (layer : Layer) (root : Element)
  | unload (id : DocumentId)
  | beginTransaction
  | beginEdit (id : NodeId)
  | setAttribute (id : NodeId) (name value : String)
  | removeAttribute (id : NodeId) (name : String)
  | setText (id : NodeId) (text : Option String)
  | insertElement (parent : NodeId) (index : Option Nat) (element : Element)
  | deleteNode (id : NodeId)
  | renameNode (id : NodeId) (name : String)
  | renameWithReferences (id : NodeId) (name : String)
  | commit
  | rebuild
  | parse (id : NodeId)
  | normalize (id : NodeId)
  | resolve (id : NodeId)
  | rebind (id : ReferenceId)

/-- What a command gives back. -/
inductive Answer where
  | done
  | document (id : DocumentId)
  | node (id : NodeId)
  | references (ids : List ReferenceId)
  | report (report : Report)
  | resolution (resolution : Resolution)

namespace Workspace

/-- The result of a call that gives nothing back. -/
def plainly (result : Except WorkspaceError Workspace) :
    Except WorkspaceError (Workspace × Answer) :=
  result.map fun workspace => (workspace, .done)

/-- One command. -/
def perform (workspace : Workspace) :
    Command → Except WorkspaceError (Workspace × Answer)
  | .load uri layer root =>
    let (loaded, id) := workspace.load uri layer root
    .ok (loaded, .document id)
  | .unload id => plainly (workspace.unload id)
  | .beginTransaction => plainly workspace.beginTransaction
  | .beginEdit id => plainly (workspace.beginEdit id)
  | .setAttribute id name value => plainly (workspace.setAttribute id name value)
  | .removeAttribute id name => plainly (workspace.removeAttribute id name)
  | .setText id text => plainly (workspace.setText id text)
  | .insertElement parent index element =>
    (workspace.insertElement parent index element).map fun (changed, id) => (changed, .node id)
  | .deleteNode id => plainly (workspace.deleteNode id)
  | .renameNode id name => plainly (workspace.renameNode id name)
  | .renameWithReferences id name =>
    (workspace.renameWithReferences id name).map fun (changed, ids) => (changed, .references ids)
  | .commit => workspace.commit.map fun (changed, report) => (changed, .report report)
  | .rebuild => workspace.rebuild.map fun (changed, report) => (changed, .report report)
  | .parse id => plainly ((workspace.parseNode id).map Prod.fst)
  | .normalize id => plainly ((workspace.normalizeNode id).map Prod.fst)
  | .resolve id => plainly (workspace.resolveNode id)
  | .rebind id =>
    (workspace.rebind id).map fun (changed, resolution) => (changed, .resolution resolution)

/-- The workspace after one command; a refused one changes nothing. -/
def next (workspace : Workspace) (command : Command) : Workspace :=
  match workspace.perform command with
  | .ok (changed, _) => changed
  | .error _ => workspace

/-- The workspace after the commands, in order. -/
def after (workspace : Workspace) (commands : List Command) : Workspace :=
  commands.foldl next workspace

end Workspace

end EntityModel
