import EntityModel.Views
import EntityModel.Workspace.Edit
import EntityModel.Xml.Reader
import EntityModel.Xml.Writer

/-
**Exchange: whole files in and out of a workspace.**

* `loadFile` — every document that a file holds. The documents of a container are named after the
  file and their layer, a document on its own after the file alone.
* `saveDocument` — a document as it is written now.
-/

namespace EntityModel

/-- Why a file cannot be loaded or a document cannot be saved. -/
inductive ExchangeError where
  | unreadable (fault : Xml.ReadFault)
  /-- The root, shown with its prefix, begins nothing that can be loaded. -/
  | foreignRoot (uri tag : String)
  | nothingToSave (id : DocumentId)
  deriving DecidableEq, Repr

namespace ExchangeError

/-- The wording of a fault of a document, with its class. -/
def faultMessage : Xml.ReadFault → String
  | .assembly .noRoot => "Missing required element: " ++ (Xml.ReadFault.assembly .noRoot).message
  | .assembly .secondRoot => "Invalid document: " ++ (Xml.ReadFault.assembly .secondRoot).message
  | fault => "XML error: " ++ fault.message

/-- The wording of an error. -/
def message : ExchangeError → String
  | .unreadable fault => faultMessage fault
  | .foreignRoot uri tag =>
    "Invalid document: " ++ uri ++ ": <" ++ tag ++
      "> is not a schema, mapping, designer or EDMX root"
  | .nothingToSave id => "Missing required element: root of " ++ id.display

end ExchangeError

namespace Workspace

/-- The documents of one file are loaded; their numbers go with the result. -/
def loadSections (workspace : Workspace) (uri : Layer → String)
    (sections : List (Layer × Element)) : Workspace × List DocumentId :=
  sections.foldl
    (fun state part =>
      let (loaded, id) := state.1.load (uri part.1) part.1 part.2
      (loaded, state.2 ++ [id]))
    (workspace, [])

/-- Whether the root is that of a container, told by the end of its name. -/
def isContainerRoot (root : Head) : Bool :=
  containerTag.toList.isSuffixOf root.qualifiedTag.toList

/-- The documents that a file with this root holds are loaded. -/
def loadRoot (workspace : Workspace) (uri : String) (root : Element) :
    Except ExchangeError (Workspace × List DocumentId) :=
  let sections := root.sections
  if sections.isEmpty then .error (.foreignRoot uri root.label.qualifiedTag)
  else
    let inContainer := 1 < sections.length || isContainerRoot root.label
    .ok (workspace.loadSections
      (fun layer => if inContainer then uri ++ "#" ++ layer.display else uri) sections)

/-- The documents that a file holds are loaded. -/
def loadFile (workspace : Workspace) (uri : String) (bytes : List UInt8) :
    Except ExchangeError (Workspace × List DocumentId) := do
  let root ← (Xml.read bytes).mapError .unreadable
  workspace.loadRoot uri root

/-- The text of a document as it is written now. -/
def saveDocument (workspace : Workspace) (id : DocumentId) : Except ExchangeError String :=
  let root := do
    let document ← workspace.catalog.document? id
    let tree ← document.root
    workspace.catalog.toElement? tree.label.id
  match root with
  | some element => .ok (Xml.write element)
  | none => .error (.nothingToSave id)

end Workspace

end EntityModel
