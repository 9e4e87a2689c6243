import EntityModel.Json.Reader
import EntityModel.Options

/-
**Reading the options of a workspace.**

* `Options.ofJson?` — options as an object with a member for each, or as an array in the order of
  their definition. What is left out keeps its standard value; what is there has to be of the right
  type, and a member for an option must not come twice. Other members mean nothing.
* `Options.read?` — options from a JSON text.
-/

namespace EntityModel

namespace Options

/-- The value of a switch. -/
def flag? (standard : Bool) : Option Json → Option Bool
  | none => some standard
  | some (.bool value) => some value
  | some _ => none

/-- The value of an option that is one character. -/
def character? (standard : Char) : Option Json → Option Char
  | none => some standard
  | some (.string (some text)) =>
    match text.toList with
    | [c] => some c
    | _ => none
  | some _ => none

/-- The options with these values, standard ones where nothing is given. -/
def ofValues? (validateIdentifiers rebindWaiting listSeparator : Option Json) : Option Options := do
  some
    { validateIdentifiers := ← flag? standard.validateIdentifiers validateIdentifiers
      rebindWaiting := ← flag? standard.rebindWaiting rebindWaiting
      listSeparator := ← character? standard.listSeparator listSeparator }

/-- The value of the only member with the key, if there is any; nothing when there are several. -/
def member? (members : List (Option String × Json)) (key : String) : Option (Option Json) :=
  match members.filter fun member => member.1 = some key with
  | [] => some none
  | [member] => some (some member.2)
  | _ => none

/-- The options that a JSON value describes. -/
def ofJson? : Json → Option Options
  | .object members => do
    if members.any fun member => member.1.isNone then none
    else
      ofValues? (← member? members "validate_identifiers")
        (← member? members "rebind_waiting_references") (← member? members "list_separator")
  | .array items => if 3 < items.length then none else ofValues? items[0]? items[1]? items[2]?
  | _ => none

/-- The options that a JSON text describes. -/
def read? (text : String) : Option Options :=
  (Json.read? text).bind ofJson?

end Options

end EntityModel
