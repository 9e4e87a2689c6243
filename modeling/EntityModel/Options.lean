/-
**Options of a workspace.**
-/

namespace EntityModel

/-- The switches of a workspace. -/
structure Options where
  /-- Whether declared names that are no identifiers are reported. -/
  validateIdentifiers : Bool
  /-- Whether references that found nothing are looked at again when the symbol they wait for gets
  declared. -/
  rebindWaiting : Bool
  /-- The character between the texts of a reference to several targets. -/
  listSeparator : Char
  deriving DecidableEq, Repr

/-- Everything on, lists separated by semicolons. -/
def Options.standard : Options := ⟨true, true, ';'⟩

end EntityModel
