/-
**Cutting a list at a separator.**

* `cutFirst?`, `cutLast?` — the two sides of the first and of the last separator.
* `cutStretch?` — the same for a separator of several symbols, at its first occurrence.
* `pieces` — all the pieces of a text between separators: one more than there are separators, so a
  text without any is its own only piece and the empty text has one empty piece.
-/

namespace EntityModel.Text

/-- What stands before and after the first `mark`, or `none` without one. -/
def cutFirst? {α : Type} [DecidableEq α] (mark : α) : List α → Option (List α × List α)
  | [] => none
  | item :: rest =>
    if item = mark then some ([], rest)
    else (cutFirst? mark rest).map fun sides => (item :: sides.1, sides.2)

/-- What stands before and after the last `mark`, or `none` without one. -/
def cutLast? {α : Type} [DecidableEq α] (mark : α) : List α → Option (List α × List α)
  | [] => none
  | item :: rest =>
    match cutLast? mark rest with
    | some sides => some (item :: sides.1, sides.2)
    | none => if item = mark then some ([], rest) else none

/-- What stands before and after the first occurrence of `stretch`, or `none` without one. -/
def cutStretch? {α : Type} [DecidableEq α] (stretch : List α) :
    List α → Option (List α × List α)
  | [] => if stretch = [] then some ([], []) else none
  | item :: rest =>
    if stretch.isPrefixOf (item :: rest) then some ([], (item :: rest).drop stretch.length)
    else (cutStretch? stretch rest).map fun sides => (item :: sides.1, sides.2)

/-- The stretches between the `mark`s, in order. -/
def split {α : Type} [DecidableEq α] (mark : α) : List α → List (List α)
  | [] => [[]]
  | item :: rest =>
    if item = mark then [] :: split mark rest
    else match split mark rest with
      | [] => [[item]]
      | first :: others => (item :: first) :: others

/-- The pieces of the text between the separators, in order. -/
def pieces (separator : Char) (text : String) : List String :=
  (split separator text.toList).map String.ofList

theorem split_ne_nil {α : Type} [DecidableEq α] (mark : α) (items : List α) :
    split mark items ≠ [] := by
  induction items with
  | nil => simp [split]
  | cons item rest ih =>
    rw [split]
    split
    · simp
    · cases whole : split mark rest <;> simp

end EntityModel.Text
