import EntityModel.Proofs.Xml.Accepted

/-
**Documents read, written, and read once more.**

A text that came from a verbatim section or from references may begin or end with blanks. Nothing
protects them when it is written, so reading it again loses them.

* `write_of_unplaced` — what is written does not depend on places.
* `unplaced_settled_iff` — an element is what it becomes by writing and reading it when its texts are
  tight.
* `reread_of_read` — **a document that is read can be written and read again**, when its tags are
  found again; what it becomes is known, and it is the same element with the same document just when
  no text has a blank at an end.
-/

namespace EntityModel.Xml

theorem writeElement_unplaced (element : Element) : ∀ (afterText : Bool) (depth : Nat),
    writeElement afterText depth (unplaced element) = writeElement afterText depth element := by
  induction element using Tree.induct with
  | step head children ih =>
    have siblings : ∀ (elements : List Element) (afterText : Bool) (depth : Nat),
        (∀ element ∈ elements, element ∈ children) →
        writeElements afterText depth (elements.map unplaced) =
          writeElements afterText depth elements := by
      intro elements
      induction elements with
      | nil => exact fun _ _ _ => rfl
      | cons element elements later =>
        intro afterText depth each
        rw [List.map_cons, writeElements, writeElements,
          ih element (each element List.mem_cons_self),
          later false depth fun other member => each other (List.mem_cons_of_mem _ member)]
    intro afterText depth
    rw [unplaced_node, writeElement, writeElement, siblings children _ _ fun _ member => member,
      List.isEmpty_map]
    rfl

/-- Elements that differ in places alone are written alike. -/
theorem write_of_unplaced {element other : Element} (same : unplaced element = unplaced other) :
    write element = write other := by
  have body : writeElement false 0 element = writeElement false 0 other := by
    rw [← writeElement_unplaced element, same, writeElement_unplaced]
  unfold write
  rw [body]

/-- **Nothing is lost just when all texts are tight.** -/
theorem unplaced_settled_iff {element : Element} : unplaced (settled element) = unplaced element ↔
    ∀ head ∈ element.labels, ∀ text ∈ head.text, Tight text := by
  refine ⟨fun same head member text written => ?_, fun tight => by rw [settled_of_tight tight]⟩
  have labels := congrArg Tree.labels same
  rw [unplaced, unplaced, settled, Tree.labels_map, Tree.labels_map, Tree.labels_map,
    List.map_map] at labels
  have kept := congrArg Head.text (List.map_inj_left.mp labels head member)
  have trimmedText : head.text.bind trimmed = head.text := kept
  rw [Option.mem_def.mp written] at trimmedText
  exact trimmed_eq_some_self_iff.mp trimmedText

/-- **A document that is read can be written and read again** when its tags are found again. It
becomes the element without the blanks around its texts; the element and the document that is
written are the same as before just when there are no such blanks. -/
theorem reread_of_read {bytes : List UInt8} {element : Element} (readable : read bytes = .ok element)
    (recognised : ∀ link ∈ element.links, Recognised link.label link.children) :
    ∃ again, read (write element).toUTF8.toList = .ok again ∧
      unplaced again = unplaced (settled element) ∧
      ((unplaced again = unplaced element ∧ write again = write element) ↔
        ∀ head ∈ element.labels, ∀ text ∈ head.text, Tight text) := by
  have accepted := accepted_of_read readable
  have rewritable : ∀ link ∈ element.links, Rewritable link.label link.children :=
    fun link member => ⟨recognised link member, accepted link member⟩
  obtain ⟨again, found, becomes⟩ := map_eq_ok.mp (read_write_of_rewritable rewritable)
  refine ⟨again, found, becomes, fun kept => ?_, fun tight => ?_⟩
  · exact unplaced_settled_iff.mp (becomes.symm.trans kept.1)
  · have same := becomes.trans (unplaced_settled_iff.mpr tight)
    exact ⟨same, write_of_unplaced same⟩

/-- A prefix, a verbatim text, references and a comment in another text, and a name and a key that
are none. -/
def unusual : List UInt8 :=
  Utf8.encode ("<b:x c=\x221\x22><![CDATA[<x> & y]]><d>&#65;&lt;<!-- - -->&amp;z</d>" ++
    "<e\x27 f\x27=\x222\x22/></b:x >")

theorem reread_of_read_unusual : ∃ element again, read unusual = .ok element ∧
    (∀ link ∈ element.links, Recognised link.label link.children) ∧
    read (write element).toUTF8.toList = .ok again ∧ unplaced again = unplaced element ∧
    write again = write element := by
  have known : ∃ element, element ∈ (read unusual).toOption ∧
      (∀ link ∈ element.links, Recognised link.label link.children) ∧
        ∀ head ∈ element.labels, ∀ text ∈ head.text, Tight text := by
    decide +kernel
  obtain ⟨element, found, recognised, tight⟩ := known
  have readable := mem_toOption.mp found
  obtain ⟨again, reread, _, stable⟩ := reread_of_read readable recognised
  exact ⟨element, again, readable, recognised, reread, stable.mpr tight⟩

end EntityModel.Xml
