import EntityModel.Proofs.Catalog.Classified
import EntityModel.Proofs.Workspace.Reachable

/-
**Kinds by place, after every history.**

* `Command.standsAlone`, `Workspace.absorbsNone` — no command inserts an element that the node above
  would keep as part of itself.
* `classified_after` — **after such a history every node has the kind of its place**, and is a node of
  its own there; `placed_after` — after all histories it has that kind.
-/

namespace EntityModel

/-- The command inserts no element that the node above would keep as part of itself. -/
def Command.standsAlone (workspace : Workspace) : Command → Bool
  | .insertElement parent _ element =>
    match workspace.editable parent with
    | .ok site => !site.node.kind.absorbs element.label.tag
    | .error _ => true
  | _ => true

namespace Workspace

/-- No command of the history inserts such an element. -/
def absorbsNone (workspace : Workspace) : List Command → Bool
  | [] => true
  | command :: commands =>
    command.standsAlone workspace && (workspace.next command).absorbsNone commands

section Commands

variable {admits : Kind → String → Prop}
  (apart : ∀ kind tag, Kind.SetsApart kind tag → admits kind tag) {workspace after : Workspace}

/-- The element is admitted below the place. -/
def Admitted (admits : Kind → String → Prop) (site : Site) (element : Element) : Prop :=
  admits site.node.kind element.label.tag

include apart in
theorem classified_edit (classified : workspace.catalog.Classified admits)
    (coherent : workspace.Coherent) (edit : Edit (Admitted admits) workspace after) :
    after.catalog.Classified admits := by
  cases edit with
  | «open» closed => exact classified
  | @write id change rewrites =>
    refine classified.reworked (Catalog.reworked_modify _ rewrites.inPlaceBut id) ?_ ?_ ?_
    · intro node
      obtain ⟨_, _, _, _, same⟩ := rewrites.only id node
      rw [same]
    · intro node
      obtain ⟨_, _, start, _, same⟩ := rewrites.only id node
      rw [same]
      exact start.tag
    · intro node
      obtain ⟨_, _, _, _, same⟩ := rewrites.only id node
      rw [same]
  | load uri layer root =>
    exact @Catalog.Classified.grown _ _ _ classified apart layer [] _ root rfl
      (Catalog.grown_addDocument _ uri layer root)
  | @insert site index element member fit =>
    have nearest : (site.ancestors.map Node.kind).head? = site.ancestors.head?.map Node.kind :=
      List.head?_map
    have placed : Placed admits site.document.layer ((site.node :: site.ancestors).map Node.kind)
        (site.node.kind.ofNested (site.ancestors.head?.map Node.kind) element.label.tag)
        element.label.tag :=
      ⟨fit, by rw [nearest]⟩
    exact classified.grown apart placed (Catalog.grown_insertUnder coherent.numbered member index element)
  | unload member => exact classified
  | delete member => exact classified

include apart in
theorem classified_edits (classified : workspace.catalog.Classified admits)
    (coherent : workspace.Coherent) (edits : Edits (Admitted admits) workspace after) :
    after.catalog.Classified admits := by
  induction edits with
  | refl => exact classified
  | @tail between after before edit ih =>
    have reached : Edits (Admitted admits) workspace between := before
    exact classified_edit apart ih (coherent.edits reached) edit

theorem classified_commit (classified : workspace.catalog.Classified admits)
    (coherent : workspace.Coherent) {report : Report}
    (done : workspace.commit = .ok (after, report)) : after.catalog.Classified admits := by
  obtain ⟨transaction, course, opened, runs, rfl⟩ := coherent.runs_of_commit done
  have cleared : course.cleared.workspace.catalog.Classified admits :=
    classified.of_subset fun row live => (runs.removal.mem_rows.mp live).1
  exact cleared.inPlace runs.reworked course.inPlace_change

include apart in
theorem classified_turn (classified : workspace.catalog.Classified admits)
    (coherent : workspace.Coherent) (turn : Turn (Admitted admits) workspace after) :
    after.catalog.Classified admits := by
  cases turn with
  | edit edits => exact classified_edits apart classified coherent edits
  | commit edits done =>
    exact classified_commit (classified_edits apart classified coherent edits)
      (coherent.edits edits) done
  | rebind member owner ready held =>
    exact classified.inPlace (reworked_applied workspace _ _)
      ((inPlace_keepSlots _ _).of_cases (onlyAt_cases _ _))

theorem classified_visit (classified : workspace.catalog.Classified admits)
    (coherent : workspace.Coherent) (visit : Visit workspace after) :
    after.catalog.Classified admits := by
  cases visit with
  | parse member =>
    exact classified.inPlace (reworked_parsed workspace _)
      ((inPlace_read _).of_cases (onlyAt_cases _ _))
  | normalize member =>
    exact classified.inPlace (reworked_normalized workspace _)
      ((inPlace_named _).of_cases (onlyAt_cases _ _))
  | resolve member =>
    exact classified.inPlace (reworked_resolved coherent.toSound member)
      ((inPlace_answered _).of_cases (onlyAt_cases _ _))

include apart in
theorem classified_next (classified : workspace.catalog.Classified admits)
    (coherent : workspace.Coherent) {command : Command}
    (admitted : ∀ parent index element, command = .insertElement parent index element →
      ∀ site, workspace.editable parent = .ok site → Admitted admits site element) :
    (workspace.next command).catalog.Classified admits := by
  refine @next_of_perform _ _ (fun after => after.catalog.Classified admits) classified fun done => ?_
  by_cases plain : command.isTransactional = true
  · exact classified_turn apart classified coherent (turn_of_perform plain done admitted)
  · exact classified_visit classified coherent
      (visit_of_perform (Bool.eq_false_iff.mpr plain) done)

end Commands

/-- **After a history in which no element is absorbed every node has the kind of its place**, and is
a node of its own there. -/
theorem classified_after {options : Options} {commands : List Command}
    (alone : (ofOptions options).absorbsNone commands = true) :
    ((ofOptions options).after commands).catalog.Classified Kind.SetsApart := by
  suffices each : ∀ {workspace : Workspace}, workspace.catalog.Classified Kind.SetsApart →
      workspace.Coherent → workspace.absorbsNone commands = true →
        (workspace.after commands).catalog.Classified Kind.SetsApart from
    each Catalog.classified_empty (coherent_ofOptions options) alone
  clear alone
  unfold Workspace.after
  induction commands with
  | nil => exact fun classified _ _ => classified
  | cons command commands ih =>
    intro workspace classified coherent alone
    rw [absorbsNone, Bool.and_eq_true] at alone
    refine ih (classified_next (fun _ _ own => own) classified coherent ?_) (coherent.next command)
      alone.2
    rintro parent index element rfl site editable
    have apart : (match workspace.editable parent with
        | .ok site => !site.node.kind.absorbs element.label.tag
        | .error _ => true) = true := alone.1
    rw [editable, Bool.not_eq_true'] at apart
    exact apart

/-- **After every history every node has the kind of its place.** -/
theorem placed_after (options : Options) (commands : List Command) :
    ((ofOptions options).after commands).catalog.Classified fun _ _ => True := by
  have kept := @after_of_next
    (fun workspace => workspace.Coherent ∧ workspace.catalog.Classified fun _ _ => True) commands
    (fun command _ both => ⟨both.1.next command,
      classified_next (fun _ _ _ => trivial) both.2 both.1 fun _ _ _ _ _ _ => trivial⟩)
    _ ⟨coherent_ofOptions options, Catalog.classified_empty⟩
  exact kept.2

end Workspace

end EntityModel
