import EntityModel.Findings
import EntityModel.Json.Basic

/-
**The report of findings.**

* `Finding.report` — findings as a JSON text over several lines: how many are errors and warnings,
  and each with its node, place and wording.
-/

namespace EntityModel

/-- The position as a JSON object, counted from zero. -/
def Position.toJson (position : Position) : Json :=
  .record [("line", .nat position.line), ("column", .nat position.column)]

/-- The span as a JSON object. -/
def Span.toJson (span : Span) : Json :=
  .record [("start", span.start.toJson), ("end", span.stop.toJson)]

namespace Finding

/-- A finding as a JSON object. -/
def toJson (finding : Finding) : Json :=
  .record
    [("node", .nat finding.node.number),
      ("role", (finding.problem.role?.map Json.text).getD .null),
      ("kind", .text finding.problem.category.name),
      ("severity", .text finding.severity.name),
      ("code", .text finding.problem.code),
      ("message", .text finding.problem.message),
      ("span", (finding.span.map Span.toJson).getD .null)]

/-- The report of findings. -/
def report (findings : List Finding) : String :=
  Json.pretty <| .record
    [("errors", .nat (count .error findings)),
      ("warnings", .nat (count .warning findings)),
      ("findings", .array (findings.map toJson))]

end Finding

end EntityModel
