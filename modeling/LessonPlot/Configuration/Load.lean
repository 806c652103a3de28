import LessonPlot.Configuration.Issues
import LessonPlot.Configuration.Read

namespace LessonPlot

/-- The reasons for which a text is no configuration, or none that is accepted. -/
inductive LoadError where
  | unreadable (fault : Fault)
  | trailingText
  | invalid (issues : List Issue)

/-- The texts of several problems in a row. -/
def Issue.messages (issues : List Issue) : String :=
  String.intercalate "; " (issues.map Issue.message)

namespace Configuration

/-- Reads a configuration from the whole of a text. Expressions are not looked at. -/
def load (text : String) : Except LoadError Configuration :=
  match read text.toList with
  | .error fault => .error (.unreadable fault)
  | .ok (configuration, rest) =>
    if (skipBlanks rest).isEmpty then .ok configuration else .error .trailingText

/-- Reads a configuration and refuses one that has problems. -/
def loadUntrusted (text : String) : Except LoadError Configuration := do
  let configuration ← load text
  match configuration.validate with
  | .ok () => .ok configuration
  | .error issues => .error (.invalid issues)

end Configuration

end LessonPlot
