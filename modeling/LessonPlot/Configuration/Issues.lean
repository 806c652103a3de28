import LessonPlot.Configuration.Basic

namespace LessonPlot

/-- What a careful reader of a configuration would object to. -/
inductive Issue where
  | invalidDomain (axis : String) (range : Interval)
  | invalidParameterRange (range : Interval)
  | emptyId (index : Nat)
  | duplicateId (id : String)
  | expression (id field text : String) (error : ParseError)
  | zeroSteps (id : String)
  | invalidCurveRange (id : String) (range : Interval)
  | invalidCurveVariable (id name : String)

namespace Issue

def ofElement (id : String) : String :=
  "element " ++ backquoted id ++ ": "

def message : Issue → String
  | invalidDomain axis range =>
    axis ++ " must be finite with min < max, found " ++ range.text
  | invalidParameterRange range => "paramRange must be finite, found " ++ range.text
  | emptyId index => s!"element #{index} has an empty id"
  | duplicateId id => "element id " ++ backquoted id ++ " is used more than once"
  | expression id field text error =>
    ofElement id ++ field ++ " " ++ backquoted text ++ " is invalid: " ++ error.message
  | zeroSteps id => ofElement id ++ "steps must be at least 1"
  | invalidCurveRange id range => ofElement id ++ "tRange must be finite, found " ++ range.text
  | invalidCurveVariable id name =>
    ofElement id ++ backquoted name ++ " cannot name a curve variable"

end Issue

namespace Element

/-- The problems of an identifier, given its index and the identifiers before it. -/
def idIssues (element : Element) (index : Nat) (earlier : List String) : List Issue :=
  if element.id.isEmpty then [.emptyId index]
  else if earlier.contains element.id then [.duplicateId element.id]
  else []

/-- The expressions that do not compile in the scope of the element. -/
def expressionIssues (element : Element) : List Issue :=
  element.shape.expressions.filterMap fun (field, text) =>
    match (element.shape.scope.compile text : Except ParseError (RealExpression Float)) with
    | .ok _ => none
    | .error error => some (.expression element.id field text error)

/-- Whether a name can be that of a curve variable. -/
def isCurveVariable (name : String) : Bool :=
  isBindable name && name ≠ Scope.parameterAlways

/-- The problems that are looked for in what is shown. After a curve variable that cannot be used
nothing else is looked at: neither the steps and the range of the curve nor its expressions. -/
def shapeIssues (element : Element) : List Issue :=
  match element.shape with
  | .parametric curve =>
    if !isCurveVariable curve.curveVariable then
      [.invalidCurveVariable element.id curve.curveVariable]
    else
      (if curve.stepCount = 0 then [.zeroSteps element.id] else []) ++
        (if curve.curveRange.isFinite then []
          else [.invalidCurveRange element.id curve.curveRange]) ++
        element.expressionIssues
  | _ => element.expressionIssues

/-- The problems of some elements in order, given the identifiers of those before them. -/
def issuesFrom (earlier : List String) : List Element → List Issue
  | [] => []
  | element :: rest =>
    element.idIssues earlier.length earlier ++ element.shapeIssues ++
      issuesFrom (earlier ++ [element.id]) rest

end Element

namespace Configuration

def domainIssues (axis : String) (range : Interval) : List Issue :=
  if range.isProper then [] else [.invalidDomain axis range]

/-- The problems that are found in a configuration, those of the domains first and then those of the
elements in order. They are all problems that it has, but for the curves whose variable cannot be
used: of such a curve only the identifier and the variable are reported. A parameter range of a
single point is no problem. -/
def issues (configuration : Configuration) : List Issue :=
  domainIssues "xDomain" configuration.xDomain ++ domainIssues "yDomain" configuration.yDomain ++
    (if configuration.parameterRange.isFinite then []
      else [.invalidParameterRange configuration.parameterRange]) ++
    Element.issuesFrom [] configuration.elements

/-- Accepts a configuration without problems. -/
def validate (configuration : Configuration) : Except (List Issue) Unit :=
  let issues := configuration.issues
  if issues.isEmpty then .ok () else .error issues

end Configuration

end LessonPlot
