import LessonPlot.Configuration.Basic
import LessonPlot.Json.Read
import LessonPlot.Json.Skip

namespace LessonPlot

/-- The members of an object that was read before its kind was known. -/
abbrev Members := List (String × Json)

namespace Members

/-- The one member of a name, if it is there; nothing at all if there are two. -/
def single? (members : Members) (name : String) : Option (Option Json) :=
  match members.filter (fun member => member.1 = name) with
  | [] => some none
  | [member] => some (some member.2)
  | _ => none

/-- A member that has a default. -/
def withDefault {β : Type} (members : Members) (name : String) (default : β)
    (decode : Json → Option β) : Option β := do
  match ← members.single? name with
  | none => some default
  | some value => decode value

/-- A member that may be absent or null. -/
def optional {β : Type} (members : Members) (name : String) (decode : Json → Option β) :
    Option (Option β) := do
  match ← members.single? name with
  | none => some none
  | some .null => some none
  | some value => (decode value).map some

end Members

namespace Json

def asString : Json → Option String
  | .string text => some text
  | _ => none

def asFloat : Json → Option Float
  | .number value => some value.toFloat
  | _ => none

def asCount : Json → Option Nat
  | .number (.natural value) => some value
  | _ => none

/-- The text of an expression, which may be written as a bare number. -/
def asExpression : Json → Option String
  | .string text => some text
  | .number value => some (plainText value.toFloat)
  | _ => none

def asInterval : Json → Option Interval
  | .array [.number min, .number max] => some ⟨min.toFloat, max.toFloat⟩
  | _ => none

/-- The name of a line style, alone or as the only member of an object that says nothing more. -/
def asLineStyle : Json → Option LineStyle
  | .string name => LineStyle.ofName? name
  | .object [(name, .null)] => LineStyle.ofName? name
  | .object [(name, .object [])] => LineStyle.ofName? name
  | _ => none

end Json

/-- The color of an element that names none. -/
def defaultColor : String := "#3b82f6"

namespace Appearance

def ofMembers? (members : Members) : Option Appearance := do
  let id ← members.withDefault "id" "" Json.asString
  let color ← members.withDefault "color" defaultColor Json.asString
  let strokeWidth ← members.optional "strokeWidth" Json.asFloat
  let style ← members.withDefault "style" .solid Json.asLineStyle
  let label ← members.optional "label" Json.asString
  some ⟨id, color, strokeWidth, style, label⟩

end Appearance

namespace Shape

/-- A coordinate, which is zero where it is not given. -/
def coordinate? (members : Members) (name : String) : Option String :=
  members.withDefault name "0" Json.asExpression

/-- An expression that has no default of its own. -/
def expression? (members : Members) (name : String) : Option String :=
  members.withDefault name "" Json.asExpression

def parametric? (members : Members) : Option Parametric := do
  let x ← expression? members "xExpression"
  let y ← expression? members "yExpression"
  let range ← members.optional "tRange" Json.asInterval
  let steps ← members.optional "steps" Json.asCount
  let variableName ← members.optional "curveVariable" Json.asString
  some ⟨x, y, range, steps, variableName⟩

def segment? (members : Members) : Option Segment := do
  let x1 ← coordinate? members "x1"
  let y1 ← coordinate? members "y1"
  let x2 ← coordinate? members "x2"
  let y2 ← coordinate? members "y2"
  some ⟨x1, y1, x2, y2⟩

def point? (members : Members) : Option Shape := do
  let x ← coordinate? members "x"
  let y ← coordinate? members "y"
  let radius ← members.optional "r" Json.asFloat
  some (point x y radius)

def area? (members : Members) : Option Shape := do
  let y1 ← coordinate? members "y1"
  let y2 ← coordinate? members "y2"
  let opacity ← members.optional "opacity" Json.asFloat
  some (area y1 y2 opacity)

def text? (members : Members) : Option Shape := do
  let x ← coordinate? members "x"
  let y ← coordinate? members "y"
  let content ← members.withDefault "content" "" Json.asString
  let fontSize ← members.optional "fontSize" Json.asFloat
  some (text x y content fontSize)

/-- The shape of a kind, from its own members among others. -/
def ofMembers? (kind : String) (members : Members) : Option Shape :=
  match kind with
  | "function" => (expression? members "expression").map function
  | "parametric" => (parametric? members).map parametric
  | "point" => point? members
  | "line" => (segment? members).map line
  | "vector" => (segment? members).map vector
  | "v-line" => (coordinate? members "x").map vLine
  | "h-line" => (coordinate? members "y").map hLine
  | "area" => area? members
  | "text" => text? members
  | _ => none

end Shape

namespace Element

def ofMembers? (kind : String) (members : Members) : Option Element := do
  let appearance ← Appearance.ofMembers? members
  let shape ← Shape.ofMembers? kind members
  some ⟨appearance, shape⟩

/-- The name of a kind of shape. -/
def readKind : Reader String := fun text => do
  let (kind, text) ← Json.readString text
  if Shape.kinds.contains kind then .ok (kind, text) else .error (.mismatch [])

/-- A value inside an element, which itself lies within two brackets. -/
def readValue : Reader Json :=
  Json.valueWithin (Json.maxNested - 3)

/-- A member of an element: its kind once, anything else as it is. -/
def readMember (name : String) (known : Option String × Members) :
    Reader (Option String × Members) := fun text =>
  if name = "type" then
    match known.1 with
    | some _ => .error (.mismatch [])
    | none => do
      let text ← Json.colon text
      let (kind, text) ← readKind.under (.member "type") text
      .ok ((some kind, known.2), text)
  else do
    let (members, text) ← Json.keepMember readValue name known.2 text
    .ok ((known.1, members), text)

/-- What an array in place of an element is refused for: its first item is taken for the kind. -/
def refuseArray (text : List Char) : Except Fault (Element × List Char) := do
  let (_, text) ← Json.readItem 0 readKind text
  let _ ← Json.items (fun _ => readValue) (text.length + 1) 1 text
  .error (.mismatch [])

/-- An element; what is wrong with its members is only seen after its closing bracket. -/
def read : Reader Element := fun text =>
  match skipBlanks text with
  | '{' :: rest => do
    let ((kind, members), rest) ← Json.members readMember (rest.length + 1) true (none, []) rest
    match kind.bind (fun kind => ofMembers? kind members) with
    | some element => .ok (element, rest)
    | none => .error (.mismatch [])
  | '[' :: rest => refuseArray rest
  | text => Json.unexpected text

end Element

namespace Configuration

def readInterval : Reader Interval := fun text =>
  (Json.readPair text).map fun (pair, text) => (⟨pair.1, pair.2⟩, text)

/-- What is known of a configuration while its members are read. -/
structure Draft where
  xDomain : Option Interval
  yDomain : Option Interval
  parameterRange : Option Interval
  parameterLabel : Option String
  elements : Option (List Element)

namespace Draft

def empty : Draft := ⟨none, none, none, none, none⟩

/-- The configuration if nothing is missing; a label and elements have defaults. -/
def complete? (draft : Draft) : Option Configuration := do
  let xDomain ← draft.xDomain
  let yDomain ← draft.yDomain
  let parameterRange ← draft.parameterRange
  some ⟨xDomain, yDomain, parameterRange, draft.parameterLabel.getD "",
    draft.elements.getD []⟩

/-- Reads the value of a member that must not have been there before. -/
def readOnce {β : Type} (name : String) (before : Option β) (value : Reader β) : Reader β :=
  fun text =>
    match before with
    | some _ => .error (.mismatch [])
    | none => do
      let text ← Json.colon text
      value.under (.member name) text

/-- A member of a configuration; a member of another name is passed over. -/
def readMember (name : String) (draft : Draft) : Reader Draft := fun text =>
  match name with
  | "xDomain" =>
    (readOnce name draft.xDomain readInterval text).map fun (value, text) =>
      ({ draft with xDomain := some value }, text)
  | "yDomain" =>
    (readOnce name draft.yDomain readInterval text).map fun (value, text) =>
      ({ draft with yDomain := some value }, text)
  | "paramRange" =>
    (readOnce name draft.parameterRange readInterval text).map fun (value, text) =>
      ({ draft with parameterRange := some value }, text)
  | "paramLabel" =>
    (readOnce name draft.parameterLabel Json.readString text).map fun (value, text) =>
      ({ draft with parameterLabel := some value }, text)
  | "elements" =>
    (readOnce name draft.elements (Json.readArray Element.read) text).map fun (value, text) =>
      ({ draft with elements := some value }, text)
  | _ => do
    let text ← Json.colon text
    .ok (draft, ← Json.skipValue text)

end Draft

/-- The next item of a configuration in the form of an array, or its default at the end. -/
def readOptionalItem {β : Type} (index : Nat) (default : β) (item : Reader β) :
    List Char → Except Fault (β × Json.Next) := fun text => do
  match ← Json.nextItem (index = 0) text with
  | .closed rest => .ok (default, .closed rest)
  | .item text =>
    let (value, text) ← item.under (.item index) text
    .ok (value, .item text)

/-- A configuration in the form of an array, after its opening bracket. -/
def readArray : Reader Configuration := fun text => do
  let (xDomain, text) ← Json.readItem 0 readInterval text
  let (yDomain, text) ← Json.readItem 1 readInterval text
  let (parameterRange, text) ← Json.readItem 2 readInterval text
  match ← readOptionalItem 3 "" Json.readString text with
  | (label, .closed rest) => .ok (⟨xDomain, yDomain, parameterRange, label, []⟩, rest)
  | (label, .item text) =>
    match ← readOptionalItem 4 [] (Json.readArray Element.read) text with
    | (elements, .closed rest) => .ok (⟨xDomain, yDomain, parameterRange, label, elements⟩, rest)
    | (elements, .item text) =>
      .ok (⟨xDomain, yDomain, parameterRange, label, elements⟩, ← Json.closeArray text)

/-- A configuration at the start of a text. -/
def read : Reader Configuration := fun text =>
  match skipBlanks text with
  | '{' :: rest => do
    let (draft, rest) ←
      Json.members Draft.readMember (rest.length + 1) true Draft.empty rest
    match draft.complete? with
    | some configuration => .ok (configuration, rest)
    | none => .error (.mismatch [])
  | '[' :: rest => readArray rest
  | text => Json.unexpected text

end Configuration

end LessonPlot
