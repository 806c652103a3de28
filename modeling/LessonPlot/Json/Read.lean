import LessonPlot.Json.Scan

namespace LessonPlot

namespace Json

/-- How many arrays and objects may lie within each other in a document. -/
def maxNested : Nat := 127

/-- The items of an array after its opening bracket or after an earlier item, each read by a reader
that knows its index. -/
def items {β : Type} (item : Nat → Reader β) : Nat → Nat → Reader (List β)
  | 0, _, _ => .error .malformed
  | fuel + 1, index, text => do
    match ← nextItem (index = 0) text with
    | .closed rest => .ok ([], rest)
    | .item text =>
      let (value, text) ← item index text
      let (values, text) ← items item fuel (index + 1) text
      .ok (value :: values, text)

/-- The members of an object after its opening bracket or after an earlier member. What is known so
far goes to the reader of each member, with its name and the text after the name. -/
def members {σ : Type} (member : String → σ → Reader σ) : Nat → Bool → σ → Reader σ
  | 0, _, _, _ => .error .malformed
  | fuel + 1, first, known, text => do
    match ← nextMember first text with
    | .closed rest => .ok (known, rest)
    | .item text =>
      let (name, text) ← scanQuoted text
      let (known, text) ← member name known text
      members member fuel false known text

/-- A member of an object whose members are kept as they are. -/
def keepMember (value : Reader Json) (name : String) (kept : List (String × Json)) :
    Reader (List (String × Json)) := fun text => do
  let text ← colon text
  let (value, text) ← value text
  .ok (kept ++ [(name, value)], text)

/-- A value that starts at the first character of the text and is neither array nor object. -/
def scalar : Reader Json
  | [] => .error .truncated
  | 'n' :: rest => do .ok (.null, ← scanWord "ull".toList rest)
  | 't' :: rest => do .ok (.boolean true, ← scanWord "rue".toList rest)
  | 'f' :: rest => do .ok (.boolean false, ← scanWord "alse".toList rest)
  | '"' :: rest => (scanQuoted rest).map fun (text, rest) => (.string text, rest)
  | '-' :: rest => (scanNumber true rest).map fun (value, rest) => (.number value, rest)
  | c :: rest =>
    if c.isDigit then (scanNumber false (c :: rest)).map fun (value, rest) => (.number value, rest)
    else .error .malformed

/-- A value with at most the given number of arrays and objects within each other. -/
def valueWithin : Nat → Reader Json
  | depth, text =>
    match skipBlanks text with
    | '[' :: rest =>
      match depth with
      | 0 => .error .malformed
      | depth + 1 =>
        (items (fun _ => valueWithin depth) (rest.length + 1) 0 rest).map
          fun (values, rest) => (.array values, rest)
    | '{' :: rest =>
      match depth with
      | 0 => .error .malformed
      | depth + 1 =>
        (members (keepMember (valueWithin depth)) (rest.length + 1) true [] rest).map
          fun (kept, rest) => (.object kept, rest)
    | text => scalar text

/-- The fault of a value that has a shape which is not expected: a fault within it comes first,
except that arrays and objects are not looked into. -/
def unexpected {β : Type} (text : List Char) : Except Fault β :=
  match skipBlanks text with
  | '[' :: _ => .error (.mismatch [])
  | '{' :: _ => .error (.mismatch [])
  | text => do
    let _ ← scalar text
    .error (.mismatch [])

def readString : Reader String := fun text =>
  match skipBlanks text with
  | '"' :: rest => scanQuoted rest
  | text => unexpected text

def readFloat : Reader Float := fun text =>
  match skipBlanks text with
  | '-' :: rest => (scanNumber true rest).map fun (value, rest) => (value.toFloat, rest)
  | text =>
    if (text.head?.map Char.isDigit).getD false then
      (scanNumber false text).map fun (value, rest) => (value.toFloat, rest)
    else unexpected text

/-- An item of an array of known length. -/
def readItem {β : Type} (index : Nat) (item : Reader β) : Reader β := fun text => do
  match ← nextItem (index = 0) text with
  | .closed _ => .error (.mismatch [])
  | .item text => item.under (.item index) text

/-- An array of exactly two numbers. -/
def readPair : Reader (Float × Float) := fun text =>
  match skipBlanks text with
  | '[' :: rest => do
    let (first, rest) ← readItem 0 readFloat rest
    let (second, rest) ← readItem 1 readFloat rest
    .ok ((first, second), ← closeArray rest)
  | text => unexpected text

/-- An array of any length. -/
def readArray {β : Type} (item : Reader β) : Reader (List β) := fun text =>
  match skipBlanks text with
  | '[' :: rest =>
    items (fun index => item.under (.item index)) (rest.length + 1) 0 rest
  | text => unexpected text

end Json

end LessonPlot
