namespace LessonPlot

/-- A number in a document: whole numbers of 64 bits are kept apart from all others. -/
inductive JsonNumber where
  | natural (value : Nat)
  | negative (magnitude : Nat)
  | real (value : Float)

/-- A document; the members of an object are in the order of writing. -/
inductive Json where
  | null
  | boolean (value : Bool)
  | number (value : JsonNumber)
  | string (value : String)
  | array (items : List Json)
  | object (members : List (String × Json))

namespace JsonNumber

def toFloat : JsonNumber → Float
  | natural value => Float.ofNat value
  | negative magnitude => -Float.ofNat magnitude
  | real value => value

end JsonNumber

namespace Json

def ofFloat (value : Float) : Json :=
  .number (.real value)

def ofPair (pair : Float × Float) : Json :=
  .array [ofFloat pair.1, ofFloat pair.2]

/-- A member that is left out where there is no value. -/
def optional {β : Type} (name : String) (write : β → Json) : Option β → List (String × Json)
  | none => []
  | some value => [(name, write value)]

end Json

end LessonPlot
