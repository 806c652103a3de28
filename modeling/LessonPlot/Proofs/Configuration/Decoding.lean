import LessonPlot.Configuration.Load
import LessonPlot.Configuration.Write
import LessonPlot.Proofs.Json.Documents

namespace LessonPlot

/-- The number that is read where a number was written. -/
def rereadFloat (value : Float) : Option Float :=
  (JsonNumber.real value).reread.bind Json.asFloat

/-- Whether a number is read as an equal one once it has been written. -/
def comesBack (value : Float) : Bool :=
  (rereadFloat value).any (value == ·)

section Present

variable {β : Type}

/-- What a member that may be left out is read as. -/
def rereadPresent (write : β → Json) : Option β → Option (Option Json)
  | none => some none
  | some value => (write value).reread.map some

/-- What a member that may be left out or null stands for. -/
def decodePresent (decode : Json → Option β) : Option Json → Option (Option β)
  | none => some none
  | some .null => some none
  | some json => (decode json).map some

/-- What is read where an optional value was written. -/
def rereadOption (write : β → Json) (decode : Json → Option β) (value : Option β) :
    Option (Option β) :=
  (rereadPresent write value).bind (decodePresent decode)

end Present

namespace Interval

def reread (range : Interval) : Option Interval := do
  let min ← rereadFloat range.min
  let max ← rereadFloat range.max
  some ⟨min, max⟩

theorem asInterval_reread (range : Interval) :
    range.toJson.reread.bind Json.asInterval = range.reread := by
  simp only [toJson, Json.ofPair, Json.ofFloat, Json.reread, Json.rereadItems, reread, rereadFloat]
  cases (JsonNumber.real range.min).reread with
  | none => rfl
  | some min =>
    cases (JsonNumber.real range.max).reread with
    | none => cases min <;> rfl
    | some max => cases min <;> cases max <;> rfl

end Interval

namespace Appearance

/-- The appearance that is read where an appearance was written. -/
def reread (appearance : Appearance) : Option Appearance :=
  (rereadOption Json.ofFloat Json.asFloat appearance.strokeWidth).map fun strokeWidth =>
    { appearance with strokeWidth }

end Appearance

namespace Shape

/-- The shape that is read where a shape was written. -/
def reread : Shape → Option Shape
  | parametric curve =>
    (rereadOption Interval.toJson Json.asInterval curve.range).map fun range =>
      parametric { curve with range }
  | point x y radius => (rereadOption Json.ofFloat Json.asFloat radius).map (point x y)
  | area y1 y2 opacity => (rereadOption Json.ofFloat Json.asFloat opacity).map (area y1 y2)
  | text x y content fontSize =>
    (rereadOption Json.ofFloat Json.asFloat fontSize).map (text x y content)
  | shape => some shape

/-- The number of steps has 64 bits. -/
def Counted : Shape → Prop
  | parametric curve => ∀ steps ∈ curve.steps, steps < Nat.pow 2 64
  | _ => True

end Shape

namespace Members

variable {β : Type} {members : Members} {name : String}

theorem filter_optional (other : String) (write : β → Json) (value : Option β) :
    (Json.optional other write value).filter (fun entry => entry.1 = name) =
      if other = name then Json.optional other write value else [] := by
  cases value with
  | none => simp [Json.optional]
  | some value => by_cases h : other = name <;> simp [Json.optional, h]

theorem single?_append {others : Members} (apart : ∀ entry ∈ others, entry.1 ≠ name) :
    single? (members ++ others) name = single? members name := by
  have none : others.filter (fun entry => entry.1 = name) = [] := by
    simpa [List.filter_eq_nil_iff] using apart
  rw [single?, List.filter_append, none, List.append_nil, single?]

theorem single?_append_of_apart {front : Members} (apart : ∀ entry ∈ front, entry.1 ≠ name) :
    single? (front ++ members) name = single? members name := by
  have none : front.filter (fun entry => entry.1 = name) = [] := by
    simpa [List.filter_eq_nil_iff] using apart
  rw [single?, List.filter_append, none, List.nil_append, single?]

theorem single?_of_filter {write : β → Json} {value : Option β} (h :
    members.filter (fun entry => entry.1 = name) = Json.optional name write value) :
    members.single? name = some (value.map write) := by
  rw [single?, h]
  cases value <;> rfl

theorem optional_eq {json : Option Json} (h : members.single? name = some json)
    (decode : Json → Option β) : members.optional name decode = decodePresent decode json := by
  rw [optional, h]
  cases json with
  | none => rfl
  | some json => cases json <;> rfl

theorem withDefault_eq {json : Json} (h : members.single? name = some (some json)) (default : β)
    (decode : Json → Option β) : members.withDefault name default decode = decode json := by
  rw [withDefault, h]
  rfl

end Members

namespace Json

theorem rereadMembers_append (front back : Members) :
    rereadMembers (front ++ back) =
      (rereadMembers front).bind fun front => (rereadMembers back).map (front ++ ·) := by
  induction front with
  | nil => simp [rereadMembers]
  | cons entry front ih =>
    rw [List.cons_append, rereadMembers, rereadMembers, ih]
    cases entry.2.reread with
    | none => rfl
    | some value =>
      cases rereadMembers front with
      | none => rfl
      | some front => cases rereadMembers back <;> rfl

theorem rereadMembers_optional {β : Type} (name : String) (write : β → Json) (value : Option β) :
    rereadMembers (Json.optional name write value) =
      (rereadPresent write value).map (Json.optional name fun json => json) := by
  cases value with
  | none => rfl
  | some value =>
    simp only [Json.optional, rereadMembers, rereadPresent]
    cases (write value).reread <;> rfl

theorem forall_optional {β : Type} {name : String} {write : β → Json} {value : Option β}
    {P : String × Json → Prop} (h : ∀ x ∈ value, P (name, write x)) :
    ∀ entry ∈ Json.optional name write value, P entry := by
  cases value with
  | none => nofun
  | some x => simpa [Json.optional] using h x rfl

theorem optional_map {β : Type} (name : String) (write : β → Json) (value : Option β) :
    Json.optional name (fun json => json) (value.map write) = Json.optional name write value := by
  cases value <;> rfl

end Json

namespace Appearance

/-- The members of an appearance with a given member for the width. -/
def membersWith (appearance : Appearance) (width : Option Json) : Members :=
  [("id", .string appearance.id), ("color", .string appearance.color)] ++
    Json.optional "strokeWidth" (fun json => json) width ++
    [("style", .string appearance.style.name)] ++
    Json.optional "label" Json.string appearance.label

theorem rereadMembers_members (appearance : Appearance) :
    Json.rereadMembers appearance.members =
      (rereadPresent Json.ofFloat appearance.strokeWidth).map appearance.membersWith := by
  have label : rereadPresent Json.string appearance.label =
      some (appearance.label.map Json.string) := by
    cases appearance.label <;> rfl
  simp only [members, Json.rereadMembers_append, Json.rereadMembers_optional, label]
  cases rereadPresent Json.ofFloat appearance.strokeWidth with
  | none => rfl
  | some width =>
    have spelled : Option.map appearance.membersWith (some width) =
      some (appearance.membersWith width) := rfl
    rw [spelled, membersWith]
    cases appearance.label <;> rfl

/-- The names of the members that every element can have. -/
def names : List String :=
  ["id", "color", "strokeWidth", "style", "label"]

theorem ofName?_name (style : LineStyle) : LineStyle.ofName? style.name = some style := by
  cases style <;> decide

/-- Each member of an appearance is found under its name. -/
theorem single?_membersWith (appearance : Appearance) (width : Option Json) :
    let members := appearance.membersWith width
    members.single? "id" = some (some (.string appearance.id)) ∧
      members.single? "color" = some (some (.string appearance.color)) ∧
      members.single? "strokeWidth" = some width ∧
      members.single? "style" = some (some (.string appearance.style.name)) ∧
      members.single? "label" = some (appearance.label.map Json.string) := by
  intro members
  have strokeWidth : members.single? "strokeWidth" = some (width.map fun json => json) := by
    refine Members.single?_of_filter ?_
    simp [members, membersWith, Members.filter_optional]
  refine ⟨?_, ?_, by simpa using strokeWidth, ?_, ?_⟩
  · simp [members, membersWith, Members.single?, Members.filter_optional]
  · simp [members, membersWith, Members.single?, Members.filter_optional]
  · simp [members, membersWith, Members.single?, Members.filter_optional]
  · refine Members.single?_of_filter ?_
    simp [members, membersWith, Members.filter_optional]

theorem ofMembers?_membersWith (appearance : Appearance) (width : Option Json) {others : Members}
    (apart : ∀ entry ∈ others, entry.1 ∉ names) :
    ofMembers? (appearance.membersWith width ++ others) =
      (decodePresent Json.asFloat width).map fun strokeWidth => { appearance with strokeWidth } := by
  have own (name : String) (member : name ∈ names) :
      Members.single? (appearance.membersWith width ++ others) name =
        Members.single? (appearance.membersWith width) name :=
    Members.single?_append fun entry he same => apart entry he (same ▸ member)
  obtain ⟨id, color, strokeWidth, style, label⟩ := single?_membersWith appearance width
  rw [← own "id" (by decide)] at id
  rw [← own "color" (by decide)] at color
  rw [← own "strokeWidth" (by decide)] at strokeWidth
  rw [← own "style" (by decide)] at style
  rw [← own "label" (by decide)] at label
  have text : decodePresent Json.asString (appearance.label.map Json.string) =
      some appearance.label := by
    cases appearance.label <;> rfl
  simp only [ofMembers?, Members.withDefault_eq id, Members.withDefault_eq color,
    Members.withDefault_eq style, Members.optional_eq strokeWidth, Members.optional_eq label,
    Json.asString, Json.asLineStyle, ofName?_name, text, Option.bind_eq_bind, Option.bind_some]
  cases decodePresent Json.asFloat width <;> rfl

theorem names_membersWith (appearance : Appearance) (width : Option Json) :
    ∀ entry ∈ appearance.membersWith width, entry.1 ∈ names := by
  cases width <;> cases h : appearance.label <;> simp [membersWith, Json.optional, names, h]

end Appearance

namespace Shape

variable {members : Members} {name source : String}

theorem coordinate?_eq (h : members.single? name = some (some (.string source))) :
    coordinate? members name = some source :=
  Members.withDefault_eq h "0" Json.asExpression

theorem expression?_eq (h : members.single? name = some (some (.string source))) :
    expression? members name = some source :=
  Members.withDefault_eq h "" Json.asExpression

/-- The members of a shape with given members for what is not a text. -/
def membersWith (shape : Shape) (number steps : Option Json) : Members :=
  shape.expressionMembers ++
    match shape with
    | parametric curve =>
      Json.optional "tRange" (fun json => json) number ++
        Json.optional "steps" (fun json => json) steps ++
        Json.optional "curveVariable" Json.string curve.variableName
    | point _ _ _ => Json.optional "r" (fun json => json) number
    | area _ _ _ => Json.optional "opacity" (fun json => json) number
    | text _ _ content _ =>
      ("content", .string content) :: Json.optional "fontSize" (fun json => json) number
    | function _ | line _ | vector _ | vLine _ | hLine _ => []

/-- What the one member of a shape that is no text is read as. -/
def rereadNumber : Shape → Option (Option Json)
  | parametric curve => rereadPresent Interval.toJson curve.range
  | point _ _ radius => rereadPresent Json.ofFloat radius
  | area _ _ opacity => rereadPresent Json.ofFloat opacity
  | text _ _ _ fontSize => rereadPresent Json.ofFloat fontSize
  | function _ | line _ | vector _ | vLine _ | hLine _ => some none

/-- The shape with what that member stands for. -/
def decodeNumber (shape : Shape) (number : Option Json) : Option Shape :=
  match shape with
  | parametric curve =>
    (decodePresent Json.asInterval number).map fun range => parametric { curve with range }
  | point x y _ => (decodePresent Json.asFloat number).map (point x y)
  | area y1 y2 _ => (decodePresent Json.asFloat number).map (area y1 y2)
  | text x y content _ => (decodePresent Json.asFloat number).map (text x y content)
  | function _ | line _ | vector _ | vLine _ | hLine _ => some shape

theorem reread_eq (shape : Shape) :
    shape.reread = shape.rereadNumber.bind shape.decodeNumber := by
  cases shape with
  | parametric curve =>
    simp only [reread, rereadNumber, rereadOption]
    cases rereadPresent Interval.toJson curve.range <;> rfl
  | point _ _ number | area _ _ number | text _ _ _ number =>
    simp only [reread, rereadNumber, rereadOption]
    cases rereadPresent Json.ofFloat number <;> rfl
  | function | line | vector | vLine | hLine => rfl

def stepsJson : Shape → Option Json
  | parametric curve => curve.steps.map fun steps => .number (.natural steps)
  | _ => none

theorem rereadMembers_expressionMembers (shape : Shape) :
    Json.rereadMembers shape.expressionMembers = some shape.expressionMembers := by
  unfold expressionMembers
  generalize shape.expressions = fields
  induction fields with
  | nil => rfl
  | cons field fields ih => simp [Json.rereadMembers, ih, Json.reread]

theorem rereadMembers_members {shape : Shape} (counted : shape.Counted) :
    Json.rereadMembers (shape.expressionMembers ++ shape.otherMembers) =
      shape.rereadNumber.map fun number => shape.membersWith number shape.stepsJson := by
  rw [Json.rereadMembers_append, rereadMembers_expressionMembers, Option.bind_some]
  cases shape with
  | function | line | vector | vLine | hLine => rfl
  | parametric curve =>
    have steps : rereadPresent (fun steps => Json.number (.natural steps)) curve.steps =
        some (curve.steps.map fun steps => .number (.natural steps)) := by
      cases h : curve.steps with
      | none => rfl
      | some steps =>
        have natural := JsonNumber.reread_natural (counted steps h)
        simp [rereadPresent, Json.reread, natural]
    have variableName : rereadPresent Json.string curve.variableName =
        some (curve.variableName.map Json.string) := by
      cases curve.variableName <;> rfl
    simp only [otherMembers, Json.rereadMembers_append, Json.rereadMembers_optional, steps,
      variableName, rereadNumber]
    cases rereadPresent Interval.toJson curve.range with
    | none => rfl
    | some range => simp [membersWith, stepsJson, Json.optional_map]
  | point _ _ number | area _ _ number =>
    simp only [otherMembers, Json.rereadMembers_optional, rereadNumber]
    cases rereadPresent Json.ofFloat number <;> rfl
  | text _ _ content number =>
    simp only [otherMembers, Json.rereadMembers, Json.reread, Json.rereadMembers_optional,
      rereadNumber]
    cases rereadPresent Json.ofFloat number <;> rfl

/-- Each expression is found under its name, and is none of the appearance. -/
theorem single?_expression (shape : Shape) (number : Option Json)
    (h : (name, source) ∈ shape.expressions) : name ∉ Appearance.names ∧
      (shape.membersWith number shape.stepsJson).single? name = some (some (.string source)) := by
  cases shape with
  | function | vLine | hLine =>
    simp only [expressions, List.mem_singleton, Prod.mk.injEq] at h
    obtain ⟨rfl, rfl⟩ := h
    exact ⟨by decide, rfl⟩
  | parametric | point | area | text =>
    simp only [expressions, List.mem_cons, List.not_mem_nil, or_false, Prod.mk.injEq] at h
    rcases h with ⟨rfl, rfl⟩ | ⟨rfl, rfl⟩ <;> refine ⟨by decide, ?_⟩ <;>
      simp [membersWith, expressionMembers, expressions, Members.single?, Members.filter_optional]
  | line | vector =>
    simp only [expressions, Segment.expressions, List.mem_cons, List.not_mem_nil, or_false,
      Prod.mk.injEq] at h
    rcases h with ⟨rfl, rfl⟩ | ⟨rfl, rfl⟩ | ⟨rfl, rfl⟩ | ⟨rfl, rfl⟩ <;> exact ⟨by decide, rfl⟩

section Found

variable {number : Option Json}

/-- Every expression of a shape is found under its name. -/
def Found (shape : Shape) (members : Members) : Prop :=
  ∀ {name source : String}, (name, source) ∈ shape.expressions →
    members.single? name = some (some (.string source))

theorem segment?_eq {shape : Shape} {ends : Segment} (found : shape.Found members)
    (h : shape.expressions = ends.expressions) : segment? members = some ends := by
  unfold Found at found
  rw [h] at found
  have x1 := coordinate?_eq (found (.head _))
  have y1 := coordinate?_eq (found (.tail _ (.head _)))
  have x2 := coordinate?_eq (found (.tail _ (.tail _ (.head _))))
  have y2 := coordinate?_eq (found (.tail _ (.tail _ (.tail _ (.head _)))))
  simp only [segment?, x1, y1, x2, y2, Option.bind_eq_bind, Option.bind_some]

theorem parametric?_eq {curve : Parametric} (found : (parametric curve).Found members)
    (range : members.single? "tRange" = some number)
    (steps : members.single? "steps" =
      some (curve.steps.map fun steps => .number (.natural steps)))
    (variableName : members.single? "curveVariable" =
      some (curve.variableName.map Json.string)) :
    (parametric? members).map parametric = (parametric curve).decodeNumber number := by
  have x := expression?_eq (found (.head _))
  have y := expression?_eq (found (.tail _ (.head _)))
  have count : decodePresent Json.asCount
      (curve.steps.map fun steps => .number (.natural steps)) = some curve.steps := by
    cases curve.steps <;> rfl
  have named : decodePresent Json.asString (curve.variableName.map Json.string) =
      some curve.variableName := by
    cases curve.variableName <;> rfl
  simp only [parametric?, decodeNumber, x, y, Members.optional_eq range, Members.optional_eq steps,
    Members.optional_eq variableName, count, named, Option.bind_eq_bind, Option.bind_some]
  cases decodePresent Json.asInterval number <;> rfl

theorem point?_eq {x y : String} {own : Option Float} (found : (point x y own).Found members)
    (radius : members.single? "r" = some number) :
    point? members = (point x y own).decodeNumber number := by
  have readX := coordinate?_eq (found (.head _))
  have readY := coordinate?_eq (found (.tail _ (.head _)))
  simp only [point?, decodeNumber, readX, readY, Members.optional_eq radius]
  cases decodePresent Json.asFloat number <;> rfl

theorem area?_eq {y1 y2 : String} {own : Option Float} (found : (area y1 y2 own).Found members)
    (opacity : members.single? "opacity" = some number) :
    area? members = (area y1 y2 own).decodeNumber number := by
  have read1 := coordinate?_eq (found (.head _))
  have read2 := coordinate?_eq (found (.tail _ (.head _)))
  simp only [area?, decodeNumber, read1, read2, Members.optional_eq opacity]
  cases decodePresent Json.asFloat number <;> rfl

theorem text?_eq {x y content : String} {own : Option Float}
    (found : (text x y content own).Found members)
    (written : members.single? "content" = some (some (.string content)))
    (fontSize : members.single? "fontSize" = some number) :
    text? members = (text x y content own).decodeNumber number := by
  have readX := coordinate?_eq (found (.head _))
  have readY := coordinate?_eq (found (.tail _ (.head _)))
  simp only [text?, decodeNumber, readX, readY, Members.withDefault_eq written,
    Members.optional_eq fontSize, Json.asString, Option.bind_eq_bind, Option.bind_some]
  cases decodePresent Json.asFloat number <;> rfl

end Found

/-- The shape that its members stand for, whatever stands before them. -/
theorem ofMembers?_membersWith (shape : Shape) (number : Option Json) {front : Members}
    (apart : ∀ entry ∈ front, entry.1 ∈ Appearance.names) :
    ofMembers? shape.kind (front ++ shape.membersWith number shape.stepsJson) =
      shape.decodeNumber number := by
  -- No member of the appearance hides one of the shape, since their names are others.
  have own {name : String} (other : name ∉ Appearance.names) :
      Members.single? (front ++ shape.membersWith number shape.stepsJson) name =
        (shape.membersWith number shape.stepsJson).single? name :=
    Members.single?_append_of_apart fun entry he same => other (same ▸ apart entry he)
  have found : shape.Found (front ++ shape.membersWith number shape.stepsJson) := by
    intro name source h
    obtain ⟨other, single⟩ := shape.single?_expression number h
    rw [own other, single]
  have optional {name : String} (other : name ∉ Appearance.names) {json : Option Json}
      (h : (shape.membersWith number shape.stepsJson).filter (fun entry => entry.1 = name) =
        Json.optional name (fun json => json) json) :
      Members.single? (front ++ shape.membersWith number shape.stepsJson) name = some json := by
    rw [own other, Members.single?_of_filter h]
    simp
  cases shape with
  | function source =>
    simp only [kind, ofMembers?, decodeNumber, expression?_eq (found (.head _)), Option.map_some]
  | vLine x =>
    simp only [kind, ofMembers?, decodeNumber, coordinate?_eq (found (.head _)), Option.map_some]
  | hLine y =>
    simp only [kind, ofMembers?, decodeNumber, coordinate?_eq (found (.head _)), Option.map_some]
  | line ends =>
    simp only [kind, ofMembers?, decodeNumber, segment?_eq found rfl, Option.map_some]
  | vector ends =>
    simp only [kind, ofMembers?, decodeNumber, segment?_eq found rfl, Option.map_some]
  | parametric curve =>
    refine parametric?_eq found (optional (by decide) ?_) (optional (by decide) ?_)
      (optional (by decide) ?_) <;>
      simp [membersWith, expressionMembers, expressions, stepsJson, Members.filter_optional,
        Json.optional_map]
  | point x y radius =>
    refine point?_eq found (optional (by decide) ?_)
    simp [membersWith, expressionMembers, expressions, Members.filter_optional]
  | area y1 y2 opacity =>
    refine area?_eq found (optional (by decide) ?_)
    simp [membersWith, expressionMembers, expressions, Members.filter_optional]
  | text x y content fontSize =>
    refine text?_eq found ?_ (optional (by decide) ?_)
    · rw [own (by decide)]
      simp [membersWith, expressionMembers, expressions, Members.single?, Members.filter_optional]
    · simp [membersWith, expressionMembers, expressions, Members.filter_optional]

theorem names_membersWith (shape : Shape) (number : Option Json) :
    ∀ entry ∈ shape.membersWith number shape.stepsJson, entry.1 ∉ Appearance.names := by
  have expressions : ∀ entry ∈ shape.expressionMembers, entry.1 ∉ Appearance.names := by
    intro entry he
    obtain ⟨⟨name, source⟩, field, rfl⟩ := List.mem_map.mp he
    exact (shape.single?_expression number field).1
  refine List.forall_mem_append.mpr ⟨expressions, ?_⟩
  cases shape with
  | function | line | vector | vLine | hLine => nofun
  | point | area => exact Json.forall_optional fun _ _ => by simp [Appearance.names]
  | text =>
    exact List.forall_mem_cons.mpr
      ⟨by simp [Appearance.names], Json.forall_optional fun _ _ => by simp [Appearance.names]⟩
  | parametric =>
    simp only [List.forall_mem_append]
    refine ⟨⟨?_, ?_⟩, ?_⟩ <;> exact Json.forall_optional fun _ _ => by simp [Appearance.names]

end Shape

namespace Element

/-- The element that is read where an element was written. -/
def reread (element : Element) : Option Element := do
  let appearance ← element.appearance.reread
  let shape ← element.shape.reread
  some ⟨appearance, shape⟩

/-- The members of an element after its kind. -/
def members (element : Element) : Members :=
  element.appearance.members ++ element.shape.expressionMembers ++ element.shape.otherMembers

theorem ofMembers?_reread {element : Element} (counted : element.shape.Counted) :
    (Json.rereadMembers element.members).bind (ofMembers? element.shape.kind) =
      element.reread := by
  obtain ⟨appearance, shape⟩ := element
  simp only [members, List.append_assoc, Json.rereadMembers_append appearance.members,
    Appearance.rereadMembers_members, Shape.rereadMembers_members counted, reread,
    shape.reread_eq, Appearance.reread, rereadOption]
  cases rereadPresent Json.ofFloat appearance.strokeWidth with
  | none => rfl
  | some width =>
    cases shape.rereadNumber with
    | none => simp
    | some number =>
      have apart : ∀ entry ∈ shape.membersWith number shape.stepsJson,
          entry.1 ∉ Appearance.names := shape.names_membersWith number
      have common := appearance.ofMembers?_membersWith width apart
      have own := shape.ofMembers?_membersWith number (appearance.names_membersWith width)
      simp only [Option.map_some, Option.bind_some, ofMembers?, common, own]

end Element

end LessonPlot
