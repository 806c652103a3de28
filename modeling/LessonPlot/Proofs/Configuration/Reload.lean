import LessonPlot.Proofs.Configuration.Counts
import LessonPlot.Proofs.Configuration.Reading

namespace LessonPlot

namespace Interval

def numbers (range : Interval) : List Float :=
  [range.min, range.max]

theorem agrees_reread (range : Interval) :
    range.reread.any range.agrees = range.numbers.all comesBack := by
  simp only [reread, numbers, List.all_cons, List.all_nil, comesBack, Bool.and_true]
  cases rereadFloat range.min with
  | none => rfl
  | some min => cases rereadFloat range.max <;> simp [agrees]

end Interval

/-- What is read where a value was written that may be left out: a null in its place is no value. -/
theorem any_rereadOption {β : Type} {write : β → Json} {decode : Json → Option β}
    (null : decode .null = none) {agrees : Option β → Bool} {same : β → Bool}
    (absent : agrees none = false) (present : ∀ value, agrees (some value) = same value)
    (value : β) : (rereadOption write decode (some value)).any agrees =
      ((write value).reread.bind decode).any same := by
  have written : rereadPresent write (some value) = (write value).reread.map some := rfl
  have given (json : Json) : ((decode json).map some).any agrees = (decode json).any same := by
    cases decode json with
    | none => rfl
    | some again => exact present again
  rw [rereadOption, written]
  cases (write value).reread with
  | none => rfl
  | some json =>
    cases json with
    | null =>
      have empty : decodePresent decode (some .null) = some none := rfl
      simp [empty, null, absent]
    | boolean | number | string | array | object => exact given _

/-- An optional number agrees with what is read where it was written just if it comes back. -/
theorem numbersAgree_reread (value : Option Float) :
    (rereadOption Json.ofFloat Json.asFloat value).any (numbersAgree value) =
      value.toList.all comesBack := by
  cases value with
  | none => rfl
  | some value =>
    rw [any_rereadOption rfl rfl (fun _ => rfl) value, Option.toList_some, List.all_cons,
      List.all_nil, Bool.and_true]
    rfl

/-- Whether an optional range agrees with another. -/
def rangesAgree : Option Interval → Option Interval → Bool
  | none, none => true
  | some range, some other => range.agrees other
  | _, _ => false

theorem rangesAgree_reread (range : Option Interval) :
    (rereadOption Interval.toJson Json.asInterval range).any (rangesAgree range) =
      (range.toList.flatMap Interval.numbers).all comesBack := by
  cases range with
  | none => rfl
  | some range =>
    have same (other : Interval) :
        rangesAgree (some range) (some other) = range.agrees other := rfl
    rw [any_rereadOption rfl rfl same range, range.asInterval_reread]
    simpa using range.agrees_reread

theorem Parametric.agrees_range (curve : Parametric) (range : Option Interval) :
    curve.agrees { curve with range } = rangesAgree curve.range range := by
  obtain ⟨x, y, own, steps, variableName⟩ := curve
  cases own <;> cases range <;> simp [agrees, rangesAgree]

namespace Shape

/-- The numbers of a shape; its coordinates are texts. -/
def numbers : Shape → List Float
  | parametric curve => curve.range.toList.flatMap Interval.numbers
  | point _ _ number | area _ _ number | text _ _ _ number => number.toList
  | function _ | line _ | vector _ | vLine _ | hLine _ => []

theorem agrees_reread (shape : Shape) :
    shape.reread.any shape.agrees = shape.numbers.all comesBack := by
  cases shape with
  | function | line | vector | vLine | hLine => simp [reread, agrees, numbers]
  | parametric curve =>
    rw [numbers, ← rangesAgree_reread, reread, Option.any_map]
    congr
    funext again
    exact curve.agrees_range again
  | point _ _ number | area _ _ number | text _ _ _ number =>
    rw [numbers, ← numbersAgree_reread, reread, Option.any_map]
    congr
    funext again
    simp [agrees]

end Shape

namespace Element

def numbers (element : Element) : List Float :=
  element.appearance.strokeWidth.toList ++ element.shape.numbers

theorem agrees_reread (element : Element) :
    element.reread.any element.agrees = element.numbers.all comesBack := by
  rw [numbers, List.all_append, ← numbersAgree_reread, ← element.shape.agrees_reread, reread,
    Appearance.reread]
  cases rereadOption Json.ofFloat Json.asFloat element.appearance.strokeWidth with
  | none => rfl
  | some strokeWidth =>
    cases element.shape.reread with
    | none => simp
    | some shape => simp [agrees, Appearance.agrees]

end Element

namespace Configuration

/-- Every number of a configuration, its elements included. -/
def numbers (configuration : Configuration) : List Float :=
  configuration.xDomain.numbers ++ configuration.yDomain.numbers ++
    configuration.parameterRange.numbers ++ configuration.elements.flatMap Element.numbers

theorem elements_agree_reread (elements : List Element) :
    (elements.mapM Element.reread).any (fun others =>
        elements.length = others.length && (List.zipWith Element.agrees elements others).all id) =
      (elements.flatMap Element.numbers).all comesBack := by
  induction elements with
  | nil => rfl
  | cons element elements ih =>
    rw [List.flatMap_cons, List.all_append, ← ih, ← element.agrees_reread, List.mapM_cons]
    cases element.reread with
    | none => rfl
    | some again =>
      cases elements.mapM Element.reread with
      | none => simp
      | some others => simp [Bool.and_left_comm]

theorem agrees_reread (configuration : Configuration) :
    configuration.reread.any configuration.agrees = configuration.numbers.all comesBack := by
  simp only [numbers, List.all_append, ← Interval.agrees_reread, ← elements_agree_reread, reread]
  cases configuration.xDomain.reread with
  | none => rfl
  | some xDomain =>
    cases configuration.yDomain.reread with
    | none => simp
    | some yDomain =>
      cases configuration.parameterRange.reread with
      | none => simp
      | some parameterRange =>
        cases configuration.elements.mapM Element.reread with
        | none => simp
        | some elements => simp [agrees, Bool.and_assoc]

/-- What was loaded is loaded again from the text it is saved as just if each of its numbers comes
back from the digits that are written for it. -/
theorem reloads_iff {text : String} {configuration : Configuration}
    (h : load text = .ok configuration) :
    (∃ again, load configuration.save = .ok again ∧ configuration.agrees again = true) ↔
      ∀ value ∈ configuration.numbers, comesBack value = true := by
  have again := toOption_load_save (load_counted h)
  have agrees := configuration.agrees_reread
  rw [← List.all_eq_true, ← agrees, ← again]
  cases load configuration.save with
  | error fault => simp
  | ok again => simp

/-- A text with a fraction, an exponent and an element. -/
def parabola : String :=
  "\x7b\"xDomain\":[-2.5,5],\"yDomain\":[0,1e3],\"paramRange\":[0,1],\"elements\":[" ++
    "\x7b\"id\":\"f\",\"type\":\"function\",\"expression\":\"x^2\",\"strokeWidth\":1.5\x7d]\x7d"

theorem reloads_parabola : ∃ configuration, load parabola = .ok configuration ∧
    (∀ value ∈ configuration.numbers, comesBack value = true) ∧
      ∃ again, load configuration.save = .ok again ∧ configuration.agrees again = true := by
  have loaded : (load parabola).toOption.any (fun configuration =>
      configuration.numbers.all comesBack) = true := by
    decide +kernel
  cases h : load parabola with
  | error fault => simp [h] at loaded
  | ok configuration =>
    rw [h, toOption_ok, Option.any_some, List.all_eq_true] at loaded
    exact ⟨configuration, rfl, loaded, (reloads_iff h).mpr loaded⟩

/-- A text with a number whose digits, once a zero follows the point, exceed 53 bits. -/
def farDomain : String :=
  "\x7b\"xDomain\":[0,4082023065563906],\"yDomain\":[0,1],\"paramRange\":[0,1]\x7d"

/-- The far end of the domain is written `4082023065563906.0`. All its digits are taken in as one
whole number, which is rounded before it is divided by ten, so that the end moves by a half. -/
theorem exists_load_not_reloaded : ¬ ∀ text configuration, load text = .ok configuration →
    ∃ again, load configuration.save = .ok again ∧ configuration.agrees again = true := by
  intro always
  have moved : (load farDomain).toOption.any (fun configuration =>
      (load configuration.save).toOption.any fun again => !configuration.agrees again) = true := by
    decide +kernel
  cases h : load farDomain with
  | error fault => simp [h] at moved
  | ok configuration =>
    obtain ⟨again, reloaded, agrees⟩ := always farDomain configuration h
    simp [h, reloaded, agrees] at moved

end Configuration

end LessonPlot
