import LessonPlot.Expression.Build
import LessonPlot.Proofs.Evaluation.Refinement
import LessonPlot.Proofs.Float.Comparison
import Mathlib.Data.List.Forall2

namespace LessonPlot

variable {α : Type} [Scalar α]

/-- Whether one value is on the near side of another: not above it for a minimum, not below it for
a maximum. -/
def Extremum.bounds (which : Extremum) (x value : α) : Bool :=
  match which with
  | .min => Scalar.lessEqual x value
  | .max => Scalar.lessEqual value x

/-- What an extremum of some values is: no number if one of them is none, and else equal to one of
them and a bound of all. -/
structure IsExtremum (which : Extremum) (values : List α) (x : α) : Prop where
  isNaN_iff : Scalar.isNaN x = true ↔ ∃ value ∈ values, Scalar.isNaN value = true
  attained : Scalar.isNaN x = false → ∃ value ∈ values, Scalar.equal x value = true
  bounds : Scalar.isNaN x = false → ∀ value ∈ values, which.bounds x value = true

/-- The same but for the sign of a zero. -/
def SameUpToZero (x y : α) : Prop :=
  x = y ∨ Scalar.equal x Scalar.zero = true ∧ Scalar.equal y Scalar.zero = true

section Values

variable [LawfulScalar α] {which : Extremum} {values others : List α} {x y z : α}

theorem lessEqual_refl (number : Scalar.isNaN x = false) : Scalar.lessEqual x x = true :=
  (LawfulScalar.lessEqual_total number number).elim id id

theorem equal_refl (number : Scalar.isNaN x = false) : Scalar.equal x x = true :=
  LawfulScalar.equal_iff.mpr ⟨lessEqual_refl number, lessEqual_refl number⟩

theorem Extremum.bounds_refl (which : Extremum) (number : Scalar.isNaN x = false) :
    which.bounds x x = true := by
  cases which <;> exact lessEqual_refl number

theorem Extremum.bounds_trans (xy : which.bounds x y = true) (yz : which.bounds y z = true) :
    which.bounds x z = true := by
  cases which with
  | min => exact LawfulScalar.lessEqual_trans xy yz
  | max => exact LawfulScalar.lessEqual_trans yz xy

theorem Extremum.equal_of_bounds (xy : which.bounds x y = true) (yx : which.bounds y x = true) :
    Scalar.equal x y = true := by
  cases which with
  | min => exact LawfulScalar.equal_iff.mpr ⟨xy, yx⟩
  | max => exact LawfulScalar.equal_iff.mpr ⟨yx, xy⟩

theorem Extremum.bounds_of_equal (same : Scalar.equal x y = true) : which.bounds y x = true := by
  obtain ⟨le, ge⟩ := LawfulScalar.equal_iff.mp same
  cases which with
  | min => exact ge
  | max => exact le

theorem lessEqual_of_less (nx : Scalar.isNaN x = false) (ny : Scalar.isNaN y = false)
    (less : Scalar.less x y = true) : Scalar.lessEqual x y = true := by
  have ge := (LawfulScalar.less_iff nx ny).mp less
  exact (LawfulScalar.lessEqual_total nx ny).resolve_right ge

theorem lessEqual_of_not_less (nx : Scalar.isNaN x = false) (ny : Scalar.isNaN y = false)
    (not : ¬Scalar.less x y = true) : Scalar.lessEqual y x = true := by
  rwa [LawfulScalar.less_iff nx ny, not_not] at not

/-- Of two numbers the extremum is one that bounds both. -/
theorem extremum_of_numbers (which : Extremum) (nx : Scalar.isNaN x = false)
    (ny : Scalar.isNaN y = false) :
    (Scalar.extremum which x y = x ∨ Scalar.extremum which x y = y) ∧
      which.bounds (Scalar.extremum which x y) x = true ∧
      which.bounds (Scalar.extremum which x y) y = true := by
  have numbers : ¬(Scalar.isNaN x || Scalar.isNaN y) = true := by simp [nx, ny]
  unfold Scalar.extremum
  rw [if_neg numbers]
  cases which with
  | min =>
    dsimp only
    split
    next less => exact ⟨.inl rfl, lessEqual_refl nx, lessEqual_of_less nx ny less⟩
    next not => exact ⟨.inr rfl, lessEqual_of_not_less nx ny not, lessEqual_refl ny⟩
  | max =>
    dsimp only
    split
    next less => exact ⟨.inl rfl, lessEqual_refl nx, lessEqual_of_less ny nx less⟩
    next not => exact ⟨.inr rfl, lessEqual_of_not_less ny nx not, lessEqual_refl ny⟩

theorem isNaN_extremum_iff : Scalar.isNaN (Scalar.extremum which x y) = true ↔
    Scalar.isNaN x = true ∨ Scalar.isNaN y = true := by
  by_cases none : (Scalar.isNaN x || Scalar.isNaN y) = true
  · unfold Scalar.extremum
    rw [if_pos none]
    exact iff_of_true LawfulScalar.isNaN_notANumber (Bool.or_eq_true_iff.mp none)
  · have numbers : Scalar.isNaN x = false ∧ Scalar.isNaN y = false := by simpa using none
    obtain ⟨nx, ny⟩ := numbers
    rw [nx, ny]
    obtain ⟨left | right, -⟩ := extremum_of_numbers which nx ny
    · simp [left, nx]
    · simp [right, ny]

namespace IsExtremum

theorem singleton (which : Extremum) (x : α) : IsExtremum which [x] x := by
  refine ⟨?_, fun number => ?_, fun number => ?_⟩
  · simp
  · exact ⟨x, List.mem_singleton_self x, equal_refl number⟩
  · rw [List.forall_mem_singleton]
    exact which.bounds_refl number

/-- The extremum of two extrema is one of all the values. -/
theorem append (hx : IsExtremum which values x) (hy : IsExtremum which others y) :
    IsExtremum which (values ++ others) (Scalar.extremum which x y) := by
  have isNaN : Scalar.isNaN (Scalar.extremum which x y) = true ↔
      ∃ value ∈ values ++ others, Scalar.isNaN value = true := by
    rw [isNaN_extremum_iff, hx.isNaN_iff, hy.isNaN_iff]
    simp only [List.mem_append, or_and_right, exists_or]
  have split (number : Scalar.isNaN (Scalar.extremum which x y) = false) :
      Scalar.isNaN x = false ∧ Scalar.isNaN y = false := by
    rw [← Bool.not_eq_true, isNaN_extremum_iff, not_or] at number
    simpa using number
  refine ⟨isNaN, fun number => ?_, fun number => ?_⟩
  · obtain ⟨nx, ny⟩ := split number
    obtain ⟨left | right, -⟩ := extremum_of_numbers which nx ny
    · obtain ⟨value, mem, same⟩ := hx.attained nx
      exact ⟨value, List.mem_append_left _ mem, by rwa [left]⟩
    · obtain ⟨value, mem, same⟩ := hy.attained ny
      exact ⟨value, List.mem_append_right _ mem, by rwa [right]⟩
  · obtain ⟨nx, ny⟩ := split number
    obtain ⟨-, left, right⟩ := extremum_of_numbers which nx ny
    rw [List.forall_mem_append]
    exact ⟨fun value mem => Extremum.bounds_trans left (hx.bounds nx value mem),
      fun value mem => Extremum.bounds_trans right (hy.bounds ny value mem)⟩

theorem bounds_extremum (hx : IsExtremum which values x) (hy : IsExtremum which others y)
    (among : ∀ value ∈ values, value ∈ others) (nx : Scalar.isNaN x = false)
    (ny : Scalar.isNaN y = false) : which.bounds y x = true := by
  obtain ⟨value, mem, same⟩ := hx.attained nx
  have bound := hy.bounds ny value (among value mem)
  exact Extremum.bounds_trans bound (Extremum.bounds_of_equal same)

/-- The values decide their extremum up to the sign of a zero, in whatever order they come. -/
theorem unique (hx : IsExtremum which values x) (hy : IsExtremum which others y)
    (perm : others.Perm values) : SameUpToZero y x := by
  have isNaN : Scalar.isNaN y = true ↔ Scalar.isNaN x = true := by
    rw [hx.isNaN_iff, hy.isNaN_iff]
    simp only [perm.mem_iff]
  by_cases none : Scalar.isNaN x = true
  · exact .inl (LawfulScalar.eq_of_isNaN (isNaN.mpr none) none)
  · have nx := Bool.eq_false_of_not_eq_true none
    have ny := Bool.eq_false_of_not_eq_true (mt isNaN.mp none)
    have yx := hx.bounds_extremum hy (fun _ => perm.mem_iff.mpr) nx ny
    have xy := hy.bounds_extremum hx (fun _ => perm.mem_iff.mp) ny nx
    exact LawfulScalar.eq_or_zero (Extremum.equal_of_bounds yx xy)

end IsExtremum

end Values

section Expressions

variable {α : Type} {which : Extremum}

/-- The nestings of one extremum over some expressions, from left to right. -/
inductive Gathers (which : Extremum) : RealExpression α → List (RealExpression α) → Prop
  | one (e : RealExpression α) : Gathers which e [e]
  | two {left right : RealExpression α} {es fs : List (RealExpression α)} :
      Gathers which left es → Gathers which right fs →
        Gathers which (.binary (.extremum which) left right) (es ++ fs)

namespace Gathers

variable {e first : RealExpression α} {es : List (RealExpression α)}

/-- Nesting to the left gathers what is nested. -/
theorem foldl (h : Gathers which first es) (rest : List (RealExpression α)) :
    Gathers which (rest.foldl (.binary (.extremum which)) first) (es ++ rest) := by
  induction rest generalizing first es with
  | nil => simpa using h
  | cons next rest ih =>
    have step := ih (h.two (.one next))
    rwa [List.append_assoc] at step

/-- What is nested may be nested itself. -/
theorem flatten (h : Gathers which e es) {parts : List (List (RealExpression α))}
    (nested : List.Forall₂ (fun part a => Gathers which a part) parts es) :
    Gathers which e parts.flatten := by
  induction h generalizing parts with
  | one e =>
    obtain ⟨part, _, inner, none, rfl⟩ := List.forall₂_cons_right_iff.mp nested
    cases none
    simpa using inner
  | @two _ _ es fs _ _ left right =>
    have left' := left (List.forall₂_take_append _ _ _ nested)
    have right' := right (List.forall₂_drop_append _ _ _ nested)
    have whole := left'.two right'
    rwa [← List.flatten_append, List.take_append_drop] at whole

theorem slots (h : Gathers which e es) : e.slots = es.flatMap RealExpression.slots := by
  induction h with
  | one e => simp
  | two _ _ left right => rw [RealExpression.slots, left, right, List.flatMap_append]

/-- However an extremum is nested, its value is an extremum of all the values it is over. -/
theorem isExtremum [Scalar α] [LawfulScalar α] (h : Gathers which e es) (row : Nat → α) :
    IsExtremum which (es.map (·.valueAt row)) (e.valueAt row) := by
  induction h with
  | one e => exact .singleton which _
  | two _ _ left right =>
    rw [List.map_append]
    exact left.append right

end Gathers

theorem Callee.ofName?_extremum (which : Extremum) :
    Callee.ofName? which.name = some (.extremum which) := by
  cases which <;> decide

variable [Scalar α] {slotOf : String → Option Nat} {arguments : Arguments}
  {es : List (RealExpression α)}

/-- A call with at least two arguments is built, and gathers them. -/
theorem extremum_call_build (which : Extremum) (built : arguments.build slotOf = .ok es)
    (two : 2 ≤ es.length) :
    ∃ e, (Primary.call which.name arguments).build slotOf = .ok (.real e) ∧
      Gathers which e es := by
  match es, two with
  | first :: second :: rest, _ =>
    refine ⟨(second :: rest).foldl (.binary (.extremum which)) first, ?_,
      (Gathers.one first).foldl (second :: rest)⟩
    rw [Primary.build, Callee.ofName?_extremum]
    exact bind_eq_ok_iff.mpr ⟨_, built, rfl⟩

/-- A call of an extremum with any number of arguments has in every row the extremum of their values,
and no number if one of them is none. Neither the order of the arguments nor their nesting decides
more than the sign of a zero. -/
theorem extremum_call_value [LawfulScalar α] (which : Extremum)
    (built : arguments.build slotOf = .ok es) (two : 2 ≤ es.length) :
    ∃ e, (Primary.call which.name arguments).build slotOf = .ok (.real e) ∧
      (∀ n pool columns, Registers.Reachable n pool → (∀ column ∈ columns, column.length = n) →
        (∀ a ∈ es, ∀ index ∈ a.slots, index < columns.length) →
        ∃ output pool', e.evaluate columns pool = .ok (output, pool') ∧ output.length = n ∧
          ∀ row < n, ∃ x, output[row]? = some x ∧
            IsExtremum which (es.map (·.valueAt (rowAt columns row))) x) ∧
      (∀ parts, List.Forall₂ (fun part a => Gathers which a part) parts es →
        Gathers which e parts.flatten) ∧
      ∀ e' es' fs, Gathers which e es' → Gathers which e' fs → fs.Perm es' →
        ∀ row : Nat → α, SameUpToZero (e'.valueAt row) (e.valueAt row) := by
  obtain ⟨e, build, gathers⟩ := extremum_call_build which built two
  refine ⟨e, build, fun n pool columns reachable lengths covered => ?_,
    fun parts => gathers.flatten, fun e' es' fs some other perm row => ?_⟩
  · have covered' : ∀ index ∈ e.slots, index < columns.length := by
      rw [gathers.slots]
      intro index mem
      obtain ⟨a, ha, hi⟩ := List.mem_flatMap.mp mem
      exact covered a ha index hi
    obtain ⟨pool', evaluates, -⟩ := e.evaluate_of_clean reachable.clean lengths covered'
    refine ⟨_, pool', evaluates, by simp [RealExpression.lanes], fun row hr => ?_⟩
    exact ⟨_, e.getElem?_lanes hr, gathers.isExtremum _⟩
  · exact (some.isExtremum row).unique (other.isExtremum row) (perm.map _)

end Expressions

/-- The call `max(x, E, y)`. -/
theorem extremum_call_value_three :
    let argument (name : String) : Formula := .operation (.last [] (.name name))
    let arguments : Arguments :=
      .cons (argument "x") (.cons (argument "E") (.cons (argument "y") .none))
    let slotOf : String → Option Nat := fun name => ["x", "y"].findIdx? (· = name)
    let es : List (RealExpression Float) := [.slot 0, .literal Scalar.euler, .slot 1]
    arguments.build slotOf = .ok es ∧ 2 ≤ es.length ∧
      ∃ e, (Primary.call "max" arguments).build slotOf = .ok (.real e) ∧
        ∃ output pool', e.evaluate [[1, 4], [0, 5]] (.new 2) = .ok (output, pool') ∧
          ∀ row < 2, ∃ x, output[row]? = some x ∧
            IsExtremum .max (es.map (·.valueAt (rowAt [[1, 4], [0, 5]] row))) x := by
  intro argument arguments slotOf es
  have built : arguments.build slotOf = .ok es := rfl
  have two : 2 ≤ es.length := by decide
  obtain ⟨e, build, evaluates, -⟩ := extremum_call_value .max built two
  have covered : ∀ a ∈ es, ∀ index ∈ a.slots, index < [[1, (4 : Float)], [0, 5]].length := by
    simp [es, RealExpression.slots]
  obtain ⟨output, pool', evaluated, -, rows⟩ := evaluates 2 _ _ .new (by simp) covered
  exact ⟨built, two, e, build, output, pool', evaluated, rows⟩

end LessonPlot
