import LessonPlot.Expression.Build
import LessonPlot.Expression.Depth
import LessonPlot.Proofs.Expression.Names
import LessonPlot.Proofs.Expression.Naturality

namespace LessonPlot

/-- The type that a prefix operator asks of its operand, which is the type that it gives. -/
def PrefixOp.demand : PrefixOp → ValueType
  | minus | plus => .real
  | not => .boolean

/-- The type that an infix operator asks of both of its operands. -/
def InfixOp.demand : InfixOp → ValueType
  | or | and => .boolean
  | equal | notEqual | less | lessEqual | greater | greaterEqual => .real
  | add | subtract | multiply | divide | power => .real

def InfixOp.result : InfixOp → ValueType
  | or | and => .boolean
  | equal | notEqual | less | lessEqual | greater | greaterEqual => .boolean
  | add | subtract | multiply | divide | power => .real

/-- The operands of an operation without what is built of them. -/
def Operation.primaries : Operation → Row Primary
  | .last signs operand => .last signs operand
  | .link signs operand op rest => .link signs operand op rest.primaries

section Conditions

mutual

/-- A formula is well typed: numbers under arithmetic, signs and comparisons, as arguments and as
the two outcomes of a choice, truth values under connectives and as the condition of a choice. -/
inductive Formula.HasType : Formula → ValueType → Prop where
  | operation {operands : Operation} {type : ValueType}
      (typed : Grouped.HasType operands.primaries.group type) :
      Formula.HasType (.operation operands) type
  | choice {condition : Operation} {chosen otherwise : Formula}
      (test : Grouped.HasType condition.primaries.group .boolean)
      (first : Formula.HasType chosen .real) (second : Formula.HasType otherwise .real) :
      Formula.HasType (.choice condition chosen otherwise) .real

inductive Grouped.HasType : Grouped Primary → ValueType → Prop where
  | operand {operand : Primary} {type : ValueType} (typed : Primary.HasType operand type) :
      Grouped.HasType (.operand operand) type
  | signed {op : PrefixOp} {inner : Grouped Primary} (typed : Grouped.HasType inner op.demand) :
      Grouped.HasType (.signed op inner) op.demand
  | joined {op : InfixOp} {left right : Grouped Primary}
      (first : Grouped.HasType left op.demand) (second : Grouped.HasType right op.demand) :
      Grouped.HasType (.joined op left right) op.result

inductive Primary.HasType : Primary → ValueType → Prop where
  | number (text : String) : Primary.HasType (.number text) .real
  | name (text : String) : Primary.HasType (.name text) .real
  | call (callee : String) {arguments : Arguments} (typed : Arguments.AllReal arguments) :
      Primary.HasType (.call callee arguments) .real
  | group {inner : Formula} {type : ValueType} (typed : Formula.HasType inner type) :
      Primary.HasType (.group inner) type

inductive Arguments.AllReal : Arguments → Prop where
  | none : Arguments.AllReal .none
  | cons {first : Formula} {rest : Arguments} (head : Formula.HasType first .real)
      (tail : Arguments.AllReal rest) : Arguments.AllReal (.cons first rest)

end

def Arguments.count : Arguments → Nat
  | .none => 0
  | .cons _ rest => rest.count + 1

mutual

/-- The calls in a formula, each as the name that is called and the number of its arguments. -/
def Formula.calls : Formula → List (String × Nat)
  | .operation operands => operands.calls
  | .choice condition chosen otherwise => condition.calls ++ (chosen.calls ++ otherwise.calls)

def Operation.calls : Operation → List (String × Nat)
  | .last _ operand => operand.calls
  | .link _ operand _ rest => operand.calls ++ rest.calls

def Primary.calls : Primary → List (String × Nat)
  | .number _ | .name _ => []
  | .call callee arguments => (callee, arguments.count) :: arguments.calls
  | .group inner => inner.calls

def Arguments.calls : Arguments → List (String × Nat)
  | .none => []
  | .cons first rest => first.calls ++ rest.calls

end

/-- A call of a function of one argument with one, or of an extremum with two or more. -/
def Fits (call : String × Nat) : Prop :=
  (∃ function : Elementary, function.name = call.1 ∧ call.2 = 1) ∨
    ∃ which : Extremum, which.name = call.1 ∧ 2 ≤ call.2

/-- A name that stands for a number: a constant or a variable with a slot. -/
def Bound (slotOf : String → Option Nat) (name : String) : Prop :=
  name ∈ constantNames ∨ (slotOf name).isSome

/-- All calls fit and all names are bound. -/
def InScope (slotOf : String → Option Nat) (calls : List (String × Nat)) (names : List String) :
    Prop :=
  (∀ call ∈ calls, Fits call) ∧ ∀ name ∈ names, Bound slotOf name

end Conditions

/-- What is wrong with a part of one type where another is asked for. -/
def mismatch (expected found : ValueType) : List ParseError :=
  if expected = found then [] else [.typeMismatch expected found]

/-- What is wrong with a number of arguments. -/
def Callee.miscount (name : String) (count : Nat) : Callee → List ParseError
  | elementary _ => if count = 1 then [] else [.arity name .one count]
  | extremum _ => if 2 ≤ count then [] else [.arity name .atLeastTwo count]

/-- The depth of a call over its arguments; those of an extremum nest to the left. -/
def Callee.depth : Callee → List Nat → Nat
  | elementary _, depths => depths.headD 0 + 1
  | extremum _, [] => 0
  | extremum _, first :: rest => rest.foldl (fun left right => max left right + 1) first

/-- What can be said of a part of a formula before anything is built: the type it has if it is well
typed, all that is wrong in it from left to right, and how deep its tree is. -/
structure Survey where
  type : ValueType
  faults : List ParseError
  depth : Nat
deriving Repr

namespace Survey

/-- What is wrong with a part where a type is asked for; its own faults come before its type. -/
def faultsAs (expected : ValueType) (s : Survey) : List ParseError :=
  s.faults ++ mismatch expected s.type

def sign (op : PrefixOp) (operand : Survey) : Survey :=
  ⟨op.demand, operand.faultsAs op.demand,
    match op with
    | .plus => operand.depth
    | .minus | .not => operand.depth + 1⟩

/-- Two operands under an operator, which looks at the type of the left one first. -/
def join (op : InfixOp) (left right : Survey) : Survey :=
  ⟨op.result, left.faults ++ (right.faults ++
    (mismatch op.demand left.type ++ mismatch op.demand right.type)),
    max left.depth right.depth + 1⟩

def choose (condition chosen otherwise : Survey) : Survey :=
  ⟨.real, condition.faultsAs .boolean ++ (chosen.faultsAs .real ++ otherwise.faultsAs .real),
    max condition.depth (max chosen.depth otherwise.depth) + 1⟩

/-- A call: its name comes before its arguments, their number after them. -/
def call (name : String) (arguments : List Survey) : Survey :=
  let inside := arguments.flatMap (faultsAs .real)
  match Callee.ofName? name with
  | none => ⟨.real, .unknownFunction name :: inside, 0⟩
  | some callee =>
    ⟨.real, inside ++ callee.miscount name arguments.length,
      callee.depth (arguments.map depth)⟩

def name (slotOf : String → Option Nat) (name : String) : Survey :=
  ⟨.real, if name ∈ constantNames ∨ (slotOf name).isSome then [] else [.unboundVariable name], 1⟩

end Survey

def Grouped.survey : Grouped Survey → Survey
  | .operand value => value
  | .signed op inner => .sign op inner.survey
  | .joined op left right => .join op left.survey right.survey

mutual

/-- What is found on a walk over a formula from left to right that goes on after a fault. -/
def Formula.survey (slotOf : String → Option Nat) : Formula → Survey
  | .operation operands => (operands.surveys slotOf).group.survey
  | .choice condition chosen otherwise =>
    .choose (condition.surveys slotOf).group.survey (chosen.survey slotOf)
      (otherwise.survey slotOf)

def Operation.surveys (slotOf : String → Option Nat) : Operation → Row Survey
  | .last signs operand => .last signs (operand.survey slotOf)
  | .link signs operand op rest => .link signs (operand.survey slotOf) op (rest.surveys slotOf)

def Primary.survey (slotOf : String → Option Nat) : Primary → Survey
  | .number _ => ⟨.real, [], 1⟩
  | .name text => .name slotOf text
  | .call callee arguments => .call callee (arguments.surveys slotOf)
  | .group inner => inner.survey slotOf

def Arguments.surveys (slotOf : String → Option Nat) : Arguments → List Survey
  | .none => []
  | .cons first rest => first.survey slotOf :: rest.surveys slotOf

end

section Faultless

variable {slotOf : String → Option Nat}

theorem mismatch_eq_nil_iff {expected found : ValueType} :
    mismatch expected found = [] ↔ expected = found := by
  unfold mismatch
  split <;> simp_all

theorem Survey.faultsAs_eq_nil_iff {expected : ValueType} {s : Survey} :
    s.faultsAs expected = [] ↔ s.faults = [] ∧ expected = s.type := by
  rw [faultsAs, List.append_eq_nil_iff, mismatch_eq_nil_iff]

theorem Elementary.ofName?_eq_some_iff {name : String} {function : Elementary} :
    ofName? name = some function ↔ function.name = name := by
  constructor
  · intro h
    simpa using List.find?_some h
  · rintro rfl
    cases function <;> decide

theorem Extremum.ofName?_eq_some_iff {name : String} {which : Extremum} :
    ofName? name = some which ↔ which.name = name := by
  constructor
  · intro h
    simpa using List.find?_some h
  · rintro rfl
    cases which <;> decide

theorem Elementary.ofName?_extremum (which : Extremum) : ofName? which.name = none := by
  cases which <;> decide

/-- A call is in order exactly if its name is known and its arguments are as many as it takes. -/
theorem fits_iff {name : String} {count : Nat} :
    Fits (name, count) ↔
      ∃ callee, Callee.ofName? name = some callee ∧ callee.miscount name count = [] := by
  constructor
  · rintro (⟨function, hn, hc⟩ | ⟨which, rfl, hc⟩)
    · refine ⟨.elementary function, ?_, if_pos hc⟩
      rw [Callee.ofName?, Elementary.ofName?_eq_some_iff.mpr hn]
    · refine ⟨.extremum which, ?_, if_pos hc⟩
      rw [Callee.ofName?, Elementary.ofName?_extremum, Extremum.ofName?_eq_some_iff.mpr rfl]
      rfl
  · rintro ⟨callee, hn, hc⟩
    unfold Callee.ofName? at hn
    cases he : Elementary.ofName? name with
    | some function =>
      rw [he] at hn
      cases hn
      refine .inl ⟨function, Elementary.ofName?_eq_some_iff.mp he, ?_⟩
      simpa [Callee.miscount] using hc
    | none =>
      rw [he] at hn
      obtain ⟨which, hw, rfl⟩ := Option.map_eq_some_iff.mp hn
      refine .inr ⟨which, Extremum.ofName?_eq_some_iff.mp hw, ?_⟩
      refine Decidable.byContradiction fun few => ?_
      rw [Callee.miscount, if_neg few] at hc
      cases hc

theorem Survey.call_faultless_iff {name : String} {arguments : List Survey} :
    (call name arguments).faults = [] ↔
      Fits (name, arguments.length) ∧ ∀ s ∈ arguments, s.faultsAs .real = [] := by
  rw [fits_iff, call]
  cases Callee.ofName? name with
  | none => simp
  | some callee => simp [and_comm]

theorem Survey.call_type (name : String) (arguments : List Survey) :
    (call name arguments).type = .real := by
  rw [call]
  cases Callee.ofName? name <;> rfl

theorem Survey.name_faultless_iff {text : String} :
    (name slotOf text).faults = [] ↔ Bound slotOf text := by
  unfold name Bound
  split <;> simp_all

theorem InScope.append_iff {calls others : List (String × Nat)} {names more : List String} :
    InScope slotOf (calls ++ others) (names ++ more) ↔
      InScope slotOf calls names ∧ InScope slotOf others more := by
  simp only [InScope, List.forall_mem_append]
  exact and_and_and_comm

theorem Operation.surveys_eq_map (operands : Operation) :
    operands.surveys slotOf = operands.primaries.map (Primary.survey slotOf) := by
  match operands with
  | .last signs operand => rfl
  | .link signs operand op rest =>
    rw [Operation.surveys, rest.surveys_eq_map]
    rfl

theorem Operation.inScope_iff (operands : Operation) :
    (∀ operand ∈ operands.primaries.operands, InScope slotOf operand.calls operand.names) ↔
      InScope slotOf operands.calls operands.names := by
  match operands with
  | .last signs operand => exact List.forall_mem_singleton
  | .link signs operand op rest =>
    rw [Operation.calls, Operation.names, InScope.append_iff, ← rest.inScope_iff]
    exact List.forall_mem_cons

theorem Arguments.length_surveys (arguments : Arguments) :
    (arguments.surveys slotOf).length = arguments.count := by
  match arguments with
  | .none => rfl
  | .cons first rest => exact congrArg (· + 1) rest.length_surveys

/-- A survey agrees with the conditions on a part: it finds nothing wrong exactly if all calls and
names are in order and the part is well typed, and then it has the type of the part. -/
def Survey.Agrees (slotOf : String → Option Nat) (s : Survey) (calls : List (String × Nat))
    (names : List String) (typed : ValueType → Prop) : Prop :=
  ∀ type, s.faults = [] ∧ type = s.type ↔ InScope slotOf calls names ∧ typed type

theorem Survey.Agrees.faultsAs_iff {s : Survey} {calls : List (String × Nat)}
    {names : List String} {typed : ValueType → Prop} (h : s.Agrees slotOf calls names typed)
    (expected : ValueType) :
    s.faultsAs expected = [] ↔ InScope slotOf calls names ∧ typed expected :=
  faultsAs_eq_nil_iff.trans (h expected)

/-- Operators ask for types only, so the conditions on grouped operands are those on each of them
and the types under the operators. -/
theorem Grouped.survey_agrees {g : Grouped Primary}
    (h : ∀ operand ∈ g.operands,
      (operand.survey slotOf).Agrees slotOf operand.calls operand.names operand.HasType)
    (type : ValueType) :
    (g.map (Primary.survey slotOf)).survey.faults = [] ∧
        type = (g.map (Primary.survey slotOf)).survey.type ↔
      (∀ operand ∈ g.operands, InScope slotOf operand.calls operand.names) ∧ g.HasType type := by
  induction g generalizing type with
  | operand value =>
    have hv := h value (List.mem_singleton_self _) type
    simp only [Grouped.map, Grouped.survey, Grouped.operands, List.forall_mem_singleton, hv]
    refine and_congr_right fun _ => ⟨.operand, ?_⟩
    rintro ⟨typed⟩
    exact typed
  | signed op inner ih =>
    have hi := ih h op.demand
    simp only [Grouped.map, Grouped.survey, Survey.sign, Survey.faultsAs_eq_nil_iff, hi,
      Grouped.operands, and_assoc]
    refine and_congr_right fun _ => ⟨?_, ?_⟩
    · rintro ⟨typed, rfl⟩
      exact .signed typed
    · rintro ⟨⟩
      exact ⟨‹_›, rfl⟩
  | joined op left right ihl ihr =>
    obtain ⟨hl, hr⟩ := List.forall_mem_append.mp h
    have hl := ihl hl op.demand
    have hr := ihr hr op.demand
    simp only [Grouped.map, Grouped.survey, Survey.join, List.append_eq_nil_iff,
      mismatch_eq_nil_iff, Grouped.operands, List.forall_mem_append]
    constructor
    · rintro ⟨⟨left, right, leftType, rightType⟩, rfl⟩
      obtain ⟨leftScope, leftTyped⟩ := hl.mp ⟨left, leftType⟩
      obtain ⟨rightScope, rightTyped⟩ := hr.mp ⟨right, rightType⟩
      exact ⟨⟨leftScope, rightScope⟩, .joined leftTyped rightTyped⟩
    · rintro ⟨⟨leftScope, rightScope⟩, ⟨⟩⟩
      obtain ⟨left, leftType⟩ := hl.mpr ⟨leftScope, ‹_›⟩
      obtain ⟨right, rightType⟩ := hr.mpr ⟨rightScope, ‹_›⟩
      exact ⟨⟨left, right, leftType, rightType⟩, rfl⟩

mutual

/-- A survey of a formula finds nothing wrong exactly if the formula is in order. -/
theorem Formula.survey_agrees (formula : Formula) :
    (formula.survey slotOf).Agrees slotOf formula.calls formula.names formula.HasType := by
  cases formula with
  | operation operands =>
    intro type
    rw [Formula.survey, Formula.calls, Formula.names]
    rw [operands.survey_agrees type]
    exact and_congr_right fun _ => ⟨.operation, fun | .operation typed => typed⟩
  | choice condition chosen otherwise =>
    intro type
    have hc := (condition.survey_agrees).faultsAs_iff .boolean
    have ht := (chosen.survey_agrees).faultsAs_iff .real
    have he := (otherwise.survey_agrees).faultsAs_iff .real
    simp only [Formula.survey, Survey.choose, List.append_eq_nil_iff, hc, ht, he, Formula.calls,
      Formula.names, List.append_assoc, InScope.append_iff]
    constructor
    · rintro ⟨⟨⟨hc, test⟩, ⟨ht, first⟩, he, second⟩, rfl⟩
      exact ⟨⟨hc, ht, he⟩, .choice test first second⟩
    · rintro ⟨⟨hc, ht, he⟩, ⟨⟩⟩
      exact ⟨⟨⟨hc, ‹_›⟩, ⟨ht, ‹_›⟩, he, ‹_›⟩, rfl⟩

theorem Operation.survey_agrees (operands : Operation) :
    (operands.surveys slotOf).group.survey.Agrees slotOf operands.calls operands.names
      operands.primaries.group.HasType := by
  intro type
  rw [operands.surveys_eq_map, Row.group_map, Grouped.survey_agrees, Row.operands_group,
    operands.inScope_iff]
  rw [Row.operands_group]
  exact operands.operands_agree

theorem Operation.operands_agree (operands : Operation) :
    ∀ operand ∈ operands.primaries.operands,
      (operand.survey slotOf).Agrees slotOf operand.calls operand.names operand.HasType := by
  cases operands with
  | last signs operand => exact List.forall_mem_singleton.mpr operand.survey_agrees
  | link signs operand op rest =>
    exact List.forall_mem_cons.mpr ⟨operand.survey_agrees, rest.operands_agree⟩

theorem Primary.survey_agrees (operand : Primary) :
    (operand.survey slotOf).Agrees slotOf operand.calls operand.names operand.HasType := by
  intro type
  cases operand with
  | number text =>
    constructor
    · rintro ⟨-, rfl⟩
      exact ⟨⟨nofun, nofun⟩, .number text⟩
    · rintro ⟨-, ⟨⟩⟩
      exact ⟨rfl, rfl⟩
  | name text =>
    simp only [Primary.survey, Survey.name_faultless_iff, Primary.calls, Primary.names, InScope,
      List.forall_mem_singleton]
    constructor
    · rintro ⟨bound, rfl⟩
      exact ⟨⟨nofun, bound⟩, .name text⟩
    · rintro ⟨⟨-, bound⟩, ⟨⟩⟩
      exact ⟨bound, rfl⟩
  | call callee arguments =>
    have inside := arguments.surveys_agree
    simp only [Primary.survey, Survey.call_faultless_iff, Survey.call_type,
      arguments.length_surveys, inside, Primary.calls, Primary.names, InScope,
      List.forall_mem_cons]
    constructor
    · rintro ⟨⟨fits, ⟨calls, names⟩, typed⟩, rfl⟩
      exact ⟨⟨⟨fits, calls⟩, names⟩, .call callee typed⟩
    · rintro ⟨⟨⟨fits, calls⟩, names⟩, ⟨⟩⟩
      exact ⟨⟨fits, ⟨calls, names⟩, ‹_›⟩, rfl⟩
  | group inner =>
    rw [Primary.survey, Primary.calls, Primary.names]
    rw [inner.survey_agrees type]
    exact and_congr_right fun _ => ⟨.group, fun | .group typed => typed⟩

theorem Arguments.surveys_agree (arguments : Arguments) :
    (∀ s ∈ arguments.surveys slotOf, s.faultsAs .real = []) ↔
      InScope slotOf arguments.calls arguments.names ∧ arguments.AllReal := by
  cases arguments with
  | none => exact ⟨fun _ => ⟨⟨nofun, nofun⟩, .none⟩, nofun⟩
  | cons first rest =>
    have head := first.survey_agrees.faultsAs_iff .real
    have tail := rest.surveys_agree
    rw [Arguments.surveys, List.forall_mem_cons, head, tail, Arguments.calls, Arguments.names,
      InScope.append_iff]
    constructor
    · rintro ⟨⟨hf, head⟩, hr, tail⟩
      exact ⟨⟨hf, hr⟩, .cons head tail⟩
    · rintro ⟨⟨hf, hr⟩, ⟨⟩⟩
      exact ⟨⟨hf, ‹_›⟩, hr, ‹_›⟩

end

end Faultless

end LessonPlot
