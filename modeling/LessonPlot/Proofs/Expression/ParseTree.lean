import LessonPlot.Expression.Build
import LessonPlot.Proofs.Formula.Climbing
import LessonPlot.Proofs.Formula.Decision

namespace LessonPlot

section Loop

variable {α : Type}

mutual

/-- The loop of binding powers as it runs, with `none` where it meets a word that it gives up on:
a word that starts no operand, or one after an operand that is no infix operator. Each word takes
one unit of fuel. -/
def climb? (bound : Nat) : Nat → List (Token α) → Option (Grouped α × List (Token α))
  | fuel + 1, .sign op :: words => do
    let (inner, words) ← climb? op.rightPower fuel words
    extend? bound fuel (.signed op inner) words
  | fuel + 1, .operand value :: words => extend? bound fuel (.operand value) words
  | _, _ => none

def extend? (bound : Nat) :
    Nat → Grouped α → List (Token α) → Option (Grouped α × List (Token α))
  | _, left, [] => some (left, [])
  | fuel + 1, left, .operator op :: words =>
    if bound < op.leftPower then do
      let (right, words) ← climb? op.rightPower fuel words
      extend? bound fuel (.joined op left right) words
    else some (left, .operator op :: words)
  | _, _, _ => none

end

/-- What may stand after an operand: nothing or an infix operator. -/
def AfterOperand : List (Token α) → Prop
  | [] | .operator _ :: _ => True
  | .sign _ :: _ | .operand _ :: _ => False

mutual

theorem Climbs.length_lt {bound : Nat} {words rest : List (Token α)} {tree : Grouped α}
    (h : Climbs bound words tree rest) : rest.length < words.length := by
  match h with
  | .sign operand further =>
    have ho := operand.length_lt
    have hf := further.length_le
    simp only [List.length_cons]
    omega
  | .operand further => exact Nat.lt_succ_of_le further.length_le

theorem Extends.length_le {bound : Nat} {words rest : List (Token α)} {left tree : Grouped α}
    (h : Extends bound left words tree rest) : rest.length ≤ words.length := by
  match h with
  | .stop _ => exact Nat.le_refl _
  | .operator _ operand further =>
    have ho := operand.length_lt
    have hf := further.length_le
    simp only [List.length_cons]
    omega

end

/-- A loop that ends before an operator has not passed by anything else. -/
theorem Extends.afterOperand {bound : Nat} {words rest : List (Token α)} {left tree : Grouped α}
    (h : Extends bound left words tree rest) (ends : AfterOperand rest) : AfterOperand words := by
  cases h with
  | stop _ => exact ends
  | operator _ _ _ => trivial

mutual

theorem Climbs.climb?_eq {bound : Nat} {words rest : List (Token α)} {tree : Grouped α}
    (h : Climbs bound words tree rest) (ends : AfterOperand rest) (fuel : Nat)
    (enough : words.length ≤ fuel) :
    climb? bound fuel words = some (tree, rest) := by
  cases fuel with
  | zero =>
    have hl := h.length_lt
    omega
  | succ fuel =>
    match h with
    | .sign operand further =>
      have hl := operand.length_lt
      simp only [List.length_cons] at enough
      have inner := operand.climb?_eq (further.afterOperand ends) fuel (by omega)
      have outer := further.extend?_eq ends fuel (by omega)
      simp only [climb?, inner, outer, Option.bind_eq_bind, Option.bind_some]
    | .operand further =>
      simp only [List.length_cons] at enough
      exact further.extend?_eq ends fuel (by omega)

theorem Extends.extend?_eq {bound : Nat} {words rest : List (Token α)} {left tree : Grouped α}
    (h : Extends bound left words tree rest) (ends : AfterOperand rest) (fuel : Nat)
    (enough : words.length ≤ fuel) :
    extend? bound fuel left words = some (tree, rest) := by
  match h with
  | .stop loose =>
    match words, ends with
    | [], _ => cases fuel <;> rfl
    | .operator op :: words, _ =>
      cases fuel with
      | zero => cases enough
      | succ fuel =>
        have hl : ¬ bound < op.leftPower := Nat.not_lt.mpr (loose op words rfl)
        simp only [extend?, if_neg hl]
  | .operator tight operand further =>
    cases fuel with
    | zero => cases enough
    | succ fuel =>
      have hl := operand.length_lt
      simp only [List.length_cons] at enough
      have right := operand.climb?_eq (further.afterOperand ends) fuel (by omega)
      have whole := further.extend?_eq ends fuel (by omega)
      simp only [extend?, if_pos tight, right, whole, Option.bind_eq_bind, Option.bind_some]

end

/-- The loop never gives up on the words of a row. -/
theorem Row.climb?_tokens (row : Row α) :
    climb? 0 row.tokens.length row.tokens = some (row.group, []) := by
  have climbs : Climbs 0 row.tokens row.group [] := (row.climbs_iff _ _).mpr ⟨rfl, rfl⟩
  exact climbs.climb?_eq trivial _ (Nat.le_refl _)

end Loop

/-- What it comes to when an expression is built from a parse tree: an expression or an error, or
`none` where the tree has not the shape that the grammar gives it. -/
abbrev Attempt (β : Type) := ExceptT ParseError Option β

namespace Attempt

variable {β γ : Type}

def of (result : Except ParseError β) : Attempt β :=
  ExceptT.mk (some result)

def stuck : Attempt β :=
  ExceptT.mk none

theorem pure_eq (value : β) : (pure value : Attempt β) = of (.ok value) :=
  rfl

theorem of_bind (result : Except ParseError β) (f : β → Except ParseError γ) :
    (of result >>= fun b => of (f b)) = of (result >>= f) := by
  cases result <;> rfl

end Attempt

def variadicNames : List String := ["min", "max"]

variable {α : Type}

/-- A call whose arguments have been built. -/
def callOf (name : String) (arguments : List (RealExpression α)) : Attempt (Expression α) :=
  match Elementary.ofName? name with
  | some function =>
    match arguments with
    | [argument] => .of (.ok (.real (.call function argument)))
    | _ => .of (.error (.arity name .one arguments.length))
  | none =>
    if variadicNames.contains name then
      match Extremum.ofName? name with
      | some which =>
        if 2 ≤ arguments.length then
          match arguments with
          | [] => .stuck
          | first :: rest =>
            .of (.ok (.real (rest.foldl (.binary (.extremum which)) first)))
        else .of (.error (.arity name .atLeastTwo arguments.length))
      | none => .of (.error (.arity name .atLeastTwo arguments.length))
    else .stuck

theorem callOf_eq {name : String} {callee : Callee} (h : Callee.ofName? name = some callee)
    (arguments : List (RealExpression α)) :
    callOf name arguments = .of (callee.apply name arguments) := by
  unfold Callee.ofName? at h
  unfold callOf
  cases he : Elementary.ofName? name with
  | some function =>
    simp only [he, Option.some.injEq] at h
    subst h
    match arguments with
    | [] | [_] | _ :: _ :: _ => rfl
  | none =>
    simp only [he, Option.map_eq_some_iff] at h
    obtain ⟨which, hw, rfl⟩ := h
    have known : variadicNames.contains name = true := by
      have named : which.name = name := by
        have hn := List.find?_some hw
        simpa using hn
      rw [← named]
      cases which <;> decide
    simp only [known, hw, if_true]
    match arguments with
    | [] | [_] | _ :: _ :: _ => rfl

theorem Callee.ofName?_eq_none_iff {name : String} : Callee.ofName? name = none ↔
    ((Elementary.ofName? name).isNone && (Extremum.ofName? name).isNone) = true := by
  unfold Callee.ofName?
  cases Elementary.ofName? name <;> cases Extremum.ofName? name <;> simp

variable [Scalar α] (slotOf : String → Option Nat)

namespace Pair

mutual

/-- The expression of a formula's tree. -/
def expression : Pair → Attempt (Expression α)
  | .leaf _ _ => .stuck
  | .node _ parts => expressionOfParts parts

def expressionOfParts : List Pair → Attempt (Expression α)
  | [] => .stuck
  | operation :: others => do
    let head ← operation.operation
    match others with
    | chosen :: otherwise :: _ => do
      let condition ← .of head.toBoolean
      let chosen ← chosen.expression
      let chosen ← .of chosen.toReal
      let otherwise ← otherwise.expression
      let otherwise ← .of otherwise.toReal
      return Expression.choose condition chosen otherwise
    | _ => return head

/-- The expression of a row of operands. Every operand is built, also after one that was refused. -/
def operation : Pair → Attempt (Expression α)
  | .leaf _ _ => .stuck
  | .node _ parts =>
    match words parts with
    | none => .stuck
    | some words =>
      match climb? 0 words.length words with
      | none => .stuck
      | some (tree, _) => .of tree.build

def words : List Pair → Option (List (Token (Except ParseError (Expression α))))
  | [] => some []
  | .node (.sign op) _ :: rest => (words rest).map (.sign op :: ·)
  | .node (.operator op) _ :: rest => (words rest).map (.operator op :: ·)
  | operand :: rest => do
    let operand ← operand.primary.run
    (words rest).map (.operand operand :: ·)

def primary : Pair → Attempt (Expression α)
  | .node .expr parts => expressionOfParts parts
  | .leaf .realLiteral text => .of (literalExpression (String.ofList text))
  | .leaf .name text => .of (nameExpression slotOf (String.ofList text))
  | .node .call parts => call parts
  | _ => .stuck

/-- The expression of a call; whom it calls is settled before its arguments are built. -/
def call : List Pair → Attempt (Expression α)
  | .leaf _ name :: arguments =>
    let name := String.ofList name
    if (Elementary.ofName? name).isNone && (Extremum.ofName? name).isNone then
      .of (.error (.unknownFunction name))
    else do
      let arguments ← Pair.arguments arguments
      callOf name arguments
  | _ => .stuck

def arguments : List Pair → Attempt (List (RealExpression α))
  | [] => return []
  | first :: rest => do
    let first ← first.expression
    let first ← .of first.toReal
    let rest ← arguments rest
    return first :: rest

end

end Pair

theorem Pair.words_signs (signs : List PrefixOp) (rest : List Pair) :
    words (α := α) slotOf (signs.map (fun op => .node (.sign op) []) ++ rest) =
      (words slotOf rest).map (signs.map .sign ++ ·) := by
  induction signs with
  | nil => simp
  | cons op signs ih =>
    simp only [List.map_cons, List.cons_append, words, ih, Option.map_map]
    rfl

theorem Pair.words_expr (parts rest : List Pair) :
    words (α := α) slotOf (.node .expr parts :: rest) =
      (Pair.expression slotOf (.node .expr parts)).run.bind fun operand =>
        (words slotOf rest).map (.operand operand :: ·) :=
  rfl

theorem Formula.exists_pair (formula : Formula) : ∃ parts, formula.pair = .node .expr parts := by
  cases formula <;> exact ⟨_, rfl⟩

mutual

/-- From the tree of a formula comes what the formula stands for. -/
theorem Formula.expression_pair (formula : Formula) :
    formula.pair.expression slotOf = .of (formula.build (α := α) slotOf) := by
  cases formula with
  | operation operands =>
    have head := operands.operation_pairs
    simp only [Formula.pair, Pair.expression, Pair.expressionOfParts, head, Formula.build,
      Attempt.pure_eq, Attempt.of_bind]
    cases (operands.row (α := α) slotOf).group.build <;> rfl
  | choice condition chosen otherwise =>
    have head := condition.operation_pairs
    have left := chosen.expression_pair
    have right := otherwise.expression_pair
    simp only [Formula.pair, Pair.expression, Pair.expressionOfParts, head, left, right,
      Formula.build, Attempt.pure_eq, Attempt.of_bind]

theorem Operation.operation_pairs (operands : Operation) :
    (Pair.node .operation operands.pairs).operation slotOf =
      .of (operands.row (α := α) slotOf).group.build := by
  simp only [Pair.operation, operands.words_pairs, Row.climb?_tokens]

theorem Operation.words_pairs (operands : Operation) :
    Pair.words (α := α) slotOf operands.pairs = some (operands.row slotOf).tokens := by
  cases operands with
  | last signs operand =>
    have last := operand.words_pair []
    simp only [Operation.pairs, Pair.words_signs, last, Pair.words]
    rfl
  | link signs operand op rest =>
    have first := operand.words_pair (.node (.operator op) [] :: rest.pairs)
    have others := rest.words_pairs
    simp only [Operation.pairs, Pair.words_signs, first, Pair.words, others]
    rfl

theorem Primary.words_pair (operand : Primary) (rest : List Pair) :
    Pair.words (α := α) slotOf (operand.pair :: rest) =
      (Pair.words slotOf rest).map (.operand (operand.build slotOf) :: ·) := by
  cases operand with
  | number text =>
    simp [Primary.pair, Pair.words, Pair.primary, Primary.build, Attempt.of]
  | name text =>
    simp [Primary.pair, Pair.words, Pair.primary, Primary.build, Attempt.of]
  | call callee arguments =>
    have inside := arguments.arguments_pairs
    have built : Pair.call slotOf (.leaf .identifier callee.toList :: arguments.pairs) =
        .of ((Primary.call callee arguments).build (α := α) slotOf) := by
      simp only [Pair.call, String.ofList_toList, Primary.build]
      cases h : Callee.ofName? callee with
      | none => rw [if_pos (Callee.ofName?_eq_none_iff.mp h)]
      | some function =>
        have known := Callee.ofName?_eq_none_iff.not.mp (h ▸ Option.some_ne_none function)
        simp only [if_neg known, inside, callOf_eq h, Attempt.of_bind]
    simp only [Primary.pair, Pair.words, Pair.primary, built]
    rfl
  | group inner =>
    have inside := inner.expression_pair
    obtain ⟨parts, hp⟩ := inner.exists_pair
    rw [hp] at inside
    simp only [Primary.pair, hp, Pair.words_expr, inside]
    rfl

theorem Arguments.arguments_pairs (arguments : Arguments) :
    Pair.arguments slotOf arguments.pairs = .of (arguments.build (α := α) slotOf) := by
  cases arguments with
  | none => rfl
  | cons first rest =>
    have head := first.expression_pair
    have others := rest.arguments_pairs
    simp only [Arguments.pairs, Pair.arguments, head, others, Arguments.build, Attempt.pure_eq,
      Attempt.of_bind]

end

end LessonPlot
