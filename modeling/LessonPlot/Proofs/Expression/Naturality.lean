import LessonPlot.Expression.Parse
import LessonPlot.Proofs.Expression.Rename

namespace LessonPlot

section Grouping

variable {β γ : Type} (f : β → γ)

def Row.map : Row β → Row γ
  | .last signs operand => .last signs (f operand)
  | .link signs operand op rest => .link signs (f operand) op rest.map

def Grouped.map : Grouped β → Grouped γ
  | .operand value => .operand (f value)
  | .signed sign inner => .signed sign inner.map
  | .joined op left right => .joined op left.map right.map

def Pending.map : Pending β → Pending γ
  | .sign op => .sign op
  | .operator op left => .operator op (left.map f)

theorem Pending.close_map (top : Pending β) (value : Grouped β) :
    (top.map f).close (value.map f) = (top.close value).map f := by
  cases top <;> rfl

theorem Pending.power_map (top : Pending β) : (top.map f).power = top.power := by
  cases top <;> rfl

theorem Pending.closeAll_map (pending : List (Pending β)) (value : Grouped β) :
    closeAll (value.map f) (pending.map (Pending.map f)) = (closeAll value pending).map f := by
  induction pending generalizing value with
  | nil => rfl
  | cons top below ih =>
    simp only [closeAll, List.map_cons, List.foldl_cons, close_map] at ih ⊢
    exact ih (top.close value)

theorem Pending.settle_map (power : Nat) (pending : List (Pending β)) (value : Grouped β) :
    settle power (value.map f) (pending.map (Pending.map f)) =
      ((settle power value pending).1.map f,
        (settle power value pending).2.map (Pending.map f)) := by
  induction pending generalizing value with
  | nil => rfl
  | cons top below ih =>
    simp only [List.map_cons, settle, power_map, close_map]
    split
    next => rfl
    next => exact ih (top.close value)

theorem Row.groupUnder_map (row : Row β) (pending : List (Pending β)) :
    (row.map f).groupUnder (pending.map (Pending.map f)) = (row.groupUnder pending).map f := by
  have signed (signs : List PrefixOp) (pending : List (Pending β)) :
      signs.reverse.map Pending.sign ++ pending.map (Pending.map f) =
        (signs.reverse.map Pending.sign ++ pending).map (Pending.map f) := by
    simp [Pending.map]
  induction row generalizing pending with
  | last signs operand =>
    simp only [Row.map, groupUnder, signed]
    exact Pending.closeAll_map f _ (.operand operand)
  | link signs operand op rest ih =>
    simp only [Row.map, groupUnder, signed]
    have hs := Pending.settle_map f op.leftPower (signs.reverse.map Pending.sign ++ pending)
      (.operand operand)
    rw [Grouped.map] at hs
    rw [hs]
    exact ih (.operator op _ :: _)

/-- Grouping looks at operators only. -/
theorem Row.group_map (row : Row β) : (row.map f).group = row.group.map f :=
  row.groupUnder_map f []

end Grouping

variable {α : Type} (ρ : Nat → Nat)

namespace Expression

theorem toReal_rename (e : Expression α) :
    (e.rename ρ).toReal = e.toReal.map (RealExpression.rename ρ) := by
  cases e <;> rfl

theorem join_rename (op : InfixOp) (left right : Expression α) :
    join op (left.rename ρ) (right.rename ρ) = (join op left right).map (rename ρ) := by
  cases op <;> cases left <;> cases right <;> rfl

theorem sign_rename (op : PrefixOp) (operand : Expression α) :
    sign op (operand.rename ρ) = (sign op operand).map (rename ρ) := by
  cases op <;> cases operand <;> rfl

end Expression

theorem Grouped.build_map (g : Grouped (Except ParseError (Expression α))) :
    (g.map (Except.map (Expression.rename ρ))).build = g.build.map (Expression.rename ρ) := by
  induction g with
  | operand value => rfl
  | signed op inner ih =>
    simp only [Grouped.map, Grouped.build, ih]
    cases inner.build with
    | error e => rfl
    | ok e => exact Expression.sign_rename ρ op e
  | joined op left right ihl ihr =>
    simp only [Grouped.map, Grouped.build, ihl, ihr]
    cases left.build with
    | error e => rfl
    | ok l =>
      cases right.build with
      | error e => rfl
      | ok r => exact Expression.join_rename ρ op l r

theorem RealExpression.foldl_binary_rename (op : Arithmetic) (first : RealExpression α)
    (rest : List (RealExpression α)) :
    (rest.map (rename ρ)).foldl (.binary op) (first.rename ρ) =
      (rest.foldl (.binary op) first).rename ρ := by
  induction rest generalizing first with
  | nil => rfl
  | cons second rest ih => exact ih (.binary op first second)

theorem Callee.apply_rename (callee : Callee) (name : String)
    (arguments : List (RealExpression α)) :
    callee.apply name (arguments.map (RealExpression.rename ρ)) =
      (callee.apply name arguments).map (Expression.rename ρ) := by
  cases callee with
  | elementary function =>
    rcases arguments with _ | ⟨first, _ | ⟨second, rest⟩⟩
    · rfl
    · rfl
    · simp [Callee.apply, Except.map]
  | extremum which =>
    rcases arguments with _ | ⟨first, _ | ⟨second, rest⟩⟩
    · rfl
    · rfl
    · have h := RealExpression.foldl_binary_rename ρ (.extremum which) first (second :: rest)
      simp only [Callee.apply, List.map_cons, Except.map, Expression.rename] at h ⊢
      rw [h]

variable [Scalar α]

theorem nameExpression_rename (slotOf : String → Option Nat) (name : String) :
    nameExpression (fun name => (slotOf name).map ρ) name =
      (nameExpression (α := α) slotOf name).map (Expression.rename ρ) := by
  unfold nameExpression
  split
  next => rfl
  next =>
    split
    next => rfl
    next =>
      dsimp only
      cases slotOf name <;> rfl

theorem literalExpression_rename (text : String) :
    literalExpression text = (literalExpression (α := α) text).map (Expression.rename ρ) := by
  unfold literalExpression
  cases readScalar? text (α := α) <;> rfl

mutual

/-- Other slots for the names of variables are other slots in what is built, and nothing else. -/
theorem Formula.build_rename (slotOf : String → Option Nat) (formula : Formula) :
    formula.build (fun name => (slotOf name).map ρ) =
      (formula.build (α := α) slotOf).map (Expression.rename ρ) := by
  cases formula with
  | operation operands =>
    rw [Formula.build, Formula.build, operands.row_rename, Row.group_map, Grouped.build_map]
  | choice condition chosen otherwise =>
    rw [Formula.build, Formula.build, condition.row_rename, Row.group_map, Grouped.build_map,
      chosen.build_rename, otherwise.build_rename]
    rcases (condition.row (α := α) slotOf).group.build with error | _ | condition
    · rfl
    · rfl
    · rcases chosen.build (α := α) slotOf with error | chosen | _
      · rfl
      · rcases otherwise.build (α := α) slotOf with error | otherwise | _ <;> rfl
      · rfl

theorem Operation.row_rename (slotOf : String → Option Nat) (operands : Operation) :
    operands.row (fun name => (slotOf name).map ρ) =
      (operands.row (α := α) slotOf).map (Except.map (Expression.rename ρ)) := by
  cases operands with
  | last signs operand => rw [Operation.row, Operation.row, operand.build_rename, Row.map]
  | link signs operand op rest =>
    rw [Operation.row, Operation.row, operand.build_rename, rest.row_rename, Row.map]

theorem Primary.build_rename (slotOf : String → Option Nat) (operand : Primary) :
    operand.build (fun name => (slotOf name).map ρ) =
      (operand.build (α := α) slotOf).map (Expression.rename ρ) := by
  cases operand with
  | number text => exact literalExpression_rename ρ text
  | name text => exact nameExpression_rename ρ slotOf text
  | call callee arguments =>
    rw [Primary.build, Primary.build, arguments.build_rename]
    cases Callee.ofName? callee with
    | none => rfl
    | some function =>
      cases arguments.build (α := α) slotOf with
      | error error => rfl
      | ok arguments => exact function.apply_rename ρ callee arguments
  | group inner => exact inner.build_rename slotOf

theorem Arguments.build_rename (slotOf : String → Option Nat) (arguments : Arguments) :
    arguments.build (fun name => (slotOf name).map ρ) =
      (arguments.build (α := α) slotOf).map (List.map (RealExpression.rename ρ)) := by
  cases arguments with
  | none => rfl
  | cons first rest =>
    rw [Arguments.build, Arguments.build, first.build_rename, rest.build_rename]
    rcases first.build (α := α) slotOf with error | first | _
    · rfl
    · cases rest.build (α := α) slotOf <;> rfl
    · rfl

end

namespace Expression

theorem parse_rename (slotOf : String → Option Nat) (text : String) :
    parse (fun name => (slotOf name).map ρ) text =
      (parse (α := α) slotOf text).map (rename ρ) := by
  unfold parse
  split
  next => rfl
  next =>
    cases Formula.read text with
    | error error => rfl
    | ok formula =>
      simp only [bind, Except.bind, formula.build_rename]
      cases formula.build (α := α) slotOf with
      | error error => rfl
      | ok e =>
        simp only [Except.map, walkedDepth_rename]
        split <;> rfl

theorem parseReal_rename (slotOf : String → Option Nat) (text : String) :
    parseReal (fun name => (slotOf name).map ρ) text =
      (parseReal (α := α) slotOf text).map (RealExpression.rename ρ) := by
  unfold parseReal
  rw [parse_rename]
  cases parse (α := α) slotOf text with
  | error error => rfl
  | ok e => exact e.toReal_rename ρ

/-- No slot is mentioned that is not the slot of a name. -/
theorem slotOf_of_mem_slots {slotOf : String → Option Nat} {text : String} {e : RealExpression α}
    (h : parseReal slotOf text = .ok e) {index : Nat} (hm : index ∈ e.slots) :
    ∃ name, slotOf name = some index := by
  by_cases hno : ∃ name, slotOf name = some index
  · exact hno
  -- a renaming that moves this slot alone changes no name, so it does not change the expression
  let ρ : Nat → Nat := fun i => if i = index then index + 1 else i
  have same : (fun name => (slotOf name).map ρ) = slotOf := by
    funext name
    cases hs : slotOf name with
    | none => rfl
    | some i =>
      have hi : i ≠ index := fun hi => hno ⟨name, hi ▸ hs⟩
      simp [ρ, hi]
  have hr := parseReal_rename (α := α) ρ slotOf text
  rw [same, h] at hr
  have he : e = e.rename ρ := Except.ok.inj hr
  rw [he, RealExpression.slots_rename] at hm
  obtain ⟨i, -, hi⟩ := List.mem_map.mp hm
  simp only [ρ] at hi
  split at hi <;> omega

end Expression

end LessonPlot
