import LessonPlot.Proofs.Expression.Depth
import LessonPlot.Proofs.Expression.Literals
import LessonPlot.Proofs.Expression.Survey

namespace LessonPlot

/-- A result that is refused for the first of some faults and is as it should be if there are
none. -/
inductive Yields {β : Type} (faults : List ParseError) (good : β → Prop) :
    Except ParseError β → Prop where
  | value {result : β} (faultless : faults = []) (h : good result) :
      Yields faults good (.ok result)
  | fault {error : ParseError} {rest : List ParseError} (h : faults = error :: rest) :
      Yields faults good (.error error)

namespace Yields

variable {β γ : Type} {faults others : List ParseError} {good : β → Prop} {better : γ → Prop}
  {x : Except ParseError β}

/-- Of two steps the faults of the first come first, and it is not for the value between them which
faults the second has. -/
theorem bind {f : β → Except ParseError γ} (first : Yields faults good x)
    (second : ∀ value, good value → Yields others better (f value)) :
    Yields (faults ++ others) better (x >>= f) := by
  cases first with
  | value faultless h =>
    subst faultless
    exact second _ h
  | fault h =>
    subst h
    exact .fault rfl

theorem map {f : β → γ} (h : Yields faults good x)
    (better_of_good : ∀ value, good value → better (f value)) :
    Yields faults better (x >>= fun value => .ok (f value)) := by
  have hb : Yields (faults ++ []) better (x >>= fun value => .ok (f value)) :=
    h.bind fun value hv => .value rfl (better_of_good value hv)
  rwa [List.append_nil] at hb

theorem only {error : ParseError} (h : faults = [error]) :
    Yields faults good (.error error) :=
  .fault h

theorem eq_ok (h : Yields faults good x) (faultless : faults = []) :
    ∃ value, x = .ok value ∧ good value := by
  cases h with
  | value _ h => exact ⟨_, rfl, h⟩
  | fault h => rw [faultless] at h; cases h

theorem eq_error (h : Yields faults good x) {error : ParseError} {rest : List ParseError}
    (first : faults = error :: rest) : x = .error error := by
  cases h with
  | value faultless _ => rw [faultless] at first; cases first
  | fault h => rw [first] at h; cases h; rfl

end Yields

variable {α : Type}

/-- An expression of the type and the depth that were foreseen. -/
def Survey.Describes (s : Survey) (e : Expression α) : Prop :=
  e.valueType = s.type ∧ e.depth = s.depth

namespace Expression

variable {s left right operand : Survey} {e l r : Expression α}

theorem toReal_yields (h : s.Describes e) :
    Yields (mismatch .real s.type) (fun real => real.depth = s.depth) e.toReal := by
  obtain ⟨type, depth⟩ := h
  rw [← type, ← depth]
  cases e with
  | real expression => exact .value rfl rfl
  | boolean expression => exact .fault rfl

theorem toBoolean_yields (h : s.Describes e) :
    Yields (mismatch .boolean s.type) (fun boolean => boolean.depth = s.depth) e.toBoolean := by
  obtain ⟨type, depth⟩ := h
  rw [← type, ← depth]
  cases e with
  | real expression => exact .fault rfl
  | boolean expression => exact .value rfl rfl

theorem sign_yields (op : PrefixOp) (h : operand.Describes e) :
    Yields (mismatch op.demand operand.type) (Survey.sign op operand).Describes (sign op e) := by
  cases op with
  | minus => exact (toReal_yields h).map fun _ hd => ⟨rfl, congrArg (· + 1) hd⟩
  | plus => exact (toReal_yields h).map fun _ hd => ⟨rfl, hd⟩
  | not => exact (toBoolean_yields h).map fun _ hd => ⟨rfl, congrArg (· + 1) hd⟩

theorem arithmetic_yields (op : Arithmetic) (hl : left.Describes l) (hr : right.Describes r) :
    Yields (mismatch .real left.type ++ mismatch .real right.type)
      (fun e => e.valueType = .real ∧ e.depth = max left.depth right.depth + 1)
      (arithmetic op l r) := by
  refine (toReal_yields hl).bind fun x hx => (toReal_yields hr).map fun y hy => ⟨rfl, ?_⟩
  rw [← hx, ← hy]
  rfl

theorem comparison_yields (op : Comparison) (hl : left.Describes l) (hr : right.Describes r) :
    Yields (mismatch .real left.type ++ mismatch .real right.type)
      (fun e => e.valueType = .boolean ∧ e.depth = max left.depth right.depth + 1)
      (comparison op l r) := by
  refine (toReal_yields hl).bind fun x hx => (toReal_yields hr).map fun y hy => ⟨rfl, ?_⟩
  rw [← hx, ← hy]
  rfl

theorem connection_yields (op : Connective) (hl : left.Describes l) (hr : right.Describes r) :
    Yields (mismatch .boolean left.type ++ mismatch .boolean right.type)
      (fun e => e.valueType = .boolean ∧ e.depth = max left.depth right.depth + 1)
      (connection op l r) := by
  refine (toBoolean_yields hl).bind fun x hx => (toBoolean_yields hr).map fun y hy => ⟨rfl, ?_⟩
  rw [← hx, ← hy]
  rfl

theorem join_yields (op : InfixOp) (hl : left.Describes l) (hr : right.Describes r) :
    Yields (mismatch op.demand left.type ++ mismatch op.demand right.type)
      (Survey.join op left right).Describes (join op l r) := by
  cases op with
  | or | and => exact connection_yields _ hl hr
  | equal | notEqual | lessEqual | greaterEqual | less | greater => exact comparison_yields _ hl hr
  | add | subtract | multiply | divide | power => exact arithmetic_yields _ hl hr

end Expression

theorem RealExpression.depth_foldl_binary (op : Arithmetic) (first : RealExpression α)
    (rest : List (RealExpression α)) :
    (rest.foldl (.binary op) first).depth =
      (rest.map depth).foldl (fun left right => max left right + 1) first.depth := by
  induction rest generalizing first with
  | nil => rfl
  | cons second rest ih => exact ih (.binary op first second)

/-- A call is refused for the number of its arguments and for nothing else. -/
theorem Callee.apply_yields (callee : Callee) (name : String)
    (arguments : List (RealExpression α)) :
    Yields (callee.miscount name arguments.length)
      (fun e => e.valueType = .real ∧ e.depth = callee.depth (arguments.map RealExpression.depth))
      (callee.apply name arguments) := by
  cases callee with
  | elementary function =>
    match arguments with
    | [] => exact .fault rfl
    | [argument] => exact .value rfl ⟨rfl, rfl⟩
    | _ :: _ :: _ => exact .only (by simp [miscount])
  | extremum which =>
    match arguments with
    | [] => exact .fault rfl
    | [argument] => exact .fault rfl
    | first :: second :: rest =>
      exact .value (by simp [miscount]) ⟨rfl, RealExpression.depth_foldl_binary _ first _⟩

variable [Scalar α] {slotOf : String → Option Nat}

theorem Operation.row_eq_map (operands : Operation) :
    operands.row (α := α) slotOf = operands.primaries.map (Primary.build slotOf) := by
  match operands with
  | .last signs operand => rfl
  | .link signs operand op rest =>
    rw [Operation.row, rest.row_eq_map]
    rfl

/-- What grouped operands come to is foreseen if it is for each of them. -/
theorem Grouped.build_yields {g : Grouped Primary}
    (h : ∀ operand ∈ g.operands, Yields (operand.survey slotOf).faults
      (operand.survey slotOf).Describes (operand.build (α := α) slotOf)) :
    Yields (g.map (Primary.survey slotOf)).survey.faults
      (g.map (Primary.survey slotOf)).survey.Describes
      (g.map (Primary.build (α := α) slotOf)).build := by
  induction g with
  | operand value => exact h value (List.mem_singleton_self _)
  | signed op inner ih => exact (ih h).bind fun e he => Expression.sign_yields op he
  | joined op left right ihl ihr =>
    obtain ⟨hl, hr⟩ := List.forall_mem_append.mp h
    exact (ihl hl).bind fun l hl => (ihr hr).bind fun r hr => Expression.join_yields op hl hr

theorem nameExpression_yields (name : String) :
    Yields (Survey.name slotOf name).faults (Survey.name slotOf name).Describes
      (nameExpression (α := α) slotOf name) := by
  unfold nameExpression
  split
  next h => subst h; exact .value (Survey.name_faultless_iff.mpr (.inl (by decide))) ⟨rfl, rfl⟩
  next notPi =>
    split
    next h => subst h; exact .value (Survey.name_faultless_iff.mpr (.inl (by decide))) ⟨rfl, rfl⟩
    next notE =>
      cases hs : slotOf name with
      | some index =>
        exact .value (Survey.name_faultless_iff.mpr (.inr (by rw [hs]; rfl))) ⟨rfl, rfl⟩
      | none =>
        exact .only (by simp [Survey.name, constantNames, notPi, notE, hs])

mutual

/-- A formula whose numbers can be read comes to what its survey says: the first of the faults that
are found from left to right, or a tree of that type and depth. -/
theorem Formula.build_yields (formula : Formula) (spelled : Spelled [formula.pair]) :
    Yields (formula.survey slotOf).faults (formula.survey slotOf).Describes
      (formula.build (α := α) slotOf) := by
  cases formula with
  | operation operands =>
    exact operands.build_yields (Spelled.node_iff.mp (Spelled.node_iff.mp spelled))
  | choice condition chosen otherwise =>
    obtain ⟨inCondition, inOutcomes⟩ := Spelled.cons_iff.mp (Spelled.node_iff.mp spelled)
    obtain ⟨inChosen, inOtherwise⟩ := Spelled.cons_iff.mp inOutcomes
    have condition := condition.build_yields (Spelled.node_iff.mp inCondition)
    have chosen := chosen.build_yields inChosen
    have otherwise := otherwise.build_yields inOtherwise
    simp only [Formula.survey, Survey.choose, Survey.faultsAs, List.append_assoc]
    refine condition.bind fun c hc => (Expression.toBoolean_yields hc).bind fun c hc => ?_
    refine chosen.bind fun t ht => (Expression.toReal_yields ht).bind fun t ht => ?_
    refine otherwise.bind fun e he => (Expression.toReal_yields he).map fun e he => ⟨rfl, ?_⟩
    rw [← hc, ← ht, ← he]
    rfl

theorem Operation.build_yields (operands : Operation) (spelled : Spelled operands.pairs) :
    Yields (operands.surveys slotOf).group.survey.faults
      (operands.surveys slotOf).group.survey.Describes
      (operands.row (α := α) slotOf).group.build := by
  rw [operands.surveys_eq_map, operands.row_eq_map, Row.group_map, Row.group_map]
  refine Grouped.build_yields ?_
  rw [Row.operands_group]
  exact operands.operand_yields spelled

theorem Operation.operand_yields (operands : Operation) (spelled : Spelled operands.pairs) :
    ∀ operand ∈ operands.primaries.operands, Yields (operand.survey slotOf).faults
      (operand.survey slotOf).Describes (operand.build (α := α) slotOf) := by
  cases operands with
  | last signs operand =>
    obtain ⟨-, inOperand⟩ := Spelled.append_iff.mp spelled
    exact List.forall_mem_singleton.mpr (operand.build_yields inOperand)
  | link signs operand op rest =>
    obtain ⟨-, spelled⟩ := Spelled.append_iff.mp spelled
    obtain ⟨inOperand, spelled⟩ := Spelled.cons_iff.mp spelled
    obtain ⟨-, inRest⟩ := Spelled.cons_iff.mp spelled
    exact List.forall_mem_cons.mpr ⟨operand.build_yields inOperand, rest.operand_yields inRest⟩

theorem Primary.build_yields (operand : Primary) (spelled : Spelled [operand.pair]) :
    Yields (operand.survey slotOf).faults (operand.survey slotOf).Describes
      (operand.build (α := α) slotOf) := by
  cases operand with
  | number text =>
    obtain ⟨ps, derived⟩ := Spelled.leaf_iff.mp spelled
    obtain ⟨value, hv⟩ := Option.isSome_iff_exists.mp (Numeral.readScalar?_isSome (α := α) derived)
    rw [Primary.build, literalExpression, hv]
    exact .value rfl ⟨rfl, rfl⟩
  | name text => exact nameExpression_yields text
  | call callee arguments =>
    obtain ⟨-, inArguments⟩ := Spelled.cons_iff.mp (Spelled.node_iff.mp spelled)
    have arguments := arguments.build_yields inArguments
    rw [Primary.build, Primary.survey, Survey.call]
    cases Callee.ofName? callee with
    | none => exact .fault rfl
    | some function =>
      refine arguments.bind fun values hv => ?_
      rw [← List.length_map (f := Survey.depth), ← hv, List.length_map]
      exact function.apply_yields callee values
  | group inner => exact inner.build_yields spelled

theorem Arguments.build_yields (arguments : Arguments) (spelled : Spelled arguments.pairs) :
    Yields ((arguments.surveys slotOf).flatMap (Survey.faultsAs .real))
      (fun values => values.map RealExpression.depth = (arguments.surveys slotOf).map Survey.depth)
      (arguments.build (α := α) slotOf) := by
  cases arguments with
  | none => exact .value rfl rfl
  | cons first rest =>
    obtain ⟨inFirst, inRest⟩ := Spelled.cons_iff.mp spelled
    have first := first.build_yields inFirst
    have rest := rest.build_yields inRest
    simp only [Arguments.surveys, List.flatMap_cons, Survey.faultsAs, List.append_assoc]
    refine first.bind fun x hx => (Expression.toReal_yields hx).bind fun x hx => ?_
    refine rest.map fun xs hxs => ?_
    rw [List.map_cons, List.map_cons, hx, hxs]

end

/-- Every call names a function and has as many arguments as that takes, every name is a constant or
has a slot, and all types fit. -/
structure Formula.InOrder (slotOf : String → Option Nat) (formula : Formula) : Prop where
  calls : ∀ call ∈ formula.calls, Fits call
  names : ∀ name ∈ formula.names, Bound slotOf name
  types : ∃ type, formula.HasType type

theorem Formula.inOrder_iff {formula : Formula} :
    formula.InOrder slotOf ↔ (formula.survey slotOf).faults = [] := by
  constructor
  · rintro ⟨calls, names, type, typed⟩
    exact ((formula.survey_agrees type).mpr ⟨⟨calls, names⟩, typed⟩).1
  · intro faultless
    obtain ⟨⟨calls, names⟩, typed⟩ := (formula.survey_agrees _).mp ⟨faultless, rfl⟩
    exact ⟨calls, names, _, typed⟩

theorem Formula.build_of_inOrder {formula : Formula} (spelled : Spelled [formula.pair])
    (order : formula.InOrder slotOf) : ∃ tree : Expression α, formula.build slotOf = .ok tree ∧
      formula.HasType tree.valueType ∧ tree.depth = (formula.survey slotOf).depth := by
  have faultless := Formula.inOrder_iff.mp order
  obtain ⟨tree, built, type, depth⟩ := (formula.build_yields (α := α) spelled).eq_ok faultless
  exact ⟨tree, built, ((formula.survey_agrees _).mp ⟨faultless, type⟩).2, depth⟩

theorem Formula.build_of_not_inOrder {formula : Formula} (spelled : Spelled [formula.pair])
    (disorder : ¬ formula.InOrder slotOf) :
    ∃ error rest, (formula.survey slotOf).faults = error :: rest ∧
      formula.build (α := α) slotOf = .error error := by
  rw [Formula.inOrder_iff] at disorder
  obtain ⟨error, rest, first⟩ := List.exists_cons_of_ne_nil disorder
  exact ⟨error, rest, first, (formula.build_yields spelled).eq_error first⟩

section Nonblank

theorem isSpace_eq_false_of_leads {c : Char}
    (h : (startsPrimary c || (PrefixOp.ofChar? c).isSome) = true) : isSpace c = false := by
  rw [Bool.eq_false_iff]
  intro space
  have far := toNat_of_isSpace space
  simp only [startsPrimary, Bool.or_eq_true, decide_eq_true_eq] at h
  rcases h with (((digit | rfl) | letter) | rfl) | sign
  · have number : 48 ≤ c.toNat ∧ c.toNat ≤ 57 := Char.isDigit_iff_toNat.mp digit
    omega
  · cases space
  · have bounds := toNat_of_isNameStart letter
    omega
  · cases space
  · unfold PrefixOp.ofChar? at sign
    split at sign
    case h_4 => cases sign
    all_goals cases space

theorem mem_dropWhile_isSpace {c : Char} {s : List Char} (hm : c ∈ s) (hc : isSpace c = false) :
    c ∈ s.dropWhile isSpace := by
  rw [← List.takeWhile_append_dropWhile (p := isSpace) (l := s)] at hm
  rcases List.mem_append.mp hm with h | h
  · rw [List.mem_takeWhile_imp h] at hc
    cases hc
  · exact h

theorem Leads.nonblank {s : List Char} (h : Leads s) : (trimSpace s).isEmpty = false := by
  obtain ⟨w, c, t, rfl, -, hc⟩ := h
  have plain := isSpace_eq_false_of_leads hc
  have front := mem_dropWhile_isSpace (s := w ++ c :: t) (by simp) plain
  have both := mem_dropWhile_isSpace (List.mem_reverse.mpr front) plain
  rw [trimSpace, List.isEmpty_reverse, List.isEmpty_eq_false_iff]
  exact List.ne_nil_of_mem both

theorem Derives.calculation_leads {s : List Char} {ps : List Pair}
    (h : Derives .calculation s ps) : Leads s := by
  obtain ⟨start, v, u, _, qs, rfl, -, hv, empty, h⟩ := h.spaced_inv
  obtain ⟨s, w, last, ss, _, rfl, -, -, expr, -⟩ := h.spaced_inv
  obtain ⟨rfl, -⟩ := empty.text_inv
  exact (expr.expr_leads.append (w ++ last)).prepend hv

end Nonblank

namespace Expression

section Read

variable {formula : Formula} {text : String} (nonblank : (trimSpace text.toList).isEmpty = false)
  (read : Formula.read text = .ok formula)

include nonblank read

/-- The depth is looked at last. -/
theorem parse_of_built {tree : Expression α} (built : formula.build slotOf = .ok tree) :
    parse slotOf text =
      if maxDepth < tree.depth then .error (.tooComplex (.depth tree.depth)) else .ok tree := by
  rw [parse_of_nonblank nonblank, read]
  simp only [bind, Except.bind, built, walkedDepth_eq_depth]

theorem parse_of_refused {error : ParseError}
    (refused : formula.build (α := α) slotOf = .error error) :
    parse (α := α) slotOf text = .error error := by
  rw [parse_of_nonblank nonblank, read]
  simp only [bind, Except.bind, refused]

end Read

/-- Which texts of the grammar parse, and what is wrong with the others. -/
theorem parse_verdict {text : String} {pairs : List Pair}
    (slotOf : String → Option Nat) (within : checkLimits text = .ok ())
    (derived : Derives .calculation text.toList pairs) :
    ∃ formula : Formula, recognise text.toList = .ok formula ∧ pairs = [formula.pair] ∧
      ((∃ tree : Expression α, parse slotOf text = .ok tree) ↔
        formula.InOrder slotOf ∧ (formula.survey slotOf).depth ≤ maxDepth) ∧
      (¬ formula.InOrder slotOf → ∃ error rest, (formula.survey slotOf).faults = error :: rest ∧
        parse (α := α) slotOf text = .error error) ∧
      (formula.InOrder slotOf → ∃ tree : Expression α, formula.build slotOf = .ok tree ∧
        formula.HasType tree.valueType ∧ tree.depth = (formula.survey slotOf).depth ∧
        parse slotOf text =
          if maxDepth < tree.depth then .error (.tooComplex (.depth tree.depth)) else .ok tree) ∧
      ∀ depth, parse (α := α) slotOf text = .error (.tooComplex (.depth depth)) ↔
        formula.InOrder slotOf ∧ depth = (formula.survey slotOf).depth ∧ maxDepth < depth := by
  obtain ⟨formula, recognised, rfl⟩ := recognise_of_derives derived
  have read : Formula.read text = .ok formula := Formula.read_eq_ok_iff.mpr ⟨within, recognised⟩
  have nonblank : (trimSpace text.toList).isEmpty = false := derived.calculation_leads.nonblank
  refine ⟨formula, recognised, rfl, ?_⟩
  by_cases order : formula.InOrder slotOf
  · obtain ⟨tree, built, typed, depth⟩ := Formula.build_of_inOrder (α := α) derived.spelled order
    have parsed := parse_of_built nonblank read built
    refine ⟨?_, fun disorder => (disorder order).elim, fun _ => ⟨tree, built, typed, depth, parsed⟩,
      fun excess => ?_⟩
    · rw [parsed, ← depth]
      split
      next deep => simp [deep]
      next shallow => simp [order, Nat.not_lt.mp shallow]
    · rw [parsed, ← depth]
      constructor
      · intro refused
        split at refused
        next deep => cases refused; exact ⟨order, rfl, deep⟩
        next => cases refused
      · rintro ⟨-, rfl, deep⟩
        rw [if_pos deep]
  · obtain ⟨error, rest, first, refused⟩ :=
      Formula.build_of_not_inOrder (α := α) derived.spelled order
    have parsed := parse_of_refused nonblank read refused
    refine ⟨?_, fun _ => ⟨error, rest, first, parsed⟩, fun h => (order h).elim, fun excess => ?_⟩
    · simp [parsed, order]
    · constructor
      · intro deep
        rw [parsed] at deep
        cases deep
        exact (formula.build_error refused).elim
      · exact fun h => (order h.1).elim

/-- The sum does not come to look at the type on its left, as the call on its right is refused. -/
theorem parse_verdict_operands_first :
    let text := "(1 < 2) + min(k)"
    checkLimits text = .ok () ∧ (∃ pairs, Derives .calculation text.toList pairs) ∧
      parse (α := Float) Scope.function.slot? text = .error (.unboundVariable "k") := by
  intro text
  let smaller : Formula :=
    .operation (.link [] (.number "1") .less (.last [] (.number "2")))
  let formula : Formula :=
    .operation (.link [] (.group smaller) .add (.last []
      (.call "min" (.cons (.operation (.last [] (.name "k"))) .none))))
  have within : checkLimits text = .ok () := by decide +kernel
  have recognised : recognise "(1 < 2) + min(k)".toList = .ok formula := by rfl
  have derived := derives_of_recognise recognised
  obtain ⟨formula', recognised', -, -, refused, -, -⟩ :=
    parse_verdict (α := Float) Scope.function.slot? within derived
  cases Except.ok.inj (recognised.symm.trans recognised')
  have faults : (formula.survey Scope.function.slot?).faults =
      [.unboundVariable "k", .arity "min" .atLeastTwo 1, .typeMismatch .real .boolean] := by rfl
  have disorder : ¬ formula.InOrder Scope.function.slot? := by
    rw [Formula.inOrder_iff, faults]
    nofun
  obtain ⟨error, rest, first, h⟩ := refused disorder
  rw [faults] at first
  cases first
  exact ⟨within, ⟨_, derived⟩, h⟩

end Expression

end LessonPlot
