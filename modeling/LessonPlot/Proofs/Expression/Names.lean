import LessonPlot.Proofs.Except
import LessonPlot.Proofs.Expression.Slots
import LessonPlot.Scope

namespace LessonPlot

section Operands

variable {β : Type}

/-- The operands of a row, in the order of writing. -/
def Row.operands : Row β → List β
  | .last _ operand => [operand]
  | .link _ operand _ rest => operand :: rest.operands

/-- The operands under all operators, from left to right. -/
def Grouped.operands : Grouped β → List β
  | .operand value => [value]
  | .signed _ inner => inner.operands
  | .joined _ left right => left.operands ++ right.operands

/-- The operands that pending operators hold, those of the outermost operator first. -/
def Pending.operands : List (Pending β) → List β
  | [] => []
  | .sign _ :: below => operands below
  | .operator _ left :: below => operands below ++ left.operands

theorem Pending.operands_signs (signs : List PrefixOp) (pending : List (Pending β)) :
    operands (signs.map .sign ++ pending) = operands pending := by
  induction signs with
  | nil => rfl
  | cons sign signs ih => exact ih

/-- What closes a pending operator keeps the order of the operands. -/
theorem Pending.operands_close (top : Pending β) (below : List (Pending β)) (value : Grouped β) :
    operands below ++ (top.close value).operands = operands (top :: below) ++ value.operands := by
  cases top with
  | sign op => rfl
  | operator op left => simp [close, Grouped.operands, operands]

theorem Pending.operands_closeAll (pending : List (Pending β)) (value : Grouped β) :
    (closeAll value pending).operands = operands pending ++ value.operands := by
  induction pending generalizing value with
  | nil => rfl
  | cons top below ih =>
    have closed := ih (top.close value)
    rw [operands_close] at closed
    exact closed

theorem Pending.operands_settle (power : Nat) (pending : List (Pending β)) (value : Grouped β) :
    operands (settle power value pending).2 ++ (settle power value pending).1.operands =
      operands pending ++ value.operands := by
  induction pending generalizing value with
  | nil => rfl
  | cons top below ih =>
    rw [settle]
    split
    next => rfl
    next => rw [ih, operands_close]

theorem Row.operands_groupUnder (row : Row β) (pending : List (Pending β)) :
    (row.groupUnder pending).operands = Pending.operands pending ++ row.operands := by
  induction row generalizing pending with
  | last signs operand =>
    rw [groupUnder, Pending.operands_closeAll, Pending.operands_signs]
    rfl
  | link signs operand op rest ih =>
    have settled := Pending.operands_settle op.leftPower (signs.reverse.map .sign ++ pending)
      (.operand operand)
    rw [Pending.operands_signs] at settled
    simp only [groupUnder, ih, Pending.operands, settled]
    simp [Grouped.operands, operands]

/-- Grouping leaves the operands in the order of writing. -/
theorem Row.operands_group (row : Row β) : row.group.operands = row.operands :=
  row.operands_groupUnder []

end Operands

variable {α : Type}

namespace Expression

/-- The slots that an expression mentions, in the order of writing. -/
def slots : Expression α → List Nat
  | .real e => e.slots
  | .boolean e => e.slots

variable {e left right operand : Expression α}

theorem slots_toReal {real : RealExpression α} (h : e.toReal = .ok real) :
    real.slots = e.slots := by
  cases e with
  | real expression => cases h; rfl
  | boolean expression => cases h

theorem slots_toBoolean {boolean : BoolExpression α} (h : e.toBoolean = .ok boolean) :
    boolean.slots = e.slots := by
  cases e with
  | real expression => cases h
  | boolean expression => cases h; rfl

theorem slots_sign {op : PrefixOp} (h : sign op operand = .ok e) : e.slots = operand.slots := by
  cases op with
  | minus | plus =>
    obtain ⟨real, hr, h⟩ := bind_eq_ok_iff.mp h
    cases h
    rw [← slots_toReal hr]
    rfl
  | not =>
    obtain ⟨boolean, hb, h⟩ := bind_eq_ok_iff.mp h
    cases h
    rw [← slots_toBoolean hb]
    rfl

theorem slots_arithmetic {op : Arithmetic} (h : arithmetic op left right = .ok e) :
    e.slots = left.slots ++ right.slots := by
  obtain ⟨first, hf, h⟩ := bind_eq_ok_iff.mp h
  obtain ⟨second, hs, h⟩ := bind_eq_ok_iff.mp h
  cases h
  rw [← slots_toReal hf, ← slots_toReal hs]
  rfl

theorem slots_comparison {op : Comparison} (h : comparison op left right = .ok e) :
    e.slots = left.slots ++ right.slots := by
  obtain ⟨first, hf, h⟩ := bind_eq_ok_iff.mp h
  obtain ⟨second, hs, h⟩ := bind_eq_ok_iff.mp h
  cases h
  rw [← slots_toReal hf, ← slots_toReal hs]
  rfl

theorem slots_connection {op : Connective} (h : connection op left right = .ok e) :
    e.slots = left.slots ++ right.slots := by
  obtain ⟨first, hf, h⟩ := bind_eq_ok_iff.mp h
  obtain ⟨second, hs, h⟩ := bind_eq_ok_iff.mp h
  cases h
  rw [← slots_toBoolean hf, ← slots_toBoolean hs]
  rfl

theorem slots_join {op : InfixOp} (h : join op left right = .ok e) :
    e.slots = left.slots ++ right.slots := by
  cases op with
  | or | and => exact slots_connection h
  | equal | notEqual | lessEqual | greaterEqual | less | greater => exact slots_comparison h
  | add | subtract | multiply | divide | power => exact slots_arithmetic h

end Expression

theorem RealExpression.slots_foldl (op : Arithmetic) (first : RealExpression α)
    (rest : List (RealExpression α)) :
    (rest.foldl (.binary op) first).slots = first.slots ++ rest.flatMap slots := by
  induction rest generalizing first with
  | nil => simp
  | cons second rest ih => simp [ih, slots]

theorem Callee.slots_apply {callee : Callee} {name : String} {arguments : List (RealExpression α)}
    {e : Expression α} (h : callee.apply name arguments = .ok e) :
    e.slots = arguments.flatMap RealExpression.slots := by
  cases callee with
  | elementary function =>
    rcases arguments with _ | ⟨argument, _ | ⟨other, others⟩⟩
    · cases h
    · cases h
      simp [Expression.slots, RealExpression.slots]
    · cases h
  | extremum which =>
    rcases arguments with _ | ⟨first, _ | ⟨second, rest⟩⟩
    · cases h
    · cases h
    · cases h
      exact RealExpression.slots_foldl (.extremum which) first (second :: rest)

/-- What is built of operands has been built of each of them, and mentions their slots in order. -/
theorem Grouped.build_eq_ok {g : Grouped (Except ParseError (Expression α))} {e : Expression α}
    (h : g.build = .ok e) :
    ∃ es : List (Expression α), g.operands = es.map .ok ∧ e.slots = es.flatMap Expression.slots := by
  induction g generalizing e with
  | operand value =>
    cases h
    exact ⟨[e], rfl, by simp⟩
  | signed op inner ih =>
    obtain ⟨operand, hi, h⟩ := bind_eq_ok_iff.mp h
    obtain ⟨es, ho, hs⟩ := ih hi
    exact ⟨es, ho, (Expression.slots_sign h).trans hs⟩
  | joined op left right ihl ihr =>
    obtain ⟨first, hl, h⟩ := bind_eq_ok_iff.mp h
    obtain ⟨second, hr, h⟩ := bind_eq_ok_iff.mp h
    obtain ⟨es, ho, hs⟩ := ihl hl
    obtain ⟨es', ho', hs'⟩ := ihr hr
    refine ⟨es ++ es', by simp [operands, ho, ho'], ?_⟩
    rw [Expression.slots_join h, hs, hs', List.flatMap_append]

/-- The names of variables among those that stand in variable position. -/
def freeNames (names : List String) : List String :=
  names.filter fun name => !constantNames.contains name

theorem freeNames_append (names others : List String) :
    freeNames (names ++ others) = freeNames names ++ freeNames others := by
  rw [freeNames, List.filter_append]
  rfl

theorem mem_freeNames {name : String} {names : List String} :
    name ∈ freeNames names ↔ name ∈ names ∧ name ∉ constantNames := by
  simp [freeNames]

variable [Scalar α] {slotOf : String → Option Nat}

/-- Slots are those of names, one for one and in the same order. -/
def Resolves (slotOf : String → Option Nat) (names : List String) (slots : List Nat) : Prop :=
  slots.map some = (freeNames names).map slotOf

theorem Resolves.append {names names' : List String} {slots slots' : List Nat}
    (h : Resolves slotOf names slots) (h' : Resolves slotOf names' slots') :
    Resolves slotOf (names ++ names') (slots ++ slots') := by
  rw [Resolves, freeNames_append, List.map_append, List.map_append, h, h']

theorem Resolves.length_eq {names : List String} {slots : List Nat}
    (h : Resolves slotOf names slots) : slots.length = (freeNames names).length := by
  simpa using congrArg List.length h

theorem Resolves.getElem? {names : List String} {slots : List Nat} {occurrence : Nat}
    {name : String} (h : Resolves slotOf names slots)
    (hn : (freeNames names)[occurrence]? = some name) :
    ∃ index, slots[occurrence]? = some index ∧ slotOf name = some index := by
  have hs : (slots.map some)[occurrence]? = some (slotOf name) := by
    rw [h, List.getElem?_map, hn, Option.map_some]
  rw [List.getElem?_map] at hs
  obtain ⟨index, hi, he⟩ := Option.map_eq_some_iff.mp hs
  exact ⟨index, hi, he.symm⟩

theorem nameExpression_resolves {name : String} {e : Expression α}
    (h : nameExpression slotOf name = .ok e) : Resolves slotOf [name] e.slots := by
  unfold nameExpression at h
  split at h
  next constant =>
    cases h
    rw [constant]
    rfl
  next notPi =>
    split at h
    next constant =>
      cases h
      rw [constant]
      rfl
    next notE =>
      cases hs : slotOf name with
      | none => simp [hs] at h
      | some index =>
        rw [hs] at h
        cases h
        have free : freeNames [name] = [name] := by simp [freeNames, constantNames, notPi, notE]
        rw [Resolves, free, List.map_singleton, hs]
        rfl

theorem literalExpression_slots {text : String} {e : Expression α}
    (h : literalExpression text = .ok e) : e.slots = [] := by
  unfold literalExpression at h
  cases hv : readScalar? (α := α) text with
  | none => simp [hv] at h
  | some value =>
    rw [hv] at h
    cases h
    rfl

mutual

/-- The slots in what is built of a formula are those of its variables, occurrence for occurrence. -/
theorem Formula.build_resolves (formula : Formula) {e : Expression α}
    (h : formula.build slotOf = .ok e) : Resolves slotOf formula.names e.slots := by
  cases formula with
  | operation operands => exact operands.build_resolves h
  | choice condition chosen otherwise =>
    obtain ⟨e₁, h₁, h⟩ := bind_eq_ok_iff.mp h
    obtain ⟨b₁, hb₁, h⟩ := bind_eq_ok_iff.mp h
    obtain ⟨e₂, h₂, h⟩ := bind_eq_ok_iff.mp h
    obtain ⟨r₂, hr₂, h⟩ := bind_eq_ok_iff.mp h
    obtain ⟨e₃, h₃, h⟩ := bind_eq_ok_iff.mp h
    obtain ⟨r₃, hr₃, h⟩ := bind_eq_ok_iff.mp h
    cases h
    have parts := ((condition.build_resolves h₁).append (chosen.build_resolves h₂)).append
      (otherwise.build_resolves h₃)
    rw [← Expression.slots_toBoolean hb₁, ← Expression.slots_toReal hr₂,
      ← Expression.slots_toReal hr₃] at parts
    exact parts

theorem Operation.build_resolves (operands : Operation) {e : Expression α}
    (h : (operands.row slotOf).group.build = .ok e) : Resolves slotOf operands.names e.slots := by
  obtain ⟨es, ho, hs⟩ := Grouped.build_eq_ok h
  rw [Row.operands_group] at ho
  rw [hs]
  exact operands.operands_resolve ho

theorem Operation.operands_resolve (operands : Operation) {es : List (Expression α)}
    (h : (operands.row slotOf).operands = es.map .ok) :
    Resolves slotOf operands.names (es.flatMap Expression.slots) := by
  cases operands with
  | last signs operand =>
    obtain ⟨e, others, rfl, he, ho⟩ := List.map_eq_cons_iff.mp h.symm
    cases List.map_eq_nil_iff.mp ho
    rw [List.flatMap_singleton]
    exact operand.build_resolves he.symm
  | link signs operand op rest =>
    obtain ⟨e, others, rfl, he, ho⟩ := List.map_eq_cons_iff.mp h.symm
    rw [List.flatMap_cons]
    exact (operand.build_resolves he.symm).append (rest.operands_resolve ho.symm)

theorem Primary.build_resolves (operand : Primary) {e : Expression α}
    (h : operand.build slotOf = .ok e) : Resolves slotOf operand.names e.slots := by
  cases operand with
  | number text => rw [literalExpression_slots h]; rfl
  | name text => exact nameExpression_resolves h
  | call callee arguments =>
    rw [Primary.build] at h
    cases hc : Callee.ofName? callee with
    | none => simp [hc] at h
    | some function =>
      simp only [hc] at h
      obtain ⟨built, ha, h⟩ := bind_eq_ok_iff.mp h
      rw [Callee.slots_apply h]
      exact arguments.build_resolves ha
  | group inner => exact inner.build_resolves h

theorem Arguments.build_resolves (arguments : Arguments) {built : List (RealExpression α)}
    (h : arguments.build slotOf = .ok built) :
    Resolves slotOf arguments.names (built.flatMap RealExpression.slots) := by
  cases arguments with
  | none =>
    cases h
    rfl
  | cons first rest =>
    obtain ⟨e, he, h⟩ := bind_eq_ok_iff.mp h
    obtain ⟨real, hr, h⟩ := bind_eq_ok_iff.mp h
    obtain ⟨others, ho, h⟩ := bind_eq_ok_iff.mp h
    cases h
    rw [List.flatMap_cons, Expression.slots_toReal hr]
    exact (first.build_resolves he).append (rest.build_resolves ho)

end

/-- An accepted text has been read as a formula, of which the tree has been built. -/
theorem Expression.parse_eq_ok {text : String} {tree : Expression α}
    (h : parse slotOf text = .ok tree) :
    ∃ formula, Formula.read text = .ok formula ∧ formula.build slotOf = .ok tree := by
  unfold parse at h
  split at h
  next => cases h
  next =>
    obtain ⟨formula, hr, h⟩ := bind_eq_ok_iff.mp h
    obtain ⟨expression, hb, h⟩ := bind_eq_ok_iff.mp h
    dsimp only at h
    split at h
    next => cases h
    next => cases h; exact ⟨formula, hr, hb⟩

theorem Expression.parse_of_build {text : String} {formula : Formula} {tree : Expression α}
    (nonblank : (trimSpace text.toList).isEmpty = false) (read : Formula.read text = .ok formula)
    (built : formula.build slotOf = .ok tree) (flat : tree.walkedDepth ≤ maxDepth) :
    parse slotOf text = .ok tree := by
  have shallow : ¬ maxDepth < tree.walkedDepth := Nat.not_lt.mpr flat
  rw [parse, nonblank, read]
  simp only [bind, Except.bind, built, if_neg shallow]
  rfl

/-- The slots in the expression of a text are those of its variables, occurrence for occurrence. -/
theorem Scope.compile_resolves {scope : Scope} {text : String} {e : RealExpression α}
    (h : scope.compile text = .ok e) :
    ∃ formula, Formula.read text = .ok formula ∧ Resolves scope.slot? formula.names e.slots := by
  obtain ⟨tree, hp, hr⟩ := bind_eq_ok_iff.mp h
  obtain ⟨formula, hf, hb⟩ := Expression.parse_eq_ok hp
  refine ⟨formula, hf, ?_⟩
  rw [Expression.slots_toReal hr]
  exact formula.build_resolves hb

end LessonPlot
