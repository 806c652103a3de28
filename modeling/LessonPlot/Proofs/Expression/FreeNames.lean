import LessonPlot.Proofs.Expression.Names
import LessonPlot.Proofs.Formula.Recognition

namespace LessonPlot

namespace Pair

mutual

/-- A tree and all trees of its parts, each before its own parts. -/
def flatten : Pair → List Pair
  | .node rule children => .node rule children :: flattenAll children
  | .leaf rule spelling => [.leaf rule spelling]

def flattenAll : List Pair → List Pair
  | [] => []
  | pair :: others => pair.flatten ++ flattenAll others

end

def name? : Pair → Option String
  | .leaf .name spelling => some (String.ofList spelling)
  | _ => none

/-- The variables that a walk over a list of trees finds, in the order of writing. -/
def namesIn (pairs : List Pair) : List String :=
  (flattenAll pairs).filterMap name?

theorem flattenAll_append (pairs others : List Pair) :
    flattenAll (pairs ++ others) = flattenAll pairs ++ flattenAll others := by
  induction pairs with
  | nil => rfl
  | cons pair pairs ih => rw [List.cons_append, flattenAll, ih, flattenAll, List.append_assoc]

theorem namesIn_append (pairs others : List Pair) :
    namesIn (pairs ++ others) = namesIn pairs ++ namesIn others := by
  rw [namesIn, flattenAll_append, List.filterMap_append]
  rfl

theorem namesIn_cons (pair : Pair) (others : List Pair) :
    namesIn (pair :: others) = namesIn [pair] ++ namesIn others :=
  namesIn_append [pair] others

theorem namesIn_node (rule : Rule) (children : List Pair) :
    namesIn [.node rule children] = namesIn children := by
  rw [namesIn, flattenAll, flatten, flattenAll, List.append_nil]
  rfl

theorem namesIn_signs (signs : List PrefixOp) :
    namesIn (signs.map fun op => .node (.sign op) []) = [] := by
  induction signs with
  | nil => rfl
  | cons sign signs ih =>
    rw [List.map_cons, namesIn_cons, namesIn_node, ih]
    rfl

end Pair

mutual

/-- The walk over the parse tree of a formula finds the names in variable position. -/
theorem Formula.namesIn_pair (formula : Formula) :
    Pair.namesIn [formula.pair] = formula.names := by
  cases formula with
  | operation operands =>
    rw [Formula.pair, Pair.namesIn_node, Pair.namesIn_node, operands.namesIn_pairs]
    rfl
  | choice condition chosen otherwise =>
    rw [Formula.pair, Pair.namesIn_node, Pair.namesIn_cons, Pair.namesIn_node,
      Pair.namesIn_cons, condition.namesIn_pairs, chosen.namesIn_pair,
      otherwise.namesIn_pair, Formula.names, List.append_assoc]

theorem Operation.namesIn_pairs (operands : Operation) :
    Pair.namesIn operands.pairs = operands.names := by
  cases operands with
  | last signs operand =>
    rw [Operation.pairs, Pair.namesIn_append, Pair.namesIn_signs, operand.namesIn_pair]
    rfl
  | link signs operand op rest =>
    rw [Operation.pairs, Pair.namesIn_append, Pair.namesIn_signs, Pair.namesIn_cons,
      Pair.namesIn_cons _ rest.pairs, Pair.namesIn_node, operand.namesIn_pair,
      rest.namesIn_pairs]
    rfl

theorem Primary.namesIn_pair (operand : Primary) :
    Pair.namesIn [operand.pair] = operand.names := by
  cases operand with
  | number text => rfl
  | name text => simp [Primary.pair, Pair.namesIn, Pair.flattenAll, Pair.flatten, Pair.name?,
      Primary.names]
  | call callee arguments =>
    rw [Primary.pair, Pair.namesIn_node, Pair.namesIn_cons, arguments.namesIn_pairs]
    rfl
  | group inner => exact inner.namesIn_pair

theorem Arguments.namesIn_pairs (arguments : Arguments) :
    Pair.namesIn arguments.pairs = arguments.names := by
  cases arguments with
  | none => rfl
  | cons first rest =>
    rw [Arguments.pairs, Pair.namesIn_cons, first.namesIn_pair, rest.namesIn_pairs]
    rfl

end

/-- The text is over a limit or is not of the grammar. -/
def Unread (text : String) : Prop :=
  (∃ error, checkLimits text = .error error) ∨ ∀ pairs, ¬ Derives .calculation text.toList pairs

namespace ParseError

/-- Whether the text was refused as such, before any name or type in it was looked at. -/
def ofReading : ParseError → Bool
  | malformed _ | tooComplex (.bytes _) | tooComplex (.nesting _) => true
  | _ => false

/-- Whether an error can arise where the slots of names are given by `slotOf`: a variable is
missing only where it occurs, and the text itself is in order. -/
def Arises (slotOf : String → Option Nat) (names : List String) : ParseError → Prop
  | unboundVariable name => name ∈ freeNames names ∧ slotOf name = none
  | empty | malformed _ | tooComplex _ => False
  | _ => True

theorem Arises.mono {slotOf : String → Option Nat} {names others : List String}
    {error : ParseError} (sub : names ⊆ others) (h : error.Arises slotOf names) :
    error.Arises slotOf others := by
  cases error with
  | unboundVariable name =>
    obtain ⟨hm, unbound⟩ := h
    obtain ⟨hm, hc⟩ := mem_freeNames.mp hm
    exact ⟨mem_freeNames.mpr ⟨sub hm, hc⟩, unbound⟩
  | empty | malformed | tooComplex => exact h
  | invalidLiteral | unknownFunction | arity | typeMismatch => trivial

end ParseError

theorem checkLimits_error {text : String} {error : ParseError}
    (h : checkLimits text = .error error) : error.ofReading = true := by
  unfold checkLimits at h
  split at h
  next => cases h; rfl
  next =>
    dsimp only at h
    split at h
    next => cases h; rfl
    next => cases h

theorem Formula.read_error {text : String} {error : ParseError}
    (h : Formula.read text = .error error) : error.ofReading = true := by
  rcases bind_eq_error_iff.mp h with h | ⟨-, -, h⟩
  · exact checkLimits_error h
  · split at h
    next => cases h
    next => cases h; rfl

theorem Formula.read_eq_ok_iff {text : String} {formula : Formula} :
    Formula.read text = .ok formula ↔
      checkLimits text = .ok () ∧ recognise text.toList = .ok formula := by
  rw [Formula.read, bind_eq_ok_iff]
  constructor
  · rintro ⟨⟨⟩, hl, h⟩
    split at h
    next hf => cases h; exact ⟨hl, hf⟩
    next => cases h
  · rintro ⟨hl, hf⟩
    exact ⟨(), hl, by rw [hf]⟩

/-- Reading fails on the texts that are over a limit or not of the grammar, and on no others. -/
theorem Formula.exists_read_error_iff (text : String) :
    (∃ error, Formula.read text = .error error) ↔ Unread text := by
  constructor
  · rintro ⟨error, h⟩
    refine Classical.byContradiction fun readable => ?_
    obtain ⟨within, derives⟩ := not_or.mp readable
    obtain ⟨pairs, hd⟩ := Classical.not_forall_not.mp derives
    obtain ⟨formula, hf, -⟩ := recognise_of_derives hd
    cases hl : checkLimits text with
    | error e => exact within ⟨e, hl⟩
    | ok _ =>
      rw [Formula.read_eq_ok_iff.mpr ⟨hl, hf⟩] at h
      cases h
  · intro unread
    cases h : Formula.read text with
    | error error => exact ⟨error, rfl⟩
    | ok formula =>
      obtain ⟨within, hf⟩ := Formula.read_eq_ok_iff.mp h
      rcases unread with ⟨error, excess⟩ | underivable
      · rw [within] at excess
        cases excess
      · exact (underivable _ (derives_of_recognise hf)).elim

section Names

variable {text : String} {names : List String}

theorem variableNames_eq_error_iff {error : ParseError} :
    variableNames text = .error error ↔ Formula.read text = .error error := by
  rw [variableNames, bind_eq_error_iff]
  constructor
  · rintro (h | ⟨formula, -, h⟩)
    · exact h
    · cases h
  · exact .inl

theorem variableNames_eq_ok_iff : variableNames text = .ok names ↔
    ∃ formula, Formula.read text = .ok formula ∧ (freeNames formula.names).eraseDups = names := by
  rw [variableNames, bind_eq_ok_iff]
  simp only [Except.ok.injEq]
  rfl

/-- The free names of a text are what a walk over its parse tree finds, the constants left out. -/
theorem mem_variableNames_iff (h : variableNames text = .ok names) {pairs : List Pair}
    (derived : Derives .calculation text.toList pairs) (name : String) :
    name ∈ names ↔ name ∈ Pair.namesIn pairs ∧ name ∉ constantNames := by
  obtain ⟨formula, hf, rfl⟩ := variableNames_eq_ok_iff.mp h
  obtain ⟨-, hr⟩ := Formula.read_eq_ok_iff.mp hf
  obtain ⟨formula', hr', rfl⟩ := recognise_of_derives derived
  rw [hr] at hr'
  cases hr'
  rw [List.mem_eraseDups, mem_freeNames, formula.namesIn_pair]

end Names

variable {α : Type} {slotOf other : String → Option Nat} {error : ParseError}

namespace Expression

variable {left right operand : Expression α}

theorem toReal_error (h : operand.toReal = .error error) :
    ∃ expected found, error = .typeMismatch expected found := by
  cases operand with
  | real expression => cases h
  | boolean expression => cases h; exact ⟨_, _, rfl⟩

theorem toBoolean_error (h : operand.toBoolean = .error error) :
    ∃ expected found, error = .typeMismatch expected found := by
  cases operand with
  | real expression => cases h; exact ⟨_, _, rfl⟩
  | boolean expression => cases h

theorem sign_error {op : PrefixOp} (h : sign op operand = .error error) :
    ∃ expected found, error = .typeMismatch expected found := by
  cases op with
  | minus | plus =>
    rcases bind_eq_error_iff.mp h with h | ⟨_, _, h⟩
    · exact toReal_error h
    · cases h
  | not =>
    rcases bind_eq_error_iff.mp h with h | ⟨_, _, h⟩
    · exact toBoolean_error h
    · cases h

theorem arithmetic_error {op : Arithmetic} (h : arithmetic op left right = .error error) :
    ∃ expected found, error = .typeMismatch expected found := by
  rcases bind_eq_error_iff.mp h with h | ⟨_, _, h⟩
  · exact toReal_error h
  · rcases bind_eq_error_iff.mp h with h | ⟨_, _, h⟩
    · exact toReal_error h
    · cases h

theorem comparison_error {op : Comparison} (h : comparison op left right = .error error) :
    ∃ expected found, error = .typeMismatch expected found := by
  rcases bind_eq_error_iff.mp h with h | ⟨_, _, h⟩
  · exact toReal_error h
  · rcases bind_eq_error_iff.mp h with h | ⟨_, _, h⟩
    · exact toReal_error h
    · cases h

theorem connection_error {op : Connective} (h : connection op left right = .error error) :
    ∃ expected found, error = .typeMismatch expected found := by
  rcases bind_eq_error_iff.mp h with h | ⟨_, _, h⟩
  · exact toBoolean_error h
  · rcases bind_eq_error_iff.mp h with h | ⟨_, _, h⟩
    · exact toBoolean_error h
    · cases h

theorem join_error {op : InfixOp} (h : join op left right = .error error) :
    ∃ expected found, error = .typeMismatch expected found := by
  cases op with
  | or | and => exact connection_error h
  | equal | notEqual | lessEqual | greaterEqual | less | greater => exact comparison_error h
  | add | subtract | multiply | divide | power => exact arithmetic_error h

end Expression

/-- What operands come to is refused for one of them or for their types. -/
theorem Grouped.build_eq_error {g : Grouped (Except ParseError (Expression α))}
    (h : g.build = .error error) :
    .error error ∈ g.operands ∨ ∃ expected found, error = .typeMismatch expected found := by
  induction g with
  | operand value =>
    cases h
    exact .inl (List.mem_singleton_self _)
  | signed op inner ih =>
    rcases bind_eq_error_iff.mp h with h | ⟨_, _, h⟩
    · exact ih h
    · exact .inr (Expression.sign_error h)
  | joined op left right ihl ihr =>
    rcases bind_eq_error_iff.mp h with h | ⟨_, _, h⟩
    · exact (ihl h).imp_left fun hm => List.mem_append_left _ hm
    · rcases bind_eq_error_iff.mp h with h | ⟨_, _, h⟩
      · exact (ihr h).imp_left fun hm => List.mem_append_right _ hm
      · exact .inr (Expression.join_error h)

theorem Callee.apply_error {callee : Callee} {name : String} {arguments : List (RealExpression α)}
    (h : callee.apply name arguments = .error error) :
    ∃ expected found, error = .arity name expected found := by
  cases callee with
  | elementary function =>
    rcases arguments with _ | ⟨argument, _ | ⟨another, others⟩⟩
    · cases h; exact ⟨_, _, rfl⟩
    · cases h
    · cases h; exact ⟨_, _, rfl⟩
  | extremum which =>
    rcases arguments with _ | ⟨first, _ | ⟨second, rest⟩⟩
    · cases h; exact ⟨_, _, rfl⟩
    · cases h; exact ⟨_, _, rfl⟩
    · cases h

theorem ParseError.arises_of_typeMismatch {names : List String}
    (h : ∃ expected found, error = .typeMismatch expected found) : error.Arises slotOf names := by
  obtain ⟨expected, found, rfl⟩ := h
  trivial

variable [Scalar α]

theorem nameExpression_error {name : String}
    (h : nameExpression (α := α) slotOf name = .error error) : error.Arises slotOf [name] := by
  unfold nameExpression at h
  split at h
  next => cases h
  next notPi =>
    split at h
    next => cases h
    next notE =>
      cases hs : slotOf name with
      | some index => simp [hs] at h
      | none =>
        rw [hs] at h
        cases h
        exact ⟨by simp [freeNames, constantNames, notPi, notE], hs⟩

mutual

/-- The errors that a formula is refused for are those that its own names and types give. -/
theorem Formula.build_error (formula : Formula)
    (h : formula.build (α := α) slotOf = .error error) : error.Arises slotOf formula.names := by
  cases formula with
  | operation operands => exact operands.build_error h
  | choice condition chosen otherwise =>
    have inCondition : condition.names ⊆ (Formula.choice condition chosen otherwise).names :=
      fun _ hn => List.mem_append_left _ (List.mem_append_left _ hn)
    have inChosen : chosen.names ⊆ (Formula.choice condition chosen otherwise).names :=
      fun _ hn => List.mem_append_left _ (List.mem_append_right _ hn)
    have inOtherwise : otherwise.names ⊆ (Formula.choice condition chosen otherwise).names :=
      fun _ hn => List.mem_append_right _ hn
    rcases bind_eq_error_iff.mp h with h | ⟨_, _, h⟩
    · exact (condition.build_error h).mono inCondition
    rcases bind_eq_error_iff.mp h with h | ⟨_, _, h⟩
    · exact ParseError.arises_of_typeMismatch (Expression.toBoolean_error h)
    rcases bind_eq_error_iff.mp h with h | ⟨_, _, h⟩
    · exact (chosen.build_error h).mono inChosen
    rcases bind_eq_error_iff.mp h with h | ⟨_, _, h⟩
    · exact ParseError.arises_of_typeMismatch (Expression.toReal_error h)
    rcases bind_eq_error_iff.mp h with h | ⟨_, _, h⟩
    · exact (otherwise.build_error h).mono inOtherwise
    rcases bind_eq_error_iff.mp h with h | ⟨_, _, h⟩
    · exact ParseError.arises_of_typeMismatch (Expression.toReal_error h)
    cases h

theorem Operation.build_error (operands : Operation)
    (h : (operands.row (α := α) slotOf).group.build = .error error) :
    error.Arises slotOf operands.names := by
  rcases Grouped.build_eq_error h with hm | types
  · rw [Row.operands_group] at hm
    exact operands.operand_error hm
  · exact ParseError.arises_of_typeMismatch types

theorem Operation.operand_error (operands : Operation)
    (h : .error error ∈ (operands.row (α := α) slotOf).operands) :
    error.Arises slotOf operands.names := by
  cases operands with
  | last signs operand => exact operand.build_error (List.mem_singleton.mp h).symm
  | link signs operand op rest =>
    rcases List.mem_cons.mp h with h | h
    · exact (operand.build_error h.symm).mono (List.subset_append_left _ _)
    · exact (rest.operand_error h).mono (List.subset_append_right _ _)

theorem Primary.build_error (operand : Primary)
    (h : operand.build (α := α) slotOf = .error error) : error.Arises slotOf operand.names := by
  cases operand with
  | number text =>
    rw [Primary.build, literalExpression] at h
    split at h
    next => cases h
    next => cases h; trivial
  | name text => exact nameExpression_error h
  | call callee arguments =>
    rw [Primary.build] at h
    split at h
    next => cases h; trivial
    next function _ =>
      rcases bind_eq_error_iff.mp h with h | ⟨_, _, h⟩
      · exact arguments.build_error h
      · obtain ⟨expected, found, rfl⟩ := Callee.apply_error h
        trivial
  | group inner => exact inner.build_error h

theorem Arguments.build_error (arguments : Arguments)
    (h : arguments.build (α := α) slotOf = .error error) :
    error.Arises slotOf arguments.names := by
  cases arguments with
  | none => cases h
  | cons first rest =>
    rcases bind_eq_error_iff.mp h with h | ⟨_, _, h⟩
    · exact (first.build_error h).mono (List.subset_append_left _ _)
    rcases bind_eq_error_iff.mp h with h | ⟨_, _, h⟩
    · exact ParseError.arises_of_typeMismatch (Expression.toReal_error h)
    rcases bind_eq_error_iff.mp h with h | ⟨_, _, h⟩
    · exact (rest.build_error h).mono (List.subset_append_right _ _)
    cases h

end

/-- Two assignments of slots agree on the free names among those given. -/
def AgreeOn (names : List String) (slotOf other : String → Option Nat) : Prop :=
  ∀ name ∈ freeNames names, slotOf name = other name

theorem AgreeOn.mono {names others : List String} (h : AgreeOn others slotOf other)
    (sub : names ⊆ others) : AgreeOn names slotOf other := by
  intro name hn
  obtain ⟨hm, hc⟩ := mem_freeNames.mp hn
  exact h name (mem_freeNames.mpr ⟨sub hm, hc⟩)

theorem nameExpression_congr {name : String} (h : AgreeOn [name] slotOf other) :
    nameExpression (α := α) slotOf name = nameExpression other name := by
  unfold nameExpression
  split
  next => rfl
  next notPi =>
    split
    next => rfl
    next notE => rw [h name (by simp [freeNames, constantNames, notPi, notE])]

mutual

/-- What is built of a formula depends on the slots of its free names alone. -/
theorem Formula.build_congr (formula : Formula) (h : AgreeOn formula.names slotOf other) :
    formula.build (α := α) slotOf = formula.build other := by
  cases formula with
  | operation operands => rw [Formula.build, Formula.build, operands.row_congr h]
  | choice condition chosen otherwise =>
    rw [Formula.names] at h
    have inFront := h.mono (List.subset_append_left (condition.names ++ chosen.names) _)
    rw [Formula.build, Formula.build,
      condition.row_congr (inFront.mono (List.subset_append_left _ _)),
      chosen.build_congr (inFront.mono (List.subset_append_right _ _)),
      otherwise.build_congr (h.mono (List.subset_append_right _ _))]

theorem Operation.row_congr (operands : Operation) (h : AgreeOn operands.names slotOf other) :
    operands.row (α := α) slotOf = operands.row other := by
  cases operands with
  | last signs operand => rw [Operation.row, Operation.row, operand.build_congr h]
  | link signs operand op rest =>
    rw [Operation.row, Operation.row,
      operand.build_congr (h.mono (List.subset_append_left _ _)),
      rest.row_congr (h.mono (List.subset_append_right _ _))]

theorem Primary.build_congr (operand : Primary) (h : AgreeOn operand.names slotOf other) :
    operand.build (α := α) slotOf = operand.build other := by
  cases operand with
  | number text => rfl
  | name text => exact nameExpression_congr h
  | call callee arguments => rw [Primary.build, Primary.build, arguments.build_congr h]
  | group inner => exact inner.build_congr h

theorem Arguments.build_congr (arguments : Arguments)
    (h : AgreeOn arguments.names slotOf other) :
    arguments.build (α := α) slotOf = arguments.build other := by
  cases arguments with
  | none => rfl
  | cons first rest =>
    rw [Arguments.build, Arguments.build,
      first.build_congr (h.mono (List.subset_append_left _ _)),
      rest.build_congr (h.mono (List.subset_append_right _ _))]

end

theorem Resolves.mem_iff {names : List String} {slots : List Nat}
    (h : Resolves slotOf names slots) (index : Nat) :
    index ∈ slots ↔ ∃ name ∈ freeNames names, slotOf name = some index := by
  have hm : some index ∈ slots.map some ↔ some index ∈ (freeNames names).map slotOf := by rw [h]
  simpa using hm

theorem Resolves.isSome {names : List String} {slots : List Nat}
    (h : Resolves slotOf names slots) {name : String} (hn : name ∈ freeNames names) :
    (slotOf name).isSome := by
  have hm : slotOf name ∈ slots.map some := by
    rw [h]
    exact List.mem_map_of_mem hn
  obtain ⟨index, -, hi⟩ := List.mem_map.mp hm
  rw [← hi]
  rfl

namespace Expression

variable {text : String}

theorem parse_of_nonblank (nonblank : (trimSpace text.toList).isEmpty = false)
    (slotOf : String → Option Nat) :
    parse (α := α) slotOf text = (do
      let formula ← Formula.read text
      let expression ← formula.build slotOf
      let depth := expression.walkedDepth
      if maxDepth < depth then .error (.tooComplex (.depth depth)) else .ok expression) := by
  rw [parse, nonblank]
  rfl

/-- A text is the same expression for any two assignments of slots that agree on its free names. -/
theorem parse_congr
    (agree : ∀ names, variableNames text = .ok names → ∀ name ∈ names, slotOf name = other name) :
    parse (α := α) slotOf text = parse other text := by
  cases blank : (trimSpace text.toList).isEmpty with
  | true => simp only [parse, blank, if_true]
  | false =>
    rw [parse_of_nonblank blank, parse_of_nonblank blank]
    cases hr : Formula.read text with
    | error error => rfl
    | ok formula =>
      have same : AgreeOn formula.names slotOf other := fun name hn =>
        agree _ (variableNames_eq_ok_iff.mpr ⟨formula, hr, rfl⟩) name (List.mem_eraseDups.mpr hn)
      simp only [bind, Except.bind, formula.build_congr same]

/-- A text is refused as it is read, or as the tree is built, or for the depth of the tree. -/
theorem parse_eq_error (nonblank : (trimSpace text.toList).isEmpty = false)
    (h : parse (α := α) slotOf text = .error error) :
    Formula.read text = .error error ∨
      ∃ formula, Formula.read text = .ok formula ∧
        (error.Arises slotOf formula.names ∨ ∃ depth, error = .tooComplex (.depth depth)) := by
  rw [parse_of_nonblank nonblank] at h
  rcases bind_eq_error_iff.mp h with h | ⟨formula, hr, h⟩
  · exact .inl h
  refine .inr ⟨formula, hr, ?_⟩
  rcases bind_eq_error_iff.mp h with h | ⟨expression, -, h⟩
  · exact .inl (formula.build_error h)
  · dsimp only at h
    split at h
    next => cases h; exact .inr ⟨_, rfl⟩
    next => cases h

/-- The errors of reading are not those of building. -/
theorem parse_eq_error_iff_read (nonblank : (trimSpace text.toList).isEmpty = false) :
    parse (α := α) slotOf text = .error error ∧ error.ofReading = true ↔
      Formula.read text = .error error := by
  constructor
  · rintro ⟨h, kind⟩
    rcases parse_eq_error nonblank h with hr | ⟨formula, -, arises | ⟨depth, rfl⟩⟩
    · exact hr
    · rcases error with _ | _ | _ | _ | _ | _ | _ | _ <;>
        first | exact arises.elim | cases kind
    · cases kind
  · intro h
    refine ⟨?_, Formula.read_error h⟩
    rw [parse_of_nonblank nonblank]
    exact bind_eq_error_iff.mpr (.inl h)

end Expression

/-- Reading the free names of a text and reading the text as an expression agree on what the free
names are, whatever slots the names have: both refuse the same texts with the same errors, slots of
other names do not matter, and the slots in a tree are those of the free names. These are what a walk
over the parse tree finds, the constants left out. -/
theorem variableNames_agrees_with_parse {text : String}
    (nonblank : (trimSpace text.toList).isEmpty = false) (slotOf other : String → Option Nat) :
    ((∃ error, variableNames text = .error error) ↔ Unread text) ∧
      (∀ error, variableNames text = .error error ↔
        Expression.parse (α := α) slotOf text = .error error ∧ error.ofReading = true) ∧
      (∀ names, variableNames text = .ok names → (∀ name ∈ names, slotOf name = other name) →
        Expression.parse (α := α) slotOf text = Expression.parse other text) ∧
      (∀ tree : Expression α, Expression.parse slotOf text = .ok tree →
        ∃ names, variableNames text = .ok names ∧ (∀ name ∈ names, (slotOf name).isSome) ∧
          ∀ index, index ∈ tree.slots ↔ ∃ name ∈ names, slotOf name = some index) ∧
      (∀ name, Expression.parse (α := α) slotOf text = .error (.unboundVariable name) →
        ∃ names, variableNames text = .ok names ∧ name ∈ names ∧ slotOf name = none) ∧
      ∀ names, variableNames text = .ok names → "PI" ∉ names ∧ "E" ∉ names ∧
        ∀ pairs, Derives .calculation text.toList pairs →
          ∀ name, name ∈ names ↔ name ∈ Pair.namesIn pairs ∧ name ∉ constantNames := by
  refine ⟨?_, ?_, ?_, ?_, ?_, ?_⟩
  · simp only [variableNames_eq_error_iff]
    exact Formula.exists_read_error_iff text
  · intro error
    rw [variableNames_eq_error_iff, Expression.parse_eq_error_iff_read nonblank]
  · intro names h agree
    refine Expression.parse_congr fun names' h' => ?_
    cases Except.ok.inj (h.symm.trans h')
    exact agree
  · intro tree h
    obtain ⟨formula, hr, hb⟩ := Expression.parse_eq_ok h
    have resolves := formula.build_resolves hb
    refine ⟨_, variableNames_eq_ok_iff.mpr ⟨formula, hr, rfl⟩, ?_, ?_⟩
    · intro name hn
      exact resolves.isSome (List.mem_eraseDups.mp hn)
    · intro index
      simp only [resolves.mem_iff, List.mem_eraseDups]
  · intro name h
    rcases Expression.parse_eq_error nonblank h with hr | ⟨formula, hr, arises | ⟨depth, hd⟩⟩
    · cases Formula.read_error hr
    · obtain ⟨hm, unbound⟩ := arises
      exact ⟨_, variableNames_eq_ok_iff.mpr ⟨formula, hr, rfl⟩, List.mem_eraseDups.mpr hm, unbound⟩
    · cases hd
  · intro names h
    have constants : "PI" ∉ names ∧ "E" ∉ names := by
      obtain ⟨formula, -, rfl⟩ := variableNames_eq_ok_iff.mp h
      simp [List.mem_eraseDups, mem_freeNames, constantNames]
    exact ⟨constants.1, constants.2, fun pairs derived => mem_variableNames_iff h derived⟩

/-- A constant that is given a slot stays the constant. -/
theorem variableNames_agrees_with_parse_maximum :
    let text := "x + E * max(T, x)"
    let slotOf := Scope.function.slot?
    let other := fun name => if name = "E" then some 7 else slotOf name
    (trimSpace text.toList).isEmpty = false ∧ variableNames text = .ok ["x", "T"] ∧
      ∃ tree : Expression Float, Expression.parse slotOf text = .ok tree ∧
        Expression.parse other text = .ok tree ∧
        ∀ index, index ∈ tree.slots ↔ ∃ name ∈ ["x", "T"], slotOf name = some index := by
  intro text slotOf other
  let formula : Formula :=
    .operation (.link [] (.name "x") .add (.link [] (.name "E") .multiply (.last []
      (.call "max" (.cons (.operation (.last [] (.name "T")))
        (.cons (.operation (.last [] (.name "x"))) .none))))))
  let tree : Expression Float :=
    .real (.binary .add (.slot 0)
      (.binary .multiply (.literal Scalar.euler) (.binary (.extremum .max) (.slot 1) (.slot 0))))
  have nonblank : (trimSpace text.toList).isEmpty = false := by decide
  have recognised : recognise "x + E * max(T, x)".toList = .ok formula := by rfl
  have read : Formula.read text = .ok formula :=
    Formula.read_eq_ok_iff.mpr ⟨by decide +kernel, recognised⟩
  have names : variableNames text = .ok ["x", "T"] :=
    variableNames_eq_ok_iff.mpr ⟨formula, read, by decide⟩
  have flat : tree.walkedDepth ≤ maxDepth := by
    simp [tree, Expression.walkedDepth, Expression.deepestLevel, Expression.children, maxDepth]
  have parsed : Expression.parse slotOf text = .ok tree :=
    Expression.parse_of_build nonblank read rfl flat
  obtain ⟨-, -, agree, image, -, -⟩ :=
    variableNames_agrees_with_parse (α := Float) nonblank slotOf other
  have same : ∀ name ∈ ["x", "T"], slotOf name = other name := by simp [other]
  obtain ⟨found, hf, -, slots⟩ := image tree parsed
  rw [names] at hf
  cases hf
  exact ⟨nonblank, names, tree, parsed, agree _ names same ▸ parsed, slots⟩

end LessonPlot
