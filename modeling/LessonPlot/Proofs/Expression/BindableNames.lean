import LessonPlot.Proofs.Expression.Verdict
import LessonPlot.Proofs.Formula.Levels

namespace LessonPlot

/-- A letter or an underscore, then letters, digits and underscores. -/
inductive IsName : List Char → Prop where
  | spelled {c : Char} {rest : List Char} (start : isNameStart c = true)
      (parts : ∀ d ∈ rest, isNamePart d = true) : IsName (c :: rest)

/-- The slots of variables where one name alone has a slot. -/
def boundOnly (name : String) (index : Nat) (other : String) : Option Nat :=
  if other = name then some index else none

theorem boundOnly_eq_some_iff {name other : String} {index slot : Nat} :
    boundOnly name index other = some slot ↔ other = name ∧ index = slot := by
  rw [boundOnly, Option.ite_none_right_eq_some, Option.some.injEq]

section Characters

variable {c : Char}

theorem isNamePart_iff : isNamePart c = true ↔ isNameStart c = true ∨ c.isDigit = true := by
  simp only [isNamePart, isNameStart, Char.isAlphanum, Bool.or_eq_true]
  exact or_right_comm

theorem Nesting.isQuiet_of_isNamePart (part : isNamePart c = true) : isQuiet c = true := by
  have bounds : 48 ≤ c.toNat ∧ c.toNat ≤ 122 := by
    rcases isNamePart_iff.mp part with start | digit
    · have letter := toNat_of_isNameStart start
      omega
    · have number : 48 ≤ c.toNat ∧ c.toNat ≤ 57 := Char.isDigit_iff_toNat.mp digit
      omega
  -- The two marks lie among the letters and digits.
  have other (mark : Char) (outside : isNamePart mark = false) : c.toNat ≠ mark.toNat := by
    intro same
    rw [Char.toNat_inj.mp same, outside] at part
    cases part
  exact isQuiet_of_toNat (by omega) (by omega) (other '?' rfl) (other '^' rfl)

end Characters

namespace IsName

variable {text : List Char}

theorem parts (name : IsName text) : ∀ c ∈ text, isNamePart c = true := by
  obtain ⟨start, parts⟩ := name
  exact List.forall_mem_cons.mpr ⟨isNamePart_iff.mpr (.inl start), parts⟩

theorem opens (name : IsName text) : Opens text := by
  obtain ⟨start, -⟩ := name
  exact ⟨_, _, rfl, by simp [startsPrimary, start]⟩

theorem takeNumber?_eq_none (name : IsName text) : takeNumber? text = none := by
  obtain ⟨start, -⟩ := name
  exact LessonPlot.takeNumber?_eq_none start _

theorem takeName?_eq (name : IsName text) : takeName? text = some (text, []) := by
  obtain ⟨start, parts⟩ := name
  obtain ⟨taken, left⟩ := span_append parts (stops_nil _)
  rw [List.append_nil] at taken left
  rw [takeName?, if_pos start, taken, left]

/-- The only formula that a name writes is the variable: a call has a parenthesis after its name. -/
theorem recognise_eq (name : IsName text) :
    recognise text = .ok (.operation (.last [] (.name (String.ofList text)))) :=
  recognise_of_primary name.opens.takeSigns fun _ =>
    Recogniser.primary_of_name name.takeNumber?_eq_none name.takeName?_eq

theorem nonblank (name : IsName text) : (trimSpace text).isEmpty = false := by
  obtain ⟨c, rest, rfl, opens⟩ := name.opens
  exact Leads.nonblank ⟨[], c, rest, rfl, nofun, by rw [opens, Bool.true_or]⟩

theorem nesting_eq_zero (name : IsName text) : Nesting.of text = 0 :=
  Nesting.scan_quiet (fun c hc => Nesting.isQuiet_of_isNamePart (name.parts c hc)) .none rfl

end IsName

theorem Derives.isName {s : List Char} {ps : List Pair} (h : Derives (.rule .name) s ps) :
    IsName s := by
  cases h with
  | rule h =>
    cases h with
    | rule h =>
      obtain ⟨head, tail, _, _, rfl, -, start, parts⟩ := h.seq_inv
      obtain ⟨c, rfl, -, start⟩ := start.char_inv
      obtain ⟨parts, -⟩ := parts.many_char_inv
      exact .spelled start parts

/-- The variables of a formula that stands in a text are spelled as names. -/
theorem Formula.isName_of_mem_names {formula : Formula} (spelled : Spelled [formula.pair])
    {name : String} (used : name ∈ formula.names) : IsName name.toList := by
  rw [← formula.namesIn_pair] at used
  obtain ⟨pair, inside, named⟩ := List.mem_filterMap.mp used
  unfold Pair.name? at named
  split at named
  next spelling =>
    cases named
    obtain ⟨ps, derived⟩ := spelled .name spelling inside
    rw [String.toList_ofList]
    exact derived.isName
  next => cases named

section Parsing

variable {α : Type} [Scalar α] {slotOf : String → Option Nat} {text name : String} {index : Nat}

theorem nameExpression_of_slot (free : name ∉ constantNames) (bound : slotOf name = some index) :
    nameExpression (α := α) slotOf name = .ok (.real (.slot index)) := by
  simp only [constantNames, List.mem_cons, List.not_mem_nil, or_false, not_or] at free
  rw [nameExpression, if_neg free.1, if_neg free.2, bound]

/-- A text that is a name is looked up. -/
theorem Expression.parse_of_isName (spelled : IsName text.toList)
    (short : text.utf8ByteSize ≤ maxBytes) (slotOf : String → Option Nat) :
    parse (α := α) slotOf text = nameExpression slotOf text := by
  have flat : Nesting.of text.toList ≤ maxNesting := by
    rw [spelled.nesting_eq_zero]
    exact Nat.zero_le _
  have read : Formula.read text = .ok (.operation (.last [] (.name text))) := by
    have recognised := spelled.recognise_eq
    rw [String.ofList_toList] at recognised
    exact Formula.read_eq_ok_iff.mpr ⟨checkLimits_eq_ok_iff.mpr ⟨short, flat⟩, recognised⟩
  have yields : Yields (Survey.name slotOf text).faults (Survey.name slotOf text).Describes
      (nameExpression (α := α) slotOf text) := nameExpression_yields text
  cases found : nameExpression (α := α) slotOf text with
  | error error => exact parse_of_refused spelled.nonblank read found
  | ok tree =>
    rw [found] at yields
    cases yields with
    | value _ described =>
      have shallow : ¬ maxDepth < tree.depth := by
        rw [described.2]
        exact show ¬ maxDepth < 1 by decide
      rw [parse_of_built spelled.nonblank read found, if_neg shallow]

/-- The slots of a tree are those of names that are no constants. -/
theorem Expression.exists_name_of_mem_slots {tree : Expression α}
    (parsed : parse slotOf text = .ok tree) (mentioned : index ∈ tree.slots) :
    ∃ name : String, slotOf name = some index ∧ IsName name.toList ∧ name ∉ constantNames := by
  obtain ⟨formula, read, built⟩ := parse_eq_ok parsed
  obtain ⟨-, recognised⟩ := Formula.read_eq_ok_iff.mp read
  obtain ⟨name, free, bound⟩ := ((formula.build_resolves built).mem_iff index).mp mentioned
  obtain ⟨used, free⟩ := mem_freeNames.mp free
  exact ⟨name, bound, formula.isName_of_mem_names (derives_of_recognise recognised).spelled used,
    free⟩

/-- As the variable that alone is bound parses every name but those of the constants. -/
theorem Expression.parse_boundOnly_iff (short : name.utf8ByteSize ≤ maxBytes) (index : Nat) :
    parse (α := α) (boundOnly name index) name = .ok (.real (.slot index)) ↔
      IsName name.toList ∧ name ∉ constantNames := by
  constructor
  · intro parsed
    obtain ⟨other, bound, spelled, free⟩ :=
      exists_name_of_mem_slots parsed (List.mem_singleton_self index)
    obtain ⟨rfl, -⟩ := boundOnly_eq_some_iff.mp bound
    exact ⟨spelled, free⟩
  · rintro ⟨spelled, free⟩
    rw [parse_of_isName spelled short]
    exact nameExpression_of_slot free (boundOnly_eq_some_iff.mpr ⟨rfl, rfl⟩)

end Parsing

section Bindable

variable {name : String}

theorem Callee.ofName?_eq_none_iff_forall : ofName? name = none ↔
    (∀ function : Elementary, function.name ≠ name) ∧ ∀ which : Extremum, which.name ≠ name := by
  have elementary :
      Elementary.ofName? name = none ↔ ∀ function : Elementary, function.name ≠ name := by
    simp only [Option.eq_none_iff_forall_ne_some, ne_eq, Elementary.ofName?_eq_some_iff]
  have extremum : Extremum.ofName? name = none ↔ ∀ which : Extremum, which.name ≠ name := by
    simp only [Option.eq_none_iff_forall_ne_some, ne_eq, Extremum.ofName?_eq_some_iff]
  rw [← elementary, ← extremum, ofName?]
  cases Elementary.ofName? name <;> simp

theorem isBindable_iff : isBindable name = true ↔
    IsName name.toList ∧ name ∉ constantNames ∧ Callee.ofName? name = none := by
  unfold isBindable
  split
  next empty =>
    rw [empty]
    constructor <;> nofun
  next c rest spelled =>
    have parts : IsName (c :: rest) ↔ isNameStart c = true ∧ ∀ d ∈ rest, isNamePart d = true :=
      ⟨fun ⟨start, parts⟩ => ⟨start, parts⟩, fun ⟨start, parts⟩ => .spelled start parts⟩
    rw [spelled, parts]
    simp [and_assoc]

/-- The names of variables are those that may be bound and are not called: where a name alone is
bound, its text is the variable, and no function has it. -/
theorem isBindable_iff_parse {α : Type} [Scalar α] (short : name.utf8ByteSize ≤ maxBytes)
    (index : Nat) :
    isBindable name = true ↔
      ((∀ function : Elementary, function.name ≠ name) ∧
        ∀ which : Extremum, which.name ≠ name) ∧
      Expression.parse (α := α) (boundOnly name index) name = .ok (.real (.slot index)) := by
  rw [isBindable_iff, Expression.parse_boundOnly_iff short, ← Callee.ofName?_eq_none_iff_forall]
  constructor
  · rintro ⟨spelled, free, uncalled⟩
    exact ⟨uncalled, spelled, free⟩
  · rintro ⟨uncalled, spelled, free⟩
    exact ⟨spelled, free, uncalled⟩

theorem isBindable_iff_parse_indexed :
    "theta_2".utf8ByteSize ≤ maxBytes ∧ isBindable "theta_2" = true ∧
      Expression.parse (α := Float) (boundOnly "theta_2" 0) "theta_2" =
        .ok (.real (.slot 0)) := by
  have short : "theta_2".utf8ByteSize ≤ maxBytes := by decide
  have bindable : isBindable "theta_2" = true := by decide
  exact ⟨short, bindable, ((isBindable_iff_parse short 0).mp bindable).2⟩

/-- A call of a function is told from a variable of its name by the parenthesis, so the variable
parses although the name is kept for the function. -/
theorem exists_callable_not_bindable :
    "sin".utf8ByteSize ≤ maxBytes ∧
      ¬ (isBindable "sin" = true ↔
        Expression.parse (α := Float) (boundOnly "sin" 0) "sin" = .ok (.real (.slot 0))) := by
  have short : "sin".utf8ByteSize ≤ maxBytes := by decide
  have kept : isBindable "sin" = false := by decide
  have spelled : IsName "sin".toList := .spelled rfl (List.all_eq_true.mp rfl)
  have free : "sin" ∉ constantNames := by simp [constantNames]
  have parsed := (Expression.parse_boundOnly_iff (α := Float) short 0).mpr ⟨spelled, free⟩
  refine ⟨short, fun agree => ?_⟩
  rw [agree.mpr parsed] at kept
  cases kept

end Bindable

end LessonPlot
