import LessonPlot.Scope

namespace LessonPlot

theorem lookup_cons_eq_ite {β : Type} (key : String) (value : β) (rest : List (String × β))
    (name : String) :
    ((key, value) :: rest).lookup name = if name = key then some value else rest.lookup name := by
  rw [List.lookup_cons]
  by_cases h : name = key
  · simp [h]
  · rw [beq_false_of_ne h, if_neg h]

namespace Scope

variable {scope : Scope} {name other : String}

theorem slot?_bind (scope : Scope) (name : String) (index : Nat) (other : String) :
    (scope.bind name index).slot? other =
      (scope.slot? other).or (if other = name then some index else none) := by
  unfold bind
  split
  next taken =>
    by_cases h : other = name
    · rw [h, Option.or_of_isSome taken]
    · simp [h]
  next =>
    rw [slot?, List.lookup_append, lookup_cons_eq_ite, List.lookup_nil]
    rfl

theorem slot?_foldl_bind (aliases : List String) (scope : Scope) (index : Nat) (other : String) :
    (aliases.foldl (fun bound name => bound.bind name index) scope).slot? other =
      (scope.slot? other).or (if other ∈ aliases then some index else none) := by
  induction aliases generalizing scope with
  | nil => simp
  | cons name aliases ih =>
    rw [List.foldl_cons, ih, slot?_bind]
    by_cases h : other = name
    · simp [h]
    · simp [h]

/-- The names of a new slot are those that have none yet. -/
theorem slot?_addSlot (scope : Scope) (aliases : List String) (other : String) :
    (scope.addSlot aliases).slot? other =
      (scope.slot? other).or (if other ∈ aliases then some scope.slots else none) :=
  slot?_foldl_bind aliases scope scope.slots other

theorem slots_addSlot (scope : Scope) (aliases : List String) :
    (scope.addSlot aliases).slots = scope.slots + 1 :=
  rfl

theorem slot?_empty (name : String) : empty.slot? name = none :=
  rfl

theorem slot?_function (name : String) :
    function.slot? name =
      if name = abscissa then some 0
      else if name = parameter ∨ name = parameterAlways then some 1 else none := by
  simp only [function, slot?_addSlot, slots_addSlot, slot?_empty]
  by_cases h : name = abscissa <;> simp [h, empty]

theorem slot?_parameterOnly (name : String) :
    parameterOnly.slot? name =
      if name = parameter ∨ name = parameterAlways then some 0 else none := by
  simp only [parameterOnly, slot?_addSlot, slot?_empty, Option.none_or]
  simp [empty]

theorem slot?_curve (variableName name : String) :
    (curve variableName).slot? name =
      if name = variableName then some 0
      else if name = parameter ∨ name = parameterAlways then some 1 else none := by
  unfold curve
  split
  next hv =>
    subst hv
    simp only [slot?_addSlot, slots_addSlot, slot?_empty]
    by_cases h : name = parameter <;> simp [h, empty]
  next hv =>
    simp only [slot?_addSlot, slots_addSlot, slot?_empty]
    by_cases h : name = variableName <;> simp [h, empty]

/-- Names have no slots but those that are counted. -/
def Bounded (scope : Scope) : Prop :=
  ∀ name index, scope.slot? name = some index → index < scope.slots

theorem bounded_empty : empty.Bounded := by
  intro name index h
  cases h

theorem Bounded.addSlot (h : scope.Bounded) (aliases : List String) :
    (scope.addSlot aliases).Bounded := by
  intro name index hs
  rw [slot?_addSlot, Option.or_eq_some_iff] at hs
  rw [slots_addSlot]
  rcases hs with hs | ⟨-, hs⟩
  · exact Nat.lt_succ_of_lt (h name index hs)
  · split at hs
    next => cases hs; exact Nat.lt_succ_self _
    next => cases hs

theorem bounded_function : function.Bounded :=
  (bounded_empty.addSlot _).addSlot _

theorem bounded_parameterOnly : parameterOnly.Bounded :=
  bounded_empty.addSlot _

theorem bounded_curve (variableName : String) : (curve variableName).Bounded := by
  unfold curve
  split
  next => exact (bounded_empty.addSlot _).addSlot _
  next => exact (bounded_empty.addSlot _).addSlot _

theorem slots_curve (variableName : String) : (curve variableName).slots = 2 := by
  unfold curve
  split <;> rfl

/-- Every slot has one name, in the order of the slots. -/
def Numbered (scope : Scope) : Prop :=
  scope.names.map Prod.snd = List.range scope.slots

theorem Numbered.addSlot (h : scope.Numbered) (free : ¬ (scope.slot? name).isSome) :
    (scope.addSlot [name]).Numbered := by
  simp only [Numbered, Scope.addSlot, List.foldl_cons, List.foldl_nil, bind, if_neg free,
    List.map_append, List.map_cons, List.map_nil, List.range_succ]
  rw [h]

theorem Numbered.length_names (h : scope.Numbered) : scope.names.length = scope.slots := by
  simpa using congrArg List.length h

theorem Numbered.slot_eq (h : scope.Numbered) {index : Nat} {entry : String × Nat}
    (he : scope.names[index]? = some entry) : entry.2 = index := by
  have place : (scope.names.map Prod.snd)[index]? = some entry.2 := by simp [he]
  rw [h] at place
  obtain ⟨_, same⟩ := List.getElem?_eq_some_iff.mp place
  simpa using same.symm

theorem Numbered.getElem?_of_slot? (h : scope.Numbered) {index : Nat}
    (hs : scope.slot? name = some index) : scope.names[index]? = some (name, index) := by
  obtain ⟨before, after, hn, -⟩ := List.lookup_eq_some_iff.mp hs
  have hi : (scope.names.map Prod.snd)[before.length]? = some index := by simp [hn]
  rw [h] at hi
  obtain ⟨hlt, hi⟩ := List.getElem?_eq_some_iff.mp hi
  have hl : before.length = index := by simpa using hi
  simp [hn, ← hl]

theorem isSome_slot?_ofNames (names : List String) (other : String) :
    ((ofNames names).slot? other).isSome ↔ other ∈ names := by
  have added (scope : Scope) :
      ((names.foldl (fun scope name => if (scope.slot? name).isSome then scope
        else scope.addSlot [name]) scope).slot? other).isSome ↔
        (scope.slot? other).isSome ∨ other ∈ names := by
    induction names generalizing scope with
    | nil => simp
    | cons name names ih =>
      rw [List.foldl_cons, ih]
      split
      next taken =>
        by_cases h : other = name
        · simp [h, taken]
        · simp [h]
      next =>
        rw [slot?_addSlot]
        by_cases h : other = name
        · simp [h]
        · simp [h]
  rw [ofNames, added]
  simp [slot?_empty]

/-- What holds of the scope without names and stays true with each new one holds of every scope of
names. -/
theorem ofNames_induction {motive : Scope → Prop} (base : motive empty)
    (step : ∀ scope name, motive scope → ¬ (scope.slot? name).isSome →
      motive (scope.addSlot [name])) (names : List String) : motive (ofNames names) := by
  have kept (scope : Scope) (h : motive scope) :
      motive (names.foldl (fun scope name => if (scope.slot? name).isSome then scope
        else scope.addSlot [name]) scope) := by
    induction names generalizing scope with
    | nil => exact h
    | cons name names ih =>
      rw [List.foldl_cons]
      split
      next => exact ih scope h
      next free => exact ih _ (step scope name h free)
  exact kept empty base

theorem numbered_ofNames (names : List String) : (ofNames names).Numbered :=
  ofNames_induction (motive := Numbered) rfl (fun _ _ h free => h.addSlot free) names

/-- Every name of such a scope finds its own slot, and every slot has a name. -/
theorem slot?_of_mem_ofNames {names : List String} :
    ∀ entry ∈ (ofNames names).names, (ofNames names).slot? entry.1 = some entry.2 := by
  refine ofNames_induction
    (motive := fun scope => ∀ entry ∈ scope.names, scope.slot? entry.1 = some entry.2)
    (by simp [empty]) (fun scope name h free entry hm => ?_) names
  have added : (scope.addSlot [name]).names = scope.names ++ [(name, scope.slots)] := by
    simp [addSlot, bind, free]
  rw [added] at hm
  rw [slot?_addSlot]
  rcases List.mem_append.mp hm with hm | hm
  · rw [h entry hm]
    rfl
  · cases List.mem_singleton.mp hm
    rw [Option.not_isSome_iff_eq_none.mp free]
    simp

end Scope

end LessonPlot
