import LessonPlot.Expression.Parse
import LessonPlot.Proofs.Formula.DepthLimit
import LessonPlot.Proofs.Formula.Enclosures

namespace LessonPlot

namespace Nesting

variable {limit : Nat} {n : Nesting} {s t : List Char} {gain : Int}

theorem Within.reach (within : Within limit n s) (reached : Reaches gain s t) :
    ∃ later : Nesting, Within limit later t ∧ n.level + gain ≤ later.level := by
  obtain ⟨w, rfl, hw⟩ := reached
  have up := level_scan n w
  exact ⟨n.scan w, within.drop, by omega⟩

theorem Within.takeSigns (within : Within limit n s) :
    ∃ later : Nesting, Within limit later (takeSigns s).2 ∧ n.level ≤ later.level ∧
      (takeSigns s).1.length ≤ later.signs := by
  obtain ⟨w, hw, level, signs⟩ := exists_scan_takeSigns s
  have up := level_scan n w
  have counted := signs n
  rw [hw] at within
  exact ⟨n.scan w, within.drop, by omega, by omega⟩

end Nesting

open Nesting

/-- A shallow path lies around a place, and its levels have been counted there. -/
structure Surrounds (limit : Nat) (n : Nesting) (path : List Construct) : Prop where
  counted : levels path ≤ n.level
  shallow : Shallow limit path

namespace Surrounds

variable {limit : Nat} {n later : Nesting} {path : List Construct} {text : List Char}

theorem mono (h : Surrounds limit n path) (le : n.level ≤ later.level) :
    Surrounds limit later path :=
  ⟨Nat.le_trans h.counted le, h.shallow⟩

theorem enclose (h : Surrounds limit n path) (construct : Construct) (deep : construct ≠ .sign)
    (up : n.level + 1 ≤ later.level) (within : Within limit later text) :
    Surrounds limit later (construct :: path) := by
  have counted : levels (construct :: path) ≤ later.level := by
    rw [levels_cons deep]
    exact Nat.le_trans (Nat.succ_le_succ h.counted) up
  refine ⟨counted, shallow_cons.mpr ⟨?_, h.shallow⟩⟩
  have low := within.here
  rw [ahead_cons deep]
  omega

theorem signs (h : Surrounds limit n path) (clear : ahead path = 0) {ops : List PrefixOp}
    (le : n.level ≤ later.level) (run : ops.length ≤ later.signs)
    (within : Within limit later text) : Surrounds limit later (underSigns ops path) := by
  have low := within.here
  have under : levels (underSigns ops path) = levels path ∧
      ahead (underSigns ops path) = ops.length ∧ Shallow limit (underSigns ops path) := by
    induction ops with
    | nil => exact ⟨rfl, clear, h.shallow⟩
    | cons op ops ih =>
      rw [List.length_cons] at run
      obtain ⟨hl, ha, hf⟩ := ih (by omega)
      change levels (.sign :: underSigns ops path) = _ ∧
        ahead (.sign :: underSigns ops path) = _ ∧ Shallow limit (.sign :: underSigns ops path)
      rw [shallow_cons, levels_sign, ahead_sign, hl, ha]
      have counted := h.counted
      exact ⟨rfl, rfl, by omega, hf⟩
  obtain ⟨hl, -, hf⟩ := under
  exact ⟨hl ▸ Nat.le_trans h.counted le, hf⟩

end Surrounds

namespace Recogniser

/-- Whatever is around an accepted formula, the paths to its primaries are shallow. -/
def Measured (limit : Nat) (inner : Recogniser Formula) : Prop :=
  ∀ (n : Nesting) text formula rest path, inner text = .ok (formula, rest) →
    Within limit n text → Surrounds limit n path → ahead path = 0 →
    ∀ p ∈ formula.enclosures path, Shallow limit p

variable {limit : Nat} {inner : Recogniser Formula} {n : Nesting} {text rest : List Char}
  {path : List Construct}

theorem Measured.arguments (hm : Measured limit inner) (hi : Sound inner) (fuel : Nat)
    {args : Arguments} (h : arguments inner fuel text = .ok (args, rest))
    (within : Within limit n text) (around : Surrounds limit n path) (clear : ahead path = 0) :
    ∀ p ∈ args.enclosures path, Shallow limit p := by
  induction fuel generalizing n text args with
  | zero => cases h
  | succ fuel ih =>
    rw [Recogniser.arguments] at h
    obtain ⟨⟨first, t⟩, hf, h⟩ := bind_eq_ok_iff.mp h
    have head := hm n text first t path hf within around clear
    dsimp only at h
    split at h
    next u hu =>
      obtain ⟨⟨others, v⟩, ho, h⟩ := bind_eq_ok_iff.mp h
      cases h
      have comma : Reaches 0 text u := hi.reaches hf hu
      obtain ⟨next, within', up⟩ := within.reach comma
      have tail := ih ho within' (around.mono (by omega))
      exact List.forall_mem_append.mpr ⟨head, tail⟩
    next u hu =>
      cases h
      exact List.forall_mem_append.mpr ⟨head, List.forall_mem_nil _⟩
    next => cases h

theorem Measured.callOrName (hm : Measured limit inner) (hi : Sound inner) {name : List Char}
    {operand : Primary} (h : callOrName inner name text = .ok (operand, rest))
    (within : Within limit n text) (around : Surrounds limit n path) :
    ∀ p ∈ operand.enclosures path, Shallow limit p := by
  rw [Recogniser.callOrName] at h
  split at h
  next t ht =>
    have skipped := reaches_skipBlanks text
    rw [ht] at skipped
    split at h
    next u hu =>
      cases h
      exact List.forall_mem_cons.mpr ⟨around.shallow, List.forall_mem_nil _⟩
    next =>
      obtain ⟨⟨args, u⟩, ha, h⟩ := bind_eq_ok_iff.mp h
      cases h
      have opened : Reaches 1 text t := skipped.trans (.char '(' t)
      obtain ⟨inside, within', up⟩ := within.reach opened
      have deeper := around.enclose .arguments (by decide) (by omega) within'
      have parts := hm.arguments hi _ ha within' deeper (ahead_cons (by decide))
      exact List.forall_mem_cons.mpr ⟨around.shallow, parts⟩
  next =>
    cases h
    exact List.forall_mem_singleton.mpr around.shallow

theorem Measured.primary (hm : Measured limit inner) (hi : Sound inner) {operand : Primary}
    (h : primary inner text = .ok (operand, rest)) (within : Within limit n text)
    (around : Surrounds limit n path) : ∀ p ∈ operand.enclosures path, Shallow limit p := by
  rw [Recogniser.primary.eq_def] at h
  split at h
  next t =>
    obtain ⟨⟨formula, u⟩, hf, h⟩ := bind_eq_ok_iff.mp h
    dsimp only at h
    split at h
    next v hv =>
      cases h
      have opened : Reaches 1 ('(' :: t) t := .char '(' t
      obtain ⟨inside, within', up⟩ := within.reach opened
      have deeper := around.enclose .parentheses (by decide) (by omega) within'
      have parts := hm inside t formula u _ hf within' deeper (ahead_cons (by decide))
      exact List.forall_mem_cons.mpr ⟨around.shallow, parts⟩
    next => cases h
  next =>
    split at h
    next number t hn =>
      cases h
      exact List.forall_mem_singleton.mpr around.shallow
    next =>
      split at h
      next name t hn =>
        obtain ⟨hs, ps, derived⟩ := derives_of_takeName? hn
        have named : Reaches 0 text t := ⟨name, hs, derived.gain_le rfl⟩
        obtain ⟨after, within', up⟩ := within.reach named
        exact hm.callOrName hi h within' (around.mono (by omega))
      next => cases h

/-- Along a row, what lies around an operand comes from the powers and signs to its left. -/
theorem Measured.operation (hm : Measured limit inner) (hi : Sound inner) (fuel : Nat)
    {o : Operation} {outer : List Construct} (h : operation inner fuel text = .ok (o, rest))
    (within : Within limit n text) (row : Surrounds limit n outer) (open_row : ahead outer = 0)
    (around : Surrounds limit n path) (clear : ahead path = 0) :
    ∀ p ∈ o.enclosed.along outer path, Shallow limit p := by
  induction fuel generalizing n text o path with
  | zero => cases h
  | succ fuel ih =>
    rw [Recogniser.operation] at h
    obtain ⟨⟨operand, t⟩, hp, h⟩ := bind_eq_ok_iff.mp h
    obtain ⟨start, within', up, run⟩ := within.takeSigns
    have signed := around.signs clear up run within'
    have head := hm.primary hi hp within' signed
    have taken : Reaches 0 (takeSigns text).2 (skipBlanks t) :=
      ((hi.primary hp).reaches rfl).trans (reaches_skipBlanks t)
    dsimp only at h
    split at h
    next op u hu =>
      obtain ⟨⟨others, v⟩, ho, h⟩ := bind_eq_ok_iff.mp h
      cases h
      refine List.forall_mem_append.mpr ⟨head, ?_⟩
      by_cases power : op = .power
      · subst power
        have raised : Reaches 1 (skipBlanks t) u := ⟨['^'], takeInfix?_spelling hu, Int.le_refl 1⟩
        obtain ⟨next, within'', up'⟩ := within'.reach (taken.trans raised)
        have deeper := signed.enclose .exponent (by decide) (by omega) within''
        exact ih ho within'' (row.mono (by omega)) deeper (ahead_cons (by decide))
      · obtain ⟨next, within'', up'⟩ := within'.reach (taken.trans (reaches_takeInfix? hu))
        have back : Surrounds limit next outer := row.mono (by omega)
        rw [if_neg power]
        exact ih ho within'' back back open_row
    next hu =>
      cases h
      exact head

theorem Measured.formulaOver (hm : Measured limit inner) (hi : Sound inner) :
    Measured limit (formulaOver inner) := by
  intro n text formula rest path h within around clear
  obtain ⟨⟨head, t⟩, ho, h⟩ := bind_eq_ok_iff.mp h
  have row := hm.operation hi _ ho within around clear around clear
  rw [← Row.enclosures_group] at row
  have taken : Reaches 0 text (skipBlanks t) := (hi.matches_operation ho).reaches rfl
  dsimp only at h
  split at h
  next u hu =>
    obtain ⟨⟨chosen, v⟩, hc, h⟩ := bind_eq_ok_iff.mp h
    dsimp only at h
    split at h
    next w hw =>
      obtain ⟨⟨otherwise, x⟩, he, h⟩ := bind_eq_ok_iff.mp h
      cases h
      rw [hu] at taken
      have marked : Reaches 1 text u := taken.trans (.char '?' u)
      have colon : Reaches 0 u w := hi.reaches hc hw
      obtain ⟨inside, within', up⟩ := within.reach marked
      have branch := around.enclose .branch (by decide) (by omega) within'
      obtain ⟨next, within'', up'⟩ := within'.reach colon
      have first := hm inside u chosen v _ hc within' branch (ahead_cons (by decide))
      have second := hm next w otherwise x _ he within'' (branch.mono (by omega)) (ahead_cons (by decide))
      exact List.forall_mem_append.mpr ⟨List.forall_mem_append.mpr ⟨row, first⟩, second⟩
    next => cases h
  next =>
    cases h
    exact row

theorem measured_formulaWithin (limit depth : Nat) : Measured limit (formulaWithin depth) := by
  induction depth with
  | zero =>
    intro n text formula rest path h
    cases h
  | succ depth ih => exact ih.formulaOver (sound_formulaWithin depth)

end Recogniser

/-- The constructs around a primary, by what is counted along the text. -/
theorem Formula.length_le_of_recognise {limit : Nat} {text : List Char} {formula : Formula}
    {path : List Construct} (low : Nesting.of text ≤ limit) (h : recognise text = .ok formula)
    (around : path ∈ formula.enclosures []) :
    path.length ≤ limit + limit * (limit + 1) / 2 := by
  obtain ⟨⟨formula', rest⟩, hf, h⟩ := bind_eq_ok_iff.mp h
  dsimp only at h
  split at h
  next =>
    cases h
    have start : Surrounds limit Nesting.none [] := ⟨Nat.le_refl 0, shallow_nil⟩
    have shallow := Recogniser.measured_formulaWithin limit _ _ text formula rest [] hf
      ((within_of text).mono low) start rfl path around
    exact shallow.length_le
  next => cases h

/-- What is under a power stays under the signs before it; a product is under neither. -/
example : ((recognise "-2^-(x)*y".toList).toOption.map fun formula => formula.enclosures []) =
    some [[.sign], [.sign, .exponent, .sign], [.parentheses, .sign, .exponent, .sign], []] := by
  decide +kernel

/-- The limit on what is counted along a text bounds all recursion of reading it: the activations of
the rule for formulas within each other, in attempts that come to nothing as well; the depth at
which a recogniser may give up and still do as the grammar does; and the constructs around a
primary. -/
theorem nesting_bounds_recursion {text : String} (accepted : checkLimits text = .ok ()) :
    (∀ depth place, Enters .calculation text.toList depth place → depth ≤ maxNesting + 1) ∧
      (∀ depth, maxNesting + 1 ≤ depth →
        Recogniser.wholeWithin depth text.toList = recognise text.toList) ∧
      (∀ stuck, recognise text.toList = .error stuck → Runs .calculation text.toList none) ∧
      (∀ formula, recognise text.toList = .ok formula →
        Runs .calculation text.toList (some ([formula.pair], [])) ∧
          ∀ path ∈ formula.enclosures [],
            path.length ≤ maxNesting + maxNesting * (maxNesting + 1) / 2) ∧
      maxNesting + 1 = 33 ∧ maxNesting + maxNesting * (maxNesting + 1) / 2 = 560 := by
  obtain ⟨-, low⟩ := checkLimits_eq_ok_iff.mp accepted
  refine ⟨?_, ?_, ?_, ?_, rfl, rfl⟩
  · intro depth place entered
    exact entered.le_of_within ((within_of text.toList).mono low)
  · intro depth enough
    exact Recogniser.wholeWithin_eq_recognise (Nat.lt_of_le_of_lt low enough)
  · intro stuck refused
    exact runs_none_of_recognise refused
  · intro formula read
    exact ⟨runs_of_recognise read, fun path around => Formula.length_le_of_recognise low read around⟩

theorem nesting_bounds_recursion_mixed :
    checkLimits "-(x ? 2^-y : sin(z))" = .ok () ∧
      (∀ depth place, Enters .calculation "-(x ? 2^-y : sin(z))".toList depth place →
        depth ≤ 33) ∧
      Recogniser.wholeWithin 33 "-(x ? 2^-y : sin(z))".toList =
        recognise "-(x ? 2^-y : sin(z))".toList ∧
      ∃ formula, recognise "-(x ? 2^-y : sin(z))".toList = .ok formula ∧
        [.sign, .exponent, .branch, .parentheses, .sign] ∈ formula.enclosures [] ∧
        ∀ path ∈ formula.enclosures [], path.length ≤ 560 := by
  have accepted : checkLimits "-(x ? 2^-y : sin(z))" = .ok () := by decide +kernel
  have around : (recognise "-(x ? 2^-y : sin(z))".toList).toOption.map
      (fun formula => formula.enclosures []) =
        some [[.sign], [.parentheses, .sign], [.branch, .parentheses, .sign],
          [.sign, .exponent, .branch, .parentheses, .sign], [.branch, .parentheses, .sign],
          [.arguments, .branch, .parentheses, .sign]] := by
    decide +kernel
  obtain ⟨activations, depths, -, constructs, -⟩ := nesting_bounds_recursion accepted
  refine ⟨accepted, activations, depths 33 (Nat.le_refl 33), ?_⟩
  cases read : recognise "-(x ? 2^-y : sin(z))".toList with
  | error stuck =>
    rw [read] at around
    cases around
  | ok formula =>
    rw [read] at around
    have paths : formula.enclosures [] = _ := Option.some.inj around
    refine ⟨formula, rfl, ?_, (constructs formula read).2⟩
    rw [paths]
    decide

end LessonPlot
