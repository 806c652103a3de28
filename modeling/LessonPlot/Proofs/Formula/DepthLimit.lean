import LessonPlot.Proofs.Formula.Activations
import LessonPlot.Proofs.Formula.Decision
import LessonPlot.Proofs.Formula.Scanning

namespace LessonPlot

open Nesting

theorem reaches_skipBlanks (s : List Char) : Reaches 0 s (skipBlanks s) := by
  induction s with
  | nil => exact .here []
  | cons c s ih =>
    by_cases hb : isBlank c = true
    · have first := Reaches.char c s
      rw [(step_of_isBlank hb .none).1] at first
      rw [skipBlanks_cons_of_pos hb]
      exact first.trans ih
    · rw [skipBlanks_cons_of_neg hb]
      exact .here _

theorem reaches_takeSigns (s : List Char) : Reaches 0 s (takeSigns s).2 := by
  obtain ⟨w, hw, level, -⟩ := exists_scan_takeSigns s
  exact ⟨w, hw, Int.le_of_eq level.symm⟩

theorem reaches_takeInfix? {s rest : List Char} {op : InfixOp}
    (h : takeInfix? s = some (op, rest)) : Reaches 0 s rest := by
  refine ⟨op.spelling, takeInfix?_spelling h, ?_⟩
  cases op <;> decide

theorem Matches.reaches {p : Pattern} {s rest : List Char} {ps : List Pair}
    (h : Matches p s ps rest) (steady : p.steady = true) : Reaches p.gain s (skipBlanks rest) := by
  obtain ⟨t, run, ht⟩ := h
  have blanks := reaches_skipBlanks t
  rw [ht] at blanks
  have whole := ((reaches_skipBlanks s).trans (run.reaches steady)).trans blanks
  exact whole.mono (by omega)

namespace Recogniser

section Agreement

variable {inner inner' : Recogniser Formula} {text : List Char}

/-- Two recognisers do the same at all later places of a text that are so much higher. -/
def Agree (inner inner' : Recogniser Formula) (gain : Int) (text : List Char) : Prop :=
  ∀ t, Reaches gain text t → inner t = inner' t

theorem Agree.later {gain more : Int} {t : List Char} (h : Agree inner inner' (gain + more) text)
    (reached : Reaches gain text t) : Agree inner inner' more t :=
  fun _ further => h _ (reached.trans further)

/-- A formula does not take the level down before the character that follows it. -/
theorem Sound.reaches (hi : Sound inner) {formula : Formula} {t u : List Char} {c : Char}
    (h : inner text = .ok (formula, t)) (hu : skipBlanks t = c :: u) :
    Reaches (rise c) text u := by
  have taken := (hi text formula t h).reaches rfl
  rw [hu] at taken
  exact (taken.trans (.char c u)).mono (by simp [Pattern.gain])

theorem arguments_congr (hi : Sound inner') (agree : Agree inner inner' 0 text) (fuel : Nat) :
    arguments inner fuel text = arguments inner' fuel text := by
  induction fuel generalizing text with
  | zero => rfl
  | succ fuel ih =>
    rw [arguments, arguments, agree text (.here text)]
    refine bind_congr_ok fun first ht => ?_
    obtain ⟨first, t⟩ := first
    dsimp only
    split
    next u hu => rw [ih (agree.later (hi.reaches ht hu))]
    next u hu => rfl
    next => rfl

theorem callOrName_congr (hi : Sound inner') (agree : Agree inner inner' 1 text)
    (name : List Char) : callOrName inner name text = callOrName inner' name text := by
  rw [callOrName, callOrName]
  split
  next t ht =>
    have opened : Reaches 1 text t := by
      have skipped := reaches_skipBlanks text
      rw [ht] at skipped
      exact skipped.trans (.char '(' t)
    split
    next => rfl
    next => rw [arguments_congr hi (agree.later opened)]
  next => rfl

theorem primary_congr (hi : Sound inner') (agree : Agree inner inner' 1 text) :
    primary inner text = primary inner' text := by
  rw [primary.eq_def, primary.eq_def]
  split
  next t => rw [agree t (.char '(' t)]
  next =>
    split
    next => rfl
    next =>
      split
      next name t hn =>
        obtain ⟨hs, ps, derived⟩ := derives_of_takeName? hn
        have named : Reaches 0 text t := ⟨name, hs, derived.gain_le rfl⟩
        exact callOrName_congr hi (agree.later named) name
      next => rfl

theorem operation_congr (hi : Sound inner') (agree : Agree inner inner' 1 text) (fuel : Nat) :
    operation inner fuel text = operation inner' fuel text := by
  induction fuel generalizing text with
  | zero => rfl
  | succ fuel ih =>
    have signs := reaches_takeSigns text
    rw [operation, operation]
    dsimp only
    rw [primary_congr hi (agree.later signs)]
    refine bind_congr_ok fun first ht => ?_
    obtain ⟨operand, t⟩ := first
    have taken := signs.trans (((hi.primary ht).reaches rfl).trans (reaches_skipBlanks t))
    dsimp only
    split
    next op u hu => rw [ih (agree.later (taken.trans (reaches_takeInfix? hu)))]
    next => rfl

theorem formulaOver_congr (hi : Sound inner') (agree : Agree inner inner' 1 text) :
    formulaOver inner text = formulaOver inner' text := by
  rw [formulaOver, formulaOver, operation_congr hi agree]
  refine bind_congr_ok fun first ht => ?_
  obtain ⟨head, t⟩ := first
  have taken := (hi.matches_operation ht).reaches rfl
  dsimp only
  split
  next u hu =>
    rw [hu] at taken
    have chosen : Reaches 1 text u := taken.trans (.char '?' u)
    rw [agree u chosen]
    refine bind_congr_ok fun second hv => ?_
    obtain ⟨formula, v⟩ := second
    dsimp only
    split
    next w hw =>
      have otherwise : Reaches 1 text w := chosen.trans (hi.reaches hv hw)
      rw [agree w otherwise]
    next => rfl
  next => rfl

end Agreement

variable {limit depth depth' : Nat} {n : Nesting} {text : List Char}

/-- More depth than a text has room for changes nothing. -/
theorem formulaWithin_congr (within : Within limit n text) (enough : limit < n.level + depth)
    (enough' : limit < n.level + depth') : formulaWithin depth text = formulaWithin depth' text := by
  induction depth generalizing depth' n text with
  | zero =>
    have low := within.here
    omega
  | succ depth ih =>
    cases depth' with
    | zero =>
      have low := within.here
      omega
    | succ depth' =>
      refine formulaOver_congr (sound_formulaWithin depth') ?_
      rintro t ⟨w, rfl, hw⟩
      have up := level_scan n w
      exact ih within.drop (by omega) (by omega)

theorem wholeWithin_eq_recognise (enough : Nesting.of text < depth) :
    wholeWithin depth text = recognise text := by
  have short := of_le_length text
  have same : formulaWithin depth text = formulaWithin (text.length + 1) text :=
    formulaWithin_congr (within_of text) (by omega) (by omega)
  rw [recognise, wholeWithin, wholeWithin, same]

end Recogniser

/-- What the recogniser gives up the grammar fails on. -/
theorem runs_none_of_recognise {text : List Char} {stuck : Stuck}
    (h : recognise text = .error stuck) : Runs .calculation text none := by
  obtain ⟨_ | ⟨ps, rest⟩, run⟩ := Decides.calculation text
  · exact run
  · obtain ⟨w, rfl, derived⟩ := run.derives _ rfl
    cases run.calculation_rest
    rw [List.append_nil] at h
    obtain ⟨formula, accepted, -⟩ := recognise_of_derives derived
    rw [h] at accepted
    cases accepted

end LessonPlot
