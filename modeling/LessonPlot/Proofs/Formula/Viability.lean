import LessonPlot.Proofs.Expression.FreeNames
import LessonPlot.Proofs.Formula.Reports

namespace LessonPlot

/-- Some formula, whatever its size, is made of these tokens. -/
def Sentence (ts : List Lexeme) : Prop :=
  ∃ s ps, Lexed s ts ∧ Derives .calculation s ps

/-- Formulas start with these tokens, but with no further token that stands at the start of the
rest; where nothing is left, the tokens are not yet a formula. -/
structure FirstUnfit (ts : List Lexeme) (rest : List Char) : Prop where
  viable : ∃ us, Sentence (ts ++ us)
  unfit : ∀ t others, t.Longest rest others → ∀ us, ¬ Sentence (ts ++ t :: us)
  unfinished : rest = [] → ¬ Sentence ts ∧ ∃ u us, Sentence (ts ++ u :: us)

variable {s text rest : List Char} {ts : List Lexeme} {p q r : Progress}

/-- There is no halting on the way of a walk to the end of a text, as a whole formula. -/
theorem Walks.not_halted {us : List Lexeme} (h : Walks p s ts q []) (complete : q.Complete)
    (h' : Walks p s us r rest) : ¬ Halted r rest := by
  rintro ⟨clean, blocked, unfinished⟩
  have ended (same : skipBlanks [] = skipBlanks rest) : rest = [] := by
    rw [← clean, ← same]
    rfl
  obtain ⟨ws, further | back⟩ := h.comparable h'
  · cases further with
    | stay same => exact unfinished ⟨ended same, complete⟩
    | step moves _ => exact nomatch moves.length_lt
  · cases back with
    | stay same => exact unfinished ⟨ended same.symm, complete⟩
    | step moves _ => exact blocked _ _ _ moves

/-- Whether a text is a formula shows in its tokens. -/
theorem Lexed.derives_iff (h : Lexed s ts) : (∃ ps, Derives .calculation s ps) ↔
    ∃ q, Progress.start.takeAll? ts = some q ∧ q.Complete := by
  constructor
  · rintro ⟨ps, derived⟩
    obtain ⟨formula, recognised, -⟩ := recognise_of_derives derived
    obtain ⟨us, q, walk, complete⟩ := walks_of_recognise recognised
    obtain ⟨front, hs, lexed⟩ := walk.lexed rfl
    rw [List.append_nil] at hs
    subst hs
    cases h.unique lexed
    exact ⟨q, walk.takeAll?, complete⟩
  · rintro ⟨q, taken, complete⟩
    cases recognised : recognise s with
    | ok formula => exact ⟨_, derives_of_recognise recognised⟩
    | error stuck =>
      obtain ⟨us, r, walk, halted⟩ := halts_of_recognise recognised
      exact ((h.walks taken).not_halted complete walk halted).elim

theorem Lexed.afterBlank (h : Lexed s ts) : Lexed (' ' :: s) ts := by
  cases h with
  | nil hw => exact .nil (List.forall_mem_cons.mpr ⟨rfl, hw⟩)
  | cons hw head tail => exact .cons (List.forall_mem_cons.mpr ⟨rfl, hw⟩) head tail

/-- Any tokens can be written down, with a blank after each. -/
theorem exists_lexed (proper : ∀ t ∈ ts, t.Proper) : ∃ s, Lexed s ts := by
  induction ts with
  | nil => exact ⟨[], .nil nofun⟩
  | cons t ts ih =>
    obtain ⟨ht, others⟩ := List.forall_mem_cons.mp proper
    obtain ⟨s, lexed⟩ := ih others
    have stops : Stops t.inside (' ' :: s) := by
      rintro _ ⟨⟩
      exact t.inside_of_isBlank rfl
    have longest := longest_iff.mpr (scan?_append ht stops)
    exact ⟨t.spelling ++ ' ' :: s, .cons (w := []) nofun longest lexed.afterBlank⟩

theorem Sentence.of_takeAll? (proper : ∀ t ∈ ts, t.Proper)
    (taken : Progress.start.takeAll? ts = some q) (complete : q.Complete) : Sentence ts := by
  obtain ⟨s, lexed⟩ := exists_lexed proper
  obtain ⟨ps, derived⟩ := lexed.derives_iff.mpr ⟨q, taken, complete⟩
  exact ⟨s, ps, lexed, derived⟩

theorem Sentence.takeAll? (h : Sentence ts) :
    ∃ q, Progress.start.takeAll? ts = some q ∧ q.Complete := by
  obtain ⟨s, ps, lexed, derived⟩ := h
  exact lexed.derives_iff.mp ⟨ps, derived⟩

/-- Where a walk halts no token fits. -/
theorem Halted.firstUnfit (h : Halted q rest) (walk : Walks .start text ts q rest) :
    FirstUnfit ts rest := by
  obtain ⟨clean, blocked, unfinished⟩ := h
  obtain ⟨us, r, proper, taken, complete⟩ := q.exists_completion
  have sentence : Sentence (ts ++ us) := by
    refine .of_takeAll? (List.forall_mem_append.mpr ⟨walk.proper, proper⟩) ?_ complete
    rw [Progress.takeAll?_append, walk.takeAll?, Option.bind_some, taken]
  refine ⟨⟨us, sentence⟩, fun t others longest vs unfit => ?_, fun none => ?_⟩
  -- a formula that went on with this token would have let the walk go on
  · obtain ⟨_, taken, -⟩ := unfit.takeAll?
    rw [Progress.takeAll?_append, walk.takeAll?, Option.bind_some, Progress.takeAll?_cons] at taken
    obtain ⟨r, taken, -⟩ := Option.bind_eq_some_iff.mp taken
    exact blocked t r others ⟨.inl (clean.symm ▸ longest_iff.mp longest), taken⟩
  · have incomplete : ¬ Sentence ts := by
      intro whole
      obtain ⟨_, taken, complete⟩ := whole.takeAll?
      rw [walk.takeAll?] at taken
      cases taken
      exact unfinished ⟨none, complete⟩
    cases us with
    | nil => exact (incomplete (ts.append_nil ▸ sentence)).elim
    | cons u us => exact ⟨incomplete, u, us, sentence⟩

theorem Position.ofRest_append (front rest : List Char) :
    Position.ofRest (front ++ rest) rest = Position.start.advance front := by
  rw [Position.ofRest, List.length_append, Nat.add_sub_cancel, List.take_left]

/-- A text within the limits that is not a formula is refused at the first token that does not fit
there, and that is the furthest place at which an operand, a sign, an operator or the end of the
text is looked for in vain. -/
theorem malformed_where_no_token_fits {α : Type} [Scalar α] (slotOf : String → Option Nat)
    {text : String} (within : checkLimits text = .ok ())
    (underivable : ∀ pairs, ¬ Derives .calculation text.toList pairs) :
    ∃ front rest ts, text.toList = front ++ rest ∧
      Formula.read text = .error (.malformed (Position.start.advance front)) ∧
      ((trimSpace text.toList).isEmpty = false → Expression.parse (α := α) slotOf text =
        .error (.malformed (Position.start.advance front))) ∧
      recognise text.toList = .error ⟨rest⟩ ∧ Furthest .calculation text.toList rest ∧
      Lexed front ts ∧ skipBlanks rest = rest ∧ FirstUnfit ts rest := by
  cases stuck : recognise text.toList with
  | ok formula => exact (underivable _ (derives_of_recognise stuck)).elim
  | error here =>
    obtain ⟨rest⟩ := here
    obtain ⟨ts, q, walk, halted⟩ := halts_of_recognise stuck
    obtain ⟨front, split, lexed⟩ := walk.lexed halted.1
    have read : Formula.read text = .error (.malformed (Position.start.advance front)) := by
      rw [← Position.ofRest_append front rest, ← split]
      exact bind_eq_error_iff.mpr (.inr ⟨(), within, by rw [stuck]⟩)
    refine ⟨front, rest, ts, split, read, fun nonblank => ?_, rfl, furthest_of_recognise stuck,
      lexed, halted.1, halted.firstUnfit walk⟩
    exact (Expression.parse_eq_error_iff_read nonblank).mpr read |>.1

/-- Inside the arguments of a call the colon of a choice does not fit. -/
theorem malformed_where_no_token_fits_colon :
    let text := "1 ? f(x, 2 : 3"
    Formula.read text = .error (.malformed ⟨1, 12⟩) ∧
      Furthest .calculation text.toList ": 3".toList ∧
      ∃ ts, Lexed "1 ? f(x, 2 ".toList ts ∧ (∃ us, Sentence (ts ++ us)) ∧
        ∀ us, ¬ Sentence (ts ++ .colon :: us) := by
  intro text
  have here : recognise "1 ? f(x, 2 : 3".toList = .error ⟨": 3".toList⟩ := by rfl
  have underivable : ∀ pairs, ¬ Derives .calculation text.toList pairs := by
    intro pairs derived
    obtain ⟨formula, recognised, -⟩ := recognise_of_derives derived
    cases here.symm.trans recognised
  obtain ⟨front, rest, ts, split, read, -, stuck, furthest, lexed, -, fit⟩ :=
    malformed_where_no_token_fits (α := Float) Scope.function.slot? (by decide +kernel) underivable
  cases here.symm.trans stuck
  have parts : "1 ? f(x, 2 : 3".toList = "1 ? f(x, 2 ".toList ++ ": 3".toList := by rfl
  obtain rfl := List.append_cancel_right (split.symm.trans parts)
  exact ⟨read, furthest, ts, lexed, fit.viable, fit.unfit .colon " 3".toList (longest_iff.mpr rfl)⟩

end LessonPlot
