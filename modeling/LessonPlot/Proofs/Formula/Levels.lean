import LessonPlot.Expression.Parse
import LessonPlot.Proofs.Text.Span
import Mathlib.Tactic.SplitIfs

namespace LessonPlot

namespace Nesting

/-- Everything that is counted but the signs. -/
def level (n : Nesting) : Nat :=
  n.opened + n.selections + n.powers

def scan (n : Nesting) (text : List Char) : Nesting :=
  text.foldl step n

/-- What a character adds to the level. -/
def rise (c : Char) : Int :=
  if c = '(' || c = '?' || c = '^' then 1 else if c = ')' then -1 else 0

def rises : List Char → Int
  | [] => 0
  | c :: text => rise c + rises text

/-- Nowhere along a text do level and signs come to more than a limit. -/
def Within (limit : Nat) (n : Nesting) (text : List Char) : Prop :=
  ∀ v w, text = v ++ w → (n.scan v).level + (n.scan v).signs ≤ limit

/-- One text is what is left of another after characters that add so much to the level. -/
def Reaches (gain : Int) (s t : List Char) : Prop :=
  ∃ w, s = w ++ t ∧ gain ≤ rises w

@[simp]
theorem scan_append (n : Nesting) (v w : List Char) : n.scan (v ++ w) = (n.scan v).scan w :=
  List.foldl_append

@[simp]
theorem rises_nil : rises [] = 0 :=
  rfl

@[simp]
theorem rises_cons (c : Char) (text : List Char) : rises (c :: text) = rise c + rises text :=
  rfl

@[simp]
theorem rises_append (v w : List Char) : rises (v ++ w) = rises v + rises w := by
  induction v with
  | nil => rw [List.nil_append, rises_nil, Int.zero_add]
  | cons c v ih => rw [List.cons_append, rises_cons, rises_cons, ih, Int.add_assoc]

/-- A closing parenthesis that nothing opened leaves the level as it is: hence no equation. -/
theorem level_step (n : Nesting) (c : Char) : n.level + rise c ≤ (n.step c).level := by
  simp only [level, step, rise, Bool.or_eq_true, decide_eq_true_eq]
  split_ifs <;> first | omega | simp_all

theorem level_scan (n : Nesting) (text : List Char) :
    n.level + rises text ≤ (n.scan text).level := by
  induction text generalizing n with
  | nil => simp [scan]
  | cons c text ih =>
    have first := level_step n c
    have others := ih (n.step c)
    rw [rises_cons]
    change _ ≤ (((n.step c).scan text).level : Int)
    omega

theorem step_of_isBlank {c : Char} (h : isBlank c = true) (n : Nesting) :
    rise c = 0 ∧ (n.step c).signs = n.signs := by
  simp only [isBlank, Bool.or_eq_true, decide_eq_true_eq] at h
  rcases h with ((rfl | rfl) | rfl) | rfl <;> exact ⟨rfl, rfl⟩

theorem step_of_ofChar? {c : Char} {sign : PrefixOp} (h : PrefixOp.ofChar? c = some sign)
    (n : Nesting) : rise c = 0 ∧ (n.step c).signs = n.signs + 1 := by
  unfold PrefixOp.ofChar? at h
  split at h <;> first | exact ⟨rfl, rfl⟩ | cases h

/-- The signs that are taken off a text are all in one run that is counted, blanks between them or
not. -/
theorem exists_scan_takeSigns (text : List Char) :
    ∃ w, text = w ++ (takeSigns text).2 ∧ rises w = 0 ∧
      ∀ n : Nesting, (n.scan w).signs = n.signs + (takeSigns text).1.length := by
  fun_induction takeSigns text with
  | case1 => exact ⟨[], rfl, rfl, fun _ => rfl⟩
  | case2 c rest hc ih =>
    obtain ⟨w, hw, level, signs⟩ := ih
    refine ⟨c :: w, congrArg (c :: ·) hw, ?_, fun n => ?_⟩
    · rw [rises_cons, (step_of_isBlank hc none).1, level]
      rfl
    · rw [← (step_of_isBlank hc n).2]
      exact signs (n.step c)
  | case3 c rest hc sign hs ih =>
    obtain ⟨w, hw, level, signs⟩ := ih
    refine ⟨c :: w, congrArg (c :: ·) hw, ?_, fun n => ?_⟩
    · rw [rises_cons, (step_of_ofChar? hs none).1, level]
      rfl
    · have counted := signs (n.step c)
      rw [(step_of_ofChar? hs n).2] at counted
      rw [List.length_cons, Nat.add_comm _ 1, ← Nat.add_assoc]
      exact counted
  | case4 c rest hc hs => exact ⟨[], rfl, rfl, fun _ => rfl⟩

section Quiet

/-- Whether a character opens and closes nothing, is no sign and ends a run of signs. -/
def isQuiet (c : Char) : Bool :=
  !isSpace c && !(['(', ')', '?', '^', '-', '+', '!'].contains c)

variable {c : Char} {text : List Char}

theorem isQuiet_of_toNat (low : 45 < c.toNat) (high : c.toNat < 133) (notQuestion : c.toNat ≠ 63)
    (notCaret : c.toNat ≠ 94) : isQuiet c = true := by
  have space : isSpace c = false := by
    rw [Bool.eq_false_iff]
    intro space
    have far := toNat_of_isSpace space
    omega
  have other {d : Char} (apart : d.toNat ≤ 45 ∨ d.toNat = 63 ∨ d.toNat = 94) : c ≠ d := by
    rintro rfl
    omega
  simp [isQuiet, space, other (d := '(') (by decide), other (d := ')') (by decide),
    other (d := '?') (by decide), other (d := '^') (by decide), other (d := '-') (by decide),
    other (d := '+') (by decide), other (d := '!') (by decide)]

theorem step_of_quiet (quiet : isQuiet c = true) (n : Nesting) :
    n.step c = ⟨n.opened, n.selections, n.powers, 0, max n.deepest n.level⟩ := by
  simp only [isQuiet, Bool.and_eq_true, Bool.not_eq_true', List.contains_eq_mem, List.mem_cons,
    List.not_mem_nil, or_false, decide_eq_false_iff_not, not_or] at quiet
  obtain ⟨space, opening, closing, question, caret, minus, plus, bang⟩ := quiet
  simp [step, level, space, opening, closing, question, caret, minus, plus, bang]

/-- Quiet characters leave the deepest place where it is. -/
theorem scan_quiet (quiet : ∀ c ∈ text, isQuiet c = true) (n : Nesting) (flat : n.level = 0) :
    (n.scan text).deepest = n.deepest := by
  induction text generalizing n with
  | nil => rfl
  | cons c text ih =>
    obtain ⟨head, tail⟩ := List.forall_mem_cons.mp quiet
    have first := step_of_quiet head n
    have level : (n.step c).level = 0 := by
      rw [first]
      exact flat
    have rest := ih tail (n.step c) level
    change ((n.step c).scan text).deepest = _
    rw [rest, first]
    change max n.deepest n.level = n.deepest
    omega

end Quiet

namespace Reaches

variable {gain more less : Int} {s t u : List Char}

theorem here (s : List Char) : Reaches 0 s s :=
  ⟨[], rfl, Int.le_refl 0⟩

theorem char (c : Char) (s : List Char) : Reaches (rise c) (c :: s) s :=
  ⟨[c], rfl, by simp⟩

theorem trans (first : Reaches gain s t) (second : Reaches more t u) :
    Reaches (gain + more) s u := by
  obtain ⟨v, rfl, hv⟩ := first
  obtain ⟨w, rfl, hw⟩ := second
  refine ⟨v ++ w, by rw [List.append_assoc], ?_⟩
  rw [rises_append]
  exact Int.add_le_add hv hw

theorem mono (h : Reaches gain s t) (le : less ≤ gain) : Reaches less s t := by
  obtain ⟨w, hs, hw⟩ := h
  exact ⟨w, hs, Int.le_trans le hw⟩

end Reaches

theorem le_deepest_step (n : Nesting) (c : Char) :
    (n.step c).level + (n.step c).signs ≤ (n.step c).deepest :=
  Nat.le_max_right _ _

theorem deepest_le_scan (n : Nesting) (text : List Char) :
    n.deepest ≤ (n.scan text).deepest := by
  induction text generalizing n with
  | nil => exact Nat.le_refl _
  | cons c text ih =>
    have first : n.deepest ≤ (n.step c).deepest := Nat.le_max_left _ _
    exact Nat.le_trans first (ih (n.step c))

theorem le_deepest_scan (n : Nesting) (start : n.level + n.signs ≤ n.deepest)
    (text : List Char) :
    (n.scan text).level + (n.scan text).signs ≤ (n.scan text).deepest := by
  induction text generalizing n with
  | nil => exact start
  | cons c text ih => exact ih (n.step c) (le_deepest_step n c)

theorem within_of (text : List Char) : Within (of text) none text := by
  rintro v w rfl
  have here := le_deepest_scan none (Nat.le_refl 0) v
  have later := deepest_le_scan (none.scan v) w
  rw [← scan_append] at later
  exact Nat.le_trans here later

/-- One character brings the level and the signs up by one at most. -/
theorem deepest_scan_le (n : Nesting) (text : List Char) :
    (n.scan text).deepest ≤ max n.deepest (n.level + n.signs + text.length) := by
  induction text generalizing n with
  | nil => exact Nat.le_max_left _ _
  | cons c text ih =>
    have raised : (n.step c).level + (n.step c).signs ≤ n.level + n.signs + 1 := by
      simp only [level, step, Bool.or_eq_true, decide_eq_true_eq]
      split_ifs <;> first | omega | simp_all
    have deepest : (n.step c).deepest =
        max n.deepest ((n.step c).level + (n.step c).signs) := rfl
    have others := ih (n.step c)
    change ((n.step c).scan text).deepest ≤ _
    rw [List.length_cons]
    omega

theorem of_le_length (text : List Char) : of text ≤ text.length := by
  have h := deepest_scan_le none text
  change _ ≤ max 0 (0 + 0 + 0 + 0 + text.length) at h
  change (none.scan text).deepest ≤ _
  omega

namespace Within

variable {limit higher : Nat} {n : Nesting} {v w : List Char}

theorem here (h : Within limit n w) : n.level + n.signs ≤ limit :=
  h [] w rfl

theorem drop (h : Within limit n (v ++ w)) : Within limit (n.scan v) w := by
  rintro x y rfl
  rw [← scan_append]
  exact h (v ++ x) y (by rw [List.append_assoc])

theorem mono (h : Within limit n w) (le : limit ≤ higher) : Within higher n w :=
  fun x y hw => Nat.le_trans (h x y hw) le

end Within

end Nesting

theorem checkLimits_eq_ok_iff {text : String} : checkLimits text = .ok () ↔
    text.utf8ByteSize ≤ maxBytes ∧ Nesting.of text.toList ≤ maxNesting := by
  rw [← Nat.not_lt, ← Nat.not_lt, checkLimits]
  split
  next long => simp [long]
  next short =>
    dsimp only
    split
    next deep => simp [deep]
    next shallow => simp [short, shallow]

end LessonPlot
