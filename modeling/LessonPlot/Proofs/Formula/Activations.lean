import LessonPlot.Proofs.Formula.Grammar
import LessonPlot.Proofs.Formula.Levels
import Mathlib.Order.Lattice

namespace LessonPlot

/-- How many formulas a rule opens by itself. -/
def Rule.activations : Rule → Nat
  | expr => 1
  | _ => 0

/-- As a pattern runs at the start of a text, the rule for formulas is entered at the start of what
is left, as the last of some number of its activations that lie within each other. It does not
matter whether the attempt comes to anything. -/
inductive Enters : Pattern → List Char → Nat → List Char → Prop where
  | here (s : List Char) : Enters (.rule .expr) s 1 s
  | inside {r : Rule} {s t : List Char} {depth : Nat} (h : Enters r.body s depth t) :
      Enters (.rule r) s (depth + r.activations) t
  | seqFirst {a b : Pattern} {s t : List Char} {depth : Nat} (h : Enters a s depth t) :
      Enters (.seq a b) s depth t
  | seqSecond {a b : Pattern} {s t u : List Char} {depth : Nat} {ps : List Pair}
      (first : Runs a s (some (ps, u))) (h : Enters b u depth t) : Enters (.seq a b) s depth t
  | first {a b : Pattern} {s t : List Char} {depth : Nat} (h : Enters a s depth t) :
      Enters (.choice a b) s depth t
  | second {a b : Pattern} {s t : List Char} {depth : Nat} (fails : Runs a s none)
      (h : Enters b s depth t) : Enters (.choice a b) s depth t
  | optional {a : Pattern} {s t : List Char} {depth : Nat} (h : Enters a s depth t) :
      Enters (.optional a) s depth t
  | head {a : Pattern} {s t : List Char} {depth : Nat} (h : Enters a s depth t) :
      Enters (.many a) s depth t
  | tail {a : Pattern} {s t u : List Char} {depth : Nat} {ps : List Pair}
      (head : Runs a s (some (ps, u))) (h : Enters (.many a) u depth t) :
      Enters (.many a) s depth t

namespace Pattern

open Nesting

/-- What all texts that a pattern derives add to the level, at least. -/
def gain : Pattern → Int
  | text spelling => rises spelling
  | char accepts => if accepts ')' then -1 else 0
  | seq a b => a.gain + b.gain
  | choice a b => min a.gain b.gain
  | optional a => min 0 a.gain
  | many _ | ending | rule _ => 0

/-- By how much formulas that lie within each other can outnumber the levels that a pattern has
risen to them. -/
def lead : Pattern → Int
  | text _ | char _ | ending => 0
  | seq a b => max a.lead (b.lead - a.gain)
  | choice a b => max a.lead b.lead
  | optional a | many a => a.lead
  | rule r => r.activations

/-- What is repeated never takes the level down. -/
def steady : Pattern → Bool
  | text _ | char _ | ending | rule _ => true
  | seq a b | choice a b => a.steady && b.steady
  | optional a => a.steady
  | many a => a.steady && 0 ≤ a.gain

end Pattern

namespace Rule

theorem steady_body (r : Rule) : r.body.steady = true := by
  cases r <;> rfl

theorem gain_body (r : Rule) : 0 ≤ r.body.gain := by
  cases r with
  | operator op => cases op <;> decide
  | sign op => cases op <;> decide
  | expr | operation | call | name | identifier | realLiteral => decide

/-- Each formula inside another stands after a character that goes one level up. -/
theorem lead_body (r : Rule) : r.body.lead ≤ 0 := by
  cases r with
  | operator op => exact Int.le_refl 0
  | sign op => exact Int.le_refl 0
  | expr | operation | call | name | identifier | realLiteral => decide

end Rule

open Nesting

theorem Derives.gain_le {p : Pattern} {w : List Char} {ps : List Pair} (h : Derives p w ps)
    (steady : p.steady = true) : p.gain ≤ rises w := by
  induction h with
  | text spelling => exact Int.le_refl _
  | @char accepts c accepted =>
    simp only [Pattern.gain, rises_cons, rises_nil, rise]
    split_ifs <;> simp_all
  | seq first second ih ih' =>
    simp only [Pattern.steady, Bool.and_eq_true] at steady
    have low := ih steady.1
    have high := ih' steady.2
    rw [rises_append]
    exact Int.add_le_add low high
  | first h ih =>
    simp only [Pattern.steady, Bool.and_eq_true] at steady
    exact Int.le_trans (Int.min_le_left _ _) (ih steady.1)
  | second h ih =>
    simp only [Pattern.steady, Bool.and_eq_true] at steady
    exact Int.le_trans (Int.min_le_right _ _) (ih steady.2)
  | absent => exact Int.min_le_left _ _
  | present h ih => exact Int.le_trans (Int.min_le_right _ _) (ih steady)
  | none => exact Int.le_refl _
  | next head tail ih ih' =>
    have once := steady
    simp only [Pattern.steady, Bool.and_eq_true, decide_eq_true_eq] at once
    have low := ih once.1
    have high := ih' steady
    rw [rises_append]
    simp only [Pattern.gain] at high ⊢
    omega
  | ending => exact Int.le_refl _
  | @rule r s ps h ih => exact Int.le_trans r.gain_body (ih r.steady_body)

theorem Runs.reaches {p : Pattern} {s rest : List Char} {ps : List Pair}
    (h : Runs p s (some (ps, rest))) (steady : p.steady = true) : Reaches p.gain s rest := by
  obtain ⟨w, hs, derived⟩ := h.derives _ rfl
  exact ⟨w, hs, derived.gain_le steady⟩

/-- The text up to a formula that is entered has risen as far as formulas lie within each other. -/
theorem Enters.reaches {p : Pattern} {s t : List Char} {depth : Nat} (h : Enters p s depth t)
    (steady : p.steady = true) : Reaches (depth - p.lead) s t := by
  induction h with
  | here s => exact .here s
  | @inside r s t depth h ih =>
    have body := r.lead_body
    apply (ih r.steady_body).mono
    simp only [Pattern.lead]
    omega
  | seqFirst h ih =>
    simp only [Pattern.steady, Bool.and_eq_true] at steady
    apply (ih steady.1).mono
    simp only [Pattern.lead]
    omega
  | seqSecond first h ih =>
    simp only [Pattern.steady, Bool.and_eq_true] at steady
    apply ((first.reaches steady.1).trans (ih steady.2)).mono
    simp only [Pattern.lead]
    omega
  | first h ih =>
    simp only [Pattern.steady, Bool.and_eq_true] at steady
    apply (ih steady.1).mono
    simp only [Pattern.lead]
    omega
  | second fails h ih =>
    simp only [Pattern.steady, Bool.and_eq_true] at steady
    apply (ih steady.2).mono
    simp only [Pattern.lead]
    omega
  | optional h ih => exact ih steady
  | head h ih =>
    simp only [Pattern.steady, Bool.and_eq_true] at steady
    exact ih steady.1
  | tail head h ih =>
    have once := steady
    simp only [Pattern.steady, Bool.and_eq_true, decide_eq_true_eq] at once
    apply ((head.reaches once.1).trans (ih steady)).mono
    omega

/-- On a text whose nesting is bounded, so are the formulas that are entered within each other. -/
theorem Enters.le_of_within {limit depth : Nat} {text t : List Char}
    (h : Enters .calculation text depth t) (within : Within limit none text) :
    depth ≤ limit + 1 := by
  obtain ⟨w, rfl, hw⟩ := h.reaches rfl
  have reached := level_scan none w
  have bounded := within w t rfl
  have start : Pattern.calculation.lead = 1 := rfl
  have flat : none.level = 0 := rfl
  omega

end LessonPlot
