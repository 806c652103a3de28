import LessonPlot.Proofs.Formula.Climbing

namespace LessonPlot

variable {β : Type} {ops : List InfixOp}

section Building

variable {γ : Type}

mutual

theorem Unary.build_grouped (u : Unary (Except ParseError (Expression γ))) :
    u.grouped.build = u.build := by
  cases u with
  | signed sign inner => rw [Unary.grouped, Grouped.build, Unary.build_grouped inner, Unary.build]
  | power inner => exact Power.build_grouped inner

theorem Power.build_grouped (p : Power (Except ParseError (Expression γ))) :
    p.grouped.build = p.build := by
  cases p with
  | primary operand => rfl
  | raised base exponent =>
    rw [Power.grouped, Grouped.build, Unary.build_grouped exponent, Power.build, Grouped.build]

end

theorem Chain.build_grouped {grouped : β → Grouped (Except ParseError (Expression γ))}
    {build : β → Except ParseError (Expression γ)} (h : ∀ b, (grouped b).build = build b)
    (c : Chain ops β) : (c.grouped grouped).build = c.build build := by
  induction c with
  | part first => exact h first
  | next init op member right ih => rw [Chain.grouped, Grouped.build, ih, h, Chain.build]

theorem OrPhrase.build_grouped (d : OrPhrase (Except ParseError (Expression γ))) :
    d.grouped.build = d.build :=
  Chain.build_grouped (Chain.build_grouped (Chain.build_grouped (Chain.build_grouped
    (Chain.build_grouped (Chain.build_grouped Unary.build_grouped))))) d

/-- Every row of operands has exactly one derivation in the stratified grammar. The loop of
binding powers reads exactly one tree from the words of the row, the one they are grouped into, and
that tree builds what the derivation builds: the same expression, or the same error. The operands
of a formula are built in this way. -/
theorem group_build_eq_derivation [Scalar γ] (row : Row (Except ParseError (Expression γ))) :
    ∃ d : OrPhrase (Except ParseError (Expression γ)), d.tokens = row.tokens ∧
      (∀ d' : OrPhrase (Except ParseError (Expression γ)), d'.tokens = row.tokens → d' = d) ∧
      (∀ tree rest, Climbs 0 row.tokens tree rest ↔ tree = row.group ∧ rest = []) ∧
      row.group.build = d.build ∧
      ∀ slotOf operands, operands.row slotOf = row →
        (Formula.operation operands).build slotOf = d.build := by
  obtain ⟨d, rfl⟩ := OrPhrase.exists_row row
  have hb : (d.row none).group.build = d.build := by rw [d.group_row, d.build_grouped]
  refine ⟨d, ?_, ?_, (d.row none).climbs_iff, hb, ?_⟩
  · rw [OrPhrase.stratum.tokens_row, Continuation.tokens, List.append_nil]
  · intro d' h
    apply OrPhrase.stratum.injective
    rw [← d'.group_row, ← d.group_row, OrPhrase.row_of_tokens h]
  · intro slotOf operands h
    rw [Formula.build, h, hb]

end Building

end LessonPlot
