import LessonPlot.Proofs.Formula.TokenDerivation

namespace LessonPlot

theorem Blank.append {v w : List Char} (hv : Blank v) (hw : Blank w) : Blank (v ++ w) := by
  intro c hc
  rcases List.mem_append.mp hc with h | h
  · exact hv c h
  · exact hw c h

/-- The first characters of operands that are written without a prefix operator. -/
def startsPrimary (c : Char) : Bool :=
  c.isDigit || c = '.' || isNameStart c || c = '('

/-- The first character of an operand stands first. -/
def Opens (s : List Char) : Prop :=
  ∃ c t, s = c :: t ∧ startsPrimary c = true

theorem Opens.append {s : List Char} (h : Opens s) (rest : List Char) : Opens (s ++ rest) := by
  obtain ⟨c, t, rfl, hc⟩ := h
  exact ⟨c, t ++ rest, rfl, hc⟩

/-- Blanks, then the first character of an operand or of a prefix operator before it. -/
def Leads (s : List Char) : Prop :=
  ∃ w c t, s = w ++ c :: t ∧ Blank w ∧ (startsPrimary c || (PrefixOp.ofChar? c).isSome) = true

/-- Only the given characters may come next. -/
def Before (ends rest : List Char) : Prop :=
  ∀ c ∈ (skipBlanks rest).head?, c ∈ ends

/-- A class without the four blanks has no blank in it. -/
theorem isBlank_eq_false_of {p : Char → Bool} (hp : [' ', '\t', '\r', '\n'].all fun c => !p c)
    {c : Char} (h : p c = true) : isBlank c = false := by
  rw [Bool.eq_false_iff]
  intro hb
  simp only [isBlank, Bool.or_eq_true, decide_eq_true_eq] at hb
  rcases hb with ((rfl | rfl) | rfl) | rfl <;> simp_all

theorem ofChar?_eq_none_of_startsPrimary {c : Char} (h : startsPrimary c = true) :
    PrefixOp.ofChar? c = none := by
  unfold PrefixOp.ofChar?
  split
  case h_4 => rfl
  all_goals cases h

namespace Leads

variable {s : List Char}

theorem append (h : Leads s) (rest : List Char) : Leads (s ++ rest) := by
  obtain ⟨w, c, t, rfl, hw, hc⟩ := h
  exact ⟨w, c, t ++ rest, by simp, hw, hc⟩

theorem prepend {v : List Char} (h : Leads s) (hv : Blank v) : Leads (v ++ s) := by
  obtain ⟨w, c, t, rfl, hw, hc⟩ := h
  exact ⟨v ++ w, c, t, by simp, hv.append hw, hc⟩

theorem skipBlanks_ne (h : Leads s) (t : List Char) : skipBlanks s ≠ ')' :: t := by
  obtain ⟨w, c, t, rfl, hw, hc⟩ := h
  have hb := isBlank_eq_false_of
    (p := fun c => startsPrimary c || (PrefixOp.ofChar? c).isSome) rfl hc
  rw [skipBlanks_append hw, skipBlanks_cons_of_neg (by simp [hb])]
  rintro ⟨⟩
  cases hc

theorem stops (h : Leads s) : Stops (fun c => c = '=') s := by
  obtain ⟨w, c, t, rfl, hw, hc⟩ := h
  cases w with
  | nil => rintro _ ⟨⟩; rw [decide_eq_false_iff_not]; rintro rfl; cases hc
  | cons x w => rintro _ ⟨⟩; rw [decide_eq_false_iff_not]; rintro rfl; cases hw '=' (by simp)

end Leads

theorem takeInfix?_append (op : InfixOp) {rest : List Char} (h : Stops (fun c => c = '=') rest) :
    takeInfix? (op.spelling ++ rest) = some (op, rest) := by
  cases rest with
  | nil => cases op <;> rfl
  | cons c rest =>
    have hc : c ≠ '=' := by simpa using h c rfl
    cases op <;> simp [InfixOp.spelling, takeInfix?, hc]

theorem takeInfix?_before {rest : List Char} (h : Before ['?', ')', ',', ':'] rest) :
    takeInfix? (skipBlanks rest) = none := by
  cases hr : skipBlanks rest with
  | nil => rfl
  | cons c t =>
    have hc : c ∈ ['?', ')', ',', ':'] := h c (by simp [hr])
    simp only [List.mem_cons, List.not_mem_nil, or_false] at hc
    rcases hc with rfl | rfl | rfl | rfl <;> rfl

/-- Phrases of one kind, blanks before each of them and after the last. -/
inductive Separated (p : Pattern) : List Char → List Pair → Prop where
  | nil {w : List Char} (hw : Blank w) : Separated p w []
  | cons {w s t : List Char} {ps qs : List Pair} (hw : Blank w) (head : Derives p s ps)
      (tail : Separated p t qs) : Separated p (w ++ (s ++ t)) (ps ++ qs)

namespace Separated

variable {p : Pattern} {s w : List Char} {ps : List Pair}

theorem append (h : Separated p s ps) (hw : Blank w) : Separated p (s ++ w) ps := by
  induction h with
  | nil hv => exact .nil (hv.append hw)
  | cons hv head tail ih =>
    rw [List.append_assoc, List.append_assoc]
    exact .cons hv head ih

theorem prepend (h : Separated p s ps) (hw : Blank w) : Separated p (w ++ s) ps := by
  cases h with
  | nil hv => exact .nil (hw.append hv)
  | cons hv head tail =>
    rw [← List.append_assoc]
    exact .cons (hw.append hv) head tail

theorem of_many (h : Derives (.many (.seq .blanks p)) s ps) : Separated p s ps := by
  generalize hq : Pattern.many (.seq .blanks p) = q at h
  induction h with
  | none => exact .nil (by simp [Blank])
  | next head tail ih ih' =>
    cases hq
    obtain ⟨w, s, _, qs, rfl, rfl, blanks, hp⟩ := head.seq_inv
    obtain ⟨hw, rfl⟩ := blanks.many_char_inv
    rw [List.append_assoc]
    exact .cons hw hp (ih' rfl)
  | _ => cases hq

theorem of_manySpaced (h : Derives (.manySpaced p) s ps) : Separated p s ps := by
  cases h with
  | absent => exact .nil (by simp [Blank])
  | present h =>
    obtain ⟨s, t, qs, rs, rfl, rfl, head, tail⟩ := h.seq_inv
    exact .cons (w := []) (by simp [Blank]) head (of_many tail)

end Separated

namespace Derives

variable {s : List Char} {ps : List Pair}

/-- A choice of spelled rules derives what one of them spells. -/
theorem oneOf_spelled {α : Type} (rule : α → Rule) {spelling : α → List Char}
    (hs : ∀ a, (rule a).body = .text (spelling a)) (first : α) (others : List α)
    (h : Derives (.oneOf (.rule (rule first)) (others.map fun a => .rule (rule a))) s ps) :
    ∃ a, s = spelling a ∧ ps = [(rule a).pair (spelling a) []] := by
  have spelled (a : α) (ha : Derives (.rule (rule a)) s ps) :
      s = spelling a ∧ ps = [(rule a).pair (spelling a) []] := by
    cases ha with
    | rule ha =>
      rw [hs] at ha
      obtain ⟨rfl, rfl⟩ := ha.text_inv
      exact ⟨rfl, rfl⟩
  induction others generalizing first with
  | nil => exact ⟨first, spelled first h⟩
  | cons second others ih =>
    cases h with
    | first h => exact ⟨first, spelled first h⟩
    | second h => exact ih second h

theorem operator_inv (h : Derives .operator s ps) :
    ∃ op : InfixOp, s = op.spelling ∧ ps = [.node (.operator op) []] :=
  oneOf_spelled Rule.operator (fun _ => rfl) .or Pattern.operators h

theorem sign_inv (h : Derives .sign s ps) :
    ∃ op : PrefixOp, s = op.spelling ∧ ps = [.node (.sign op) []] :=
  oneOf_spelled Rule.sign (fun _ => rfl) .minus [.plus, .not] h

theorem group_inv {p : Pattern}
    (h : Derives (.spaced (.text ['(']) (.spaced p (.text [')']))) s ps) :
    ∃ v t w, s = '(' :: (v ++ (t ++ (w ++ [')']))) ∧ Blank v ∧ Blank w ∧ Derives p t ps := by
  obtain ⟨o, v, u, qs, rs, rfl, rfl, hv, opens, h⟩ := h.spaced_inv
  obtain ⟨t, w, c, ts, rs, rfl, rfl, hw, hp, closes⟩ := h.spaced_inv
  obtain ⟨rfl, rfl⟩ := opens.text_inv
  obtain ⟨rfl, rfl⟩ := closes.text_inv
  exact ⟨v, t, w, rfl, hv, hw, by simpa using hp⟩

/-- A primary starts with no blank and no prefix operator. -/
theorem primary_opens (h : Derives .primary s ps) : Opens s := by
  have named {r : List Char} {qs : List Pair} (h : Derives (.rule .identifier) r qs) :
      Opens r := by
    obtain ⟨-, ⟨c, t, rfl, hc⟩, -⟩ := h.identifier_inv
    exact ⟨c, t, rfl, by simp [startsPrimary, hc]⟩
  cases h with
  | first h =>
    obtain ⟨-, ⟨c, t, rfl, hc⟩, -⟩ := h.realLiteral_inv
    exact ⟨c, t, rfl, by simp [startsPrimary, hc]⟩
  | second h =>
    cases h with
    | first h =>
      cases h with
      | rule h =>
        obtain ⟨r, w, u, qs, rs, rfl, rfl, hw, callee, h⟩ := h.spaced_inv
        exact (named callee).append (w ++ u)
    | second h =>
      cases h with
      | first h =>
        cases h with
        | rule h => exact named h
      | second h =>
        obtain ⟨v, t, w, rfl, -, -, -⟩ := group_inv h
        exact ⟨'(', _, rfl, rfl⟩

end Derives

theorem Opens.takeSigns {s : List Char} (h : Opens s) : LessonPlot.takeSigns s = ([], s) := by
  obtain ⟨c, t, rfl, hc⟩ := h
  have hb := isBlank_eq_false_of (p := startsPrimary) rfl hc
  have hs := ofChar?_eq_none_of_startsPrimary hc
  simp [LessonPlot.takeSigns, hb, hs]

theorem Separated.takeSigns {x : List Char} {ps : List Pair} (h : Separated .sign x ps)
    {rest : List Char} (hr : Opens rest) :
    ∃ ops : List PrefixOp, ps = ops.map (fun op => .node (.sign op) []) ∧
      LessonPlot.takeSigns (x ++ rest) = (ops, rest) := by
  induction h with
  | nil hw => exact ⟨[], rfl, by rw [takeSigns_append hw, hr.takeSigns]⟩
  | cons hw head tail ih =>
    obtain ⟨op, rfl, rfl⟩ := head.sign_inv
    obtain ⟨ops, rfl, ht⟩ := ih
    refine ⟨op :: ops, rfl, ?_⟩
    rw [List.append_assoc, takeSigns_append hw, List.append_assoc]
    cases op <;> simp [PrefixOp.spelling, LessonPlot.takeSigns, isBlank, PrefixOp.ofChar?, ht]

theorem Separated.leads {x : List Char} {ps : List Pair} (h : Separated .sign x ps)
    {rest : List Char} (hr : Opens rest) : Leads (x ++ rest) := by
  cases h with
  | nil hw =>
    obtain ⟨c, t, rfl, hc⟩ := hr
    exact ⟨x, c, t, rfl, hw, by simp [hc]⟩
  | cons hw head tail =>
    obtain ⟨op, rfl, rfl⟩ := head.sign_inv
    rw [List.append_assoc, List.append_assoc]
    cases op <;> exact ⟨_, _, _, rfl, hw, rfl⟩

end LessonPlot
