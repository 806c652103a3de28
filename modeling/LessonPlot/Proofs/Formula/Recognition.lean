import LessonPlot.Proofs.Formula.PhraseDerivation

namespace LessonPlot

namespace Derives

variable {s : List Char} {ps : List Pair}

/-- An operation is a row of signed operands with operators between them. -/
theorem operation_inv (h : Derives (.rule .operation) s ps) : ∃ x y z ss qs rs,
    s = x ++ (y ++ z) ∧ ps = [.node .operation (ss ++ (qs ++ rs))] ∧ Separated .sign x ss ∧
      Derives .primary y qs ∧ Separated .link z rs := by
  cases h with
  | rule h =>
    obtain ⟨x, v, u, ss, ts, rfl, rfl, hv, signs, h⟩ := h.spaced_inv
    obtain ⟨y, w, z, qs, rs, rfl, rfl, hw, operand, links⟩ := h.spaced_inv
    exact ⟨x ++ v, y, w ++ z, ss, qs, rs, by simp, rfl, (Separated.of_manySpaced signs).append hv,
      operand, (Separated.of_manySpaced links).prepend hw⟩

/-- An operator after an operand, then the signs and the operand after it. -/
theorem link_inv (h : Derives .link s ps) : ∃ op x y ss qs,
    s = InfixOp.spelling op ++ (x ++ y) ∧ ps = .node (.operator op) [] :: (ss ++ qs) ∧
      Separated .sign x ss ∧ Derives .primary y qs := by
  obtain ⟨o, v, u, os, ts, rfl, rfl, hv, operator, operand⟩ := h.spaced_inv
  obtain ⟨op, rfl, rfl⟩ := operator.operator_inv
  obtain ⟨x, w, y, ss, qs, rfl, rfl, hw, signs, operand⟩ := operand.spaced_inv
  exact ⟨op, v ++ (x ++ w), y, ss, qs, by simp, rfl,
    ((Separated.of_manySpaced signs).append hw).prepend hv, operand⟩

/-- A formula is an operation alone, or one with two formulas after it. -/
theorem expr_inv (h : Derives (.rule .expr) s ps) : ∃ o os, Derives (.rule .operation) o os ∧
    ((∃ w, Blank w ∧ s = o ++ w ∧ ps = [.node .expr os]) ∨
      ∃ v w x y c cs e es, Blank v ∧ Blank w ∧ Blank x ∧ Blank y ∧
        Derives (.rule .expr) c cs ∧ Derives (.rule .expr) e es ∧
        s = o ++ (v ++ '?' :: (w ++ (c ++ (x ++ ':' :: (y ++ e))))) ∧
        ps = [.node .expr (os ++ (cs ++ es))]) := by
  cases h with
  | rule h =>
    obtain ⟨o, v, u, os, ts, rfl, rfl, hv, operation, h⟩ := h.spaced_inv
    refine ⟨o, os, operation, ?_⟩
    cases h with
    | absent => exact .inl ⟨v, hv, by simp, by simp [Rule.pair, Rule.isToken]⟩
    | present h =>
      obtain ⟨q, w, u, qs, rs, rfl, rfl, hw, mark, h⟩ := h.spaced_inv
      obtain ⟨c, x, u, cs, rs, rfl, rfl, hx, chosen, h⟩ := h.spaced_inv
      obtain ⟨k, y, e, ks, es, rfl, rfl, hy, colon, otherwise⟩ := h.spaced_inv
      obtain ⟨rfl, rfl⟩ := mark.text_inv
      obtain ⟨rfl, rfl⟩ := colon.text_inv
      exact .inr ⟨v, w, x, y, c, cs, e, es, hv, hw, hx, hy, chosen, otherwise, by simp,
        by simp [Rule.pair, Rule.isToken]⟩

theorem expr_leads (h : Derives (.rule .expr) s ps) : Leads s := by
  obtain ⟨o, os, operation, h⟩ := h.expr_inv
  obtain ⟨x, y, z, ss, qs, rs, rfl, -, signs, operand, -⟩ := operation.operation_inv
  have leads (rest : List Char) : Leads (x ++ (y ++ z) ++ rest) :=
    (signs.leads (operand.primary_opens.append z)).append rest
  obtain ⟨w, -, rfl, -⟩ | ⟨v, w, x, y, c, cs, e, es, -, -, -, -, -, -, rfl, -⟩ := h
  · exact leads _
  · exact leads _

end Derives

theorem toNat_of_isNameStart {c : Char} (h : isNameStart c = true) :
    65 ≤ c.toNat ∧ c.toNat ≤ 122 := by
  rcases Bool.or_eq_true_iff.mp h with letter | underscore
  · change (decide (c.val ≥ 65 ∧ c.val ≤ 90) || (decide (c.val ≥ 97) && decide (c.val ≤ 122))) = true
      at letter
    have places : 65 ≤ c.toNat ∧ c.toNat ≤ 90 ∨ 97 ≤ c.toNat ∧ c.toNat ≤ 122 := by
      simpa [UInt32.le_iff_toNat_le] using letter
    omega
  · obtain rfl := of_decide_eq_true underscore
    decide

theorem not_isDigit_of_isNameStart {c : Char} (h : isNameStart c = true) : ¬ c.isDigit = true := by
  intro digit
  have number : 48 ≤ c.toNat ∧ c.toNat ≤ 57 := Char.isDigit_iff_toNat.mp digit
  have letter := toNat_of_isNameStart h
  omega

theorem takeNumber?_eq_none {c : Char} (h : isNameStart c = true) (t : List Char) :
    takeNumber? (c :: t) = none := by
  have hd := not_isDigit_of_isNameStart h
  have hp : c ≠ '.' := by
    rintro rfl
    cases h
  simp [takeNumber?, takeMantissa?, hd, hp]

/-- What may not follow an operand, so that the operand ends there. -/
def inOperand (c : Char) : Bool :=
  inNumber c || c = '('

theorem Stops.of_skipBlanks {p : Char → Bool} (hp : [' ', '\t', '\r', '\n'].all fun c => !p c)
    {rest : List Char} (h : Stops p (skipBlanks rest)) : Stops p rest := by
  cases rest with
  | nil => nofun
  | cons c rest =>
    rintro _ ⟨⟩
    by_cases hb : isBlank c = true
    · rw [Bool.eq_false_iff]
      intro hc
      rw [isBlank_eq_false_of hp hc] at hb
      cases hb
    · rw [skipBlanks_cons_of_neg hb] at h
      exact h c rfl

theorem Stops.mono {p q : Char → Bool} (hpq : ∀ c, p c = false → q c = false) {rest : List Char}
    (h : Stops p rest) : Stops q rest :=
  fun c hc => hpq c (h c hc)

namespace Recogniser

/-- Every formula of the grammar below a length is recognised where nothing can prolong it. -/
def Complete (inner : Recogniser Formula) (length : Nat) : Prop :=
  ∀ w s rest ps, Blank w → Derives (.rule .expr) s ps → s.length < length →
    Before [')', ',', ':'] rest → ∃ formula rest', ps = [formula.pair] ∧
      inner (w ++ (s ++ rest)) = .ok (formula, rest') ∧ skipBlanks rest' = skipBlanks rest

variable {inner : Recogniser Formula} {length : Nat}

theorem Complete.arguments (hi : Complete inner length) {x : List Char} {qs : List Pair}
    (hx : Separated .argument x qs) {w s rest : List Char} {ps : List Pair} (fuel : Nat)
    (hw : Blank w) (hs : Derives (.rule .expr) s ps) (hl : s.length < length)
    (hlx : x.length ≤ length) (hf : x.length < fuel) :
    ∃ args : Arguments, ps ++ qs = args.pairs ∧
      arguments inner fuel (w ++ (s ++ (x ++ ')' :: rest))) = .ok (args, rest) := by
  induction hx generalizing w s ps fuel with
  | @nil x hx =>
    have next : skipBlanks (x ++ ')' :: rest) = ')' :: rest := skipBlanks_append hx _
    have ends : Before [')', ',', ':'] (x ++ ')' :: rest) := by simp [Before, next]
    obtain ⟨first, t, rfl, hfirst, ht⟩ := hi w s _ ps hw hs hl ends
    cases fuel with
    | zero => cases hf
    | succ fuel =>
      refine ⟨.cons first .none, rfl, ?_⟩
      rw [Recogniser.arguments]
      refine bind_eq_ok_iff.mpr ⟨_, hfirst, ?_⟩
      simp only [ht, next]
  | @cons v y x ys qs hv head tail ih =>
    obtain ⟨o, u, e, os, es, rfl, rfl, hu, comma, argument⟩ := head.spaced_inv
    obtain ⟨rfl, rfl⟩ := comma.text_inv
    have next : skipBlanks (v ++ (([','] ++ (u ++ e)) ++ x) ++ ')' :: rest) =
        ',' :: (u ++ (e ++ (x ++ ')' :: rest))) := by
      rw [List.append_assoc, skipBlanks_append hv]
      simp [skipBlanks, isBlank]
    have ends : Before [')', ',', ':'] (v ++ (([','] ++ (u ++ e)) ++ x) ++ ')' :: rest) := by
      rw [Before, next]
      simp
    obtain ⟨first, t, rfl, hfirst, ht⟩ := hi w s _ ps hw hs hl ends
    cases fuel with
    | zero => cases hf
    | succ fuel =>
      simp only [List.length_append, List.length_cons] at hlx hf
      obtain ⟨others, hp, ho⟩ := ih fuel hu argument (by omega) (by omega) (by omega)
      refine ⟨.cons first others, by simp [Arguments.pairs, ← hp], ?_⟩
      rw [Recogniser.arguments]
      refine bind_eq_ok_iff.mpr ⟨_, hfirst, ?_⟩
      simp only [ht, next]
      exact bind_eq_ok_iff.mpr ⟨_, ho, rfl⟩

theorem primary_of_number {text number rest : List Char}
    (h : takeNumber? text = some (number, rest)) :
    primary inner text = .ok (.number (String.ofList number), rest) := by
  rw [Recogniser.primary.eq_def]
  split
  next => cases h
  next => simp only [h]

theorem primary_of_name {text name rest : List Char} (hd : takeNumber? text = none)
    (h : takeName? text = some (name, rest)) :
    primary inner text = callOrName inner name rest := by
  rw [Recogniser.primary.eq_def]
  split
  next => cases h
  next => simp only [hd, h]

/-- The parentheses of a call, with or without arguments between them. -/
theorem Complete.call (hi : Complete inner length) (name : List Char) {u t v w rest : List Char}
    {ps : List Pair} (hu : Blank u) (hv : Blank v) (hw : Blank w)
    (ht : Derives (.optional .arguments) t ps) (hl : t.length + w.length < length) :
    ∃ args : Arguments, ps = args.pairs ∧
      callOrName inner name (u ++ '(' :: (v ++ (t ++ (w ++ ')' :: rest)))) =
        .ok (.call (String.ofList name) args, rest) := by
  have opens (s : List Char) : skipBlanks (u ++ '(' :: s) = '(' :: s := skipBlanks_append hu _
  rw [Recogniser.callOrName]
  simp only [opens]
  cases ht with
  | absent =>
    have closes : skipBlanks (v ++ ([] ++ (w ++ ')' :: rest))) = ')' :: rest := by
      rw [skipBlanks_append hv, List.nil_append, skipBlanks_append hw]
      rfl
    refine ⟨.none, rfl, ?_⟩
    simp only [closes]
  | present ht =>
    obtain ⟨e, y, x, es, xs, rfl, rfl, hy, first, others⟩ := ht.spaced_inv
    have separated := ((Separated.of_manySpaced others).append hw).prepend hy
    have hassoc : v ++ (e ++ (y ++ x) ++ (w ++ ')' :: rest)) =
        v ++ (e ++ (y ++ (x ++ w) ++ ')' :: rest)) := by simp
    have leads := (first.expr_leads.append (y ++ (x ++ w) ++ ')' :: rest)).prepend hv
    simp only [List.length_append] at hl
    have hx : (y ++ (x ++ w)).length ≤ length := by
      simp only [List.length_append]
      omega
    have hf : (y ++ (x ++ w)).length <
        (v ++ (e ++ (y ++ (x ++ w) ++ ')' :: rest))).length + 1 := by
      simp only [List.length_append, List.length_cons]
      omega
    obtain ⟨args, hp, ha⟩ := hi.arguments separated _ hv first (by omega) hx hf
    refine ⟨args, hp, ?_⟩
    rw [hassoc]
    split
    next u hu => exact (leads.skipBlanks_ne u hu).elim
    next => exact bind_eq_ok_iff.mpr ⟨_, ha, rfl⟩

theorem Complete.primary (hi : Complete inner length) {s rest : List Char} {ps : List Pair}
    (hs : Derives .primary s ps) (hl : s.length ≤ length)
    (hr : Stops inOperand (skipBlanks rest)) :
    ∃ p : Primary, ps = [p.pair] ∧ primary inner (s ++ rest) = .ok (p, rest) := by
  have ends : Stops inNumber rest :=
    (Stops.of_skipBlanks rfl hr).mono fun c hc => (Bool.or_eq_false_iff.mp hc).1
  cases hs with
  | first hs =>
    obtain ⟨rfl, -, takes⟩ := hs.realLiteral_inv
    exact ⟨_, by simp [Primary.pair], primary_of_number (takes rest ends)⟩
  | second hs =>
    cases hs with
    | first hs =>
      cases hs with
      | rule hs =>
        obtain ⟨r, u, t, rs, ts, rfl, rfl, hu, callee, inside⟩ := hs.spaced_inv
        obtain ⟨v, t, w, rfl, hv, hw, arguments⟩ := inside.group_inv
        obtain ⟨rfl, ⟨c, r, rfl, hc⟩, takes⟩ := callee.identifier_inv
        simp only [List.length_append, List.length_cons] at hl
        obtain ⟨args, rfl, ha⟩ := hi.call (c :: r) hu hv hw arguments (by omega)
        have follows : Stops isNamePart (u ++ '(' :: (v ++ (t ++ (w ++ ')' :: rest)))) := by
          refine Stops.of_skipBlanks rfl ?_
          rw [skipBlanks_append hu]
          rintro _ ⟨⟩
          rfl
        have hd : takeNumber? (c :: r ++ (u ++ '(' :: (v ++ (t ++ (w ++ ')' :: rest))))) = none :=
          takeNumber?_eq_none hc _
        refine ⟨.call (String.ofList (c :: r)) args, ?_, ?_⟩
        · simp [Primary.pair, Rule.pair, Rule.isToken]
        · rw [← ha, ← primary_of_name hd (takes _ follows)]
          simp
    | second hs =>
      cases hs with
      | first hs =>
        cases hs with
        | rule hs =>
          obtain ⟨rfl, ⟨c, r, rfl, hc⟩, takes⟩ := hs.identifier_inv
          have hname := takes rest (ends.mono fun c hc => (Bool.or_eq_false_iff.mp hc).1)
          have hd : takeNumber? (c :: r ++ rest) = none := takeNumber?_eq_none hc _
          refine ⟨.name (String.ofList (c :: r)), ?_, ?_⟩
          · simp [Primary.pair, Rule.pair, Rule.isToken]
          · rw [primary_of_name hd hname, Recogniser.callOrName]
            split
            next t ht =>
              rw [ht] at hr
              cases hr '(' rfl
            next => rfl
      | second hs =>
        obtain ⟨v, t, w, rfl, hv, hw, inside⟩ := hs.group_inv
        simp only [List.length_append, List.length_cons] at hl
        have next : skipBlanks (w ++ ')' :: rest) = ')' :: rest := skipBlanks_append hw _
        have closes : Before [')', ',', ':'] (w ++ ')' :: rest) := by
          rw [Before, next]
          simp
        obtain ⟨formula, rest', rfl, hf, hr'⟩ := hi v t _ _ hv inside (by omega) closes
        refine ⟨.group formula, rfl, ?_⟩
        simp only [List.cons_append, List.append_assoc, List.nil_append, Recogniser.primary]
        refine bind_eq_ok_iff.mpr ⟨_, hf, ?_⟩
        simp only [hr', next]

theorem Complete.operation (hi : Complete inner length) {z rest : List Char} {rs : List Pair}
    (hz : Separated .link z rs) {x y : List Char} {ss qs : List Pair} (fuel : Nat)
    (hx : Separated .sign x ss) (hy : Derives .primary y qs) (hly : y.length ≤ length)
    (hlz : z.length ≤ length) (hf : z.length < fuel) (hr : Before ['?', ')', ',', ':'] rest) :
    ∃ (o : Operation) (rest' : List Char), ss ++ (qs ++ rs) = o.pairs ∧
      operation inner fuel (x ++ (y ++ (z ++ rest))) = .ok (o, rest') ∧
        skipBlanks rest' = skipBlanks rest := by
  induction hz generalizing x y ss qs fuel with
  | @nil w hw =>
    have next : skipBlanks (w ++ rest) = skipBlanks rest := skipBlanks_append hw rest
    have stops : Stops inOperand (skipBlanks (w ++ rest)) := by
      intro c hc
      have hm := hr c (next ▸ hc)
      simp only [List.mem_cons, List.not_mem_nil, or_false] at hm
      rcases hm with rfl | rfl | rfl | rfl <;> rfl
    obtain ⟨p, rfl, hp⟩ := hi.primary hy hly stops
    obtain ⟨ops, rfl, hs⟩ := hx.takeSigns (hy.primary_opens.append (w ++ rest))
    cases fuel with
    | zero => cases hf
    | succ fuel =>
      refine ⟨.last ops p, w ++ rest, rfl, ?_, next⟩
      simp only [Recogniser.operation, hs]
      refine bind_eq_ok_iff.mpr ⟨_, hp, ?_⟩
      simp only [next, takeInfix?_before hr]
  | @cons v l z ls rs hv head tail ih =>
    obtain ⟨op, x', y', ss', qs', rfl, rfl, hx', hy'⟩ := head.link_inv
    have leads := hx'.leads (hy'.primary_opens.append (z ++ rest))
    have hassoc : v ++ (op.spelling ++ (x' ++ y') ++ z) ++ rest =
        v ++ (op.spelling ++ (x' ++ (y' ++ (z ++ rest)))) := by simp
    have next : skipBlanks (v ++ (op.spelling ++ (x' ++ y') ++ z) ++ rest) =
        op.spelling ++ (x' ++ (y' ++ (z ++ rest))) := by
      rw [hassoc, skipBlanks_append hv]
      cases op <;> rfl
    have stops : Stops inOperand (skipBlanks (v ++ (op.spelling ++ (x' ++ y') ++ z) ++ rest)) := by
      rw [next]
      cases op <;> rintro _ ⟨⟩ <;> rfl
    obtain ⟨p, rfl, hp⟩ := hi.primary hy hly stops
    obtain ⟨ops, rfl, hs⟩ := hx.takeSigns
      (hy.primary_opens.append (v ++ (op.spelling ++ (x' ++ y') ++ z) ++ rest))
    have hop : 0 < op.spelling.length := by cases op <;> decide
    cases fuel with
    | zero => cases hf
    | succ fuel =>
      simp only [List.length_append] at hlz hf
      obtain ⟨o, rest', ho, hrun, hrest⟩ := ih fuel hx' hy' (by omega) (by omega) (by omega)
      refine ⟨.link ops p op o, rest', by simp [Operation.pairs, ← ho], ?_, hrest⟩
      simp only [Recogniser.operation, hs]
      refine bind_eq_ok_iff.mpr ⟨_, hp, ?_⟩
      simp only [next, takeInfix?_append op leads.stops]
      exact bind_eq_ok_iff.mpr ⟨_, hrun, rfl⟩

theorem Complete.formulaOver (hi : Complete inner length) :
    Complete (formulaOver inner) (length + 1) := by
  intro w s rest ps hw hs hl hr
  obtain ⟨o, os, operation, h⟩ := hs.expr_inv
  obtain ⟨x, y, z, ss, qs, rs, rfl, rfl, signs, operand, links⟩ := operation.operation_inv
  have run (rest : List Char) (ho : x.length + (y.length + z.length) ≤ length)
      (hr : Before ['?', ')', ',', ':'] rest) :
      ∃ (o : Operation) (rest' : List Char), ss ++ (qs ++ rs) = o.pairs ∧
        Recogniser.operation inner ((w ++ ((x ++ (y ++ z)) ++ rest)).length + 1)
          (w ++ ((x ++ (y ++ z)) ++ rest)) = .ok (o, rest') ∧
        skipBlanks rest' = skipBlanks rest := by
    have hf : z.length < (w ++ ((x ++ (y ++ z)) ++ rest)).length + 1 := by
      simp only [List.length_append]
      omega
    obtain ⟨o, rest', hp, hrun, hrest⟩ :=
      hi.operation links _ (signs.prepend hw) operand (by omega) (by omega) hf hr
    refine ⟨o, rest', hp, ?_, hrest⟩
    rw [← hrun]
    simp
  have ends {rest : List Char} (h : Before [')', ',', ':'] rest) :
      Before ['?', ')', ',', ':'] rest :=
    fun c hc => List.mem_cons_of_mem '?' (h c hc)
  obtain ⟨v, hv, rfl, rfl⟩ | ⟨v, u, x', y', c, cs, e, es, hv, hu, hx', hy', chosen, otherwise, rfl,
    rfl⟩ := h
  · have next : skipBlanks (v ++ rest) = skipBlanks rest := skipBlanks_append hv rest
    simp only [List.length_append] at hl
    have hr' : Before [')', ',', ':'] (v ++ rest) := by rwa [Before, next]
    obtain ⟨o, rest', hp, hrun, hrest⟩ := run (v ++ rest) (by omega) (ends hr')
    refine ⟨.operation o, rest', by rw [hp]; rfl, ?_, hrest.trans next⟩
    rw [List.append_assoc (x ++ (y ++ z))]
    refine bind_eq_ok_iff.mpr ⟨_, hrun, ?_⟩
    simp only
    split
    next t ht =>
      rw [hrest, next] at ht
      have hq := hr '?' (by simp [ht])
      simp at hq
    next => rfl
  · have mark : skipBlanks (v ++ '?' :: (u ++ (c ++ (x' ++ ':' :: (y' ++ (e ++ rest)))))) =
        '?' :: (u ++ (c ++ (x' ++ ':' :: (y' ++ (e ++ rest))))) := skipBlanks_append hv _
    have colon : skipBlanks (x' ++ ':' :: (y' ++ (e ++ rest))) = ':' :: (y' ++ (e ++ rest)) :=
      skipBlanks_append hx' _
    simp only [List.length_append, List.length_cons] at hl
    obtain ⟨o, r, hp, hrun, hrest⟩ :=
      run (v ++ '?' :: (u ++ (c ++ (x' ++ ':' :: (y' ++ (e ++ rest)))))) (by omega) (by
        rw [Before, mark]
        simp)
    obtain ⟨fc, r', rfl, hc, hrest'⟩ := hi u c _ cs hu chosen (by omega)
      (show Before [')', ',', ':'] (x' ++ ':' :: (y' ++ (e ++ rest))) by
        rw [Before, colon]
        simp)
    obtain ⟨fe, r'', rfl, he, hrest''⟩ := hi y' e rest es hy' otherwise (by omega) hr
    refine ⟨.choice o fc fe, r'', by simp [Formula.pair, hp], ?_, hrest''⟩
    simp only [List.append_assoc, List.cons_append] at hrun ⊢
    refine bind_eq_ok_iff.mpr ⟨_, hrun, ?_⟩
    simp only [hrest, mark]
    refine bind_eq_ok_iff.mpr ⟨_, hc, ?_⟩
    simp only [hrest', colon]
    exact bind_eq_ok_iff.mpr ⟨_, he, rfl⟩

theorem complete_formulaWithin (depth : Nat) : Complete (formulaWithin depth) depth := by
  induction depth with
  | zero => intro w s rest ps hw hs hl; cases hl
  | succ depth ih => exact ih.formulaOver

end Recogniser

/-- Signs before one operand that takes all that is left are a whole text. -/
theorem recognise_of_primary {text rest : List Char} {signs : List PrefixOp} {operand : Primary}
    (hs : takeSigns text = (signs, rest))
    (hp : ∀ inner : Recogniser Formula, inner.primary rest = .ok (operand, [])) :
    recognise text = .ok (.operation (.last signs operand)) := by
  unfold recognise Recogniser.wholeWithin Recogniser.formulaWithin Recogniser.formulaOver
    Recogniser.operation
  simp only [hs, hp]
  rfl

/-- What the grammar derives as a whole text is recognised. -/
theorem recognise_of_derives {text : List Char} {ps : List Pair}
    (h : Derives .calculation text ps) : ∃ formula, recognise text = .ok formula ∧
      ps = [formula.pair] := by
  obtain ⟨start, v, u, _, qs, rfl, rfl, hv, empty, h⟩ := h.spaced_inv
  obtain ⟨s, w, last, ss, _, rfl, rfl, hw, expr, finish⟩ := h.spaced_inv
  obtain ⟨rfl, rfl⟩ := empty.text_inv
  cases finish
  have finish : skipBlanks w = [] := by
    have h := skipBlanks_append hw []
    rwa [List.append_nil] at h
  obtain ⟨formula, rest, rfl, hf, hrest⟩ :=
    Recogniser.complete_formulaWithin (([] ++ (v ++ (s ++ (w ++ [])))).length + 1) v s (w ++ [])
      ss hv expr (by simp only [List.length_append]; omega) (by simp [Before, finish])
  refine ⟨formula, ?_, by simp⟩
  rw [recognise, Recogniser.wholeWithin]
  refine bind_eq_ok_iff.mpr ⟨_, hf, ?_⟩
  simp only [hrest, List.append_nil, finish]

end LessonPlot
