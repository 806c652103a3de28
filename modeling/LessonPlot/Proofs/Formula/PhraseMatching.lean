import LessonPlot.Proofs.Formula.TokenMatching
import Mathlib.Data.List.DropRight

namespace LessonPlot

theorem skipBlanks_cons_of_pos {c : Char} {s : List Char} (h : isBlank c = true) :
    skipBlanks (c :: s) = skipBlanks s :=
  List.dropWhile_cons_of_pos h

theorem skipBlanks_cons_of_neg {c : Char} {s : List Char} (h : ¬ isBlank c = true) :
    skipBlanks (c :: s) = c :: s :=
  List.dropWhile_cons_of_neg h

theorem skipBlanks_idem (s : List Char) : skipBlanks (skipBlanks s) = skipBlanks s :=
  List.dropWhile_idempotent isBlank s

theorem skipBlanks_takeSigns (s : List Char) : skipBlanks (takeSigns s).2 = (takeSigns s).2 := by
  fun_induction takeSigns s with
  | case1 => rfl
  | case2 c rest hc ih => exact ih
  | case3 c rest hc sign hs ih => exact ih
  | case4 c rest hc hs => exact skipBlanks_cons_of_neg hc

/-- A pattern runs on a text from its first token on, up to the blanks before the token after it. -/
def Matches (p : Pattern) (s : List Char) (ps : List Pair) (rest : List Char) : Prop :=
  ∃ t, Runs p (skipBlanks s) (some (ps, t)) ∧ skipBlanks t = skipBlanks rest

/-- A pattern runs on a text as often as it can, blanks between two runs. -/
inductive Repeats (p : Pattern) : List Char → List Pair → List Char → Prop where
  | stop {s rest : List Char} (fails : Runs p (skipBlanks s) none)
      (h : skipBlanks s = skipBlanks rest) : Repeats p s [] rest
  | next {s t rest : List Char} {ps qs : List Pair} (head : Matches p s ps t)
      (tail : Repeats p t qs rest) : Repeats p s (ps ++ qs) rest

variable {a b : Pattern} {s t u rest : List Char} {ps qs : List Pair}

theorem Repeats.of_blanks (h : Repeats a t ps rest) (he : skipBlanks s = skipBlanks t) :
    Repeats a s ps rest := by
  cases h with
  | stop fails h => exact .stop (he ▸ fails) (he.trans h)
  | next head tail =>
    obtain ⟨u, hr, hu⟩ := head
    exact .next ⟨u, he ▸ hr, hu⟩ tail

theorem Repeats.runs (h : Repeats a t ps rest) :
    ∀ s, skipBlanks s = skipBlanks t → ∃ u,
      Runs (.many (.seq .blanks a)) s (some (ps, u)) ∧ skipBlanks u = skipBlanks rest := by
  induction h with
  | stop fails h =>
    intro s hs
    have blanks := Runs.many_char isBlank s
    exact ⟨s, .stop (.secondFails blanks (by rwa [← hs] at fails)), hs.trans h⟩
  | next head tail ih =>
    intro s hs
    obtain ⟨t, hr, ht⟩ := head
    obtain ⟨u, hu, hrest⟩ := ih t ht
    have blanks := Runs.many_char isBlank s
    exact ⟨u, .next (.seq blanks (by rwa [← hs] at hr)) hu, hrest⟩

theorem Runs.node {r : Rule} (hr : r.isToken = false) (h : Runs r.body s (some (ps, rest))) :
    Runs (.rule r) s (some ([.node r ps], rest)) := by
  obtain ⟨w, hw, -⟩ := h.derives _ rfl
  have hp : r.pair w ps = .node r ps := by simp [Rule.pair, hr]
  exact hp ▸ Runs.rule_of_eq hw h

namespace Matches

theorem of_runs (h : Runs a (skipBlanks s) (some (ps, rest))) : Matches a s ps rest :=
  ⟨rest, h, rfl⟩

theorem spaced (first : Matches a s ps t) (second : Matches b t qs rest) :
    Matches (.spaced a b) s (ps ++ qs) rest := by
  obtain ⟨t', ha, ht⟩ := first
  obtain ⟨u, hb, hu⟩ := second
  exact ⟨u, .spaced ha (ht ▸ hb), hu⟩

theorem absent (h : Runs a (skipBlanks s) none) : Matches (.optional a) s [] s :=
  ⟨skipBlanks s, .absent h, skipBlanks_idem s⟩

theorem present (h : Matches a s ps rest) : Matches (.optional a) s ps rest := by
  obtain ⟨t, ha, ht⟩ := h
  exact ⟨t, .present ha, ht⟩

theorem manySpaced (h : Repeats a s ps rest) : Matches (.manySpaced a) s ps rest := by
  cases h with
  | stop fails h => exact ⟨skipBlanks s, .absent (.firstFails fails), (skipBlanks_idem s).trans h⟩
  | next head tail =>
    obtain ⟨t, ha, ht⟩ := head
    obtain ⟨u, hu, hrest⟩ := tail.runs t ht
    exact ⟨u, .present (.seq ha hu), hrest⟩

theorem node {r : Rule} (hr : r.isToken = false) (h : Matches r.body s ps rest) :
    Matches (.rule r) s [.node r ps] rest := by
  obtain ⟨t, hb, ht⟩ := h
  exact ⟨t, hb.node hr, ht⟩

theorem text {c : Char} (h : skipBlanks s = c :: rest) : Matches (.text [c]) s [] rest :=
  of_runs (h ▸ .text [c] rest)

theorem closed {c : Char} (h : Matches a s ps t) (hc : skipBlanks t = c :: rest) :
    Runs (.spaced a (.text [c])) (skipBlanks s) (some (ps, rest)) := by
  obtain ⟨u, ha, hu⟩ := h
  have close : Runs (.text [c]) (skipBlanks u) (some ([], rest)) := hu ▸ hc ▸ .text [c] rest
  exact List.append_nil ps ▸ .spaced ha close

end Matches

theorem repeats_sign (s : List Char) :
    Repeats .sign s ((takeSigns s).1.map fun op => .node (.sign op) []) (takeSigns s).2 := by
  fun_induction takeSigns s with
  | case1 => exact .stop Runs.signFails rfl
  | case2 c rest hc ih => exact ih.of_blanks (skipBlanks_cons_of_pos hc)
  | case3 c rest hc sign hs ih =>
    have hb := skipBlanks_cons_of_neg (s := rest) hc
    have hr := Runs.sign c rest
    rw [hs] at hr
    exact .next (.of_runs (hb ▸ hr)) ih
  | case4 c rest hc hs =>
    have hb := skipBlanks_cons_of_neg (s := rest) hc
    have hr := Runs.sign c rest
    rw [hs] at hr
    rw [← hb] at hr
    exact .stop hr rfl

namespace Runs

theorem call_fails (h : takeName? s = none) : Runs (.rule .call) s none :=
  .ruleFails (.firstFails (identifierFails h))

/-- What starts with a closing parenthesis is no formula. -/
theorem expr_fails (s : List Char) : Runs (.rule .expr) (')' :: s) none := by
  have sign : Runs (.manySpaced .sign) (')' :: s) (some ([], ')' :: s)) :=
    .absent (.firstFails (sign ')' s))
  have number : Runs (.rule .realLiteral) (')' :: s) none := realLiteralFails rfl
  have call : Runs (.rule .call) (')' :: s) none := call_fails rfl
  have name : Runs (.rule .name) (')' :: s) none := .ruleFails (identifierFails rfl)
  have group : Runs (.text ['(']) (')' :: s) none := textFails_of_head (by simp)
  have primary : Runs .primary (')' :: s) none :=
    .second number (.second call (.second name (.firstFails group)))
  exact .ruleFails (.firstFails (.ruleFails (spacedFails sign (.firstFails primary))))

end Runs

namespace Recogniser

/-- Whatever the recogniser accepts is a formula of the grammar, and nothing more of it follows. -/
def Sound (inner : Recogniser Formula) : Prop :=
  ∀ text formula rest, inner text = .ok (formula, rest) →
    Matches (.rule .expr) text [formula.pair] rest

variable {inner : Recogniser Formula} {text rest : List Char}

theorem Sound.arguments (hi : Sound inner) (fuel : Nat) {args : Arguments}
    (h : arguments inner fuel text = .ok (args, rest)) :
    ∃ ps t qs u, args.pairs = ps ++ qs ∧ Matches (.rule .expr) text ps t ∧
      Repeats .argument t qs u ∧ skipBlanks u = ')' :: rest := by
  induction fuel generalizing text args with
  | zero => cases h
  | succ fuel ih =>
    rw [Recogniser.arguments] at h
    obtain ⟨⟨first, t⟩, hf, h⟩ := bind_eq_ok_iff.mp h
    have head := hi text first t hf
    dsimp only at h
    split at h
    next u hu =>
      obtain ⟨⟨others, v⟩, ho, h⟩ := bind_eq_ok_iff.mp h
      cases h
      obtain ⟨ps, t', qs, w, hp, hm, hr, hw⟩ := ih ho
      have argument : Matches .argument t ps t' := .spaced (.text hu) hm
      exact ⟨_, t, ps ++ qs, w, by rw [← hp]; rfl, head, .next argument hr, hw⟩
    next u hu =>
      cases h
      have stops : Runs .argument (skipBlanks t) none := by
        rw [hu]
        exact .firstFails (Runs.textFails_of_head (by simp))
      exact ⟨_, t, [], t, rfl, head, .stop stops rfl, hu⟩
    next => cases h

theorem Sound.callOrName (hi : Sound inner) {name tail : List Char} {p : Primary}
    (hn : takeName? text = some (name, tail)) (hd : takeNumber? text = none)
    (h : callOrName inner name tail = .ok (p, rest)) :
    Runs .primary text (some ([p.pair], rest)) := by
  obtain ⟨hs, hb⟩ := Runs.identifier hn
  have number : Runs (.rule .realLiteral) text none := Runs.realLiteralFails hd
  have identifier : Runs (.rule .identifier) text (some ([.leaf .identifier name], tail)) :=
    Runs.rule_of_eq hs hb
  rw [Recogniser.callOrName] at h
  split at h
  next t ht =>
    have called {p : Primary} {ps : List Pair}
        (hp : p.pair = .node .call (.leaf .identifier name :: ps))
        (inside : Runs (.spaced (.optional .arguments) (.text [')'])) (skipBlanks t)
          (some (ps, rest))) :
        Runs .primary text (some ([p.pair], rest)) := by
      have opens : Runs (.text ['(']) (skipBlanks tail) (some ([], t)) := ht ▸ .text ['('] t
      have call := Runs.node (r := .call) rfl (identifier.spaced (opens.spaced inside))
      exact hp ▸ .second number (.first call)
    split at h
    next u hu =>
      cases h
      refine called (by simp [Primary.pair, Arguments.pairs]) (Matches.closed (.absent ?_) hu)
      exact .firstFails (hu ▸ Runs.expr_fails _)
    next =>
      obtain ⟨⟨args, u⟩, ha, h⟩ := bind_eq_ok_iff.mp h
      cases h
      obtain ⟨ps, t', qs, v, hp, hm, hr, hv⟩ := hi.arguments _ ha
      have arguments : Matches .arguments t (ps ++ qs) v := .spaced hm (.manySpaced hr)
      exact called (by simp [Primary.pair, hp]) (Matches.closed (.present arguments) hv)
  next ht =>
    cases h
    have call : Runs (.rule .call) text none :=
      .ruleFails (Runs.spacedFails identifier (.firstFails (Runs.textFails_of_head ht)))
    have bare := Runs.rule_of_eq (r := .name) hs identifier
    have hp : Rule.pair .name name [.leaf .identifier name] =
        (Primary.name (String.ofList name)).pair := by
      simp [Primary.pair, Rule.pair, Rule.isToken]
    exact hp ▸ .second number (.second call (.first bare))

theorem Sound.primary (hi : Sound inner) {p : Primary}
    (h : primary inner text = .ok (p, rest)) : Runs .primary text (some ([p.pair], rest)) := by
  rw [Recogniser.primary.eq_def] at h
  split at h
  next s =>
    obtain ⟨⟨formula, t⟩, hf, h⟩ := bind_eq_ok_iff.mp h
    dsimp only at h
    split at h
    next u hu =>
      cases h
      have number : Runs (.rule .realLiteral) ('(' :: s) none := Runs.realLiteralFails rfl
      have call : Runs (.rule .call) ('(' :: s) none := Runs.call_fails rfl
      have name : Runs (.rule .name) ('(' :: s) none := .ruleFails (Runs.identifierFails rfl)
      have opens : Runs (.text ['(']) ('(' :: s) (some ([], s)) := .text ['('] s
      have group := opens.spaced ((hi s formula t hf).closed hu)
      exact .second number (.second call (.second name group))
    next => cases h
  next =>
    split at h
    next number t hn =>
      cases h
      have hp : Pair.leaf .realLiteral number = (Primary.number (String.ofList number)).pair := by
        simp [Primary.pair]
      exact hp ▸ .first (Runs.realLiteral hn)
    next hd =>
      split at h
      next name t hn => exact hi.callOrName hn hd h
      next => cases h

theorem Sound.operation (hi : Sound inner) (fuel : Nat) {o : Operation}
    (h : operation inner fuel text = .ok (o, rest)) :
    ∃ ps t p u qs, o.pairs = ps ++ p :: qs ∧ Matches (.manySpaced .sign) text ps t ∧
      Matches .primary t [p] u ∧ Repeats .link u qs rest := by
  induction fuel generalizing text o with
  | zero => cases h
  | succ fuel ih =>
    rw [Recogniser.operation] at h
    obtain ⟨⟨operand, t⟩, hp, h⟩ := bind_eq_ok_iff.mp h
    have signs := Matches.manySpaced (repeats_sign text)
    have head : Matches .primary (takeSigns text).2 [operand.pair] t := by
      have hr := hi.primary hp
      rw [← skipBlanks_takeSigns] at hr
      exact .of_runs hr
    have infixOp := Runs.operator (skipBlanks t)
    dsimp only at h
    split at h
    next op u hu =>
      obtain ⟨⟨others, v⟩, ho, h⟩ := bind_eq_ok_iff.mp h
      cases h
      obtain ⟨ps, t', p, u', qs, hp, hs, hm, hr⟩ := ih ho
      rw [hu] at infixOp
      have link : Matches .link t ([.node (.operator op) []] ++ (ps ++ [p])) u' :=
        .spaced (.of_runs infixOp) (.spaced hs hm)
      refine ⟨_, _, _, t, _, ?_, signs, head, .next link hr⟩
      simp [Operation.pairs, hp]
    next hu =>
      cases h
      rw [hu] at infixOp
      exact ⟨_, _, _, rest, [], rfl, signs, head, .stop (.firstFails infixOp) rfl⟩

theorem Sound.matches_operation (hi : Sound inner) {fuel : Nat} {o : Operation}
    (h : Recogniser.operation inner fuel text = .ok (o, rest)) :
    Matches (.rule .operation) text [.node .operation o.pairs] rest := by
  obtain ⟨ps, t, p, u, qs, hp, hs, hm, hr⟩ := hi.operation fuel h
  exact .node rfl (hp ▸ .spaced hs (.spaced hm (.manySpaced hr)))

theorem Sound.formulaOver (hi : Sound inner) : Sound (formulaOver inner) := by
  intro text formula rest h
  obtain ⟨⟨head, t⟩, ho, h⟩ := bind_eq_ok_iff.mp h
  have operation := hi.matches_operation ho
  dsimp only at h
  split at h
  next u hu =>
    obtain ⟨⟨chosen, v⟩, hc, h⟩ := bind_eq_ok_iff.mp h
    dsimp only at h
    split at h
    next w hw =>
      obtain ⟨⟨otherwise, x⟩, he, h⟩ := bind_eq_ok_iff.mp h
      cases h
      exact .node rfl (.spaced operation (.present (.spaced (.text hu)
        (.spaced (hi u chosen v hc) (.spaced (.text hw) (hi w otherwise x he))))))
    next => cases h
  next hu =>
    cases h
    have mark : Runs (.text ['?']) (skipBlanks rest) none := Runs.textFails_of_head hu
    exact .node rfl (.spaced operation (.absent (.firstFails mark)))

theorem sound_formulaWithin (depth : Nat) : Sound (formulaWithin depth) := by
  induction depth with
  | zero => nofun
  | succ depth ih => exact ih.formulaOver

end Recogniser

/-- What the recogniser takes for a formula the grammar matches as a whole text. -/
theorem runs_of_recognise {text : List Char} {formula : Formula}
    (h : recognise text = .ok formula) :
    Runs .calculation text (some ([formula.pair], [])) := by
  obtain ⟨⟨formula', rest⟩, hf, h⟩ := bind_eq_ok_iff.mp h
  dsimp only at h
  split at h
  next hr =>
    cases h
    obtain ⟨t, hm, ht⟩ := Recogniser.sound_formulaWithin _ _ _ _ hf
    have start : Runs (.text []) text (some ([], text)) := .text [] text
    have finish : Runs .ending (skipBlanks t) (some ([], [])) := by
      rw [ht, hr]
      exact .ending
    exact start.spaced (hm.spaced finish)
  next => cases h

theorem derives_of_recognise {text : List Char} {formula : Formula}
    (h : recognise text = .ok formula) : Derives .calculation text [formula.pair] := by
  obtain ⟨t, ht, derived⟩ := (runs_of_recognise h).derives _ rfl
  rw [ht, List.append_nil]
  exact derived

end LessonPlot
