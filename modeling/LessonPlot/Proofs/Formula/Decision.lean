import LessonPlot.Proofs.Formula.Recognition

namespace LessonPlot

/-- A pattern fails or matches at the start of a text. -/
def Decides (p : Pattern) (s : List Char) : Prop :=
  ∃ outcome, Runs p s outcome

variable {a b : Pattern} {s t : List Char} {ps : List Pair}

theorem Runs.length_le (h : Runs a s (some (ps, t))) : t.length ≤ s.length := by
  obtain ⟨w, rfl, -⟩ := h.derives _ rfl
  simp

theorem Runs.length_lt (ha : ∀ w ps, Derives a w ps → w ≠ []) (h : Runs a s (some (ps, t))) :
    t.length < s.length := by
  obtain ⟨w, rfl, hw⟩ := h.derives _ rfl
  have hne := List.length_pos_iff.mpr (ha w ps hw)
  simp only [List.length_append]
  omega

namespace Derives

theorem text_ne_nil {c : Char} (h : Derives (.text [c]) s ps) : s ≠ [] := by
  obtain ⟨rfl, -⟩ := h.text_inv
  nofun

theorem sign_ne_nil (h : Derives .sign s ps) : s ≠ [] := by
  obtain ⟨op, rfl, -⟩ := h.sign_inv
  cases op <;> nofun

theorem argument_ne_nil (h : Derives .argument s ps) : s ≠ [] := by
  obtain ⟨o, w, u, qs, rs, rfl, -, -, comma, -⟩ := h.spaced_inv
  exact List.append_ne_nil_of_left_ne_nil comma.text_ne_nil _

theorem link_ne_nil (h : Derives .link s ps) : s ≠ [] := by
  obtain ⟨op, x, y, ss, qs, rfl, -, -, -⟩ := h.link_inv
  cases op <;> nofun

end Derives

namespace Decides

theorem text (spelling s : List Char) : Decides (.text spelling) s := by
  by_cases h : spelling <+: s
  · obtain ⟨rest, rfl⟩ := h
    exact ⟨_, .text spelling rest⟩
  · exact ⟨_, .textFails h⟩

theorem seq (first : Decides a s) (second : ∀ ps t, Runs a s (some (ps, t)) → Decides b t) :
    Decides (.seq a b) s := by
  obtain ⟨_ | ⟨ps, t⟩, ha⟩ := first
  · exact ⟨_, .firstFails ha⟩
  · obtain ⟨_ | ⟨qs, u⟩, hb⟩ := second ps t ha
    · exact ⟨_, .secondFails ha hb⟩
    · exact ⟨_, .seq ha hb⟩

theorem spaced (first : Decides a s)
    (second : ∀ ps t, Runs a s (some (ps, t)) → Decides b (skipBlanks t)) :
    Decides (.spaced a b) s := by
  obtain ⟨_ | ⟨ps, t⟩, ha⟩ := first
  · exact ⟨_, .firstFails ha⟩
  · obtain ⟨_ | ⟨qs, u⟩, hb⟩ := second ps t ha
    · exact ⟨_, .spacedFails ha hb⟩
    · exact ⟨_, .spaced ha hb⟩

theorem choice (first : Decides a s) (second : Decides b s) : Decides (.choice a b) s := by
  obtain ⟨_ | result, ha⟩ := first
  · obtain ⟨outcome, hb⟩ := second
    exact ⟨_, .second ha hb⟩
  · exact ⟨_, .first ha⟩

theorem optional (h : Decides a s) : Decides (.optional a) s := by
  obtain ⟨_ | result, ha⟩ := h
  · exact ⟨_, .absent ha⟩
  · exact ⟨_, .present ha⟩

theorem rule {r : Rule} (h : Decides r.body s) : Decides (.rule r) s := by
  obtain ⟨_ | ⟨ps, t⟩, hb⟩ := h
  · exact ⟨_, .ruleFails hb⟩
  · obtain ⟨w, rfl, -⟩ := hb.derives _ rfl
    exact ⟨_, .rule hb⟩

/-- What takes at least one character each time stops. -/
theorem many (takes : ∀ w ps, Derives a w ps → w ≠ [])
    (h : ∀ t, t.length ≤ s.length → Decides a t) : Decides (.many a) s := by
  induction hn : s.length using Nat.strongRecOn generalizing s with
  | ind n ih =>
    subst hn
    obtain ⟨_ | ⟨ps, t⟩, ha⟩ := h s (Nat.le_refl _)
    · exact ⟨_, .stop ha⟩
    · have ht := ha.length_lt takes
      obtain ⟨_ | ⟨qs, u⟩, hm⟩ := ih t.length ht (fun u hu => h u (by omega)) rfl
      · cases hm
      · exact ⟨_, .next ha hm⟩

theorem manySpaced (takes : ∀ w ps, Derives a w ps → w ≠ [])
    (h : ∀ t, t.length ≤ s.length → Decides a t) : Decides (.manySpaced a) s := by
  refine optional (seq (h s (Nat.le_refl _)) fun ps t ha => many ?_ fun u hu => ?_)
  · intro w _ hw
    obtain ⟨v, u, _, _, rfl, -, -, hu⟩ := hw.seq_inv
    exact List.append_ne_nil_of_right_ne_nil v (takes u _ hu)
  · have ht := ha.length_le
    refine seq ⟨_, Runs.many_char isBlank u⟩ fun qs v hv => h v ?_
    have hv := hv.length_le
    omega

theorem identifier (s : List Char) : Decides (.rule .identifier) s := by
  cases h : takeName? s with
  | none => exact ⟨_, Runs.identifierFails h⟩
  | some result => exact rule ⟨_, (Runs.identifier h).2⟩

theorem realLiteral (s : List Char) : Decides (.rule .realLiteral) s := by
  cases h : takeNumber? s with
  | none => exact ⟨_, Runs.realLiteralFails h⟩
  | some result => exact ⟨_, Runs.realLiteral h⟩

theorem sign (s : List Char) : Decides .sign s := by
  cases s with
  | nil => exact ⟨_, Runs.signFails⟩
  | cons c s => exact ⟨_, Runs.sign c s⟩

theorem operator (s : List Char) : Decides .operator s :=
  ⟨_, Runs.operator s⟩

/-- What starts with a text that has characters decides if what follows it does. -/
theorem after {c : Char} {p : Pattern} (h : ∀ t, t.length < s.length → Decides p t) :
    Decides (.spaced (.text [c]) p) s := by
  refine spaced (text [c] s) fun ps t ht => h _ ?_
  have hb := skipBlanks_length_le t
  have hl := ht.length_lt fun _ _ hw => hw.text_ne_nil
  omega

theorem closed {c : Char} {p : Pattern} (h : Decides p s) : Decides (.spaced p (.text [c])) s :=
  spaced h fun _ _ _ => text [c] _

theorem argument (h : ∀ t, t.length < s.length → Decides (.rule .expr) t) : Decides .argument s :=
  after h

theorem arguments (h : ∀ t, t.length ≤ s.length → Decides (.rule .expr) t) :
    Decides .arguments s := by
  refine spaced (h s (Nat.le_refl _)) fun ps t ht => manySpaced (fun _ _ h => h.argument_ne_nil) ?_
  intro u hu
  have hb := skipBlanks_length_le t
  have hl := ht.length_le
  exact argument fun v hv => h v (by omega)

theorem primary (h : ∀ t, t.length < s.length → Decides (.rule .expr) t) : Decides .primary s := by
  have call : Decides (.rule .call) s := by
    refine rule (spaced (identifier s) fun ps t ht => after fun u hu => closed (optional ?_))
    have hb := skipBlanks_length_le t
    have hl := ht.length_le
    exact arguments fun v hv => h v (by omega)
  have group : Decides (.spaced (.text ['(']) (.spaced (.rule .expr) (.text [')']))) s :=
    after fun t ht => closed (h t ht)
  exact choice (realLiteral s) (choice call (choice (rule (identifier s)) group))

theorem operand (h : ∀ t, t.length < s.length → Decides (.rule .expr) t) {u : List Char}
    (hu : u.length ≤ s.length) : Decides (.spaced (.manySpaced .sign) .primary) u := by
  refine spaced (manySpaced (fun _ _ h => h.sign_ne_nil) fun t _ => sign t) fun ps t ht => ?_
  have hb := skipBlanks_length_le t
  have hl := ht.length_le
  exact primary fun v hv => h v (by omega)

theorem link (h : ∀ t, t.length < s.length → Decides (.rule .expr) t) {u : List Char}
    (hu : u.length ≤ s.length) : Decides .link u := by
  refine spaced (operator u) fun ps t ht => operand h ?_
  have hb := skipBlanks_length_le t
  have hl := ht.length_le
  omega

theorem operation (h : ∀ t, t.length < s.length → Decides (.rule .expr) t) :
    Decides (.rule .operation) s := by
  have signs : Decides (.manySpaced .sign) s :=
    manySpaced (fun _ _ h => h.sign_ne_nil) fun t _ => sign t
  refine rule (spaced signs fun ps t ht => ?_)
  have hb := skipBlanks_length_le t
  have hl := ht.length_le
  refine spaced (primary fun v hv => h v (by omega)) fun qs u hu => ?_
  have hb' := skipBlanks_length_le u
  have hl' := hu.length_le
  exact manySpaced (fun _ _ h => h.link_ne_nil) fun v hv => link h (by omega)

theorem expr (s : List Char) : Decides (.rule .expr) s := by
  induction hn : s.length using Nat.strongRecOn generalizing s with
  | ind n ih =>
    subst hn
    refine rule (spaced (operation fun t ht => ih _ ht t rfl) fun ps t ht => optional ?_)
    have hb := skipBlanks_length_le t
    have hl := ht.length_le
    refine after fun u hu => spaced (ih _ (by omega) u rfl) fun qs v hv => after fun w hw => ?_
    have hb' := skipBlanks_length_le v
    have hl' := hv.length_le
    exact ih _ (by omega) w rfl

theorem calculation (s : List Char) : Decides .calculation s := by
  refine spaced (text [] s) fun ps t ht => spaced (expr _) fun qs u hu => ?_
  cases hb : skipBlanks u with
  | nil => exact ⟨_, .ending⟩
  | cons c t => exact ⟨_, .endingFails (by simp)⟩

end Decides

/-- A whole text is matched up to its end. -/
theorem Runs.calculation_rest (h : Runs .calculation s (some (ps, t))) : t = [] := by
  cases h with
  | seq _ h =>
    cases h with
    | seq _ h =>
      cases h with
      | seq _ h =>
        cases h with
        | seq _ h =>
          cases h
          rfl

/-- The grammar read with ordered choice and greedy repetition matches exactly the texts that it
derives when it is read as a context-free one, with the same parse tree, which is the only one, and
fails on all others; and the recogniser accepts the same texts. -/
theorem runs_calculation_iff_derives (text : List Char) :
    (∀ ps, Runs .calculation text (some (ps, [])) ↔ Derives .calculation text ps) ∧
      (Runs .calculation text none ↔ ∀ ps, ¬ Derives .calculation text ps) ∧
      (∀ ps qs, Derives .calculation text ps → Derives .calculation text qs → ps = qs) ∧
      (∀ ps, Derives .calculation text ps ↔ ∃ formula, recognise text = .ok formula ∧
        ps = [formula.pair]) := by
  have derives {ps : List Pair} (h : Runs .calculation text (some (ps, []))) :
      Derives .calculation text ps := by
    obtain ⟨t, ht, hd⟩ := h.derives _ rfl
    rw [ht, List.append_nil]
    exact hd
  have runs {ps : List Pair} (h : Derives .calculation text ps) :
      Runs .calculation text (some (ps, [])) := by
    obtain ⟨formula, hf, rfl⟩ := recognise_of_derives h
    exact runs_of_recognise hf
  refine ⟨fun ps => ⟨derives, runs⟩, ⟨?_, ?_⟩, ?_, fun ps => ⟨recognise_of_derives, ?_⟩⟩
  · intro hf ps hd
    cases hf.deterministic (runs hd)
  · intro hn
    obtain ⟨_ | ⟨ps, rest⟩, h⟩ := Decides.calculation text
    · exact h
    · cases h.calculation_rest
      exact (hn ps (derives h)).elim
  · intro ps qs hp hq
    cases (runs hp).deterministic (runs hq)
    rfl
  · rintro ⟨formula, hf, rfl⟩
    exact derives (runs_of_recognise hf)

end LessonPlot
