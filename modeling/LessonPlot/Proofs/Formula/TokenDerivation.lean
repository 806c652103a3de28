import LessonPlot.Proofs.Formula.PhraseMatching
import LessonPlot.Proofs.Text.Span

namespace LessonPlot

theorem takeSigns_append {w : List Char} (hw : Blank w) (s : List Char) :
    takeSigns (w ++ s) = takeSigns s := by
  induction w with
  | nil => rfl
  | cons c w ih =>
    rw [List.cons_append, takeSigns, if_pos (hw c (by simp))]
    exact ih fun x hx => hw x (by simp [hx])

namespace Derives

variable {a b : Pattern} {s : List Char} {ps : List Pair}

theorem seq_inv (h : Derives (.seq a b) s ps) : ∃ t u qs rs, s = t ++ u ∧ ps = qs ++ rs ∧
    Derives a t qs ∧ Derives b u rs := by
  cases h with
  | seq first second => exact ⟨_, _, _, _, rfl, rfl, first, second⟩

theorem text_inv {spelling : List Char} (h : Derives (.text spelling) s ps) :
    s = spelling ∧ ps = [] := by
  cases h
  exact ⟨rfl, rfl⟩

theorem char_inv {accepts : Char → Bool} (h : Derives (.char accepts) s ps) :
    ∃ c, s = [c] ∧ ps = [] ∧ accepts c = true := by
  cases h with
  | char accepted => exact ⟨_, rfl, rfl, accepted⟩

theorem many_char_inv {accepts : Char → Bool} (h : Derives (.many (.char accepts)) s ps) :
    (∀ c ∈ s, accepts c = true) ∧ ps = [] := by
  generalize hp : Pattern.many (.char accepts) = p at h
  induction h with
  | none => simp
  | next head tail ih ih' =>
    cases hp
    obtain ⟨c, rfl, rfl, hc⟩ := head.char_inv
    obtain ⟨hs, rfl⟩ := ih' rfl
    exact ⟨by simpa [hc] using hs, rfl⟩
  | _ => cases hp

theorem spaced_inv (h : Derives (.spaced a b) s ps) : ∃ t w u qs rs, s = t ++ (w ++ u) ∧
    ps = qs ++ rs ∧ Blank w ∧ Derives a t qs ∧ Derives b u rs := by
  obtain ⟨t, _, qs, _, rfl, rfl, ha, h⟩ := seq_inv h
  obtain ⟨w, u, _, rs, rfl, rfl, blanks, hb⟩ := seq_inv h
  obtain ⟨hw, rfl⟩ := many_char_inv blanks
  exact ⟨t, w, u, qs, rs, rfl, rfl, hw, ha, hb⟩

theorem identifier_inv (h : Derives (.rule .identifier) s ps) :
    ps = [.leaf .identifier s] ∧ (∃ c t, s = c :: t ∧ isNameStart c = true) ∧
      ∀ rest, Stops isNamePart rest → takeName? (s ++ rest) = some (s, rest) := by
  cases h with
  | rule h =>
    obtain ⟨t, u, qs, rs, rfl, rfl, hh, ht⟩ := seq_inv h
    obtain ⟨c, rfl, rfl, hc⟩ := hh.char_inv
    obtain ⟨hu, rfl⟩ := ht.many_char_inv
    refine ⟨rfl, ⟨c, u, rfl, hc⟩, fun rest hr => ?_⟩
    obtain ⟨hw, hd⟩ := span_append hu hr
    simp [takeName?, hc, hw, hd]

theorem digits_inv (h : Derives .digits s ps) :
    (∀ c ∈ s, c.isDigit = true) ∧ s ≠ [] ∧ ps = [] := by
  obtain ⟨t, u, qs, rs, rfl, rfl, hh, ht⟩ := seq_inv h
  obtain ⟨c, rfl, rfl, hc⟩ := hh.char_inv
  obtain ⟨hu, rfl⟩ := ht.many_char_inv
  exact ⟨by simpa [hc] using hu, by simp, rfl⟩

theorem mantissa_inv (h : Derives .mantissa s ps) : ps = [] ∧
    (((∀ c ∈ s, c.isDigit = true) ∧ s ≠ []) ∨
      ∃ d f, s = d ++ '.' :: f ∧ (∀ c ∈ d, c.isDigit = true) ∧ (∀ c ∈ f, c.isDigit = true) ∧
        (d ≠ [] ∨ f ≠ [])) := by
  cases h with
  | first h =>
    obtain ⟨d, u, qs, rs, rfl, rfl, whole, fraction⟩ := seq_inv h
    obtain ⟨hd, hne, rfl⟩ := whole.digits_inv
    cases fraction with
    | absent => exact ⟨rfl, .inl ⟨by simpa using hd, by simpa using hne⟩⟩
    | present fraction =>
      obtain ⟨p, f, qs, rs, rfl, rfl, point, digits⟩ := seq_inv fraction
      obtain ⟨rfl, rfl⟩ := point.text_inv
      obtain ⟨hf, rfl⟩ := digits.many_char_inv
      exact ⟨rfl, .inr ⟨d, f, rfl, hd, hf, .inl hne⟩⟩
  | second h =>
    obtain ⟨p, f, qs, rs, rfl, rfl, point, digits⟩ := seq_inv h
    obtain ⟨rfl, rfl⟩ := point.text_inv
    obtain ⟨hf, hne, rfl⟩ := digits.digits_inv
    exact ⟨rfl, .inr ⟨[], f, rfl, by simp, hf, .inr hne⟩⟩

theorem exponent_inv (h : Derives .exponent s ps) : ps = [] ∧
    ∃ mark sign d, s = mark :: (sign ++ d) ∧ (mark = 'e' || mark = 'E') = true ∧
      (sign = [] ∨ sign = ['+'] ∨ sign = ['-']) ∧ (∀ c ∈ d, c.isDigit = true) ∧ d ≠ [] := by
  obtain ⟨m, t, qs, rs, rfl, rfl, head, tail⟩ := seq_inv h
  obtain ⟨mark, rfl, rfl, hm⟩ := head.char_inv
  obtain ⟨sign, d, qs, rs, rfl, rfl, signs, digits⟩ := seq_inv tail
  obtain ⟨hd, hne, rfl⟩ := digits.digits_inv
  have hs : qs = [] ∧ (sign = [] ∨ sign = ['+'] ∨ sign = ['-']) := by
    cases signs with
    | absent => simp
    | present signs =>
      cases signs with
      | first plus =>
        obtain ⟨rfl, rfl⟩ := plus.text_inv
        simp
      | second minus =>
        obtain ⟨rfl, rfl⟩ := minus.text_inv
        simp
  obtain ⟨rfl, hs⟩ := hs
  exact ⟨rfl, mark, sign, d, rfl, hm, hs, hd, hne⟩

end Derives

/-- What may not follow a number, so that the number ends there. -/
def inNumber (c : Char) : Bool :=
  isNamePart c || c = '.'

theorem takeMantissa?_whole {d rest : List Char} (hd : ∀ c ∈ d, c.isDigit = true) (hne : d ≠ [])
    (hr : Stops (fun c => c.isDigit || c = '.') rest) :
    takeMantissa? (d ++ rest) = some (d, rest) := by
  have hstop : Stops Char.isDigit rest := fun c hc => by have := hr c hc; simp_all
  obtain ⟨hw, ht⟩ := span_append hd hstop
  simp only [takeMantissa?, hw, ht]
  cases rest with
  | nil => simp [hne]
  | cons c rest =>
    have hc : c ≠ '.' := by
      rintro rfl
      simpa using hr '.' rfl
    simp [hne, hc]

theorem takeMantissa?_point {d f rest : List Char} (hd : ∀ c ∈ d, c.isDigit = true)
    (hf : ∀ c ∈ f, c.isDigit = true) (hne : d ≠ [] ∨ f ≠ []) (hr : Stops Char.isDigit rest) :
    takeMantissa? (d ++ '.' :: (f ++ rest)) = some (d ++ '.' :: f, rest) := by
  have hpoint : Stops Char.isDigit ('.' :: (f ++ rest)) := by simp [Stops]
  obtain ⟨hw, ht⟩ := span_append hd hpoint
  obtain ⟨hw', ht'⟩ := span_append hf hr
  have he : (d.isEmpty && f.isEmpty) = false := by
    rcases hne with hd' | hf'
    · simp [hd']
    · simp [hf']
  simp [takeMantissa?, hw, ht, hw', ht', he]

theorem takeExponent_append {mark : Char} {sign d rest : List Char}
    (hm : (mark = 'e' || mark = 'E') = true) (hs : sign = [] ∨ sign = ['+'] ∨ sign = ['-'])
    (hd : ∀ c ∈ d, c.isDigit = true) (hne : d ≠ []) (hr : Stops Char.isDigit rest) :
    takeExponent (mark :: (sign ++ d) ++ rest) = (mark :: (sign ++ d), rest) := by
  obtain ⟨hw, ht⟩ := span_append hd hr
  have hm' : mark = 'e' ∨ mark = 'E' := by simpa using hm
  rcases hs with rfl | rfl | rfl
  · cases d with
    | nil => exact (hne rfl).elim
    | cons c d =>
      have hp : c ≠ '+' := by
        rintro rfl
        simpa using hd '+' (by simp)
      have hn : c ≠ '-' := by
        rintro rfl
        simpa using hd '-' (by simp)
      simp_all [takeExponent]
  · simp [takeExponent, hm', hw, ht, hne]
  · simp [takeExponent, hm', hw, ht, hne]

theorem takeExponent_stops {rest : List Char} (hr : Stops (fun c => c = 'e' || c = 'E') rest) :
    takeExponent rest = ([], rest) := by
  cases rest with
  | nil => rfl
  | cons c rest =>
    have hc := hr c rfl
    simp_all [takeExponent]

namespace Derives

variable {s : List Char} {ps : List Pair}

theorem takeMantissa? (h : Derives .mantissa s ps) :
    (∃ c t, s = c :: t ∧ (c.isDigit || c = '.') = true) ∧
      ∀ rest, Stops (fun c => c.isDigit || c = '.') rest →
        LessonPlot.takeMantissa? (s ++ rest) = some (s, rest) := by
  obtain ⟨-, ⟨hd, hne⟩ | ⟨d, f, rfl, hd, hf, hne⟩⟩ := h.mantissa_inv
  · obtain ⟨c, t, rfl⟩ := List.exists_cons_of_ne_nil hne
    exact ⟨⟨c, t, rfl, by simp [hd c]⟩, fun rest hr => takeMantissa?_whole hd hne hr⟩
  · constructor
    · cases d with
      | nil => exact ⟨'.', f, rfl, rfl⟩
      | cons c d => exact ⟨c, d ++ '.' :: f, rfl, by simp [hd c]⟩
    · intro rest hr
      rw [List.append_assoc]
      exact takeMantissa?_point hd hf hne fun c hc => (Bool.or_eq_false_iff.mp (hr c hc)).1

theorem takeExponent (h : Derives (.optional .exponent) s ps) :
    ps = [] ∧ (s = [] ∨ ∃ c t, s = c :: t ∧ (c = 'e' || c = 'E') = true) ∧
      ∀ rest, Stops isNamePart rest → LessonPlot.takeExponent (s ++ rest) = (s, rest) := by
  cases h with
  | absent =>
    refine ⟨rfl, .inl rfl, fun rest hr => takeExponent_stops fun c hc => ?_⟩
    rw [Bool.or_eq_false_iff, decide_eq_false_iff_not, decide_eq_false_iff_not]
    constructor <;> rintro rfl <;> cases hr _ hc
  | present h =>
    obtain ⟨rfl, mark, sign, d, rfl, hm, hs, hd, hne⟩ := h.exponent_inv
    refine ⟨rfl, .inr ⟨mark, _, rfl, hm⟩, fun rest hr => takeExponent_append hm hs hd hne ?_⟩
    intro c hc
    have hp := hr c hc
    simp only [isNamePart, Char.isAlphanum, Bool.or_eq_false_iff] at hp
    exact hp.1.2

theorem realLiteral_inv (h : Derives (.rule .realLiteral) s ps) :
    ps = [.leaf .realLiteral s] ∧ (∃ c t, s = c :: t ∧ (c.isDigit || c = '.') = true) ∧
      ∀ rest, Stops inNumber rest → takeNumber? (s ++ rest) = some (s, rest) := by
  cases h with
  | rule h =>
    obtain ⟨m, x, qs, rs, rfl, rfl, mantissa, exponent⟩ := seq_inv h
    obtain ⟨⟨c, t, rfl, hc⟩, takesMantissa⟩ := mantissa.takeMantissa?
    obtain ⟨rfl, hx, takesExponent⟩ := exponent.takeExponent
    refine ⟨rfl, ⟨c, t ++ x, rfl, hc⟩, fun rest hr => ?_⟩
    have hname : Stops isNamePart rest := fun c hc => (Bool.or_eq_false_iff.mp (hr c hc)).1
    have hstop : Stops (fun c => c.isDigit || c = '.') (x ++ rest) := by
      rcases hx with rfl | ⟨mark, x, rfl, hm⟩
      · intro c hc
        have hp := hr c hc
        simp_all [inNumber, isNamePart, Char.isAlphanum]
      · rintro _ ⟨⟩
        have hm' : mark = 'e' ∨ mark = 'E' := by simpa using hm
        rcases hm' with rfl | rfl <;> rfl
    rw [List.append_assoc, takeNumber?, takesMantissa _ hstop, Option.map_some]
    simp only [takesExponent rest hname]

end Derives

end LessonPlot
