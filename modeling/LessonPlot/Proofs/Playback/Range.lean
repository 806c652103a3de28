import LessonPlot.Proofs.Playback.Remainder

namespace LessonPlot

namespace Control

variable {control : Float} {v : ℚ}

/-- What playback keeps a control to; the end at 100 is the start again. -/
structure InRange (control : Float) : Prop where
  nonneg : 0 ≤ control
  lt_hundred : control < 100
  number : control.isNaN = false

theorem inRange_of_denotes (hc : Denotes control v) (low : 0 ≤ v) (high : v < highest) :
    InRange control := by
  have hundred : Denotes (100 : Float) (highest : ℕ) := denotes_ofNat (by decide)
  refine ⟨(denotes_zero.le_iff hc).mpr low, ?_, hc.isNaN⟩
  rwa [lt_iff hc.isNaN hundred.isNaN, hc.value, hundred.value]

/-- Wherever the control was, also at what is no number, ticks lead into the range. -/
theorem inRange_forward (control ticks : Float) : InRange (forward control ticks) := by
  cases finite : (control + ticks).isFinite with
  | false =>
    rw [forward_of_not_isFinite finite]
    exact inRange_of_denotes denotes_zero le_rfl (by norm_num [highest])
  | true =>
    have sum : Denotes (control + ticks) (valueOf (control + ticks)) := ⟨finite, rfl⟩
    have low := modulo_nonneg (by decide : 0 < highest) (max 0 (valueOf (control + ticks)))
    have high := modulo_lt (by decide : 0 < highest) (max 0 (valueOf (control + ticks)))
    exact inRange_of_denotes (denotes_forward sum) low high

/-- What moves the control during playback: a single tick, or time that has passed. -/
inductive Move where
  | tick
  | elapse (nanoseconds : ℕ)
deriving DecidableEq, Repr

namespace Move

def apply (move : Move) (control : Float) : Float :=
  match move with
  | tick => advance control
  | elapse nanoseconds => advanceBy control nanoseconds

/-- The whole ticks of a move. -/
def ticks : Move → ℕ
  | tick => 1
  | elapse nanoseconds => nanoseconds / tickNanoseconds

theorem apply_of_ticks_eq_zero {move : Move} (none : move.ticks = 0) (control : Float) :
    move.apply control = control := by
  cases move with
  | tick => cases none
  | elapse nanoseconds => exact if_pos none

theorem inRange_apply_of_ticks {move : Move} (some : 0 < move.ticks) (control : Float) :
    InRange (move.apply control) := by
  cases move with
  | tick => exact inRange_forward control 1
  | elapse nanoseconds =>
    have moved : advanceBy control nanoseconds =
        forward control (Float.ofNat (nanoseconds / tickNanoseconds % highest)) :=
      if_neg some.ne'
    change InRange (advanceBy control nanoseconds)
    rw [moved]
    exact inRange_forward control _

/-- A move leads into the range or leaves the control where it was. -/
theorem inRange_apply (move : Move) (h : InRange control) : InRange (move.apply control) := by
  rcases Nat.eq_zero_or_pos move.ticks with none | some
  · rwa [apply_of_ticks_eq_zero none]
  · exact inRange_apply_of_ticks some control

end Move

/-- The control after some moves in a row. -/
def play (start : Float) (moves : List Move) : Float :=
  moves.foldl (fun control move => move.apply control) start

/-- The whole ticks of each move together; time that is left over is not carried on. -/
def ticksIn (moves : List Move) : ℕ :=
  (moves.map Move.ticks).sum

theorem play_cons (start : Float) (move : Move) (moves : List Move) :
    play start (move :: moves) = play (move.apply start) moves :=
  rfl

theorem play_append (start : Float) (moves later : List Move) :
    play start (moves ++ later) = play (play start moves) later :=
  List.foldl_append

theorem ticksIn_cons (move : Move) (moves : List Move) :
    ticksIn (move :: moves) = move.ticks + ticksIn moves := by
  rw [ticksIn, List.map_cons, List.sum_cons, ticksIn]

theorem inRange_play (h : InRange control) (moves : List Move) : InRange (play control moves) := by
  induction moves generalizing control with
  | nil => exact h
  | cons move moves ih => exact ih (move.inRange_apply h)

theorem play_of_ticksIn_eq_zero {moves : List Move} (none : ticksIn moves = 0) (start : Float) :
    play start moves = start := by
  induction moves with
  | nil => rfl
  | cons move moves ih =>
    rw [ticksIn_cons] at none
    have first : move.ticks = 0 := by omega
    rw [play_cons, Move.apply_of_ticks_eq_zero first]
    exact ih (by omega)

theorem inRange_play_of_ticksIn {moves : List Move} (some : 0 < ticksIn moves) (start : Float) :
    InRange (play start moves) := by
  induction moves generalizing start with
  | nil => cases some
  | cons move moves ih =>
    rw [play_cons]
    rcases Nat.eq_zero_or_pos move.ticks with none | first
    · rw [ticksIn_cons, none, Nat.zero_add] at some
      exact ih some _
    · exact inRange_play (move.inRange_apply_of_ticks first start) moves

/-- Until a whole tick has been played the control stays where it was. From then on it is in the range
after every move, wherever it started. -/
theorem play_inRange_once_ticked (start : Float) (moves : List Move) :
    (ticksIn moves = 0 → play start moves = start) ∧
    (0 < ticksIn moves → ∀ later, InRange (play start (moves ++ later))) := by
  constructor
  · intro none
    exact play_of_ticksIn_eq_zero none start
  · intro some later
    rw [play_append]
    exact inRange_play (inRange_play_of_ticksIn some start) later

/-- From what is no number, by less than a tick, then by two and a half ticks and a single one. -/
theorem play_inRange_once_ticked_notANumber :
    (ticksIn [.elapse 49999999] = 0 ∧ play (0 / 0) [.elapse 49999999] = 0 / 0) ∧
      0 < ticksIn [.elapse 49999999, .elapse 125000000] ∧
      InRange (play (0 / 0) [.elapse 49999999, .elapse 125000000, .tick]) :=
  ⟨⟨rfl, (play_inRange_once_ticked (0 / 0) [.elapse 49999999]).1 rfl⟩, by decide,
    (play_inRange_once_ticked (0 / 0) [.elapse 49999999, .elapse 125000000]).2 (by decide) [.tick]⟩

end Control

end LessonPlot
