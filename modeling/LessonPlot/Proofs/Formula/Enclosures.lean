import LessonPlot.Formula.Grouping
import Mathlib.Data.List.Infix
import Mathlib.Tactic.Linarith

namespace LessonPlot

/-- What a part of a formula can lie in, so that reading it goes one level deeper. -/
inductive Construct where
  | parentheses
  | arguments
  | branch
  | exponent
  | sign
deriving DecidableEq, Repr

/-- Gives for every primary at or under a place the constructs around it, the innermost first, from
those that are around the place. -/
abbrev Enclosing := List Construct → List (List Construct)

theorem InfixOp.rightPower_lt (op : InfixOp) : op.rightPower < 80 := by
  cases op <;> decide

theorem InfixOp.leftPower_le {op : InfixOp} (h : op ≠ .power) : op.leftPower ≤ 60 := by
  cases op <;> first | decide | exact absurd rfl h

/-- What lies around the right operand of an operator. -/
def InfixOp.enclose (op : InfixOp) (outer : List Construct) : List Construct :=
  if op = .power then .exponent :: outer else outer

def Grouped.enclosures : Grouped Enclosing → Enclosing
  | .operand value, outer => value outer
  | .signed _ inner, outer => inner.enclosures (.sign :: outer)
  | .joined op left right, outer => left.enclosures outer ++ right.enclosures (op.enclose outer)

mutual

/-- The constructs around each primary of a formula, with what lies around the formula. -/
def Formula.enclosures : Formula → Enclosing
  | .operation operands, outer => operands.enclosed.group.enclosures outer
  | .choice condition chosen otherwise, outer =>
    condition.enclosed.group.enclosures outer ++ chosen.enclosures (.branch :: outer) ++
      otherwise.enclosures (.branch :: outer)

def Operation.enclosed : Operation → Row Enclosing
  | .last signs operand => .last signs operand.enclosures
  | .link signs operand op rest => .link signs operand.enclosures op rest.enclosed

def Primary.enclosures : Primary → Enclosing
  | .number _, outer | .name _, outer => [outer]
  | .call _ arguments, outer => outer :: arguments.enclosures (.arguments :: outer)
  | .group inner, outer => outer :: inner.enclosures (.parentheses :: outer)

def Arguments.enclosures : Arguments → Enclosing
  | .none, _ => []
  | .cons first rest, outer => first.enclosures outer ++ rest.enclosures outer

end

/-- What lies around an operand after signs, by what lies around the first of them. -/
def underSigns (signs : List PrefixOp) (around : List Construct) : List Construct :=
  signs.map (fun _ => .sign) ++ around

/-- The constructs around the operands of a row, read from left to right: what lies around a power
and its left operand also lies around the exponent, while any other operator is back at the row. -/
def Row.along (outer around : List Construct) : Row Enclosing → List (List Construct)
  | .last signs operand => operand (underSigns signs around)
  | .link signs operand op rest =>
    operand (underSigns signs around) ++
      rest.along outer (if op = .power then .exponent :: underSigns signs around else outer)

namespace Pending

variable {β : Type} {outer : List Construct} {pending : List (Pending β)}

/-- What lies around an operand that comes next under pending operators. -/
def around (outer : List Construct) : List (Pending β) → List Construct
  | [] => outer
  | .sign _ :: below => .sign :: around outer below
  | .operator op _ :: below => op.enclose (around outer below)

/-- What lies around the operands that pending operators hold. -/
def enclosures (outer : List Construct) : List (Pending Enclosing) → List (List Construct)
  | [] => []
  | .sign _ :: below => enclosures outer below
  | .operator _ left :: below => enclosures outer below ++ left.enclosures (around outer below)

/-- Signs and powers wait above all other pending operators. -/
def Layered (pending : List (Pending β)) : Prop :=
  pending.Pairwise fun top below => top.power < 69 → below.power < 69

theorem power_lt (top : Pending β) : top.power < InfixOp.power.leftPower := by
  cases top with
  | sign op => exact (by decide : 69 < 80)
  | operator op left => exact op.rightPower_lt

theorem layered_of_loose (loose : ∀ p ∈ pending, p.power < 69) : Layered pending :=
  List.pairwise_of_forall_mem_list fun _ _ p hp _ => loose p hp

theorem around_signs (signs : List PrefixOp) :
    around outer (signs.reverse.map .sign ++ pending) = underSigns signs (around outer pending) := by
  have pushed (signs : List PrefixOp) :
      around outer (signs.map .sign ++ pending) = underSigns signs (around outer pending) := by
    induction signs with
    | nil => rfl
    | cons sign signs ih => exact congrArg (Construct.sign :: ·) ih
  rw [pushed, underSigns, List.map_reverse]
  simp [underSigns, List.map_const']

theorem enclosures_signs (signs : List PrefixOp) (pending : List (Pending Enclosing)) :
    enclosures outer (signs.map .sign ++ pending) = enclosures outer pending := by
  induction signs with
  | nil => rfl
  | cons sign signs ih => exact ih

theorem enclosures_close (top : Pending Enclosing) (below : List (Pending Enclosing))
    (value : Grouped Enclosing) :
    enclosures outer below ++ (top.close value).enclosures (around outer below) =
      enclosures outer (top :: below) ++ value.enclosures (around outer (top :: below)) := by
  cases top with
  | sign op => rfl
  | operator op left => simp [close, Grouped.enclosures, enclosures, around]

theorem enclosures_closeAll (pending : List (Pending Enclosing)) (value : Grouped Enclosing) :
    (closeAll value pending).enclosures outer =
      enclosures outer pending ++ value.enclosures (around outer pending) := by
  induction pending generalizing value with
  | nil => rfl
  | cons top below ih =>
    have closed := ih (top.close value)
    rw [enclosures_close] at closed
    exact closed

theorem enclosures_settle (outer : List Construct) (power : Nat) (pending : List (Pending Enclosing))
    (value : Grouped Enclosing) :
    enclosures outer (settle power value pending).2 ++
        (settle power value pending).1.enclosures (around outer (settle power value pending).2) =
      enclosures outer pending ++ value.enclosures (around outer pending) := by
  induction pending generalizing value with
  | nil => rfl
  | cons top below ih =>
    rw [settle]
    split
    next => rfl
    next => rw [ih, enclosures_close]

theorem settle_power (value : Grouped β) (pending : List (Pending β)) :
    settle InfixOp.power.leftPower value pending = (value, pending) := by
  cases pending with
  | nil => rfl
  | cons top below => rw [settle, if_pos top.power_lt]

/-- An operator that draws no more tightly than a product closes all signs and powers that wait. -/
theorem settle_loose {power : Nat} (low : power ≤ 60) (value : Grouped β)
    (layered : Layered pending) : ∀ p ∈ (settle power value pending).2, p.power < 69 := by
  induction pending generalizing value with
  | nil => nofun
  | cons top below ih =>
    obtain ⟨under, layered⟩ := List.pairwise_cons.mp layered
    rw [settle]
    split
    next loose =>
      have top_loose : top.power < 69 := by omega
      intro p hp
      rcases List.mem_cons.mp hp with rfl | hp
      · exact top_loose
      · exact under p hp top_loose
    next => exact ih (top.close value) layered

/-- Without signs and powers nothing more is around an operand than around its row. -/
theorem around_of_loose (loose : ∀ p ∈ pending, p.power < 69) : around outer pending = outer := by
  induction pending with
  | nil => rfl
  | cons top below ih =>
    have low := loose top (by simp)
    cases top with
    | sign op => exact absurd low (Nat.lt_irrefl 69)
    | operator op left =>
      have other : op ≠ .power := by
        rintro rfl
        exact absurd low (by decide : ¬ 79 < 69)
      rw [around, InfixOp.enclose, if_neg other]
      exact ih fun p hp => loose p (List.mem_cons_of_mem _ hp)

theorem Layered.signs (h : Layered pending) (signs : List PrefixOp) :
    Layered (signs.map .sign ++ pending) := by
  induction signs with
  | nil => exact h
  | cons sign signs ih => exact .cons (fun _ _ low => absurd low (Nat.lt_irrefl 69)) ih

/-- What waits, and what is around the next operand, after an operator has taken its left one. -/
theorem Layered.operator (h : Layered pending) (op : InfixOp) (value : Grouped β)
    (outer : List Construct) :
    Layered (.operator op (settle op.leftPower value pending).1 ::
        (settle op.leftPower value pending).2) ∧
      op.enclose (around outer (settle op.leftPower value pending).2) =
        if op = .power then .exponent :: around outer pending else outer := by
  by_cases power : op = .power
  · subst power
    rw [settle_power]
    exact ⟨.cons (fun _ _ low => absurd low (by decide : ¬ 79 < 69)) h, rfl⟩
  · have loose := settle_loose (InfixOp.leftPower_le power) value h
    refine ⟨.cons (fun p hp _ => loose p hp) (layered_of_loose loose), ?_⟩
    rw [InfixOp.enclose, around_of_loose loose, if_neg power, if_neg power]

end Pending

/-- The stack of pending operators encloses what the operators to the left of an operand say. -/
theorem Row.enclosures_groupUnder (row : Row Enclosing) (outer : List Construct)
    {pending : List (Pending Enclosing)} (layered : Pending.Layered pending) :
    (row.groupUnder pending).enclosures outer =
      Pending.enclosures outer pending ++ row.along outer (Pending.around outer pending) := by
  induction row generalizing pending with
  | last signs operand =>
    rw [groupUnder, Pending.enclosures_closeAll, Pending.enclosures_signs, Pending.around_signs]
    rfl
  | link signs operand op rest ih =>
    have stacked := layered.signs signs.reverse
    have settled := Pending.enclosures_settle outer op.leftPower
      (signs.reverse.map .sign ++ pending) (.operand operand)
    obtain ⟨ready, around⟩ := stacked.operator op (.operand operand) outer
    rw [Pending.enclosures_signs, Pending.around_signs] at settled
    rw [Pending.around_signs] at around
    have tail := ih ready
    rw [Pending.enclosures, settled, Pending.around, around, List.append_assoc] at tail
    exact tail

theorem Row.enclosures_group (row : Row Enclosing) (outer : List Construct) :
    row.group.enclosures outer = row.along outer outer :=
  row.enclosures_groupUnder outer .nil

section Paths

/-- The constructs on a path that are not signs: each has a character that goes one level up. -/
def levels (path : List Construct) : Nat :=
  path.countP (· ≠ .sign)

/-- The signs on a path before anything else. -/
def ahead (path : List Construct) : Nat :=
  (path.takeWhile (· = .sign)).length

/-- From everywhere on a path outwards, the levels and the signs before the next of them are
within a limit. -/
def Shallow (limit : Nat) (path : List Construct) : Prop :=
  ∀ outer, outer <:+ path → levels outer + ahead outer ≤ limit

variable {limit : Nat} {path : List Construct} {construct : Construct}

@[simp]
theorem levels_sign : levels (.sign :: path) = levels path := by
  simp [levels]

@[simp]
theorem ahead_sign : ahead (.sign :: path) = ahead path + 1 := by
  simp [ahead]

theorem levels_cons (h : construct ≠ .sign) : levels (construct :: path) = levels path + 1 := by
  simp [levels, h]

theorem ahead_cons (h : construct ≠ .sign) : ahead (construct :: path) = 0 := by
  simp [ahead, h]

theorem shallow_nil : Shallow limit [] := by
  intro outer suffix
  rw [List.suffix_nil.mp suffix]
  exact Nat.zero_le limit

theorem shallow_cons : Shallow limit (construct :: path) ↔
    levels (construct :: path) + ahead (construct :: path) ≤ limit ∧ Shallow limit path := by
  constructor
  · intro h
    exact ⟨h _ List.suffix_rfl, fun outer suffix => h outer (suffix.trans (List.suffix_cons _ _))⟩
  · rintro ⟨here, outwards⟩ outer suffix
    rcases List.suffix_cons_iff.mp suffix with rfl | suffix
    · exact here
    · exact outwards outer suffix

/-- The farther in, the fewer signs can stand in a row: a shallow path has `limit` levels and then
`limit + (limit - 1) + ... + 1` signs at most. -/
theorem Shallow.budget (h : Shallow limit path) :
    2 * path.length + levels path * levels path ≤
      2 * ahead path + levels path * (2 * limit + 3) := by
  induction path with
  | nil => simp [levels]
  | cons construct path ih =>
    obtain ⟨-, outwards⟩ := shallow_cons.mp h
    have rest := ih outwards
    by_cases sign : construct = .sign
    · subst sign
      rw [List.length_cons, levels_sign, ahead_sign]
      omega
    · have room := outwards path List.suffix_rfl
      rw [List.length_cons, levels_cons sign, ahead_cons sign]
      nlinarith

theorem Shallow.length_le (h : Shallow limit path) :
    path.length ≤ limit + limit * (limit + 1) / 2 := by
  have budget := h.budget
  have room := h path List.suffix_rfl
  have even : limit * (limit + 1) = 2 * (limit * (limit + 1) / 2) :=
    (Nat.mul_div_cancel' (Nat.even_mul_succ_self limit).two_dvd).symm
  obtain ⟨spare, rfl⟩ : ∃ spare, limit = levels path + spare := ⟨limit - levels path, by omega⟩
  have bound : 2 * path.length ≤
      2 * (levels path + spare) + (levels path + spare) * (levels path + spare + 1) := by
    nlinarith
  omega

end Paths

end LessonPlot
