import LessonPlot.Proofs.Evaluation.Refinement

namespace LessonPlot

/-- Numbers of registers, those for numbers and those for truth values. -/
structure Demand where
  reals : Nat
  booleans : Nat
deriving DecidableEq, Repr

section Peak

variable {α : Type}

/-- How many registers an operand keeps until it is handed back: a column of the input is read where
it stands. -/
def RealExpression.held : RealExpression α → Nat
  | .slot _ => 0
  | _ => 1

/-- What an operand demands, given what it would demand as a whole expression. -/
def RealExpression.asOperand (e : RealExpression α) (whole : Demand) : Demand :=
  match e with
  | .slot _ => ⟨0, 0⟩
  | _ => whole

variable [Scalar α] (columns : List (Column α)) (n : Nat)

mutual

/-- The most registers held at one time while an expression is evaluated over columns of `n` rows,
its output among them. -/
def RealExpression.peak : RealExpression α → Demand
  | .literal _ => ⟨1, 0⟩
  | .slot _ => ⟨1, 0⟩
  | .negate operand =>
    let o := operand.asOperand operand.peak
    ⟨max o.reals (operand.held + 1), o.booleans⟩
  | .call _ argument =>
    let o := argument.asOperand argument.peak
    ⟨max o.reals (argument.held + 1), o.booleans⟩
  | .binary _ left right =>
    let l := left.asOperand left.peak
    let r := right.asOperand right.peak
    ⟨max (max l.reals (left.held + r.reals)) (left.held + right.held + 1),
      max l.booleans r.booleans⟩
  | .select condition chosen otherwise =>
    let c := condition.peak
    if (condition.lanes columns n).all id then
      ⟨max c.reals chosen.peak.reals, max c.booleans chosen.peak.booleans⟩
    else if !(condition.lanes columns n).any id then
      ⟨max c.reals otherwise.peak.reals, max c.booleans otherwise.peak.booleans⟩
    else
      -- the mask is kept until the two sides are mixed
      let t := chosen.asOperand chosen.peak
      let o := otherwise.asOperand otherwise.peak
      ⟨max (max (max c.reals t.reals) (chosen.held + o.reals)) (chosen.held + otherwise.held + 1),
        max (max c.booleans (1 + t.booleans)) (1 + o.booleans)⟩

/-- The most registers held at one time while an expression is evaluated over columns of `n` rows,
its output among them. -/
def BoolExpression.peak : BoolExpression α → Demand
  | .compare _ left right =>
    let l := left.asOperand left.peak
    let r := right.asOperand right.peak
    ⟨max l.reals (left.held + r.reals), max (max l.booleans r.booleans) 1⟩
  | .connect _ left right =>
    let l := left.peak
    let r := right.peak
    ⟨max l.reals r.reals, max (max l.booleans (1 + r.booleans)) 3⟩
  | .not operand => operand.peak

end

/-- The output is in a register. -/
theorem RealExpression.one_le_peak (e : RealExpression α) : 1 ≤ (e.peak columns n).reals := by
  cases e with
  | literal | slot => exact Nat.le_refl 1
  | negate | call | binary => exact Nat.le_trans (Nat.le_add_left 1 _) (Nat.le_max_right _ _)
  | select condition chosen otherwise =>
    have left := chosen.one_le_peak
    have right := otherwise.one_le_peak
    rw [RealExpression.peak]
    dsimp only
    split
    next => exact Nat.le_trans left (Nat.le_max_right _ _)
    next =>
      split
      next => exact Nat.le_trans right (Nat.le_max_right _ _)
      next => exact Nat.le_trans (Nat.le_add_left 1 _) (Nat.le_max_right _ _)

theorem RealExpression.held_le_asOperand (e : RealExpression α) :
    e.held ≤ (e.asOperand (e.peak columns n)).reals := by
  have own := e.one_le_peak columns n
  cases e with
  | slot => exact Nat.le_refl 0
  | literal | negate | call | binary | select => exact own

end Peak

/-- How many registers the values of an operand are in. -/
def Operand.held {α : Type} : Operand α → Nat
  | .column _ => 0
  | .register _ => 1

namespace Registers

variable {α : Type} {pool pool' pool'' : Registers α} {need need' held held' : Demand}

/-- What some steps on a pool have cost if at most `need` registers were held at any time during
them and `held` still are: what the pool lacked has been made, and nothing else. -/
structure Spends (pool pool' : Registers α) (need held : Demand) : Prop where
  reals : pool'.reals.length + held.reals = max pool.reals.length need.reals
  booleans : pool'.booleans.length + held.booleans = max pool.booleans.length need.booleans
  allocations : pool'.allocations = pool.allocations + (need.reals - pool.reals.length) +
    (need.booleans - pool.booleans.length)

theorem Spends.of_eq (h : pool.Spends pool' need held) (hn : need = need') (hh : held = held') :
    pool.Spends pool' need' held' :=
  hn ▸ hh ▸ h

theorem spends_nothing (pool : Registers α) : pool.Spends pool ⟨0, 0⟩ ⟨0, 0⟩ :=
  ⟨by simp, by simp, by simp⟩

/-- What is lacking at first and what is lacking again later, with `held` registers given out of
those there are, is what is lacking for the higher of the two peaks. -/
theorem lacking_add {free need free' held need' : Nat} (kept : free' + held = max free need) :
    (need - free) + (need' - free') = max need (held + need') - free := by
  omega

/-- What was held before the second steps is held throughout them. -/
theorem Spends.trans (h : pool.Spends pool' need held) (h' : pool'.Spends pool'' need' held') :
    pool.Spends pool''
      ⟨max need.reals (held.reals + need'.reals),
        max need.booleans (held.booleans + need'.booleans)⟩
      ⟨held.reals + held'.reals, held.booleans + held'.booleans⟩ where
  reals := by
    have first := h.reals
    have second := h'.reals
    dsimp only
    omega
  booleans := by
    have first := h.booleans
    have second := h'.booleans
    dsimp only
    omega
  allocations := by
    dsimp only
    rw [h'.allocations, h.allocations, ← lacking_add h.reals, ← lacking_add h.booleans]
    omega

theorem spends_takeReal (pool : Registers α) : pool.Spends pool.takeReal.2 ⟨1, 0⟩ ⟨1, 0⟩ := by
  unfold takeReal
  split
  next register rest hr => exact ⟨by simp [hr], by simp, by simp [hr]⟩
  next hr => exact ⟨by simp [hr], by simp, by simp [hr]⟩

theorem spends_takeBoolean (pool : Registers α) :
    pool.Spends pool.takeBoolean.2 ⟨0, 1⟩ ⟨0, 1⟩ := by
  unfold takeBoolean
  split
  next register rest hr => exact ⟨by simp, by simp [hr], by simp [hr]⟩
  next hr => exact ⟨by simp, by simp [hr], by simp [hr]⟩

theorem Spends.takeReal (h : pool.Spends pool' need held) :
    pool.Spends pool'.takeReal.2 ⟨max need.reals (held.reals + 1), max need.booleans held.booleans⟩
      ⟨held.reals + 1, held.booleans⟩ :=
  h.trans pool'.spends_takeReal

theorem Spends.takeBoolean (h : pool.Spends pool' need held) :
    pool.Spends pool'.takeBoolean.2
      ⟨max need.reals held.reals, max need.booleans (held.booleans + 1)⟩
      ⟨held.reals, held.booleans + 1⟩ :=
  h.trans pool'.spends_takeBoolean

theorem Spends.recycleReal {reals booleans : Nat} (used : Column α)
    (h : pool.Spends pool' need ⟨reals + 1, booleans⟩) :
    pool.Spends (pool'.recycleReal used) need ⟨reals, booleans⟩ := by
  obtain ⟨hr, hb, ha⟩ := h
  exact ⟨by simp [Registers.recycleReal, ← hr]; omega, hb, ha⟩

theorem Spends.recycleBoolean {reals booleans : Nat} (used : Column Bool)
    (h : pool.Spends pool' need ⟨reals, booleans + 1⟩) :
    pool.Spends (pool'.recycleBoolean used) need ⟨reals, booleans⟩ := by
  obtain ⟨hr, hb, ha⟩ := h
  exact ⟨hr, by simp [Registers.recycleBoolean, ← hb]; omega, ha⟩

/-- An operand hands back what it holds. -/
theorem Spends.recycle {reals booleans : Nat} {operand : Operand α}
    (h : pool.Spends pool' need ⟨reals + operand.held, booleans⟩) :
    pool.Spends (operand.recycle pool') need ⟨reals, booleans⟩ := by
  cases operand with
  | column values => exact h
  | register values => exact h.recycleReal values

end Registers

section Filling

variable {α : Type} [Scalar α] {columns : List (Column α)} {n : Nat}
  {pool pool' : Registers α}

theorem Operand.of_spends (lengths : ∀ column ∈ columns, column.length = n) {e : RealExpression α}
    (fills : ∀ {pool pool' : Registers α} {output : Column α}, pool.Clean n →
      e.fill columns pool = .ok (output, pool') → pool.Spends pool' (e.peak columns n) ⟨1, 0⟩)
    {operand : Operand α} (clean : pool.Clean n)
    (h : Operand.of columns e (e.fill columns) pool = .ok (operand, pool')) :
    pool.Spends pool' (e.asOperand (e.peak columns n)) ⟨operand.held, 0⟩ ∧
      operand.held = e.held ∧ pool'.Clean n := by
  have after := (Operand.of_lanes lengths (e.fill_lanes lengths) clean h).2
  unfold Operand.of at h
  split at h
  next index =>
    obtain ⟨values, -, h⟩ := bind_eq_ok_iff.mp h
    cases h
    exact ⟨pool.spends_nothing, rfl, after⟩
  next other =>
    obtain ⟨⟨values, pool₁⟩, hf, h⟩ := bind_eq_ok_iff.mp h
    cases h
    have spent := fills clean hf
    cases e with
    | slot index => exact (other index rfl).elim
    | literal | negate | call | binary | select => exact ⟨spent, rfl, after⟩

mutual

/-- An evaluation makes the registers that its peak demands and the pool lacks, and hands all but
its output back. -/
theorem RealExpression.fill_spends (lengths : ∀ column ∈ columns, column.length = n)
    (e : RealExpression α) {pool pool' : Registers α} {output : Column α} (clean : pool.Clean n)
    (h : e.fill columns pool = .ok (output, pool')) :
    pool.Spends pool' (e.peak columns n) ⟨1, 0⟩ := by
  cases e with
  | literal value =>
    simp only [RealExpression.fill, Except.ok.injEq, Prod.mk.injEq] at h
    obtain ⟨-, rfl⟩ := h
    exact pool.spends_takeReal
  | slot index =>
    obtain ⟨values, -, h⟩ := bind_eq_ok_iff.mp h
    simp only [Except.ok.injEq, Prod.mk.injEq] at h
    obtain ⟨-, rfl⟩ := h
    exact pool.spends_takeReal
  | negate operand =>
    obtain ⟨⟨o, pool₁⟩, ho, h⟩ := bind_eq_ok_iff.mp h
    simp only [Except.ok.injEq, Prod.mk.injEq] at h
    obtain ⟨-, rfl⟩ := h
    obtain ⟨spent, held, -⟩ := Operand.of_spends lengths (operand.fill_spends lengths) clean ho
    have filled : pool.Spends pool₁.takeReal.2 ((RealExpression.negate operand).peak columns n)
        ⟨1 + o.held, 0⟩ :=
      spent.takeReal.of_eq (by simp [RealExpression.peak, held]) (by simp [Nat.add_comm])
    exact filled.recycle
  | call function argument =>
    obtain ⟨⟨o, pool₁⟩, ho, h⟩ := bind_eq_ok_iff.mp h
    simp only [Except.ok.injEq, Prod.mk.injEq] at h
    obtain ⟨-, rfl⟩ := h
    obtain ⟨spent, held, -⟩ := Operand.of_spends lengths (argument.fill_spends lengths) clean ho
    have filled : pool.Spends pool₁.takeReal.2
        ((RealExpression.call function argument).peak columns n) ⟨1 + o.held, 0⟩ :=
      spent.takeReal.of_eq (by simp [RealExpression.peak, held]) (by simp [Nat.add_comm])
    exact filled.recycle
  | binary op left right =>
    obtain ⟨⟨l, pool₁⟩, hl, h⟩ := bind_eq_ok_iff.mp h
    obtain ⟨⟨r, pool₂⟩, hr, h⟩ := bind_eq_ok_iff.mp h
    simp only [Except.ok.injEq, Prod.mk.injEq] at h
    obtain ⟨-, rfl⟩ := h
    obtain ⟨spent, held, clean₁⟩ := Operand.of_spends lengths (left.fill_spends lengths) clean hl
    obtain ⟨spent', held', -⟩ := Operand.of_spends lengths (right.fill_spends lengths) clean₁ hr
    have filled : pool.Spends pool₂.takeReal.2
        ((RealExpression.binary op left right).peak columns n) ⟨1 + r.held + l.held, 0⟩ :=
      (spent.trans spent').takeReal.of_eq (by simp [RealExpression.peak, held, held'])
        (by simp; omega)
    exact filled.recycle.recycle
  | select condition chosen otherwise =>
    obtain ⟨⟨mask, pool₁⟩, hm, h⟩ := bind_eq_ok_iff.mp h
    have masked := condition.fill_spends lengths clean hm
    obtain ⟨rfl, clean₁⟩ := condition.fill_lanes lengths clean hm
    simp only at h
    rw [RealExpression.peak]
    split at h
    next all =>
      have side := chosen.fill_spends lengths (clean₁.recycleBoolean _) h
      exact ((masked.recycleBoolean _).trans side).of_eq (by simp [all]) rfl
    next mixed =>
      split at h
      next none =>
        have side := otherwise.fill_spends lengths (clean₁.recycleBoolean _) h
        exact ((masked.recycleBoolean _).trans side).of_eq (by simp [mixed, none]) rfl
      next some =>
        obtain ⟨⟨c, pool₂⟩, hc, h⟩ := bind_eq_ok_iff.mp h
        obtain ⟨⟨o, pool₃⟩, ho, h⟩ := bind_eq_ok_iff.mp h
        simp only [Except.ok.injEq, Prod.mk.injEq] at h
        obtain ⟨-, rfl⟩ := h
        obtain ⟨spent, held, clean₂⟩ :=
          Operand.of_spends lengths (chosen.fill_spends lengths) clean₁ hc
        obtain ⟨spent', held', -⟩ :=
          Operand.of_spends lengths (otherwise.fill_spends lengths) clean₂ ho
        rw [if_neg mixed, if_neg some]
        have filled : pool.Spends _ _ ⟨1 + o.held + c.held, 0 + 1⟩ :=
          ((masked.trans spent).trans spent').takeReal.of_eq rfl (by simp; omega)
        exact (filled.recycleBoolean _).recycle.recycle.of_eq (by simp [held, held']) rfl

theorem BoolExpression.fill_spends (lengths : ∀ column ∈ columns, column.length = n)
    (e : BoolExpression α) {pool pool' : Registers α} {output : Column Bool}
    (clean : pool.Clean n) (h : e.fill columns pool = .ok (output, pool')) :
    pool.Spends pool' (e.peak columns n) ⟨0, 1⟩ := by
  cases e with
  | compare op left right =>
    obtain ⟨⟨l, pool₁⟩, hl, h⟩ := bind_eq_ok_iff.mp h
    obtain ⟨⟨r, pool₂⟩, hr, h⟩ := bind_eq_ok_iff.mp h
    simp only [Except.ok.injEq, Prod.mk.injEq] at h
    obtain ⟨-, rfl⟩ := h
    obtain ⟨spent, held, clean₁⟩ := Operand.of_spends lengths (left.fill_spends lengths) clean hl
    obtain ⟨spent', held', -⟩ := Operand.of_spends lengths (right.fill_spends lengths) clean₁ hr
    have filled : pool.Spends _ _ ⟨0 + r.held + l.held, 1⟩ :=
      (spent.trans spent').takeBoolean.of_eq rfl (by simp; omega)
    have own := right.held_le_asOperand columns n
    exact filled.recycle.recycle.of_eq (by simp [BoolExpression.peak, held, held']; omega) rfl
  | connect op left right =>
    obtain ⟨⟨l, pool₁⟩, hl, h⟩ := bind_eq_ok_iff.mp h
    obtain ⟨⟨r, pool₂⟩, hr, h⟩ := bind_eq_ok_iff.mp h
    simp only [Except.ok.injEq, Prod.mk.injEq] at h
    obtain ⟨-, rfl⟩ := h
    have spent := left.fill_spends lengths clean hl
    have clean₁ := (left.fill_lanes lengths clean hl).2
    have filled := (spent.trans (right.fill_spends lengths clean₁ hr)).takeBoolean
    exact ((filled.recycleBoolean l).recycleBoolean r).of_eq (by simp [BoolExpression.peak]) rfl
  | not operand =>
    obtain ⟨⟨values, pool₁⟩, ho, h⟩ := bind_eq_ok_iff.mp h
    simp only [Except.ok.injEq, Prod.mk.injEq] at h
    obtain ⟨-, rfl⟩ := h
    exact operand.fill_spends lengths clean ho

end

/-- In `x * 2 + 1` the product and the literal are held when the register of the sum is taken. -/
example : (RealExpression.binary .add (.binary .multiply (.slot 0) (.literal 2)) (.literal 1) :
    RealExpression Float).peak [[1, 2]] 2 = ⟨3, 0⟩ := by rfl

/-- An evaluation makes exactly the registers that its peak demands beyond those that are free in
the pool. Afterwards, the output counted, there are as many of each kind as there were or as the
peak demands, whichever is more, so none is lost. -/
theorem evaluate_allocates (clean : pool.Clean n)
    (lengths : ∀ column ∈ columns, column.length = n) :
    (∀ e : RealExpression α, (∀ index ∈ e.slots, index < columns.length) →
      ∃ output pool', e.evaluate columns pool = .ok (output, pool') ∧
        pool'.allocations = pool.allocations + ((e.peak columns n).reals - pool.reals.length) +
          ((e.peak columns n).booleans - pool.booleans.length) ∧
        pool'.reals.length + 1 = max pool.reals.length (e.peak columns n).reals ∧
        pool'.booleans.length = max pool.booleans.length (e.peak columns n).booleans) ∧
    (∀ e : BoolExpression α, (∀ index ∈ e.slots, index < columns.length) →
      ∃ output pool', e.evaluate columns pool = .ok (output, pool') ∧
        pool'.allocations = pool.allocations + ((e.peak columns n).reals - pool.reals.length) +
          ((e.peak columns n).booleans - pool.booleans.length) ∧
        pool'.reals.length = max pool.reals.length (e.peak columns n).reals ∧
        pool'.booleans.length + 1 = max pool.booleans.length (e.peak columns n).booleans) := by
  constructor
  · intro e covered
    obtain ⟨pool', he, -⟩ := e.evaluate_of_clean clean lengths covered
    obtain ⟨-, hf⟩ := RealExpression.evaluate_eq_ok_iff.mp he
    have spent := e.fill_spends lengths clean hf
    exact ⟨_, pool', he, spent.allocations, spent.reals, spent.booleans⟩
  · intro e covered
    obtain ⟨pool', he, -⟩ := e.evaluate_of_clean clean lengths covered
    obtain ⟨-, hf⟩ := BoolExpression.evaluate_eq_ok_iff.mp he
    have spent := e.fill_spends lengths clean hf
    exact ⟨_, pool', he, spent.allocations, spent.reals, spent.booleans⟩

/-- A mask that is not uniform, in a pool with one register for numbers. -/
theorem evaluate_allocates_mixed :
    let pool : Registers Float := (Registers.new 2).recycleReal [5]
    let columns : List (Column Float) := [[1, 4], [3, 2]]
    let e : RealExpression Float :=
      .select (.compare .less (.slot 0) (.slot 1)) (.slot 1) (.negate (.slot 0))
    pool.Clean 2 ∧ (∀ column ∈ columns, column.length = 2) ∧
      (∀ index ∈ e.slots, index < columns.length) ∧
      e.peak columns 2 = ⟨2, 1⟩ ∧
      ∃ output pool', e.evaluate columns pool = .ok (output, pool') ∧
        pool'.allocations = 2 ∧ pool'.reals.length + 1 = 2 ∧ pool'.booleans.length = 1 := by
  intro pool columns e
  have clean : pool.Clean 2 := (Registers.clean_new 2).recycleReal _
  have lengths : ∀ column ∈ columns, column.length = 2 := by simp [columns]
  have covered : ∀ index ∈ e.slots, index < columns.length := by
    simp [e, columns, RealExpression.slots, BoolExpression.slots]
  have peak : e.peak columns 2 = ⟨2, 1⟩ := by decide +kernel
  obtain ⟨output, pool', he, allocations, reals, booleans⟩ :=
    (evaluate_allocates clean lengths).1 e covered
  rw [peak] at allocations reals booleans
  exact ⟨clean, lengths, covered, peak, output, pool', he, allocations, reals, booleans⟩

end Filling

end LessonPlot
