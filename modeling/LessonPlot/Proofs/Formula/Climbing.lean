import LessonPlot.Proofs.Formula.Strata

namespace LessonPlot

mutual

/-- The loop of binding powers over the words of a row. `Climbs bound words tree rest` reads a
tree up to the first operator that does not draw more tightly than `bound`, and leaves `rest`. -/
inductive Climbs {α : Type} : Nat → List (Token α) → Grouped α → List (Token α) → Prop where
  | sign {bound : Nat} {op : PrefixOp} {words rest rest' : List (Token α)}
      {inner tree : Grouped α} (operand : Climbs op.rightPower words inner rest)
      (further : Extends bound (.signed op inner) rest tree rest') :
      Climbs bound (.sign op :: words) tree rest'
  | operand {bound : Nat} {value : α} {words rest : List (Token α)} {tree : Grouped α}
      (further : Extends bound (.operand value) words tree rest) :
      Climbs bound (.operand value :: words) tree rest

/-- The turns of that loop, from the tree that stands to the left of the words. -/
inductive Extends {α : Type} :
    Nat → Grouped α → List (Token α) → Grouped α → List (Token α) → Prop where
  | stop {bound : Nat} {left : Grouped α} {words : List (Token α)}
      (loose : ∀ op rest, words = .operator op :: rest → op.leftPower ≤ bound) :
      Extends bound left words left words
  | operator {bound : Nat} {op : InfixOp} {words rest rest' : List (Token α)}
      {left right tree : Grouped α} (tight : bound < op.leftPower)
      (operand : Climbs op.rightPower words right rest)
      (further : Extends bound (.joined op left right) rest tree rest') :
      Extends bound left (.operator op :: words) tree rest'

end

variable {α β : Type} {ops : List InfixOp}

/-- Words that go on with no operator that draws more tightly than `power`. -/
def Loosens (power : Nat) (words : List (Token α)) : Prop :=
  ∀ op rest, words = .operator op :: rest → op.leftPower ≤ power

theorem Loosens.mono {low high : Nat} {words : List (Token α)} (h : Loosens low words)
    (le : low ≤ high) : Loosens high words :=
  fun op rest hw => Nat.le_trans (h op rest hw) le

section Inversion

variable {bound : Nat} {words rest : List (Token α)} {left tree : Grouped α}

theorem Climbs.sign_inv {op : PrefixOp} (h : Climbs bound (.sign op :: words) tree rest) :
    ∃ inner between, Climbs op.rightPower words inner between ∧
      Extends bound (.signed op inner) between tree rest := by
  cases h with
  | sign operand further => exact ⟨_, _, operand, further⟩

theorem Climbs.operand_inv {value : α} (h : Climbs bound (.operand value :: words) tree rest) :
    Extends bound (.operand value) words tree rest := by
  cases h with
  | operand further => exact further

theorem Extends.stop_inv (loose : Loosens bound words) (h : Extends bound left words tree rest) :
    left = tree ∧ words = rest := by
  cases h with
  | stop _ => exact ⟨rfl, rfl⟩
  | operator tight _ _ => exact absurd tight (Nat.not_lt.mpr (loose _ _ rfl))

theorem Extends.operator_inv {op : InfixOp} (tight : bound < op.leftPower)
    (h : Extends bound left (.operator op :: words) tree rest) :
    ∃ right between, Climbs op.rightPower words right between ∧
      Extends bound (.joined op left right) between tree rest := by
  cases h with
  | stop loose => exact absurd tight (Nat.not_lt.mpr (loose op words rfl))
  | operator _ operand further => exact ⟨_, _, operand, further⟩

end Inversion

mutual

theorem Climbs.deterministic {bound : Nat} {words rest rest' : List (Token α)}
    {tree tree' : Grouped α} (h : Climbs bound words tree rest)
    (h' : Climbs bound words tree' rest') : tree = tree' ∧ rest = rest' := by
  match h with
  | .sign operand further =>
    obtain ⟨_, _, operand', further'⟩ := h'.sign_inv
    obtain ⟨hi, hb⟩ := operand.deterministic operand'
    exact further.deterministic (hi ▸ hb ▸ further')
  | .operand further => exact further.deterministic h'.operand_inv

theorem Extends.deterministic {bound : Nat} {words rest rest' : List (Token α)}
    {left tree tree' : Grouped α} (h : Extends bound left words tree rest)
    (h' : Extends bound left words tree' rest') : tree = tree' ∧ rest = rest' := by
  match h with
  | .stop loose => exact h'.stop_inv loose
  | .operator tight operand further =>
    obtain ⟨_, _, operand', further'⟩ := h'.operator_inv tight
    obtain ⟨hi, hb⟩ := operand.deterministic operand'
    exact further.deterministic (hi ▸ hb ▸ further')

end

mutual

theorem Unary.climbs (u : Unary α) (bound : Nat) (lt : bound < 80) {rest rest' : List (Token α)}
    (loose : Loosens 69 rest) {tree : Grouped α}
    (further : Extends bound u.grouped rest tree rest') :
    Climbs bound (u.tokens ++ rest) tree rest' := by
  cases u with
  | signed sign inner =>
    have operand := inner.climbs 69 (by omega) loose (.stop loose)
    exact .sign operand further
  | power p => exact p.climbs bound lt loose further

theorem Power.climbs (p : Power α) (bound : Nat) (lt : bound < 80) {rest rest' : List (Token α)}
    (loose : Loosens 69 rest) {tree : Grouped α}
    (further : Extends bound p.grouped rest tree rest') :
    Climbs bound (p.tokens ++ rest) tree rest' := by
  cases p with
  | primary operand => exact .operand further
  | raised base exponent =>
    -- the exponent is read with a bound just below the power of the operator before it
    have operand := exponent.climbs 79 (by omega) loose (.stop (loose.mono (by omega)))
    exact .operand (.operator lt operand further)

end

/-- The loop reads each phrase of a stratum to the tree of its derivation, `power` being the least
with which their operators draw, and goes on from there. -/
def Climbable (power : Nat) (tokens : β → List (Token α)) (grouped : β → Grouped α) : Prop :=
  ∀ (b : β) {bound : Nat}, bound < power → ∀ {rest rest' : List (Token α)}, Loosens power rest →
    ∀ {tree : Grouped α}, Extends bound (grouped b) rest tree rest' →
    Climbs bound (tokens b ++ rest) tree rest'

theorem Unary.climbable : Climbable 69 (Unary.tokens (α := α)) Unary.grouped :=
  fun u bound lt _ _ loose _ further => u.climbs bound (Nat.lt_trans lt (by decide)) loose further

variable (ops) in
theorem Chain.climbable {high : Nat} (low : Nat) {tokens : β → List (Token α)}
    {grouped : β → Grouped α} (inner : Climbable high tokens grouped) (lt : low < high)
    (powers : ∀ op ∈ ops, op.leftPower = low ∧ op.rightPower = low) :
    Climbable low (Chain.tokens tokens : Chain ops β → List (Token α)) (Chain.grouped grouped) := by
  intro c bound hb rest rest' loose tree further
  induction c generalizing rest tree rest' with
  | part first =>
    exact inner first (Nat.lt_trans hb lt) (loose.mono (Nat.le_of_lt lt)) further
  | next init op member right ih =>
    obtain ⟨hl, hr⟩ := powers op member
    have operand : Climbs op.rightPower (tokens right ++ rest) (grouped right) rest := by
      rw [hr]
      exact inner right lt (loose.mono (Nat.le_of_lt lt)) (.stop loose)
    have turn : Loosens low (.operator op :: (tokens right ++ rest)) := by
      intro op' rest hw
      cases hw
      exact Nat.le_of_eq hl
    rw [Chain.tokens, List.append_assoc]
    exact ih turn (.operator (hl ▸ hb) operand further)

namespace OrPhrase

theorem climbable : Climbable 10 (OrPhrase.tokens (α := α)) grouped := by
  have product := Chain.climbable [.multiply, .divide] 60 (Unary.climbable (α := α)) (by decide)
    (by decide)
  have sum := Chain.climbable [.add, .subtract] 50 product (by decide) (by decide)
  have relation := Chain.climbable [.less, .lessEqual, .greater, .greaterEqual] 40 sum (by decide)
    (by decide)
  have equality := Chain.climbable [.equal, .notEqual] 30 relation (by decide) (by decide)
  have and := Chain.climbable [.and] 20 equality (by decide) (by decide)
  exact Chain.climbable [.or] 10 and (by decide) (by decide)

theorem climbs (d : OrPhrase α) : Climbs 0 d.tokens d.grouped [] := by
  have loose : ∀ power, Loosens (α := α) power [] := fun _ _ _ hw => by cases hw
  simpa using climbable d (by decide) (loose 10) (.stop (loose 0))

end OrPhrase

/-- The stack of pending operators groups a row into the one tree that the loop of binding powers
reads from its words. -/
theorem Row.climbs_iff (row : Row α) (tree : Grouped α) (rest : List (Token α)) :
    Climbs 0 row.tokens tree rest ↔ tree = row.group ∧ rest = [] := by
  obtain ⟨d, rfl⟩ := OrPhrase.exists_row row
  have read : Climbs 0 (d.row none).tokens (d.row none).group [] := by
    rw [d.group_row, OrPhrase.stratum.tokens_row, Continuation.tokens, List.append_nil]
    exact d.climbs
  constructor
  · exact fun h => h.deterministic read
  · rintro ⟨rfl, rfl⟩
    exact read

end LessonPlot
