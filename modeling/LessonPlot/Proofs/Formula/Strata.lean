import LessonPlot.Proofs.Formula.Stratified
import Mathlib.Logic.Function.Basic

namespace LessonPlot

variable {α β : Type} {ops : List InfixOp}

/-- What a row goes on with after one of its operands. -/
abbrev Continuation (α : Type) := Option (InfixOp × Row α)

namespace Continuation

def tokens : Continuation α → List (Token α)
  | none => []
  | some (op, rest) => .operator op :: rest.tokens

/-- What becomes of a value, and of the operators that wait for it, in the rest of a row. -/
def finish (value : Grouped α) (pending : List (Pending α)) : Continuation α → Grouped α
  | none => Pending.closeAll value pending
  | some (op, rest) =>
    rest.groupUnder (.operator op (Pending.settle op.leftPower value pending).1 ::
      (Pending.settle op.leftPower value pending).2)

end Continuation

namespace Row

/-- A row that starts with one operand and its signs. -/
def start (signs : List PrefixOp) (operand : α) : Continuation α → Row α
  | none => .last signs operand
  | some (op, rest) => .link signs operand op rest

def addSign (sign : PrefixOp) : Row α → Row α
  | .last signs operand => .last (sign :: signs) operand
  | .link signs operand op rest => .link (sign :: signs) operand op rest

theorem tokens_start (signs : List PrefixOp) (operand : α) (next : Continuation α) :
    (start signs operand next).tokens = signs.map .sign ++ .operand operand :: next.tokens := by
  rcases next with _ | ⟨op, rest⟩ <;> rfl

theorem tokens_addSign (sign : PrefixOp) (row : Row α) :
    (row.addSign sign).tokens = .sign sign :: row.tokens := by
  cases row <;> rfl

theorem groupUnder_start (signs : List PrefixOp) (operand : α) (next : Continuation α)
    (pending : List (Pending α)) :
    (start signs operand next).groupUnder pending =
      next.finish (.operand operand) (signs.reverse.map Pending.sign ++ pending) := by
  rcases next with _ | ⟨op, rest⟩ <;> rfl

theorem groupUnder_addSign (sign : PrefixOp) (row : Row α) (pending : List (Pending α)) :
    (row.addSign sign).groupUnder pending = row.groupUnder (.sign sign :: pending) := by
  cases row <;> simp [addSign, groupUnder]

theorem signs_append_operand_inj {signs signs' : List PrefixOp} {operand operand' : α}
    {rest rest' : List (Token α)}
    (h : signs.map .sign ++ .operand operand :: rest =
      signs'.map .sign ++ .operand operand' :: rest') :
    signs = signs' ∧ operand = operand' ∧ rest = rest' := by
  induction signs generalizing signs' with
  | nil =>
    cases signs' with
    | nil => simpa using h
    | cons sign' signs' => simp at h
  | cons sign signs ih =>
    cases signs' with
    | nil => simp at h
    | cons sign' signs' =>
      simp only [List.map_cons, List.cons_append, List.cons.injEq, Token.sign.injEq] at h
      obtain ⟨rfl, h⟩ := h
      simpa using ih h

/-- A row can be read off its words. -/
theorem tokens_injective : Function.Injective (tokens : Row α → List (Token α)) := by
  intro row row' h
  induction row generalizing row' with
  | last signs operand =>
    cases row' with
    | last signs' operand' =>
      obtain ⟨rfl, rfl, _⟩ := signs_append_operand_inj h
      rfl
    | link signs' operand' op' rest' =>
      obtain ⟨_, _, ht⟩ := signs_append_operand_inj h
      cases ht
  | link signs operand op rest ih =>
    cases row' with
    | last signs' operand' =>
      obtain ⟨_, _, ht⟩ := signs_append_operand_inj h
      cases ht
    | link signs' operand' op' rest' =>
      obtain ⟨rfl, rfl, ht⟩ := signs_append_operand_inj h
      obtain ⟨hop, hrest⟩ := List.cons.inj ht
      cases hop
      rw [ih hrest]

end Row

namespace Pending

theorem power_le (top : Pending α) : top.power ≤ 79 := by
  rcases top with sign | ⟨op, left⟩
  · simp [power, PrefixOp.rightPower]
  · cases op <;> simp [power, InfixOp.rightPower, InfixOp.leftPower]

theorem closeAll_concat (value : Grouped α) (inner : List (Pending α)) (top : Pending α) :
    closeAll value (inner ++ [top]) = top.close (closeAll value inner) := by
  simp [closeAll]

/-- A list of pending operators whose innermost one leaves operands to an operator of some power. -/
def Looser (power : Nat) (pending : List (Pending α)) : Prop :=
  ∀ top ∈ pending.head?, top.power < power

theorem settle_of_looser {power : Nat} {pending : List (Pending α)} (h : Looser power pending)
    (value : Grouped α) : settle power value pending = (value, pending) := by
  cases pending with
  | nil => rfl
  | cons top below => simp [settle, h top rfl]

/-- Operators that draw tightly enough take the operand, and those below them wait on. -/
theorem settle_append {power : Nat} {inner pending : List (Pending α)}
    (tight : ∀ top ∈ inner, power ≤ top.power) (loose : Looser power pending)
    (value : Grouped α) :
    settle power value (inner ++ pending) = (closeAll value inner, pending) := by
  induction inner generalizing value with
  | nil => exact settle_of_looser loose value
  | cons top inner ih =>
    have ht : ¬ top.power < power := by
      have := tight top (by simp)
      omega
    simp only [List.cons_append, settle, if_neg ht]
    exact ih (fun top hm => tight top (by simp [hm])) _

end Pending

mutual

/-- The tree of a derivation. -/
def Unary.grouped : Unary α → Grouped α
  | .signed sign inner => .signed sign inner.grouped
  | .power inner => inner.grouped

def Power.grouped : Power α → Grouped α
  | .primary operand => .operand operand
  | .raised base exponent => .joined .power (.operand base) exponent.grouped

end

def Chain.grouped (inner : β → Grouped α) : Chain ops β → Grouped α
  | .part first => inner first
  | .next init op _ right => .joined op (init.grouped inner) (inner right)

mutual

/-- The row that starts with the words of a derivation. -/
def Unary.row : Unary α → Continuation α → Row α
  | .signed sign inner, next => (inner.row next).addSign sign
  | .power inner, next => inner.row next

def Power.row : Power α → Continuation α → Row α
  | .primary operand, next => .start [] operand next
  | .raised base exponent, next => .start [] base (some (.power, exponent.row next))

end

def Chain.row (inner : β → Continuation α → Row α) : Chain ops β → Continuation α → Row α
  | .part first, after => inner first after
  | .next init op _ right, after => init.row inner (some (op, inner right after))

/-- What the phrases of one stratum have in common, `power` being the least with which their
operators draw. Read under operators that are looser than that, a phrase ends as a value and some
operators of its own that wait for it. -/
structure Stratum (power : Nat) (tokens : β → List (Token α)) (grouped : β → Grouped α)
    (row : β → Continuation α → Row α) : Prop where
  tokens_row : ∀ b next, (row b next).tokens = tokens b ++ next.tokens
  injective : Function.Injective grouped
  root : ∀ b op left right, grouped b = .joined op left right → power ≤ op.leftPower
  single : ∀ signs operand, ∃ b, ∀ next, row b next = .start signs operand next
  link : ∀ signs operand op b, power ≤ op.leftPower →
    ∃ b', ∀ next, row b' next = .link signs operand op (row b next)
  reading : ∀ b pending, Pending.Looser power pending →
    ∃ value inner, Pending.closeAll value inner = grouped b ∧
      (∀ top ∈ inner, power ≤ top.power) ∧
      ∀ next, (row b next).groupUnder pending = next.finish value (inner ++ pending)

namespace Row

theorem foldr_addSign_start (signs : List PrefixOp) (operand : α) (next : Continuation α) :
    signs.foldr addSign (start [] operand next) = start signs operand next := by
  induction signs with
  | nil => rfl
  | cons sign signs ih =>
    rw [List.foldr_cons, ih]
    rcases next with _ | ⟨op, rest⟩ <;> rfl

end Row

namespace Unary

theorem row_foldr_signed (signs : List PrefixOp) (inner : Unary α) (next : Continuation α) :
    (signs.foldr signed inner).row next = signs.foldr Row.addSign (inner.row next) := by
  induction signs with
  | nil => rfl
  | cons sign signs ih => rw [List.foldr_cons, List.foldr_cons, ← ih, row]

end Unary

mutual

theorem Unary.tokens_row (u : Unary α) (next : Continuation α) :
    (u.row next).tokens = u.tokens ++ next.tokens := by
  cases u with
  | signed sign inner =>
    rw [Unary.row, Row.tokens_addSign, Unary.tokens_row inner, Unary.tokens, List.cons_append]
  | power inner => exact Power.tokens_row inner next

theorem Power.tokens_row (p : Power α) (next : Continuation α) :
    (p.row next).tokens = p.tokens ++ next.tokens := by
  cases p with
  | primary operand => rw [Power.row, Row.tokens_start]; rfl
  | raised base exponent =>
    rw [Power.row, Row.tokens_start]
    simp [Continuation.tokens, Unary.tokens_row exponent, Power.tokens]

end

mutual

theorem Unary.grouped_injective {u u' : Unary α} (h : u.grouped = u'.grouped) : u = u' := by
  cases u with
  | signed sign inner =>
    cases u' with
    | signed sign' inner' =>
      simp only [Unary.grouped, Grouped.signed.injEq] at h
      rw [h.1, Unary.grouped_injective h.2]
    | power inner' => cases inner' <;> cases h
  | power inner =>
    cases u' with
    | signed sign' inner' => cases inner <;> cases h
    | power inner' => rw [Power.grouped_injective h]

theorem Power.grouped_injective {p p' : Power α} (h : p.grouped = p'.grouped) : p = p' := by
  cases p with
  | primary operand =>
    cases p' with
    | primary operand' => simpa [Power.grouped] using h
    | raised base' exponent' => cases h
  | raised base exponent =>
    cases p' with
    | primary operand' => cases h
    | raised base' exponent' =>
      simp only [Power.grouped, Grouped.joined.injEq, Grouped.operand.injEq, true_and] at h
      rw [h.1, Unary.grouped_injective h.2]

end

mutual

theorem Unary.reading (u : Unary α) (pending : List (Pending α)) :
    ∃ value inner, Pending.closeAll value inner = u.grouped ∧ (∀ top ∈ inner, 69 ≤ top.power) ∧
      ∀ next, (u.row next).groupUnder pending = next.finish value (inner ++ pending) := by
  cases u with
  | signed sign u =>
    obtain ⟨value, inner, hc, hi, hr⟩ := Unary.reading u (.sign sign :: pending)
    refine ⟨value, inner ++ [.sign sign], ?_, ?_, ?_⟩
    · rw [Pending.closeAll_concat, hc, Pending.close, Unary.grouped]
    · exact List.forall_mem_append.mpr ⟨hi, List.forall_mem_singleton.mpr (Nat.le_refl 69)⟩
    · intro next
      rw [Unary.row, Row.groupUnder_addSign, hr, List.append_assoc, List.singleton_append]
  | power p => exact Power.reading p pending

theorem Power.reading (p : Power α) (pending : List (Pending α)) :
    ∃ value inner, Pending.closeAll value inner = p.grouped ∧ (∀ top ∈ inner, 69 ≤ top.power) ∧
      ∀ next, (p.row next).groupUnder pending = next.finish value (inner ++ pending) := by
  cases p with
  | primary operand =>
    exact ⟨.operand operand, [], rfl, by simp, fun next => Row.groupUnder_start [] operand next _⟩
  | raised base exponent =>
    obtain ⟨value, inner, hc, hi, hr⟩ :=
      Unary.reading exponent (.operator .power (.operand base) :: pending)
    refine ⟨value, inner ++ [.operator .power (.operand base)], ?_, ?_, ?_⟩
    · rw [Pending.closeAll_concat, hc, Pending.close, Power.grouped]
    · refine List.forall_mem_append.mpr ⟨hi, List.forall_mem_singleton.mpr ?_⟩
      rw [Pending.power, InfixOp.rightPower]
      omega
    · intro next
      -- nothing draws an operand as tightly as a power, so the base is left to it
      have loose : Pending.Looser InfixOp.power.leftPower pending := by
        intro top _
        have := top.power_le
        simp only [InfixOp.leftPower]
        omega
      rw [Power.row, Row.groupUnder_start, List.reverse_nil, List.map_nil, List.nil_append,
        Continuation.finish, Pending.settle_of_looser loose, hr, List.append_assoc,
        List.singleton_append]

end

theorem Unary.stratum : Stratum 69 (Unary.tokens (α := α)) Unary.grouped Unary.row where
  tokens_row := Unary.tokens_row
  injective _ _ := Unary.grouped_injective
  root u op left right h := by
    cases u with
    | signed sign u => cases h
    | power p =>
      cases p with
      | primary operand => cases h
      | raised base exponent =>
        simp only [Unary.grouped, Power.grouped, Grouped.joined.injEq] at h
        rw [← h.1, InfixOp.leftPower]
        omega
  single signs operand := by
    refine ⟨signs.foldr .signed (.power (.primary operand)), fun next => ?_⟩
    rw [Unary.row_foldr_signed]
    exact Row.foldr_addSign_start signs operand next
  link signs operand op u h := by
    have hp : op = .power := by
      cases op <;> simp [InfixOp.leftPower] at h ⊢
    refine ⟨signs.foldr .signed (.power (.raised operand u)), fun next => ?_⟩
    rw [Unary.row_foldr_signed, hp]
    exact Row.foldr_addSign_start signs operand (some (.power, u.row next))
  reading u pending _ := u.reading pending

namespace Chain

variable {low high : Nat} {tokens : β → List (Token α)} {grouped : β → Grouped α}
  {row : β → Continuation α → Row α}

theorem tokens_row (inner : Stratum high tokens grouped row) (c : Chain ops β)
    (after : Continuation α) : (c.row row after).tokens = c.tokens tokens ++ after.tokens := by
  induction c generalizing after with
  | part first => exact inner.tokens_row first after
  | next init op member right ih =>
    rw [Chain.row, ih, Continuation.tokens, inner.tokens_row, Chain.tokens, List.append_assoc,
      List.cons_append]

theorem root (inner : Stratum high tokens grouped row) (lt : low < high)
    (powers : ∀ op ∈ ops, op.leftPower = low) (c : Chain ops β) {op : InfixOp}
    {left right : Grouped α} (h : c.grouped grouped = .joined op left right) :
    low ≤ op.leftPower := by
  cases c with
  | part first => exact Nat.le_trans (Nat.le_of_lt lt) (inner.root first op left right h)
  | next init op' member right' =>
    simp only [Chain.grouped, Grouped.joined.injEq] at h
    exact Nat.le_of_eq (h.1 ▸ powers op' member).symm

theorem grouped_injective (inner : Stratum high tokens grouped row) (lt : low < high)
    (powers : ∀ op ∈ ops, op.leftPower = low) {c c' : Chain ops β}
    (h : c.grouped grouped = c'.grouped grouped) : c = c' := by
  induction c generalizing c' with
  | part first =>
    cases c' with
    | part first' => rw [inner.injective h]
    | next init' op' member' right' =>
      have := inner.root first op' _ _ h
      rw [powers op' member'] at this
      omega
  | next init op member right ih =>
    cases c' with
    | part first' =>
      have := inner.root first' op _ _ h.symm
      rw [powers op member] at this
      omega
    | next init' op' member' right' =>
      simp only [Chain.grouped, Grouped.joined.injEq] at h
      obtain ⟨rfl, hi, hr⟩ := h
      rw [ih hi, inner.injective hr]

theorem link (inner : Stratum high tokens grouped row)
    (complete : ∀ op, low ≤ op.leftPower → op ∈ ops ∨ high ≤ op.leftPower)
    (signs : List PrefixOp) (operand : α) {op : InfixOp} (h : low ≤ op.leftPower)
    (c : Chain ops β) :
    ∃ c' : Chain ops β, ∀ after,
      c'.row row after = .link signs operand op (c.row row after) := by
  induction c with
  | part first =>
    rcases complete op h with member | tight
    · obtain ⟨b, hb⟩ := inner.single signs operand
      exact ⟨.next (.part b) op member first, fun after => hb _⟩
    · obtain ⟨b, hb⟩ := inner.link signs operand op first tight
      exact ⟨.part b, hb⟩
  | next init op' member right ih =>
    obtain ⟨c', hc⟩ := ih
    exact ⟨.next c' op' member right, fun after => hc _⟩

theorem reading (inner : Stratum high tokens grouped row) (lt : low < high)
    (powers : ∀ op ∈ ops, op.leftPower = low ∧ op.rightPower = low) (c : Chain ops β)
    {pending : List (Pending α)} (loose : Pending.Looser low pending) :
    ∃ value waiting, Pending.closeAll value waiting = c.grouped grouped ∧
      (∀ top ∈ waiting, low ≤ top.power) ∧
      ∀ after, (c.row row after).groupUnder pending = after.finish value (waiting ++ pending) := by
  induction c with
  | part first =>
    have loose' : Pending.Looser high pending := fun top hm => Nat.lt_trans (loose top hm) lt
    obtain ⟨value, waiting, hc, ht, hr⟩ := inner.reading first pending loose'
    exact ⟨value, waiting, hc, fun top hm => Nat.le_trans (Nat.le_of_lt lt) (ht top hm), hr⟩
  | next init op member right ih =>
    obtain ⟨value, waiting, hc, ht, hr⟩ := ih
    obtain ⟨hl, hp⟩ := powers op member
    have loose' : Pending.Looser high (.operator op (init.grouped grouped) :: pending) := by
      intro top hm
      cases hm
      simpa [Pending.power, hp] using lt
    obtain ⟨value', waiting', hc', ht', hr'⟩ := inner.reading right _ loose'
    refine ⟨value', waiting' ++ [.operator op (init.grouped grouped)], ?_, ?_, ?_⟩
    · rw [Pending.closeAll_concat, hc', Pending.close, Chain.grouped]
    · refine List.forall_mem_append.mpr
        ⟨fun top hm => Nat.le_trans (Nat.le_of_lt lt) (ht' top hm), ?_⟩
      exact List.forall_mem_singleton.mpr (Nat.le_of_eq hp.symm)
    · intro after
      -- the operator takes all that has been read of the chain, and no operator from before it
      rw [Chain.row, hr, Continuation.finish, hl, Pending.settle_append ht loose, hc, hr',
        List.append_assoc, List.singleton_append]

variable (ops low) in
theorem stratum (inner : Stratum high tokens grouped row) (lt : low < high)
    (powers : ∀ op ∈ ops, op.leftPower = low ∧ op.rightPower = low)
    (complete : ∀ op, low ≤ op.leftPower → op ∈ ops ∨ high ≤ op.leftPower) :
    Stratum low (Chain.tokens tokens : Chain ops β → List (Token α)) (Chain.grouped grouped)
      (Chain.row row) where
  tokens_row := tokens_row inner
  injective _ _ := grouped_injective inner lt fun op hm => (powers op hm).1
  root c _ _ _ := root inner lt (fun op hm => (powers op hm).1) c
  single signs operand := by
    obtain ⟨b, hb⟩ := inner.single signs operand
    exact ⟨.part b, hb⟩
  link signs operand _ c h := link inner complete signs operand h c
  reading c _ := reading inner lt powers c

end Chain

namespace OrPhrase

def grouped : OrPhrase α → Grouped α :=
  Chain.grouped (Chain.grouped (Chain.grouped (Chain.grouped (Chain.grouped
    (Chain.grouped Unary.grouped)))))

def row : OrPhrase α → Continuation α → Row α :=
  Chain.row (Chain.row (Chain.row (Chain.row (Chain.row (Chain.row Unary.row)))))

/-- All strata of the grammar, each with its powers. -/
theorem stratum : Stratum 10 (OrPhrase.tokens (α := α)) grouped row := by
  have product := Chain.stratum [.multiply, .divide] 60 (Unary.stratum (α := α)) (by decide)
    (by decide) (by intro op; cases op <;> decide)
  have sum := Chain.stratum [.add, .subtract] 50 product (by decide) (by decide)
    (by intro op; cases op <;> decide)
  have relation := Chain.stratum [.less, .lessEqual, .greater, .greaterEqual] 40 sum (by decide)
    (by decide) (by intro op; cases op <;> decide)
  have equality := Chain.stratum [.equal, .notEqual] 30 relation (by decide) (by decide)
    (by intro op; cases op <;> decide)
  have and := Chain.stratum [.and] 20 equality (by decide) (by decide)
    (by intro op; cases op <;> decide)
  exact Chain.stratum [.or] 10 and (by decide) (by decide) (by intro op; cases op <;> decide)

/-- The binding powers group the words of a derivation as the derivation does. -/
theorem group_row (d : OrPhrase α) : (d.row none).group = d.grouped := by
  obtain ⟨value, inner, hc, _, hr⟩ := stratum.reading d [] (by simp [Pending.Looser])
  rw [Row.group, hr, Continuation.finish, List.append_nil, hc]

theorem exists_row (r : Row α) : ∃ d : OrPhrase α, d.row none = r := by
  induction r with
  | last signs operand =>
    obtain ⟨d, hd⟩ := stratum.single signs operand
    exact ⟨d, hd none⟩
  | link signs operand op rest ih =>
    obtain ⟨d, rfl⟩ := ih
    obtain ⟨d', hd⟩ := stratum.link signs operand op d (by cases op <;> decide)
    exact ⟨d', hd none⟩

theorem row_of_tokens {d : OrPhrase α} {r : Row α} (h : d.tokens = r.tokens) : d.row none = r := by
  apply Row.tokens_injective
  rw [stratum.tokens_row, Continuation.tokens, List.append_nil, h]

end OrPhrase

end LessonPlot
