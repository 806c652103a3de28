import LessonPlot.Proofs.Expression.Verdict

namespace LessonPlot

namespace Expression

variable {α : Type}

/-- The first expression stands directly below the root of the second. -/
inductive Below : Expression α → Expression α → Prop where
  | negated (operand : RealExpression α) : Below (.real operand) (.real (.negate operand))
  | argument (function : Elementary) (argument : RealExpression α) :
      Below (.real argument) (.real (.call function argument))
  | leftTerm (op : Arithmetic) (left right : RealExpression α) :
      Below (.real left) (.real (.binary op left right))
  | rightTerm (op : Arithmetic) (left right : RealExpression α) :
      Below (.real right) (.real (.binary op left right))
  | condition (test : BoolExpression α) (chosen otherwise : RealExpression α) :
      Below (.boolean test) (.real (.select test chosen otherwise))
  | chosen (test : BoolExpression α) (chosen otherwise : RealExpression α) :
      Below (.real chosen) (.real (.select test chosen otherwise))
  | otherwise (test : BoolExpression α) (chosen otherwise : RealExpression α) :
      Below (.real otherwise) (.real (.select test chosen otherwise))
  | leftCompared (op : Comparison) (left right : RealExpression α) :
      Below (.real left) (.boolean (.compare op left right))
  | rightCompared (op : Comparison) (left right : RealExpression α) :
      Below (.real right) (.boolean (.compare op left right))
  | leftConnected (op : Connective) (left right : BoolExpression α) :
      Below (.boolean left) (.boolean (.connect op left right))
  | rightConnected (op : Connective) (left right : BoolExpression α) :
      Below (.boolean right) (.boolean (.connect op left right))
  | denied (operand : BoolExpression α) : Below (.boolean operand) (.boolean (.not operand))

/-- The nodes from the root of an expression down to one of its leaves. -/
inductive LeafPath : Expression α → List (Expression α) → Prop where
  | literal (value : α) : LeafPath (.real (.literal value)) [.real (.literal value)]
  | slot (index : Nat) : LeafPath (.real (.slot index)) [.real (.slot index)]
  | step {e child : Expression α} {nodes : List (Expression α)} (below : Below child e)
      (further : LeafPath child nodes) : LeafPath e (e :: nodes)

/-- The walk puts the nodes below the root on its stack, and no others. -/
theorem mem_children_iff {child e : Expression α} : child ∈ e.children ↔ Below child e := by
  constructor
  · intro h
    match e with
    | .real (.literal _) | .real (.slot _) => cases h
    | .real (.negate operand) =>
      obtain rfl := List.mem_singleton.mp h
      exact .negated operand
    | .real (.call function argument) =>
      obtain rfl := List.mem_singleton.mp h
      exact .argument function argument
    | .real (.binary op left right) =>
      rcases List.mem_pair.mp h with rfl | rfl
      · exact .rightTerm op left right
      · exact .leftTerm op left right
    | .real (.select test chosen otherwise) =>
      rcases List.mem_cons.mp h with rfl | h
      · exact .otherwise test chosen otherwise
      · rcases List.mem_pair.mp h with rfl | rfl
        · exact .chosen test chosen otherwise
        · exact .condition test chosen otherwise
    | .boolean (.compare op left right) =>
      rcases List.mem_pair.mp h with rfl | rfl
      · exact .rightCompared op left right
      · exact .leftCompared op left right
    | .boolean (.connect op left right) =>
      rcases List.mem_pair.mp h with rfl | rfl
      · exact .rightConnected op left right
      · exact .leftConnected op left right
    | .boolean (.not operand) =>
      obtain rfl := List.mem_singleton.mp h
      exact .denied operand
  · intro below
    cases below <;> simp [children]

/-- One more than the deepest of the nodes below the root. -/
theorem depth_eq (e : Expression α) : e.depth = (e.children.map depth).foldr max 0 + 1 := by
  rcases e with (_ | _ | _ | _ | _ | _) | (_ | _ | _) <;>
    simp [children, depth, RealExpression.depth, BoolExpression.depth] <;> omega

theorem Below.depth_lt {child e : Expression α} (below : Below child e) :
    child.depth < e.depth := by
  cases below <;> simp only [depth, RealExpression.depth, BoolExpression.depth] <;> omega

/-- An expression is a leaf, or there is a node below it that is deepest. -/
theorem exists_deepest (e : Expression α) :
    e.LeafPath [e] ∧ e.depth = 1 ∨ ∃ child, Below child e ∧ e.depth = child.depth + 1 := by
  have larger (m n : Nat) : max m n = m ∨ max m n = n :=
    (Nat.le_total n m).imp max_eq_left max_eq_right
  match e with
  | .real (.literal value) => exact .inl ⟨.literal value, rfl⟩
  | .real (.slot index) => exact .inl ⟨.slot index, rfl⟩
  | .real (.negate operand) => exact .inr ⟨_, .negated operand, rfl⟩
  | .real (.call function argument) => exact .inr ⟨_, .argument function argument, rfl⟩
  | .real (.binary op left right) =>
    rcases larger left.depth right.depth with h | h
    · exact .inr ⟨_, .leftTerm op left right, congrArg (· + 1) h⟩
    · exact .inr ⟨_, .rightTerm op left right, congrArg (· + 1) h⟩
  | .real (.select test chosen otherwise) =>
    rcases larger test.depth (max chosen.depth otherwise.depth) with h | h
    · exact .inr ⟨_, .condition test chosen otherwise, congrArg (· + 1) h⟩
    · rcases larger chosen.depth otherwise.depth with h' | h'
      · exact .inr ⟨_, .chosen test chosen otherwise, congrArg (· + 1) (h.trans h')⟩
      · exact .inr ⟨_, .otherwise test chosen otherwise, congrArg (· + 1) (h.trans h')⟩
  | .boolean (.compare op left right) =>
    rcases larger left.depth right.depth with h | h
    · exact .inr ⟨_, .leftCompared op left right, congrArg (· + 1) h⟩
    · exact .inr ⟨_, .rightCompared op left right, congrArg (· + 1) h⟩
  | .boolean (.connect op left right) =>
    rcases larger left.depth right.depth with h | h
    · exact .inr ⟨_, .leftConnected op left right, congrArg (· + 1) h⟩
    · exact .inr ⟨_, .rightConnected op left right, congrArg (· + 1) h⟩
  | .boolean (.not operand) => exact .inr ⟨_, .denied operand, rfl⟩

theorem LeafPath.length_le_depth {e : Expression α} {nodes : List (Expression α)}
    (path : e.LeafPath nodes) : nodes.length ≤ e.depth := by
  induction path with
  | literal value => exact Nat.le_refl 1
  | slot index => exact Nat.le_refl 1
  | step below further ih =>
    rw [List.length_cons]
    exact Nat.lt_of_le_of_lt ih below.depth_lt

/-- Some path to a leaf is as long as the expression is deep. -/
theorem exists_leafPath_length_eq (e : Expression α) :
    ∃ nodes, e.LeafPath nodes ∧ nodes.length = e.depth := by
  induction depth : e.depth using Nat.strong_induction_on generalizing e with
  | _ n ih =>
    rcases e.exists_deepest with ⟨leaf, one⟩ | ⟨child, below, deeper⟩
    · exact ⟨[e], leaf, one.symm.trans depth⟩
    · obtain ⟨nodes, path, length⟩ := ih child.depth (by omega) child rfl
      exact ⟨e :: nodes, .step below path, by rw [List.length_cons, length]; omega⟩

/-- What the walk has between two rounds: the deepest level that it has met, and the nodes on its
stack, each with its own level. -/
structure Walk (α : Type) where
  deepest : Nat
  waiting : List (Expression α × Nat)

namespace Walk

def start (e : Expression α) : Walk α :=
  ⟨0, [(e, 1)]⟩

/-- A round takes a node off the stack and puts the nodes below it on; with an empty stack the walk
is over. -/
def round? : Walk α → Option (Walk α)
  | ⟨_, []⟩ => none
  | ⟨deepest, (node, level) :: waiting⟩ =>
    some ⟨max deepest level, node.children.map (·, level + 1) ++ waiting⟩

/-- So many rounds, unless the walk is over before. -/
def rounds? : Nat → Walk α → Option (Walk α)
  | 0, walk => some walk
  | n + 1, walk => walk.round?.bind (rounds? n)

/-- What the walk comes to from here. -/
def result (walk : Walk α) : Nat :=
  deepestLevel walk.deepest walk.waiting

/-- A round is over one node and leaves what the walk comes to. -/
theorem round?_spec {walk next : Walk α} (h : walk.round? = some next) :
    next.result = walk.result ∧ waitingSize next.waiting + 1 = waitingSize walk.waiting := by
  obtain ⟨deepest, _ | ⟨⟨node, level⟩, waiting⟩⟩ := walk
  · cases h
  · cases h
    have below := waitingSize_children node (level + 1)
    refine ⟨?_, ?_⟩
    · rw [result, result, deepestLevel.eq_2]
    · rw [waitingSize_append, waitingSize]
      omega

theorem eq_of_round?_eq_none {walk : Walk α} (h : walk.round? = none) :
    walk = ⟨walk.deepest, []⟩ := by
  obtain ⟨deepest, _ | ⟨⟨node, level⟩, waiting⟩⟩ := walk
  · rfl
  · cases h

/-- There are as many rounds as there are nodes. -/
theorem rounds?_waitingSize (walk : Walk α) :
    walk.rounds? (waitingSize walk.waiting) = some ⟨walk.result, []⟩ := by
  induction size : waitingSize walk.waiting generalizing walk with
  | zero =>
    cases h : walk.round? with
    | none =>
      rw [eq_of_round?_eq_none h, rounds?, result, deepestLevel.eq_1]
    | some next =>
      have fewer := (round?_spec h).2
      omega
  | succ n ih =>
    cases h : walk.round? with
    | none =>
      rw [eq_of_round?_eq_none h] at size
      cases size
    | some next =>
      obtain ⟨same, fewer⟩ := round?_spec h
      rw [rounds?, h, Option.bind_some, ih next (by omega), same]

theorem rounds?_start (e : Expression α) :
    (start e).rounds? e.size = some ⟨e.depth, []⟩ := by
  have all := (start e).rounds?_waitingSize
  have result : (start e).result = e.depth := e.walkedDepth_eq_depth
  rwa [result] at all

end Walk

variable [Scalar α] {slotOf : String → Option Nat} {text : String} {tree : Expression α}

theorem depth_le_of_parse (parsed : parse slotOf text = .ok tree) : tree.depth ≤ maxDepth := by
  obtain ⟨formula, read, built⟩ := parse_eq_ok parsed
  have nonblank : (trimSpace text.toList).isEmpty = false := by
    cases blank : (trimSpace text.toList).isEmpty with
    | true => simp [parse, blank] at parsed
    | false => rfl
  rw [parse_of_built nonblank read built] at parsed
  split at parsed
  next => cases parsed
  next shallow => exact Nat.not_lt.mp shallow

/-- The walk is over after one round for each node and has found the depth. This is the number of
nodes on a longest path to a leaf, and no path is longer than the limit in an accepted text. -/
theorem walk_finds_depth (e : Expression α) :
    (Walk.start e).rounds? e.size = some ⟨e.depth, []⟩ ∧ e.walkedDepth = e.depth ∧
      (∀ child, child ∈ e.children ↔ Below child e) ∧
      e.depth = (e.children.map depth).foldr max 0 + 1 ∧
      (∀ nodes, e.LeafPath nodes → nodes.length ≤ e.depth) ∧
      (∃ nodes, e.LeafPath nodes ∧ nodes.length = e.depth) ∧
      ∀ (slotOf : String → Option Nat) (text : String), parse slotOf text = .ok e →
        ∀ nodes, e.LeafPath nodes → nodes.length ≤ 128 :=
  ⟨Walk.rounds?_start e, e.walkedDepth_eq_depth, fun _ => mem_children_iff, e.depth_eq,
    fun _ => LeafPath.length_le_depth, e.exists_leafPath_length_eq,
    fun _ _ parsed _ path => path.length_le_depth.trans (depth_le_of_parse parsed)⟩

theorem walk_finds_depth_selection :
    let text := "x < t ? x : -T"
    ∃ tree : Expression Float, parse Scope.function.slot? text = .ok tree ∧
      (Walk.start tree).rounds? 7 = some ⟨3, []⟩ ∧ tree.walkedDepth = 3 ∧
      ∀ nodes, tree.LeafPath nodes → nodes.length ≤ 128 := by
  intro text
  let formula : Formula :=
    .choice (.link [] (.name "x") .less (.last [] (.name "t"))) (.operation (.last [] (.name "x")))
      (.operation (.last [.minus] (.name "T")))
  let tree : Expression Float :=
    .real (.select (.compare .less (.slot 0) (.slot 1)) (.slot 0) (.negate (.slot 1)))
  obtain ⟨rounds, walked, -, -, -, -, bounded⟩ := walk_finds_depth tree
  have recognised : recognise "x < t ? x : -T".toList = .ok formula := by rfl
  have read : Formula.read text = .ok formula :=
    Formula.read_eq_ok_iff.mpr ⟨by decide +kernel, recognised⟩
  have flat : tree.walkedDepth ≤ maxDepth := walked.le.trans (by decide)
  have parsed : parse Scope.function.slot? text = .ok tree :=
    parse_of_build (by decide) read rfl flat
  exact ⟨tree, parsed, rounds, walked, bounded _ _ parsed⟩

end Expression

end LessonPlot
