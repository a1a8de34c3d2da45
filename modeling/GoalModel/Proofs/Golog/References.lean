import GoalModel.Proofs.Golog.Amounts
import GoalModel.Proofs.Golog.Reports

/-! # What formulas refer to

A formula refers to elements where a truth value is asked for, or where a number is
(`Reference`). If nothing is reported, the goals of its rendering are those of its references and
tests that call nothing (`RendersCondition.asks`, `Asks.of_bindings`). A goal that is rendered
from a reference calls what the program defines for the element (`Reference.exists_called`). Two
kinds of references call what nobody defines, and this is not reported: those to the truth of a
quality, and those to the truth of anything but a predicate before the run (`Reference.Misplaced`,
`toll_calls_undefined`). -/

namespace GoalModel

namespace Golog

/-- What a formula asks for where it refers to an element. -/
inductive Position where
  | truth
  | amount
  deriving DecidableEq, Repr

/-- An element that a formula refers to. -/
structure Reference where
  element : Handle
  position : Position
  situation : Situation
  deriving DecidableEq, Repr

/-- References to the values of elements. -/
def amountReferences (leaves : List (Handle × Situation)) : List Reference :=
  leaves.map fun leaf => ⟨leaf.1, .amount, leaf.2⟩

end Golog

open Golog

/-- What a formula refers to where it stands for a truth value. -/
def Formula.truthReferences : Formula Handle → List Reference
  | .atom h => [⟨h, .truth, .current⟩]
  | .unary .previous (.atom h) => [⟨h, .truth, .initial⟩]
  | .unary .not operand => operand.truthReferences
  | .binary .and left right => left.truthReferences ++ right.truthReferences
  | .binary .or left right => left.truthReferences ++ right.truthReferences
  | .binary op left right =>
    if op.comparisonSymbol?.isSome then amountReferences (left.leaves ++ right.leaves) else []
  | _ => []

namespace Golog

/-! ## Goals -/

/-- The goals in a body, without the connectives between them. -/
def Term.goals : Term → List Term
  | .unary op operand =>
    if op.symbol = "\\+" ∧ operand.priority ≤ op.priority then operand.goals
    else [.unary op operand]
  | .binary op left right =>
    if (op.symbol = "," ∨ op.symbol = ";") ∧ Joins op left right then left.goals ++ right.goals
    else [.binary op left right]
  | .group inner => inner.goals
  | term => [term]

/-- A goal that calls nothing: a truth value, a comparison or an evaluation. -/
def Term.IsTest : Term → Prop
  | .word text => text = "true" ∨ text = "fail"
  | .binary _ _ _ => True
  | _ => False

/-- What a goal calls, directly or to get its truth as a number. -/
def Term.Calls (goal called : Term) : Prop :=
  goal = called ∨ ∃ bound, goal = .call "val" [called, .word bound]

section
variable (m : Model)

/-- The goal that a reference is rendered as. -/
def Reference.goal? (r : Reference) : Option Term :=
  match r.position, r.situation with
  | .truth, .current =>
    if m.role? r.element = some .effect then none
    else some (holdsIn (stateName m r.element) .current)
  | .truth, .initial => some (holdsIn (ended (m.nameOf r.element) .fluent) .initial)
  | .amount, situation => (leafBinding? m (r.element, situation)).map (·.goal)

/-- A reference to the truth of a quality, which has no truth value, or to what only a predicate
has: a truth value before the run. -/
def Reference.Misplaced (r : Reference) : Prop :=
  r.position = .truth ∧
    match r.situation with
    | .current => m.role? r.element = some .quality
    | .initial => m.role? r.element ≠ some .predicate

/-- The values that the general clause of a quality needs: those that its formula refers to, and
its own at the start if it accumulates. -/
def valueLeaves (quality : Handle) (data : Quality) : List (Handle × Situation) :=
  data.formula.leaves ++ if accumulates m quality then [(quality, .initial)] else []

/-- Apart from tests, goals are those of references. -/
structure Asks (references : List Reference) (goals : List Term) : Prop where
  rendered : ∀ r ∈ references, ∃ goal ∈ goals, r.goal? m = some goal
  covered : ∀ goal ∈ goals, goal.IsTest ∨ ∃ r ∈ references, r.goal? m = some goal

/-- The goals of a body are those of references, and what they call is defined for the elements
that they refer to. -/
structure Resolves (root : Handle) (references : List Reference) (body : Term) : Prop
    extends Asks m references body.goals where
  defined : ∀ r ∈ references, ∀ goal, r.goal? m = some goal →
    m.role? r.element ≠ some .stateVariable → ¬r.Misplaced m →
      ∃ called i, goal.Calls called ∧ called.indicator? = some i ∧
        Defines m root (.element r.element) i ∧
        (m.role? r.element ≠ some .quality →
          called = holdsIn (stateName m r.element) r.situation)

end

/-- An operator that binds more closely than the connectives is none of them. -/
theorem Term.goals_binary {op : Operator} (hop : op.priority < 1000) (left right : Term) :
    (binary op left right).goals = [.binary op left right] := by
  refine if_neg fun hconnective => ?_
  rcases hconnective.1 with hsymbol | hsymbol <;> simp [Operator.priority, hsymbol] at hop

theorem Binding.priority_goal (b : Binding) : b.goal.priority = 0 := by
  unfold goal
  split <;> rfl

theorem Binding.goals_goal (b : Binding) : b.goal.goals = [b.goal] := by
  unfold goal
  split <;> rfl

/-- Bindings and the test that needs them. -/
theorem goals_chain_bindings (bindings : List Binding) (op : Operator) (hop : op.priority < 1000)
    (left right : Term) :
    (Term.chain .listing (.word "true")
      (bindings.map (·.goal) ++ [.binary op left right])).goals =
        bindings.map (·.goal) ++ [.binary op left right] := by
  refine Term.parts_chain (fun left right hjoins => if_pos ⟨.inl rfl, hjoins⟩) (by simp) rfl ?_ ?_
  · refine List.forall_mem_append.mpr ⟨List.forall_mem_map.mpr fun b _ => ?_, ?_⟩
    · exact b.priority_goal ▸ Nat.zero_lt_succ _
    · exact List.forall_mem_singleton.mpr hop
  · refine List.forall_mem_append.mpr ⟨List.forall_mem_map.mpr fun b _ => b.goals_goal, ?_⟩
    exact List.forall_mem_singleton.mpr (Term.goals_binary hop left right)

/-! ## References and goals -/

namespace Asks

variable {m : Model} {references references' : List Reference} {goals goals' : List Term}

theorem of_test {goal : Term} (htest : goal.IsTest) : Asks m [] [goal] where
  rendered := fun _ hr => absurd hr List.not_mem_nil
  covered := List.forall_mem_singleton.mpr (.inl htest)

theorem of_binary (op : Operator) (left right : Term) : Asks m [] [.binary op left right] :=
  of_test trivial

theorem of_reference {r : Reference} {goal : Term} (hgoal : r.goal? m = some goal) :
    Asks m [r] [goal] where
  rendered := List.forall_mem_singleton.mpr ⟨goal, List.mem_singleton_self _, hgoal⟩
  covered := List.forall_mem_singleton.mpr (.inr ⟨r, List.mem_singleton_self _, hgoal⟩)

theorem append (h : Asks m references goals) (h' : Asks m references' goals') :
    Asks m (references ++ references') (goals ++ goals') where
  rendered := by
    intro r hr
    rcases List.mem_append.mp hr with hr | hr
    · obtain ⟨goal, hmem, hgoal⟩ := h.rendered r hr
      exact ⟨goal, List.mem_append_left _ hmem, hgoal⟩
    · obtain ⟨goal, hmem, hgoal⟩ := h'.rendered r hr
      exact ⟨goal, List.mem_append_right _ hmem, hgoal⟩
  covered := by
    intro goal hgoal
    rcases List.mem_append.mp hgoal with hgoal | hgoal
    · refine (h.covered goal hgoal).imp_right ?_
      rintro ⟨r, hr, hrendered⟩
      exact ⟨r, List.mem_append_left _ hr, hrendered⟩
    · refine (h'.covered goal hgoal).imp_right ?_
      rintro ⟨r, hr, hrendered⟩
      exact ⟨r, List.mem_append_right _ hr, hrendered⟩

/-- Bindings are the goals of the leaves that they look up. -/
theorem of_bindings {leaves : List (Handle × Situation)} {bindings : List Binding}
    (hbindings : ∀ b, b ∈ bindings ↔ ∃ leaf ∈ leaves, leafBinding? m leaf = some b)
    (hleaves : ∀ leaf ∈ leaves, ∃ b, leafBinding? m leaf = some b) :
    Asks m (amountReferences leaves) (bindings.map (·.goal)) where
  rendered := by
    refine List.forall_mem_map.mpr fun leaf hleaf => ?_
    obtain ⟨b, hb⟩ := hleaves leaf hleaf
    refine ⟨b.goal, List.mem_map_of_mem ((hbindings b).mpr ⟨leaf, hleaf, hb⟩), ?_⟩
    exact Option.map_eq_some_iff.mpr ⟨b, hb, rfl⟩
  covered := by
    refine List.forall_mem_map.mpr fun b hb => .inr ?_
    obtain ⟨leaf, hleaf, hb⟩ := (hbindings b).mp hb
    exact ⟨_, List.mem_map_of_mem hleaf, Option.map_eq_some_iff.mpr ⟨b, hb, rfl⟩⟩

end Asks

section
variable {m : Model} {f left right : Formula Handle} {l r : Quantity}

theorem RendersQuantity.asks_merge (hl : RendersQuantity m left l)
    (hr : RendersQuantity m right r) :
    Asks m (amountReferences (left.leaves ++ right.leaves))
      ((Binding.merge l.bindings r.bindings).map (·.goal)) := by
  refine .of_bindings (fun b => ?_) ?_
  · simp only [Binding.mem_merge, hl.mem_bindings_iff, hr.mem_bindings_iff, List.mem_append,
      or_and_right, exists_or]
  · exact List.forall_mem_append.mpr ⟨hl.exists_binding, hr.exists_binding⟩

theorem truthReferences_compare {op : BinaryOperator} (hop : op.comparisonSymbol?.isSome)
    (left right : Formula Handle) : (Formula.binary op left right).truthReferences =
      amountReferences (left.leaves ++ right.leaves) := by
  cases op with
  | gt | gte | lt | lte | eq | neq => rfl
  | _ => cases hop

theorem priority_comparison {op : BinaryOperator} {symbol : String}
    (h : op.comparisonSymbol? = some symbol) : (Operator.spaced symbol).priority < 1000 := by
  cases op <;> cases h <;> decide

/-- The connectives of a condition are written where they are read as such. -/
theorem RendersCondition.priority_lt {t : Term} (h : RendersCondition m f t) :
    t.priority < 1000 := by
  cases h with
  | not =>
    change 900 < 1000
    decide
  | _ => exact Nat.zero_lt_succ _

/-- A condition asks for what its formula refers to. -/
theorem RendersCondition.asks {t : Term} (h : RendersCondition m f t) :
    Asks m f.truthReferences t.goals := by
  induction h with
  | atom hrole => exact .of_reference (if_neg hrole)
  | bool value =>
    cases value with
    | true => exact .of_test (.inl rfl)
    | false => exact .of_test (.inr rfl)
  | not _ ih => exact ih
  | previous h => exact .of_reference rfl
  | @and _ _ l r hl hr ihl ihr =>
    have hgoals : (Term.group (.binary .conjunction l r)).goals = l.goals ++ r.goals :=
      if_pos ⟨.inl rfl, hl.priority_lt, Nat.le_of_lt hr.priority_lt⟩
    exact hgoals ▸ ihl.append ihr
  | @or _ _ l r hl hr ihl ihr =>
    have hgoals : (Term.group (.binary .disjunction l r)).goals = l.goals ++ r.goals :=
      if_pos ⟨.inr rfl, hl.priority_lt.trans (by decide), hr.priority_lt.le.trans (by decide)⟩
    exact hgoals ▸ ihl.append ihr
  | @compare op symbol left right l r hop hl hr =>
    rw [truthReferences_compare (by rw [hop]; rfl)]
    have hgoals := goals_chain_bindings (Binding.merge l.bindings r.bindings) (.spaced symbol)
      (priority_comparison hop) l.expression r.expression
    have hasks := (hl.asks_merge hr).append
      (.of_binary (.spaced symbol) l.expression r.expression)
    rw [List.append_nil] at hasks
    exact hgoals ▸ hasks

/-- The general clause of a quality asks for what its bindings look up. -/
theorem exists_asks_evaluationClause {references : List Reference} {quantity : Quantity}
    (h : Asks m references (quantity.bindings.map (·.goal))) (name : String) :
    ∃ body, evaluationClause name quantity = .rule (valueGoal name .current) body ∧
      Asks m references body.goals := by
  have hasks := h.append (.of_binary (.spaced "is") (.word "V") quantity.expression)
  rw [List.append_nil, ← goals_chain_bindings _ _ (by decide)] at hasks
  exact ⟨_, rfl, hasks⟩

/-- The leaves of a quantity are its atoms. -/
theorem RendersQuantity.map_fst_leaves {q : Quantity} (h : RendersQuantity m f q) :
    f.leaves.map Prod.fst = f.atoms := by
  induction h with
  | atom | previous | number | bool => rfl
  | negate _ ih => exact ih
  | arithmetic hop _ _ ihl ihr =>
    rw [Formula.leaves_arithmetic hop, List.map_append, ihl, ihr, Formula.atoms]

theorem map_element_amountReferences (leaves : List (Handle × Situation)) :
    (amountReferences leaves).map (·.element) = leaves.map Prod.fst := by
  simp [amountReferences, Function.comp_def]

/-- A condition refers to all atoms of its formula. -/
theorem RendersCondition.map_element_truthReferences {t : Term} (h : RendersCondition m f t) :
    f.truthReferences.map (·.element) = f.atoms := by
  induction h with
  | atom | bool | previous => rfl
  | not _ ih => exact ih
  | and _ _ ihl ihr | or _ _ ihl ihr =>
    rw [Formula.truthReferences, List.map_append, ihl, ihr, Formula.atoms]
  | compare hop hl hr =>
    rw [truthReferences_compare (by rw [hop]; rfl), map_element_amountReferences, List.map_append,
      hl.map_fst_leaves, hr.map_fst_leaves, Formula.atoms]

end

/-! ## What references call -/

section Valid
variable {m : Model} (hv : m.Valid) {root h q c : Handle}
include hv

theorem defines_stateName {role : Role} {n : Nat} (hrole : m.role? h = some role)
    (harity : definedArity? role = some n) : Defines m root (.element h) (stateName m h, n) :=
  (defines_element_iff hv).mpr
    ⟨n, by rw [hrole]; exact harity, _, stateName_mem_generatedNames m h, rfl⟩

/-- Where clauses with one argument are written for an element, its state term can be called. -/
theorem exists_called_of_stateTerm {role : Role} {goal : Term} {s : Situation}
    (hrole : m.role? h = some role) (harity : definedArity? role = some 1)
    (hgoal : goal.Calls (holdsIn (stateName m h) s)) :
    ∃ called i, goal.Calls called ∧ called.indicator? = some i ∧
      Defines m root (.element h) i ∧
      (m.role? h ≠ some .quality → called = holdsIn (stateName m h) s) :=
  ⟨_, (stateName m h, 1), hgoal, rfl, defines_stateName hv hrole harity, fun _ => rfl⟩

/-- Unless it is misplaced, a reference calls what is defined for its element. -/
theorem Reference.exists_called {r : Reference} {goal : Term} (hgoal : r.goal? m = some goal)
    (hlt : r.element.index < m.elements.length)
    (hvariable : m.role? r.element ≠ some .stateVariable) (hplaced : ¬r.Misplaced m) :
    ∃ called i, goal.Calls called ∧ called.indicator? = some i ∧
      Defines m root (.element r.element) i ∧
      (m.role? r.element ≠ some .quality →
        called = holdsIn (stateName m r.element) r.situation) := by
  obtain ⟨role, hrole⟩ := exists_role? hlt
  obtain ⟨h, position, situation⟩ := r
  simp only [goal?] at hgoal hvariable hrole
  cases position with
  | truth =>
    cases situation with
    | current =>
      obtain ⟨heffect, hgoal⟩ := Option.ite_none_left_eq_some.mp hgoal
      have hquality : m.role? h ≠ some .quality := fun hquality => hplaced ⟨rfl, hquality⟩
      have harity : definedArity? role = some 1 := by
        cases role <;> first | rfl | contradiction
      exact exists_called_of_stateTerm hv hrole harity (.inl (Option.some.inj hgoal).symm)
    | initial =>
      have hpredicate : m.role? h = some .predicate := by
        by_contra hnot
        exact hplaced ⟨rfl, hnot⟩
      have hstate : holdsIn (stateName m h) .initial = goal := by
        rw [stateName_of_role hpredicate]
        exact Option.some.inj hgoal
      exact exists_called_of_stateTerm hv hpredicate rfl (.inl hstate.symm)
  | amount =>
    obtain ⟨b, hb, rfl⟩ := Option.map_eq_some_iff.mp hgoal
    obtain ⟨reading, hreading, rfl⟩ := Option.map_eq_some_iff.mp hb
    simp only [hrole, Option.bind_some] at hreading
    cases reading with
    | state =>
      have harity : definedArity? role = some 1 := by
        cases role <;> first | rfl | cases hreading
      exact exists_called_of_stateTerm hv hrole harity (.inr ⟨_, rfl⟩)
    | value =>
      have hquality : role = .quality := by
        cases role <;> first | rfl | contradiction
      subst hquality
      exact ⟨_, (stateName m h, 2), .inl rfl, rfl, defines_stateName hv hrole rfl,
        fun hnot => absurd hrole hnot⟩

/-- The goals of a condition call what is defined. -/
theorem resolves_condition {formula : Formula Handle} {body : Term}
    (hc : m.condition? c = some formula) (hrenders : RendersCondition m formula body) :
    Resolves m root formula.truthReferences body where
  toAsks := hrenders.asks
  defined := by
    intro r hr goal hgoal
    have hatom : r.element ∈ formula.atoms := by
      rw [← hrenders.map_element_truthReferences]
      exact List.mem_map_of_mem hr
    exact r.exists_called hv hgoal (hv.index_lt_of_condition? hc hatom)

/-- The goals of the general clause of a quality call what is defined. -/
theorem resolves_value {data : Quality} {quantity : Quantity} (hq : m.quality? q = some data)
    (hrenders : RendersQuantity m data.formula quantity) :
    ∃ body, evaluationClause (m.nameOf q)
        (if accumulates m q then quantity.accumulated (m.nameOf q) else quantity) =
          .rule (valueGoal (m.nameOf q) .current) body ∧
      Resolves m root (amountReferences (valueLeaves m q data)) body := by
  have hown := leafBinding?_of_quality (Model.role?_of_quality? hq) .initial
  have hasks : Asks m (amountReferences (valueLeaves m q data))
      ((if accumulates m q then quantity.accumulated (m.nameOf q)
        else quantity).bindings.map (·.goal)) := by
    unfold valueLeaves
    cases accumulates m q with
    | false =>
      simp only [Bool.false_eq_true, if_false, List.append_nil]
      exact .of_bindings (fun _ => hrenders.mem_bindings_iff) hrenders.exists_binding
    | true =>
      simp only [if_true]
      refine .of_bindings (fun b => ?_) (List.forall_mem_append.mpr
        ⟨hrenders.exists_binding, List.forall_mem_singleton.mpr ⟨_, hown⟩⟩)
      simp only [Quantity.accumulated, Binding.mem_merge, hrenders.mem_bindings_iff,
        List.mem_append, List.mem_singleton, or_and_right, exists_or, exists_eq_left, hown,
        Option.some.injEq, eq_comm]
  obtain ⟨body, hbody, hgoals⟩ := exists_asks_evaluationClause hasks (m.nameOf q)
  refine ⟨body, hbody, hgoals, fun r hr goal hgoal => ?_⟩
  obtain ⟨leaf, _, rfl⟩ := List.mem_map.mp hr
  obtain ⟨b, hb, _⟩ := Option.map_eq_some_iff.mp hgoal
  exact Reference.exists_called hv hgoal (eq_of_leafBinding? hb).1

/-- A condition has two clauses, and the general one calls what is defined. -/
theorem exists_run_conditionClauses {formula : Formula Handle}
    (hc : m.condition? c = some formula)
    (hsilent : ((renderCondition m formula).alone (m.nameOf c)).2 = []) :
    ∃ body, ((conditionClauses m c).run .empty).1 =
        [initialTruthClause (m.nameOf c), .rule (holdsIn (m.nameOf c) .current) body] ∧
      Resolves m root formula.truthReferences body := by
  have hrenders := (renderCondition_ensures m formula).of_alone hsilent
    (Diagnostics.empty.enter (m.nameOf c))
  exact ⟨_, by rw [run_conditionClauses hc], resolves_condition hv hc hrenders⟩

/-- The general clause of a quality stands behind its base clause, if it has one, and calls what
is defined. -/
theorem exists_run_general {data : Quality} (hq : m.quality? q = some data)
    (hsilent : ((renderQuantity m data.formula).alone (m.nameOf q)).2 = []) :
    ∃ base body, ((qualityClauses m q).run .empty).1 =
        base ++ [.rule (valueGoal (m.nameOf q) .current) body] ∧
      (∀ clause ∈ base, clause = initialValueClause (m.nameOf q)) ∧
      Resolves m root (amountReferences (valueLeaves m q data)) body := by
  have hrenders := (renderQuantity_ensures m data.formula).of_alone hsilent .empty
  obtain ⟨body, hgeneral, hresolves⟩ : ∃ body, _ ∧ Resolves m root _ body :=
    resolves_value hv hq hrenders
  refine ⟨_, body, by rw [run_qualityClauses hq, hgeneral], fun clause hclause => ?_, hresolves⟩
  split at hclause
  · exact List.mem_singleton.mp hclause
  · cases hclause

end Valid

end Golog

open Golog

/-- In a program without diagnostics every condition and every quality has a general clause, and
all goals in such clauses that are rendered from references call what the program defines for the
elements that are referred to. Left out are state variables, for which nothing is ever defined,
and misplaced references. -/
theorem references_resolve {text : String} {withSchema : Bool} {m : Model}
    (h : parseModel text withSchema = .ok m) :
    ∃ t root, assemble m = .ok t ∧
      t.program = (SectionKind.all.map fun kind =>
        ⟨kind, (ownedClauses m root kind).map Prod.snd⟩) ∧
      (t.diagnostics = [] →
        (∀ c formula, m.condition? c = some formula → ∃ body,
          .rule (holdsIn (m.nameOf c) .current) body ∈ t.clauses .conditions) ∧
        (∀ clause ∈ t.clauses .conditions, ∃ c formula, m.condition? c = some formula ∧
          (clause = initialTruthClause (m.nameOf c) ∨
            ∃ body, clause = .rule (holdsIn (m.nameOf c) .current) body ∧
              Resolves m root formula.truthReferences body)) ∧
        (∀ q data, m.quality? q = some data → ∃ body,
          .rule (valueGoal (m.nameOf q) .current) body ∈ t.clauses .rewards) ∧
        ∀ clause ∈ t.clauses .rewards, clause = rewardClause m ∨
          ∃ q data, m.quality? q = some data ∧
            (clause = initialValueClause (m.nameOf q) ∨
              ∃ body, clause = .rule (valueGoal (m.nameOf q) .current) body ∧
                Resolves m root (amountReferences (valueLeaves m q data)) body)) := by
  have hv := valid_of_parseModel h
  obtain ⟨root, hroot⟩ := hv.exists_rootGoals
  refine ⟨translateFrom m root, root, assemble_eq_ok hroot, program_translateFrom m root,
    fun hsilent => ?_⟩
  obtain ⟨hqualities, hconditions⟩ := alone_eq_nil_of_diagnostics_eq_nil hv hsilent
  simp only [clauses_eq_ownedClauses, List.mem_map, Prod.exists, exists_eq_right]
  refine ⟨fun c formula hc => ?_, ?_, fun q data hq => ?_, ?_⟩
  · obtain ⟨body, hrun, -⟩ : ∃ body, _ ∧ Resolves m root _ body :=
      exists_run_conditionClauses hv hc (hconditions c formula hc)
    refine ⟨body, .element c, (mem_ownedClauses_iff hv).mpr ?_⟩
    exact .truth (Model.role?_of_condition? hc) (hrun ▸ List.mem_cons_of_mem _ List.mem_cons_self)
  · rintro clause ⟨owner, hclause⟩
    obtain ⟨c, hmem, -, hclause⟩ := Owner.mem_flatMap_clauses.mp hclause
    obtain ⟨formula, hc⟩ := Model.exists_condition? (hv.mem_conditions_iff.mp hmem)
    obtain ⟨body, hrun, hresolves⟩ := exists_run_conditionClauses hv hc (hconditions c formula hc)
    rw [hrun, List.mem_cons, List.mem_singleton] at hclause
    exact ⟨c, formula, hc, hclause.imp_right fun hgeneral => ⟨body, hgeneral, hresolves⟩⟩
  · obtain ⟨base, body, hrun, -⟩ : ∃ base body, _ ∧ _ ∧ Resolves m root _ body :=
      exists_run_general hv hq (hqualities q data hq)
    refine ⟨body, .element q, (mem_ownedClauses_iff hv).mpr ?_⟩
    exact .value (Model.role?_of_quality? hq) (hrun ▸ List.mem_append_right _ List.mem_cons_self)
  · rintro clause ⟨owner, hclause⟩
    rcases List.mem_append.mp hclause with hclause | hclause
    · obtain ⟨q, hmem, -, hclause⟩ := Owner.mem_flatMap_clauses.mp hclause
      obtain ⟨data, hq⟩ := Model.exists_quality? (hv.mem_qualities_iff.mp hmem)
      obtain ⟨base, body, hrun, hbase, hresolves⟩ :=
        exists_run_general hv hq (hqualities q data hq)
      rw [hrun, List.mem_append, List.mem_singleton] at hclause
      exact .inr ⟨q, data, hq, hclause.imp (hbase clause) fun hgeneral =>
        ⟨body, hgeneral, hresolves⟩⟩
    · exact .inl (List.mem_singleton.mp (Owner.mem_clauses.mp hclause).2)

/-! ## Misplaced references -/

/-- Conditions that refer to a quality, to the past of a goal, and to a goal. -/
def Document.toll : Document where
  name := "Toll"
  actors := [{
    name := "Robot"
    predicates := []
    stateVariables := []
    goals := [⟨"pay", [], []⟩]
    tasks := []
    qualities := [⟨"fee", false, .number .one⟩]
    conditions := [
      ⟨"due", .atom "fee"⟩,
      ⟨"paid", .unary .previous (.atom "pay")⟩,
      ⟨"done", .atom "pay"⟩] }]
  crossRun := []
  exported := []
  initializations := []

/-- The text of `Document.toll`. -/
def tollText : String := r#"{
  "name": "Toll",
  "actors": [{
    "name": "Robot",
    "goals": [{"name": "pay"}],
    "qualities": [{"name": "fee", "formula": {"number": 1}}],
    "conditions": [
      {"name": "due", "formula": {"atom": "fee"}},
      {"name": "paid", "formula": {"previous": {"atom": "pay"}}},
      {"name": "done", "formula": {"atom": "pay"}}]}]}"#

set_option maxRecDepth 10000 in
theorem parseModel_tollText : parseModel tollText true = .ok Document.toll.linked := by
  have htext : tollText = String.ofList _ := rfl
  refine eq_ok_of_toOption ?_
  rw [htext, parseModel, Json.read?_ofList]
  decide +kernel

/-- The program calls `fee(S)` and `pay_fl(s0)` without any diagnostic, and nothing in it defines
them. -/
theorem toll_calls_undefined :
    parseModel tollText true = .ok Document.toll.linked ∧
      ∃ t, assemble Document.toll.linked = .ok t ∧ t.diagnostics = [] ∧
        .rule (holdsIn "due" .current) (holdsIn "fee" .current) ∈ t.clauses .conditions ∧
        .rule (holdsIn "paid" .current) (holdsIn "pay_fl" .initial) ∈ t.clauses .conditions ∧
        ∀ kind, ∀ clause ∈ t.clauses kind,
          clause.indicator? ≠ some ("fee", 1) ∧ clause.indicator? ≠ some ("pay_fl", 1) := by
  have hroot : Document.toll.linked.rootGoals = [⟨0⟩] := by decide
  refine ⟨parseModel_tollText, translateFrom Document.toll.linked ⟨0⟩, assemble_eq_ok hroot,
    by decide, ?_, ?_, fun kind => ?_⟩ <;> rw [clauses_eq_ownedClauses]
  · exact .tail _ (.head _)
  · exact .tail _ (.tail _ (.tail _ (.head _)))
  · cases kind <;> decide

/-- The third condition calls what is defined for the goal. -/
theorem toll_done_resolves : ∃ t root body, assemble Document.toll.linked = .ok t ∧
    .rule (holdsIn "done" .current) body ∈ t.clauses .conditions ∧
    ∃ goal ∈ body.goals, ∃ called i, goal.Calls called ∧ called.indicator? = some i ∧
      Defines Document.toll.linked root (.element ⟨0⟩) i := by
  obtain ⟨t, root, ht, _, hresolves⟩ := references_resolve parseModel_tollText
  have hv := valid_of_parseModel parseModel_tollText
  have hroot : Document.toll.linked.rootGoals = [⟨0⟩] := by decide
  obtain rfl : translateFrom _ ⟨0⟩ = t := Except.ok.inj ((assemble_eq_ok hroot).symm.trans ht)
  have hdone : .rule (holdsIn "done" .current) (holdsIn "pay_Sat" .current) ∈
      (translateFrom Document.toll.linked ⟨0⟩).clauses .conditions := by
    rw [clauses_eq_ownedClauses]
    exact .tail _ (.tail _ (.tail _ (.tail _ (.tail _ (.head _)))))
  obtain ⟨c, formula, hc, hinitial | ⟨body, hgeneral, hbody⟩⟩ := (hresolves (by decide)).2.1 _ hdone
  · have hhead := congrArg Clause.head hinitial
    simp [Clause.rule, initialTruthClause, holdsIn, Term.applyWord, Term.apply,
      Situation.text] at hhead
  · obtain ⟨hhead, hbodies⟩ := Clause.mk.inj hgeneral
    obtain rfl := Option.some.inj hbodies
    have hname : Document.toll.linked.nameOf ⟨4⟩ = Document.toll.linked.nameOf c :=
      (Term.compound.inj hhead).1
    obtain rfl := hv.nameOf_inj (by decide)
      (Model.index_lt_of_role? _ (Model.role?_of_condition? hc)) hname
    have hformula : Document.toll.linked.condition? ⟨4⟩ = some (.atom ⟨0⟩) := by decide
    obtain rfl := Option.some.inj (hformula.symm.trans hc)
    have hplaced : ¬Reference.Misplaced Document.toll.linked ⟨⟨0⟩, .truth, .current⟩ :=
      fun hmisplaced => absurd hmisplaced.2 (by decide)
    obtain ⟨goal, hgoal, hrendered⟩ := hbody.rendered _ (.head _)
    obtain ⟨called, i, hcalls, hi, hdefines, _⟩ :=
      hbody.defined _ (.head _) goal hrendered (by decide) hplaced
    exact ⟨_, root, _, ht, hdone, goal, hgoal, called, i, hcalls, hi, hdefines⟩

end GoalModel
