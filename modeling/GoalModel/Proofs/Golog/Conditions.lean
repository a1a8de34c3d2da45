import GoalModel.Proofs.Golog.Amounts
import GoalModel.Proofs.Loading

/-! # Conditions hold when their formulas do

A formula that nothing is reported about is written as a goal that succeeds exactly if the
formula is true (`Document.renderCondition_succeeds_iff`). The variables of comparisons are
shared by the whole goal, also across negations and alternatives; what makes this harmless is
that a variable is only ever bound to the value it stands for, so that each part of the goal
can be run in any answer of the parts before it (`Decides`). -/

namespace GoalModel

namespace Golog

open Prolog

variable {α : Type} [DecidableEq α] {m : Model} {I : Interpretation α}

/-- Whatever has been bound before, a goal succeeds exactly if something is true, without an
error, and it binds variables to the values that they stand for. -/
def Decides (m : Model) (I : Interpretation α) (goal : Tree) (truth : Bool) : Prop :=
  ∀ env : Env α, env.Faithful m I → ∃ envs, answers m I goal env = some envs ∧
    (∀ env' ∈ envs, env'.Faithful m I) ∧ (envs ≠ [] ↔ truth = true)

section
variable {goal left right : Tree} {a b : Bool}

theorem Decides.exists_answersAll (h : Decides m I goal b) {envs : List (Env α)}
    (henvs : ∀ env ∈ envs, env.Faithful m I) :
    ∃ envs', answersAll (answers m I goal) envs = some envs' ∧
      (∀ env ∈ envs', env.Faithful m I) ∧ (envs' ≠ [] ↔ envs ≠ [] ∧ b = true) := by
  induction envs with
  | nil => exact ⟨[], rfl, henvs, by simp⟩
  | cons env envs ih =>
    obtain ⟨henv, hrest⟩ := List.forall_mem_cons.mp henvs
    obtain ⟨first, hfirst, hfaithful, hiff⟩ := h env henv
    obtain ⟨others, hothers, hfaithful', hiff'⟩ := ih hrest
    refine ⟨first ++ others, by simp [answersAll, hfirst, hothers], fun env' henv' => ?_, ?_⟩
    · exact (List.mem_append.mp henv').elim (hfaithful env') (hfaithful' env')
    · rw [ne_eq, List.append_eq_nil_iff, not_and_or, ← ne_eq, ← ne_eq, hiff, hiff']
      simp

theorem Decides.and (hl : Decides m I left a) (hr : Decides m I right b) :
    Decides m I (.binary (.operator .and) left right) (a && b) := by
  intro env henv
  obtain ⟨envs, hleft, hfaithful, hiff⟩ := hl env henv
  obtain ⟨envs', hall, hfaithful', hiff'⟩ := hr.exists_answersAll hfaithful
  refine ⟨envs', ?_, hfaithful', ?_⟩
  · rw [answers, hleft]
    exact hall
  · rw [hiff', hiff, Bool.and_eq_true]

theorem Decides.or (hl : Decides m I left a) (hr : Decides m I right b) :
    Decides m I (.binary (.operator .or) left right) (a || b) := by
  intro env henv
  obtain ⟨envs, hleft, hfaithful, hiff⟩ := hl env henv
  obtain ⟨envs', hright, hfaithful', hiff'⟩ := hr env henv
  refine ⟨envs ++ envs', ?_, fun env' henv' => ?_, ?_⟩
  · rw [answers, hleft, hright]
    rfl
  · exact (List.mem_append.mp henv').elim (hfaithful env') (hfaithful' env')
  · rw [ne_eq, List.append_eq_nil_iff, not_and_or, ← ne_eq, ← ne_eq, hiff, hiff', Bool.or_eq_true]

theorem Decides.negation (h : Decides m I goal b) :
    Decides m I (.unary .negation goal) (!b) := by
  intro env henv
  obtain ⟨envs, hgoal, -, hiff⟩ := h env henv
  refine ⟨if envs.isEmpty then [env] else [], ?_, fun env' henv' => ?_, ?_⟩
  · rw [answers, hgoal]
    rfl
  · split at henv'
    · exact List.mem_singleton.mp henv' ▸ henv
    · cases henv'
  · cases envs <;> simp_all

/-- A goal that binds nothing. -/
theorem decides_of_answers {goal : Tree} {truth : Bool}
    (h : ∀ env : Env α, answers m I goal env = some (if truth then [env] else [])) :
    Decides m I goal truth := by
  intro env henv
  refine ⟨_, h env, fun env' henv' => ?_, by simp⟩
  split at henv'
  · exact List.mem_singleton.mp henv' ▸ henv
  · cases henv'

end

theorem answers_compare {op : BinaryOperator} (hop : op.comparisonSymbol?.isSome)
    (left right : Tree) (env : Env α) :
    answers m I (.binary (.operator op) left right) env = (do
      let holds ← I.compare op (← evaluate I env left) (← evaluate I env right)
      return if holds then [env] else []) := by
  cases op with
  | gt | gte | lt | lte | eq | neq => rfl
  | _ => cases hop

omit [DecidableEq α] in
theorem truth?_compare {op : BinaryOperator} (hop : op.comparisonSymbol?.isSome)
    (left right : Formula Handle) : (Formula.binary op left right).truth? m I =
      (do I.compare op (← left.amount? I) (← right.amount? I)) := by
  cases op with
  | gt | gte | lt | lte | eq | neq => rfl
  | _ => cases hop

omit [DecidableEq α] in
theorem exists_leaf_merge {left right : Formula Handle} {l r : Quantity}
    (hl : RendersQuantity m left l) (hr : RendersQuantity m right r) :
    ∀ b ∈ Binding.merge l.bindings r.bindings, ∃ leaf, leafBinding? m leaf = some b := by
  intro b hb
  exact (Binding.mem_merge.mp hb).elim (hl.exists_leaf b) (hr.exists_leaf b)

/-- A comparison after the bindings of both sides. -/
theorem decides_comparison (hn : m.Named) {op : BinaryOperator} {left right : Formula Handle}
    {l r : Quantity} {lt rt : Tree} (hop : op.comparisonSymbol?.isSome)
    (hl : RendersQuantity m left l) (hr : RendersQuantity m right r)
    (hlt : ∀ env : Env α, env.Binds m I left.leaves → evaluate I env lt = left.amount? I)
    (hrt : ∀ env : Env α, env.Binds m I right.leaves → evaluate I env rt = right.amount? I)
    {truth : Bool} (htruth : (Formula.binary op left right).truth? m I = some truth) :
    Decides m I (joined ((Binding.merge l.bindings r.bindings).map (·.tree))
      (.binary (.operator op) lt rt)) truth := by
  intro env henv
  obtain ⟨env', henv', _, hbound, hanswers⟩ :=
    answers_joined hn I (exists_leaf_merge hl hr) henv
  have hleft := hlt env' (hl.binds (fun b hb => Binding.mem_merge.mpr (.inl hb)) hbound)
  have hright := hrt env' (hr.binds (fun b hb => Binding.mem_merge.mpr (.inr hb)) hbound)
  have htest : answers m I (.binary (.operator op) lt rt) env' =
      some (if truth then [env'] else []) := by
    rw [truth?_compare hop] at htruth
    rw [answers_compare hop, hleft, hright]
    obtain ⟨x, hx, htruth⟩ := Option.bind_eq_some_iff.mp htruth
    obtain ⟨y, hy, htruth⟩ := Option.bind_eq_some_iff.mp htruth
    simp [hx, hy, htruth]
  refine ⟨if truth then [env'] else [], ?_, fun env'' henv'' => ?_, by simp⟩
  · rw [hanswers, htest]
  · split at henv''
    · exact List.mem_singleton.mp henv'' ▸ henv'
    · cases henv''

/-! ## Conditions as they are read -/

omit [DecidableEq α] in
/-- A comparison is read behind the bindings of both sides. -/
theorem reads_comparison (hn : m.Named) {op : BinaryOperator} {symbol : String}
    {left right : Formula Handle} {l r : Quantity} (hop : op.comparisonSymbol? = some symbol)
    (hl : RendersQuantity m left l) (hr : RendersQuantity m right r) :
    ∃ p ≤ 1000, (Term.chain .listing (.word "true")
        ((Binding.merge l.bindings r.bindings).map (·.goal) ++
          [.binary (.spaced symbol) l.expression r.expression])).Reads
      (joined ((Binding.merge l.bindings r.bindings).map (·.tree))
        (.binary (.operator op) (left.expressionTree m) (right.expressionTree m))) p := by
  obtain ⟨lp, hlp, hlreads⟩ := hl.reads hn
  obtain ⟨rp, hrp, hrreads⟩ := hr.reads hn
  obtain ⟨hsymbol, hlevel⟩ := isSymbol_of_comparison hop
  have hlp : lp ≤ 500 := hlp.trans (expressionPriority_le _)
  have hrp : rp ≤ 500 := hrp.trans (expressionPriority_le _)
  have htest := Term.Reads.binary
    (Operator.separates_spaced hsymbol.nonempty hsymbol.symbolic hsymbol.noStop)
    (.symbol hsymbol.sign) hlreads (hlp.trans (by rw [hlevel]; decide)) hrreads
    (hrp.trans (by rw [hlevel]; decide))
  exact reads_bindings hn (exists_leaf_merge hl hr) (.word "true") htest (by rw [hlevel]; decide)

/-- A term is read as a goal that decides a formula, whatever it runs against. -/
def ReadsDeciding (m : Model) (t : Term) (f : Formula Handle) : Prop :=
  ∃ tree p, t.Reads tree p ∧ p ≤ 900 ∧
    ∀ {α : Type} [DecidableEq α] (I : Interpretation α), I.Total →
      ∃ truth, f.truth? m I = some truth ∧ Decides m I tree truth

namespace ReadsDeciding

variable {t l r : Term} {f left right : Formula Handle}

/-- A state term. -/
theorem stateTerm {name : String} (hname : Identifier.isValid name) (s : Situation)
    (hf : ∀ {α : Type} (I : Interpretation α), f.truth? m I = some (I.holds name s)) :
    ReadsDeciding m (holdsIn name s) f := by
  refine ⟨_, 0, reads_holdsIn hname s, Nat.zero_le _, fun I _ => ⟨_, hf I, ?_⟩⟩
  exact decides_of_answers fun env => by simp [answers, answersCall, ofText?_text]

theorem constant (value : Bool) :
    ReadsDeciding m (.word (if value then "true" else "fail")) (.bool value) := by
  cases value with
  | true =>
    refine ⟨_, 0, .word (by decide) (by decide) (by decide), Nat.zero_le _, fun I _ => ?_⟩
    exact ⟨true, rfl, decides_of_answers fun env => rfl⟩
  | false =>
    refine ⟨_, 0, .word (by decide) (by decide) (by decide), Nat.zero_le _, fun I _ => ?_⟩
    exact ⟨false, rfl, decides_of_answers fun env => rfl⟩

theorem negation (h : ReadsDeciding m t f) :
    ReadsDeciding m (.unary .negation (.group t)) (.unary .not f) := by
  obtain ⟨tree, p, hreads, hp, hdecides⟩ := h
  refine ⟨_, 900, hreads.negation (hp.trans (by decide)), Nat.le_refl _, fun I hI => ?_⟩
  obtain ⟨truth, htruth, hgoal⟩ := hdecides I hI
  refine ⟨!truth, ?_, hgoal.negation⟩
  rw [Formula.truth?, htruth]
  rfl

theorem conjunction (hl : ReadsDeciding m l left) (hr : ReadsDeciding m r right) :
    ReadsDeciding m (.group (.binary .conjunction l r)) (.binary .and left right) := by
  obtain ⟨lt, lp, hlreads, hlp, hldecides⟩ := hl
  obtain ⟨rt, rp, hrreads, hrp, hrdecides⟩ := hr
  have hreads := Term.Reads.binary Operator.separates_conjunction .comma hlreads
    (hlp.trans (by decide)) hrreads (hrp.trans (by decide))
  refine ⟨_, 0, hreads.group (by decide), Nat.zero_le _, fun I hI => ?_⟩
  obtain ⟨a, ha, hleft⟩ := hldecides I hI
  obtain ⟨b, hb, hright⟩ := hrdecides I hI
  refine ⟨a && b, ?_, hleft.and hright⟩
  rw [Formula.truth?, ha, hb]
  rfl

theorem disjunction (hl : ReadsDeciding m l left) (hr : ReadsDeciding m r right) :
    ReadsDeciding m (.group (.binary .disjunction l r)) (.binary .or left right) := by
  obtain ⟨lt, lp, hlreads, hlp, hldecides⟩ := hl
  obtain ⟨rt, rp, hrreads, hrp, hrdecides⟩ := hr
  have hreads := Term.Reads.binary Operator.separates_disjunction (.symbol rfl) hlreads
    (hlp.trans (by decide)) hrreads (hrp.trans (by decide))
  refine ⟨_, 0, hreads.group (by decide), Nat.zero_le _, fun I hI => ?_⟩
  obtain ⟨a, ha, hleft⟩ := hldecides I hI
  obtain ⟨b, hb, hright⟩ := hrdecides I hI
  refine ⟨a || b, ?_, hleft.or hright⟩
  rw [Formula.truth?, ha, hb]
  rfl

theorem comparison (hn : m.Named) {op : BinaryOperator} {symbol : String} {lq rq : Quantity}
    (hop : op.comparisonSymbol? = some symbol) (hl : RendersQuantity m left lq)
    (hr : RendersQuantity m right rq) :
    ReadsDeciding m (comparison symbol lq rq) (.binary op left right) := by
  obtain ⟨p, hp, hreads⟩ := reads_comparison hn hop hl hr
  have hsome : op.comparisonSymbol?.isSome := by rw [hop, Option.isSome_some]
  refine ⟨_, 0, hreads.group (hp.trans (by decide)), Nat.zero_le _, fun I hI => ?_⟩
  obtain ⟨x, hx⟩ := hl.exists_amount? hI.regular fun _ _ _ _ => not_false
  obtain ⟨y, hy⟩ := hr.exists_amount? hI.regular fun _ _ _ _ => not_false
  obtain ⟨truth, hcompare⟩ := Option.isSome_iff_exists.mp (hI.compare op x y hsome)
  have htruth : (Formula.binary op left right).truth? m I = some truth := by
    rw [truth?_compare hsome, hx, hy]
    exact hcompare
  exact ⟨truth, htruth, decides_comparison hn hsome hl hr (hl.evaluate_expressionTree I)
    (hr.evaluate_expressionTree I) htruth⟩

end ReadsDeciding

theorem RendersCondition.readsDeciding (hn : m.Named) {f : Formula Handle} {t : Term}
    (hf : RendersCondition m f t) (hrange : ∀ h ∈ f.atoms, h.index < m.elements.length)
    (hrecalls : f.RecallsPredicates m) : ReadsDeciding m t f := by
  induction hf with
  | @atom h _ =>
    exact .stateTerm (isValid_stateName hn (hrange h (List.mem_singleton_self _))) .current
      fun _ => rfl
  | bool value => exact .constant value
  | not _ ih => exact (ih hrange hrecalls).negation
  | previous h =>
    have hname := isValid_stateName hn (hrange h (List.mem_singleton_self _))
    have hrole : m.role? h = some .predicate := hrecalls
    have hstate : stateName m h = ended (m.nameOf h) .fluent := stateName_of_role hrole
    rw [← hstate]
    exact .stateTerm hname .initial fun _ => rfl
  | and _ _ ihl ihr =>
    obtain ⟨hleft, hright⟩ := List.forall_mem_append.mp hrange
    exact (ihl hleft hrecalls.1).conjunction (ihr hright hrecalls.2)
  | or _ _ ihl ihr =>
    obtain ⟨hleft, hright⟩ := List.forall_mem_append.mp hrange
    exact (ihl hleft hrecalls.1).disjunction (ihr hright hrecalls.2)
  | compare hop hl hr => exact .comparison hn hop hl hr

end Golog

open Golog Prolog

namespace Document

/-- A formula of a linked model that nothing is reported about is rendered as a goal that raises
no error and succeeds exactly if the formula is true. -/
theorem renderCondition_succeeds_iff {document : Document} {m : Model}
    (hlink : document.link = .ok m) {f : Formula Handle}
    (hrange : ∀ h ∈ f.atoms, h.index < m.elements.length) (hrecalls : f.RecallsPredicates m)
    {sink : Diagnostics} {t : Term} (hsilent : (renderCondition m f).run sink = (t, sink)) :
    ∃ goal, readText? t.text = some goal ∧
      ∀ {α : Type} [DecidableEq α] (I : Interpretation α), I.Total →
        ∃ truth envs, f.truth? m I = some truth ∧ answers m I goal .empty = some envs ∧
          (envs ≠ [] ↔ truth = true) := by
  have hrenders := (renderCondition_ensures m f).of_silent hsilent
  obtain ⟨goal, p, hreads, hp, hdecides⟩ :=
    hrenders.readsDeciding (named_of_link hlink) hrange hrecalls
  refine ⟨goal, hreads.readText? (hp.trans (by decide)), fun I hI => ?_⟩
  obtain ⟨truth, htruth, hgoal⟩ := hdecides I hI
  obtain ⟨envs, hanswers, _, hiff⟩ := hgoal .empty (Env.faithful_empty m I)
  exact ⟨truth, envs, htruth, hanswers, hiff⟩

/-- Walking was not hard, and the door was open before. -/
def doorFormula : Formula Handle :=
  .binary .and
    (.unary .not (.binary .gt (.atom ⟨2⟩) (.binary .minus (.number .one) (.atom ⟨12⟩))))
    (.unary .previous (.atom ⟨0⟩))

/-- Every element has the value `2`, and every state term is true. -/
def doorInterpretation : Interpretation Int where
  literal
    | .integer value => some value
    | .float _ => some 1
  negate x := some (-x)
  operate op x y := some (if op = .minus then x - y else x + y)
  compare _ x y := some (decide (y < x))
  holds _ _ := true
  value _ _ := 2

theorem doorFormula_succeeds : door.link = .ok door.linked ∧
    ∃ t goal, (renderCondition door.linked doorFormula).run .empty = (t, .empty) ∧
      readText? t.text = some goal ∧
        ∃ truth envs, doorFormula.truth? door.linked doorInterpretation = some truth ∧
          answers door.linked doorInterpretation goal .empty = some envs ∧
            (envs ≠ [] ↔ truth = true) := by
  have hlink : door.link = .ok door.linked := rfl
  have htotal : doorInterpretation.Total :=
    ⟨fun numeral => by cases numeral <;> rfl, fun _ => rfl, fun _ _ _ _ => rfl,
      fun _ _ _ _ => rfl⟩
  have hsilent : (renderCondition door.linked doorFormula).run .empty = (_, .empty) := rfl
  have hrange : ∀ h ∈ doorFormula.atoms, h.index < door.linked.elements.length := by decide
  have hrecalls : doorFormula.RecallsPredicates door.linked := ⟨trivial, rfl⟩
  obtain ⟨goal, hread, hanswers⟩ := renderCondition_succeeds_iff hlink hrange hrecalls hsilent
  exact ⟨hlink, _, goal, hsilent, hread, hanswers doorInterpretation htotal⟩

end Document

end GoalModel
