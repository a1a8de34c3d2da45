import GoalModel.Proofs.Golog.Bindings
import GoalModel.Proofs.Golog.Reading

/-! # Quantities have the value of their formulas

The expression of a quantity is read as an expression that evaluates to what the formula stands
for, as soon as the variables in it are bound to the values of its leaves
(`RendersQuantity.exists_reads`). Operands of operators are in parentheses, so nothing but the
outermost operator can be read otherwise where an expression stands behind another operator. -/

namespace GoalModel

open Golog Prolog Identifier

/-- What the expression of a formula is read as. -/
def Formula.expressionTree (m : Model) : Formula Handle → Tree
  | .atom h => .word (bindingVariable (stateName m h) .current)
  | .number x => .numeral (.float x)
  | .bool value => .numeral (.integer (if value then 1 else 0))
  | .unary .previous (.atom h) => .word (bindingVariable (stateName m h) .initial)
  | .unary .negate operand => .unary .minus (operand.expressionTree m)
  | .unary _ _ => .numeral (.integer 0)
  | .binary op left right =>
    .binary (.operator op) (left.expressionTree m) (right.expressionTree m)

namespace Golog

variable {α : Type} {m : Model}

/-- The variables for the values of certain leaves are bound. -/
def Env.Binds (m : Model) (I : Interpretation α) (env : Env α)
    (leaves : List (Handle × Situation)) : Prop :=
  ∀ leaf ∈ leaves, env (bindingVariable (stateName m leaf.1) leaf.2) = some (I.value leaf.1 leaf.2)

theorem Env.Binds.of_arithmetic {I : Interpretation α} {env : Env α} {op : BinaryOperator}
    {symbol : String} (hop : op.arithmeticSymbol? = some symbol) {left right : Formula Handle}
    (henv : env.Binds m I (Formula.binary op left right).leaves) :
    env.Binds m I left.leaves ∧ env.Binds m I right.leaves := by
  rw [Formula.leaves_arithmetic hop] at henv
  exact List.forall_mem_append.mp henv

/-- A symbol of a program that is read as an operator again. -/
structure IsSymbol (symbol : String) (op : BinaryOperator) : Prop where
  nonempty : symbol.toList ≠ []
  symbolic : ∀ c ∈ symbol.toList, isSymbolic c
  noStop : symbol ≠ "."
  sign : BinarySign.ofText? symbol = some (.operator op)

theorem isSymbol_of_arithmetic {op : BinaryOperator} {symbol : String}
    (h : op.arithmeticSymbol? = some symbol) :
    IsSymbol symbol op ∧ ∀ cs, Breaks (symbol.toList ++ cs) := by
  cases op <;> cases h
  all_goals exact ⟨⟨by decide, by decide, by decide, rfl⟩, fun _ => breaks_cons (by decide)⟩

theorem isSymbol_of_comparison {op : BinaryOperator} {symbol : String}
    (h : op.comparisonSymbol? = some symbol) :
    IsSymbol symbol op ∧ (BinarySign.operator op).level = ⟨699, 700, 699⟩ := by
  cases op <;> cases h
  all_goals exact ⟨⟨by decide, by decide, by decide, rfl⟩, rfl⟩

theorem reads_ofBinding (hn : m.Named) {leaf : Handle × Situation} {b : Binding}
    (hb : leafBinding? m leaf = some b) :
    (Quantity.ofBinding b).expression.Reads
      (.word (bindingVariable (stateName m leaf.1) leaf.2)) 0 := by
  obtain ⟨hlt, _, _⟩ := eq_of_leafBinding? hb
  rw [Quantity.ofBinding, boundVariable_eq hb]
  exact reads_boundVariable hn hlt leaf.2

/-- How loosely the outermost operator of an expression may bind. -/
def expressionPriority : Formula Handle → Nat
  | .binary .plus _ _ => 500
  | .binary .minus _ _ => 500
  | _ => 400

theorem expressionPriority_le (f : Formula Handle) : expressionPriority f ≤ 500 := by
  unfold expressionPriority
  split <;> decide

theorem RendersQuantity.reads (hn : m.Named) {f : Formula Handle} {q : Quantity}
    (hq : RendersQuantity m f q) :
    ∃ p ≤ expressionPriority f, q.expression.Reads (f.expressionTree m) p := by
  induction hq with
  | atom hb | previous hb => exact ⟨0, Nat.zero_le _, reads_ofBinding hn hb⟩
  | number x => exact ⟨0, Nat.zero_le _, .number x⟩
  | bool value => exact ⟨0, Nat.zero_le _, .digit value⟩
  | negate _ ih =>
    obtain ⟨p, hp, hreads⟩ := ih
    have hp : p ≤ 500 := hp.trans (expressionPriority_le _)
    exact ⟨0, Nat.zero_le _, hreads.minus (hp.trans (by decide))⟩
  | @arithmetic op symbol left right l r hop _ _ ihl ihr =>
    obtain ⟨lp, hlp, hl⟩ := ihl
    obtain ⟨rp, hrp, hr⟩ := ihr
    obtain ⟨hsymbol, hbreaks⟩ := isSymbol_of_arithmetic hop
    have hlp : lp ≤ 500 := hlp.trans (expressionPriority_le _)
    have hrp : rp ≤ 500 := hrp.trans (expressionPriority_le _)
    have hown :
        (BinarySign.operator op).level.own ≤ expressionPriority (.binary op left right) := by
      cases op <;> cases hop <;> exact Nat.le_refl _
    -- Both operands are in parentheses, so that only the operator itself can bind loosely.
    exact ⟨_, hown, .tight hsymbol.nonempty hsymbol.symbolic hbreaks hsymbol.sign
      (hl.group (hlp.trans (by decide))) (Nat.zero_le _) hr (hrp.trans (by decide))⟩

theorem RendersQuantity.evaluate_expressionTree {f : Formula Handle} {q : Quantity}
    (hq : RendersQuantity m f q) (I : Interpretation α) (env : Env α)
    (henv : env.Binds m I f.leaves) : evaluate I env (f.expressionTree m) = f.amount? I := by
  induction hq with
  | atom | previous => exact henv _ (List.mem_singleton_self _)
  | number | bool => rfl
  | negate _ ih => rw [Formula.expressionTree, evaluate, ih henv, Formula.amount?]
  | arithmetic hop _ _ ihl ihr =>
    obtain ⟨hleft, hright⟩ := henv.of_arithmetic hop
    rw [Formula.expressionTree, evaluate, ihl hleft, ihr hright, Formula.amount?]

/-- The expression of a quantity evaluates to what its formula stands for. -/
theorem RendersQuantity.exists_reads (hn : m.Named) {f : Formula Handle} {q : Quantity}
    (hq : RendersQuantity m f q) :
    ∃ tree p, q.expression.Reads tree p ∧ p ≤ expressionPriority f ∧
      ∀ {α : Type} (I : Interpretation α) (env : Env α), env.Binds m I f.leaves →
        evaluate I env tree = f.amount? I := by
  obtain ⟨p, hp, hreads⟩ := hq.reads hn
  exact ⟨_, p, hreads, hp, hq.evaluate_expressionTree⟩

/-- The bindings of a quantity are those of the leaves of its formula. -/
theorem RendersQuantity.mem_bindings_iff {f : Formula Handle} {q : Quantity}
    (hq : RendersQuantity m f q) {b : Binding} :
    b ∈ q.bindings ↔ ∃ leaf ∈ f.leaves, leafBinding? m leaf = some b := by
  induction hq with
  | atom hb => simp [Quantity.ofBinding, Formula.leaves, hb, eq_comm]
  | previous hb => simp [Quantity.ofBinding, Formula.leaves, hb, eq_comm]
  | number x => simp [Formula.leaves]
  | bool value => simp [Formula.leaves]
  | negate _ ih => exact ih
  | arithmetic hop _ _ ihl ihr =>
    simp only [Binding.mem_merge, ihl, ihr, Formula.leaves_arithmetic hop, List.mem_append,
      or_and_right, exists_or]

theorem RendersQuantity.exists_leaf {f : Formula Handle} {q : Quantity}
    (hq : RendersQuantity m f q) : ∀ b ∈ q.bindings, ∃ leaf, leafBinding? m leaf = some b := by
  intro b hb
  obtain ⟨leaf, _, hleaf⟩ := hq.mem_bindings_iff.mp hb
  exact ⟨leaf, hleaf⟩

/-- No leaf is without a binding. -/
theorem RendersQuantity.exists_binding {f : Formula Handle} {q : Quantity}
    (hq : RendersQuantity m f q) : ∀ leaf ∈ f.leaves, ∃ b, leafBinding? m leaf = some b := by
  induction hq with
  | atom hb => exact fun _ hleaf => ⟨_, List.mem_singleton.mp hleaf ▸ hb⟩
  | previous hb => exact fun _ hleaf => ⟨_, List.mem_singleton.mp hleaf ▸ hb⟩
  | number x => exact fun _ hleaf => absurd hleaf List.not_mem_nil
  | bool value => exact fun _ hleaf => absurd hleaf List.not_mem_nil
  | negate _ ih => exact ih
  | arithmetic hop _ _ ihl ihr =>
    rw [Formula.leaves_arithmetic hop]
    exact List.forall_mem_append.mpr ⟨ihl, ihr⟩

/-- After the bindings of a quantity, its formula has what it needs. -/
theorem RendersQuantity.binds {f : Formula Handle} {q : Quantity} (hq : RendersQuantity m f q)
    {I : Interpretation α} {env : Env α} {bindings : List Binding}
    (hbindings : ∀ b ∈ q.bindings, b ∈ bindings)
    (hbound : env.Satisfies m I bindings) : env.Binds m I f.leaves := by
  intro leaf hleaf
  obtain ⟨b, hb⟩ := hq.exists_binding leaf hleaf
  have hmem := hbindings b (hq.mem_bindings_iff.mpr ⟨leaf, hleaf, hb⟩)
  rw [← boundVariable_eq hb]
  exact hbound leaf b hmem hb

/-- The divisors of the operands are among those of a formula. -/
theorem mem_divisors {op : BinaryOperator} {left right d : Formula Handle}
    (h : d ∈ left.divisors ++ right.divisors) : d ∈ (Formula.binary op left right).divisors := by
  cases op with
  | divide => exact List.mem_cons_of_mem _ h
  | _ => exact h

/-- Unless it divides by something singular, a formula stands for a number. -/
theorem RendersQuantity.exists_amount? {f : Formula Handle} {q : Quantity}
    (hq : RendersQuantity m f q) {I : Interpretation α} {singular : α → Prop}
    (hI : I.Regular singular)
    (hdivisors : ∀ d ∈ f.divisors, ∀ y, d.amount? I = some y → ¬singular y) :
    ∃ x, f.amount? I = some x := by
  induction hq with
  | atom => exact ⟨_, rfl⟩
  | previous => exact ⟨_, rfl⟩
  | number x => exact Option.isSome_iff_exists.mp (hI.literal _)
  | bool value => exact Option.isSome_iff_exists.mp (hI.literal _)
  | negate _ ih =>
    obtain ⟨x, hx⟩ := ih hdivisors
    rw [Formula.amount?, hx]
    exact Option.isSome_iff_exists.mp (hI.negate x)
  | arithmetic hop _ _ ihl ihr =>
    obtain ⟨x, hx⟩ := ihl fun d hd => hdivisors d (mem_divisors (List.mem_append_left _ hd))
    obtain ⟨y, hy⟩ := ihr fun d hd => hdivisors d (mem_divisors (List.mem_append_right _ hd))
    rw [Formula.amount?, hx, hy]
    refine Option.isSome_iff_exists.mp (hI.operate _ x y (by rw [hop]; rfl) ?_)
    rintro rfl
    exact hdivisors _ List.mem_cons_self y hy

/-! ## Goals in a row -/

theorem reads_chain {goals : List Term} {trees : List Tree} {empty last : Term} {lt : Tree}
    {p : Nat} (h : List.Forall₂ (fun goal tree => goal.Reads tree 0) goals trees)
    (hlast : last.Reads lt p) (hp : p ≤ 999) :
    ∃ p' ≤ 1000, (Term.chain .listing empty (goals ++ [last])).Reads (joined trees lt) p' := by
  induction h with
  | nil => exact ⟨p, hp.trans (by decide), hlast⟩
  | @cons goal tree goals trees hgoal _ ih =>
    obtain ⟨p', hp', hrest⟩ := ih
    obtain ⟨next, rest, hne⟩ := List.exists_cons_of_ne_nil
      (List.append_ne_nil_of_right_ne_nil goals (List.cons_ne_nil last []))
    refine ⟨1000, Nat.le_refl _, ?_⟩
    rw [hne] at hrest
    rw [List.cons_append, hne, Term.chain_cons_cons]
    exact .binary Operator.separates_listing .comma hgoal (Nat.zero_le _) hrest hp'

/-- What a quantity binds, and then a goal, are read in a row. -/
theorem reads_bindings (hn : m.Named) {bindings : List Binding}
    (hbindings : ∀ b ∈ bindings, ∃ leaf, leafBinding? m leaf = some b) (empty : Term)
    {last : Term} {lt : Tree} {p : Nat} (hlast : last.Reads lt p) (hp : p ≤ 999) :
    ∃ p' ≤ 1000, (Term.chain .listing empty (bindings.map (·.goal) ++ [last])).Reads
      (joined (bindings.map (·.tree)) lt) p' := by
  refine reads_chain ?_ hlast hp
  rw [List.forall₂_map_left_iff, List.forall₂_map_right_iff, List.forall₂_same]
  intro b hb
  obtain ⟨leaf, hleaf⟩ := hbindings b hb
  exact Binding.reads hn hleaf

end Golog

end GoalModel
