import GoalModel.Proofs.Golog.Conditions
import GoalModel.Proofs.Golog.Placeholders
import GoalModel.Proofs.Golog.Successors

/-! # Bindings cover expressions

What stands in front of an expression is read as goals, each of which binds one variable. These
are the variables of the expression, each of them once and in the order in which they occur first
(`CoversInOrder`). When bindings are put together it makes no difference whether they are compared
by what is written (`merge_eq_filter_text`) or by what is bound (`map_boundVariable_merge`), for the
names of the variables tell leaves apart. Misfits have no variables: without effects a formula is
rendered like one that nothing is reported about (`exists_rendersQuantity_of_ne_effect`). -/

namespace GoalModel

open Prolog

namespace Prolog.Tree

mutual

/-- The variables of a tree from left to right, with repetitions. -/
def variableNames : Tree → List String
  | .word name => if Identifier.isVariable name then [name] else []
  | .numeral _ => []
  | .compound _ arguments => variableNamesOfAll arguments
  | .unary _ operand => operand.variableNames
  | .binary _ left right => left.variableNames ++ right.variableNames

def variableNamesOfAll : List Tree → List String
  | [] => []
  | tree :: rest => tree.variableNames ++ variableNamesOfAll rest

end

/-- What a goal binds. The situation `S` is known already. -/
def bound (goal : Tree) : List String := goal.variableNames.filter (· ≠ "S")

end Prolog.Tree

/-- The elements of a list, each of them once, in the order in which they occur first. -/
structure FirstOccurrences {α : Type} [DecidableEq α] (firsts all : List α) : Prop where
  nodup : firsts.Nodup
  mem_iff : ∀ a, a ∈ firsts ↔ a ∈ all
  inOrder : firsts.Pairwise fun a b => all.idxOf a < all.idxOf b

namespace FirstOccurrences

variable {α : Type} [DecidableEq α] {firsts firsts' all all' : List α}

theorem nil : FirstOccurrences ([] : List α) [] := ⟨.nil, fun _ => .rfl, .nil⟩

theorem singleton (a : α) : FirstOccurrences [a] [a] :=
  ⟨List.nodup_singleton a, fun _ => .rfl, List.pairwise_singleton _ a⟩

/-- Those of a second list that are new come behind those of the first. -/
theorem append (h : FirstOccurrences firsts all) (h' : FirstOccurrences firsts' all') :
    FirstOccurrences (firsts ++ firsts'.filter (· ∉ firsts)) (all ++ all') := by
  -- What is new is not in the first list, so its first place is behind all of it.
  have hnew {a : α} (ha : a ∈ firsts'.filter (· ∉ firsts)) : a ∈ all' ∧ a ∉ all := by
    obtain ⟨hmem, hfirsts⟩ := List.mem_filter.mp ha
    exact ⟨(h'.mem_iff a).mp hmem, (h.mem_iff a).not.mp (of_decide_eq_true hfirsts)⟩
  refine ⟨?_, fun a => ?_, ?_⟩
  · refine List.nodup_append.mpr ⟨h.nodup, h'.nodup.filter _, fun a ha b hb => ?_⟩
    rintro rfl
    exact (hnew hb).2 ((h.mem_iff a).mp ha)
  · by_cases ha : a ∈ all
    · simp [h.mem_iff, ha]
    · simp [h.mem_iff, h'.mem_iff, ha]
  · refine List.pairwise_append.mpr ⟨h.inOrder.imp_of_mem fun ha hb hlt => ?_,
      (h'.inOrder.filter _).imp_of_mem fun ha hb hlt => ?_, fun a ha b hb => ?_⟩
    · rwa [List.idxOf_append_of_mem ((h.mem_iff _).mp ha),
        List.idxOf_append_of_mem ((h.mem_iff _).mp hb)]
    · rw [List.idxOf_append_of_notMem (hnew ha).2, List.idxOf_append_of_notMem (hnew hb).2]
      omega
    · have hindex := List.idxOf_lt_length_of_mem ((h.mem_iff a).mp ha)
      rw [List.idxOf_append_of_mem ((h.mem_iff a).mp ha),
        List.idxOf_append_of_notMem (hnew hb).2]
      omega

end FirstOccurrences

namespace Golog

/-- Different goals bind one variable each, and these are the variables that are used, in the order
in which they occur first. -/
structure CoversInOrder (goals : List Tree) (used : List String) : Prop where
  distinct : goals.Nodup
  single : ∀ goal ∈ goals, ∃ x, goal.bound = [x]
  firsts : FirstOccurrences (goals.flatMap Tree.bound) used

/-! ## Bindings and their variables -/

variable {m : Model} {f left right : Formula Handle} {q l r : Quantity}

theorem isVariable_boundVariable (b : Binding) : Identifier.isVariable b.boundVariable := by
  have hhead : ∃ rest, b.boundVariable.toList = 'R' :: rest := by
    obtain ⟨reading, state, situation⟩ := b
    cases situation with
    | current => exact ⟨'_' :: state.toList, by simp [Binding.boundVariable, bindingVariable]⟩
    | initial =>
      exact ⟨'_' :: (ended state .initial).toList,
        by simp [Binding.boundVariable, bindingVariable, ended]⟩
  obtain ⟨rest, hrest⟩ := hhead
  simp only [Identifier.isVariable, hrest]
  decide

/-- A binding binds its variable and nothing else. -/
theorem Binding.bound_tree (b : Binding) : b.tree.bound = [b.boundVariable] := by
  have hvariable := isVariable_boundVariable b
  have hne : b.boundVariable ≠ "S" := bindingVariable_ne b.situation (by decide)
  have hsituation : Identifier.isVariable b.situation.text → b.situation.text = "S" := by
    cases b.situation <;> decide
  unfold tree Tree.bound
  cases b.reading <;>
    simpa [Tree.variableNames, Tree.variableNamesOfAll, hvariable, hne] using hsituation

theorem flatMap_bound (bindings : List Binding) :
    (bindings.map (·.tree)).flatMap Tree.bound = bindings.map (·.boundVariable) := by
  rw [List.flatMap_map, List.map_eq_flatMap]
  simp only [Binding.bound_tree]

/-- A binding is known by its variable. -/
theorem eq_of_boundVariable_eq (hn : m.Named) {b b' : Binding}
    (hb : ∃ leaf, leafBinding? m leaf = some b) (hb' : ∃ leaf, leafBinding? m leaf = some b')
    (h : b.boundVariable = b'.boundVariable) : b = b' := by
  obtain ⟨leaf, hleaf⟩ := hb
  obtain ⟨leaf', hleaf'⟩ := hb'
  rw [boundVariable_eq hleaf, boundVariable_eq hleaf'] at h
  obtain ⟨helement, hsituation⟩ :=
    bindingVariable_inj hn (eq_of_leafBinding? hleaf).1 (eq_of_leafBinding? hleaf').1 h
  obtain rfl : leaf = leaf' := Prod.ext helement hsituation
  exact Option.some.inj (hleaf.symm.trans hleaf')

/-- A binding is known by what is written, too. -/
theorem eq_of_text_eq (hn : m.Named) {b b' : Binding}
    (hb : ∃ leaf, leafBinding? m leaf = some b) (hb' : ∃ leaf, leafBinding? m leaf = some b')
    (h : b.goal.text = b'.goal.text) : b = b' := by
  obtain ⟨leaf, hleaf⟩ := hb
  obtain ⟨leaf', hleaf'⟩ := hb'
  have hread := (Binding.reads hn hleaf).readText? (by decide)
  have hread' := (Binding.reads hn hleaf').readText? (by decide)
  have htree : b.tree = b'.tree := Option.some.inj (hread.symm.trans (h ▸ hread'))
  have hbound := congrArg Tree.bound htree
  rw [Binding.bound_tree, Binding.bound_tree] at hbound
  exact eq_of_boundVariable_eq hn ⟨leaf, hleaf⟩ ⟨leaf', hleaf'⟩ (List.singleton_injective hbound)

/-- Bindings may be put together by whatever they are known by. -/
theorem merge_eq_filter {κ : Type} [DecidableEq κ] {key : Binding → κ}
    {first others : List Binding}
    (hkey : ∀ b ∈ first, ∀ b' ∈ others, key b = key b' → b = b') :
    Binding.merge first others = first ++ others.filter fun b => key b ∉ first.map key := by
  refine congrArg (first ++ ·) (List.filter_congr fun b hb => ?_)
  have hmem : key b ∈ first.map key ↔ b ∈ first := by
    refine ⟨fun hmem => ?_, List.mem_map_of_mem⟩
    obtain ⟨b', hb', hsame⟩ := List.mem_map.mp hmem
    rwa [← hkey b' hb' b hb hsame]
  simp only [hmem, List.contains_eq_mem, decide_not]

/-- To compare bindings is to compare what is written. -/
theorem merge_eq_filter_text (hn : m.Named) {first others : List Binding}
    (hfirst : ∀ b ∈ first, ∃ leaf, leafBinding? m leaf = some b)
    (hothers : ∀ b ∈ others, ∃ leaf, leafBinding? m leaf = some b) :
    Binding.merge first others =
      first ++ others.filter fun b => b.goal.text ∉ first.map (·.goal.text) :=
  merge_eq_filter fun b hb b' hb' => eq_of_text_eq hn (hfirst b hb) (hothers b' hb')

/-- Putting bindings together puts their variables together. -/
theorem map_boundVariable_merge (hn : m.Named) {first others : List Binding}
    (hfirst : ∀ b ∈ first, ∃ leaf, leafBinding? m leaf = some b)
    (hothers : ∀ b ∈ others, ∃ leaf, leafBinding? m leaf = some b) :
    (Binding.merge first others).map (·.boundVariable) =
      first.map (·.boundVariable) ++
        (others.map (·.boundVariable)).filter (· ∉ first.map (·.boundVariable)) := by
  rw [merge_eq_filter fun b hb b' hb' => eq_of_boundVariable_eq hn (hfirst b hb) (hothers b' hb'),
    List.map_append, List.filter_map]
  rfl

/-- The variables of two sides, if each side has its own. -/
theorem RendersQuantity.firstOccurrences_merge (hn : m.Named) {lused rused : List String}
    (hl : RendersQuantity m left l) (hr : RendersQuantity m right r)
    (hlused : FirstOccurrences (l.bindings.map (·.boundVariable)) lused)
    (hrused : FirstOccurrences (r.bindings.map (·.boundVariable)) rused) :
    FirstOccurrences ((Binding.merge l.bindings r.bindings).map (·.boundVariable))
      (lused ++ rused) := by
  rw [map_boundVariable_merge hn hl.exists_leaf hr.exists_leaf]
  exact hlused.append hrused

theorem firstOccurrences_ofBinding {leaf : Handle × Situation} {b : Binding}
    (hb : leafBinding? m leaf = some b) :
    FirstOccurrences ((Quantity.ofBinding b).bindings.map (·.boundVariable))
      (Tree.word (bindingVariable (stateName m leaf.1) leaf.2)).variableNames := by
  rw [← boundVariable_eq hb, Tree.variableNames, if_pos (isVariable_boundVariable b)]
  exact .singleton _

/-- The variables of an expression are those of its bindings. -/
theorem RendersQuantity.firstOccurrences (hn : m.Named) (h : RendersQuantity m f q) :
    FirstOccurrences (q.bindings.map (·.boundVariable))
      (f.expressionTree m).variableNames := by
  induction h with
  | atom hb | previous hb =>
    have hfirst := firstOccurrences_ofBinding hb
    exact hfirst
  | number | bool => exact .nil
  | negate _ ih => exact ih
  | arithmetic _ hl hr ihl ihr => exact hl.firstOccurrences_merge hn hr ihl ihr

/-- Bindings with the right variables cover what uses these. -/
theorem coversInOrder_of_bindings {bindings : List Binding} {used : List String}
    (h : FirstOccurrences (bindings.map (·.boundVariable)) used) :
    CoversInOrder (bindings.map (·.tree)) used where
  distinct := by
    have hbound : ((bindings.map (·.tree)).map Tree.bound).Nodup := by
      have hsingle : (bindings.map (·.tree)).map Tree.bound =
          (bindings.map (·.boundVariable)).map fun x => [x] := by
        simp [Binding.bound_tree]
      rw [hsingle]
      exact h.nodup.map fun _ _ hx => List.singleton_injective hx
    exact hbound.of_map _
  single := List.forall_mem_map.mpr fun b _ => ⟨_, b.bound_tree⟩
  firsts := (flatMap_bound bindings).symm ▸ h

/-! ## Formulas without effects -/

/-- Without effects a formula is rendered for a number like one that nothing is reported about. -/
theorem exists_rendersQuantity_of_ne_effect
    (hf : ∀ h ∈ f.atoms, h.index < m.elements.length ∧ m.role? h ≠ some .effect) :
    ∃ f' q, RendersQuantity m f' q ∧ ∀ sink, ((renderQuantity m f).run sink).1 = q := by
  obtain ⟨q, hq⟩ := (fits_parts .amount f).exists_quantity rfl
    fun r hr => (hf _ (element_mem_atoms hr)).1
  have hsilent : (f.parts .amount).atoms.filterMap (Part.reportOutside? m) = [] := by
    refine List.filterMap_eq_nil_iff.mpr fun part hpart => ?_
    cases part with
    | reference r => exact if_neg (hf _ (element_mem_atoms hpart)).2
    | misfit p whole report => rfl
  have hreplaced := hq.rendered _ _ (fills_replaced m)
  have hwhole := hq.rendered _ _ (fills_formula m)
  rw [hsilent] at hreplaced
  rw [bind_parts] at hwhole
  exact ⟨_, q, (renderQuantity_ensures m _).of_silent (hreplaced .empty), hwhole.eq_fst⟩

/-! ## Comparisons in conditions -/

end Golog

/-- A part of a formula that stands for a truth value, as the whole does. -/
inductive Formula.TruthPart {α : Type} (part : Formula α) : Formula α → Prop
  | whole : TruthPart part part
  | not {operand : Formula α} : TruthPart part operand → TruthPart part (.unary .not operand)
  | left {op : BinaryOperator} {left right : Formula α} : op = .and ∨ op = .or →
    TruthPart part left → TruthPart part (.binary op left right)
  | right {op : BinaryOperator} {left right : Formula α} : op = .and ∨ op = .or →
    TruthPart part right → TruthPart part (.binary op left right)

namespace Golog

/-- A term has another one in it, between operators and in parentheses. -/
inductive Term.Contains (part : Term) : Term → Prop
  | whole : Contains part part
  | unary {op : Operator} {operand : Term} : Contains part operand →
    Contains part (.unary op operand)
  | left {op : Operator} {left right : Term} : Contains part left →
    Contains part (.binary op left right)
  | right {op : Operator} {left right : Term} : Contains part right →
    Contains part (.binary op left right)
  | group {inner : Term} : Contains part inner → Contains part (.group inner)

/-- What stands for a truth value is rendered in its place. -/
theorem contains_renderCondition {part : Formula Handle} (h : part.TruthPart f)
    (sink : Diagnostics) : ∃ sink',
      Term.Contains ((renderCondition m part).run sink').1 ((renderCondition m f).run sink).1 := by
  induction h generalizing sink with
  | whole => exact ⟨sink, .whole⟩
  | not _ ih =>
    obtain ⟨sink', hcontains⟩ := ih sink
    exact ⟨sink', .unary (.group hcontains)⟩
  | left hop _ ih =>
    obtain ⟨sink', hcontains⟩ := ih sink
    rcases hop with rfl | rfl <;> exact ⟨sink', .group (.left hcontains)⟩
  | @right op left right hop _ ih =>
    obtain ⟨sink', hcontains⟩ := ih ((renderCondition m left).run sink).2
    rcases hop with rfl | rfl <;> exact ⟨sink', .group (.right hcontains)⟩

theorem atoms_subset_of_truthPart {part : Formula Handle} (h : part.TruthPart f) :
    part.atoms ⊆ f.atoms := by
  induction h with
  | whole => exact List.Subset.refl _
  | not _ ih => exact ih
  | left _ _ ih => exact fun _ ha => List.mem_append_left _ (ih ha)
  | right _ _ ih => exact fun _ ha => List.mem_append_right _ (ih ha)

/-- A quantity as it is read: goals and an expression. -/
structure Quantity.ReadsAs (q : Quantity) (goals : List Tree) (expression : Tree) : Prop where
  goals : List.Forall₂ (fun b goal => readText? b.goal.text = some goal) q.bindings goals
  expression : readText? q.expression.text = some expression

theorem RendersQuantity.readsAs (hn : m.Named) (h : RendersQuantity m f q) :
    q.ReadsAs (q.bindings.map (·.tree)) (f.expressionTree m) where
  goals := by
    rw [List.forall₂_map_right_iff, List.forall₂_same]
    intro b hb
    obtain ⟨leaf, hleaf⟩ := h.exists_leaf b hb
    exact (Binding.reads hn hleaf).readText? (by decide)
  expression := by
    obtain ⟨p, hp, hreads⟩ := h.reads hn
    exact hreads.readText? (hp.trans ((expressionPriority_le f).trans (by decide)))

theorem run_comparison {op : BinaryOperator} {symbol : String}
    (hop : op.comparisonSymbol? = some symbol) (left right : Formula Handle)
    (sink : Diagnostics) : ∃ sink', ((renderCondition m (.binary op left right)).run sink).1 =
      comparison symbol ((renderQuantity m left).run sink).1
        ((renderQuantity m right).run sink').1 := by
  refine ⟨((renderQuantity m left).run sink).2, ?_⟩
  cases op <;> cases hop <;> rfl

/-- A comparison as it is read: goals that bind what both sides use, and behind them the sides. -/
structure ReadsCovered (m : Model) (op : BinaryOperator) (left right : Formula Handle)
    (inner : Term) (goals : List Tree) (lt rt : Tree) : Prop where
  reads : readText? inner.text = some (joined goals (.binary (.operator op) lt rt))
  left : ∀ sink, readText? ((renderQuantity m left).run sink).1.expression.text = some lt
  right : ∀ sink, readText? ((renderQuantity m right).run sink).1.expression.text = some rt
  covers : CoversInOrder goals (lt.variableNames ++ rt.variableNames)

end Golog

open Golog

/-- In a linked model a formula without effects is rendered, for a number, as goals that bind the
variables of its expression, and nothing else. Where such a formula compares two sides in place of
a truth value, there are goals that bind the variables of both sides, and behind them the sides. -/
theorem Document.bindings_cover_expressions {document : Document} {m : Model}
    (hlink : document.link = .ok m) {f : Formula Handle}
    (hf : ∀ h ∈ f.atoms, h.index < m.elements.length ∧ m.role? h ≠ some .effect)
    (sink : Diagnostics) :
    (∃ goals expression, ((renderQuantity m f).run sink).1.ReadsAs goals expression ∧
      CoversInOrder goals expression.variableNames) ∧
    ∀ op left right, (Formula.binary op left right).TruthPart f → op.comparisonSymbol?.isSome →
      ∃ inner goals lt rt, Term.Contains (.group inner) ((renderCondition m f).run sink).1 ∧
        ReadsCovered m op left right inner goals lt rt := by
  have hn := named_of_link hlink
  constructor
  · obtain ⟨f', q, hq, hrun⟩ := exists_rendersQuantity_of_ne_effect hf
    rw [hrun]
    exact ⟨_, _, hq.readsAs hn, coversInOrder_of_bindings (hq.firstOccurrences hn)⟩
  · intro op left right hpart hop
    -- The sides are rendered like formulas without misfits, but these are not the sides themselves.
    obtain ⟨symbol, hsymbol⟩ := Option.isSome_iff_exists.mp hop
    obtain ⟨hleft, hright⟩ := List.forall_mem_append.mp
      fun h hh => hf h (atoms_subset_of_truthPart hpart hh)
    obtain ⟨left', l, hl, hlrun⟩ := exists_rendersQuantity_of_ne_effect hleft
    obtain ⟨right', r, hr, hrrun⟩ := exists_rendersQuantity_of_ne_effect hright
    obtain ⟨sink', hcontains⟩ := contains_renderCondition (m := m) hpart sink
    obtain ⟨sink'', hcomparison⟩ := run_comparison (m := m) hsymbol left right sink'
    rw [hcomparison, hlrun, hrrun] at hcontains
    obtain ⟨p, hp, hreads⟩ := reads_comparison hn hsymbol hl hr
    refine ⟨_, _, _, _, hcontains, hreads.readText? (hp.trans (by decide)), fun sink => ?_,
      fun sink => ?_, coversInOrder_of_bindings (hl.firstOccurrences_merge hn hr
        (hl.firstOccurrences hn) (hr.firstOccurrences hn))⟩
    · rw [hlrun]
      exact (hl.readsAs hn).expression
    · rw [hrrun]
      exact (hr.readsAs hn).expression

/-- An amount that uses the force twice, with a negation in it, which is no number. -/
def Document.doorAmount : Formula Handle :=
  .binary .plus (.atom ⟨2⟩)
    (.binary .multiply (.binary .minus (.atom ⟨2⟩) (.unary .previous (.atom ⟨0⟩)))
      (.unary .not (.atom ⟨13⟩)))

/-- The force is used twice and bound once. -/
theorem Document.doorAmount_covered : door.link = .ok door.linked ∧
    (∃ goals expression,
      ((renderQuantity door.linked doorAmount).run .empty).1.ReadsAs goals expression ∧
        CoversInOrder goals expression.variableNames) ∧
    ((renderQuantity door.linked doorAmount).run .empty).1.bindings =
      [⟨.value, "Force", .current⟩, ⟨.state, "Opened_fl", .initial⟩] ∧
    ∃ inner goals lt rt,
      Term.Contains (.group inner) ((renderCondition door.linked
        (.unary .not (.binary .gt (.atom ⟨12⟩) doorAmount))).run .empty).1 ∧
      ReadsCovered door.linked .gt (.atom ⟨12⟩) doorAmount inner goals lt rt := by
  have hlink : door.link = .ok door.linked := rfl
  refine ⟨hlink, ?_, rfl, ?_⟩
  · exact (bindings_cover_expressions hlink (by decide) .empty).1
  · exact (bindings_cover_expressions hlink (by decide) .empty).2 .gt _ _ (.not .whole) rfl

end GoalModel
