import GoalModel.Proofs.Golog.References

/-! # Misfits and placeholders

A formula may have parts that mean nothing where they stand (`Formula.Misfit`), whatever they are
made of. Without them it is a formula over references and misfits, each in its place (`Fits`), and
there is one way only to see it as such (`Fits.parts_bind`). Its renderings do not ask what the
misfits are: a misfit counts as its placeholder and brings one report (`Fills`). So a formula is
rendered like the one that has the placeholders in it, and what is reported is found at its leaves,
from left to right (`renderings_degrade_locally`). -/

namespace GoalModel

open Golog

/-- What an operator makes of its operands. -/
def BinaryOperator.result : BinaryOperator → Position
  | .plus | .minus | .multiply | .divide => .amount
  | _ => .truth

/-- What an operator asks of its operands. -/
def BinaryOperator.operands : BinaryOperator → Position
  | .and | .or => .truth
  | _ => .amount

/-- What is reported about an operator whose result is not what its position asks for. -/
def Golog.Position.misplaced (operator : String) : Position → Degradation
  | .truth => .arithmeticAsCondition operator
  | .amount => .booleanAsQuantity operator

/-- A formula that means nothing in a position, and what is reported about it. -/
inductive Formula.Misfit {α : Type} : Position → Formula α → Degradation → Prop
  | number (x : Number) : Misfit .truth (.number x) (.numberAsCondition x)
  | binary {p : Position} {op : BinaryOperator} (left right : Formula α) : op.result ≠ p →
    Misfit p (.binary op left right) (p.misplaced op.name)
  | negate (operand : Formula α) :
    Misfit .truth (.unary .negate operand) (Position.truth.misplaced UnaryOperator.negate.name)
  | not (operand : Formula α) :
    Misfit .amount (.unary .not operand) (Position.amount.misplaced UnaryOperator.not.name)
  | previous {p : Position} {operand : Formula α} : (∀ a, operand ≠ .atom a) →
    Misfit p (.unary .previous operand) .previousOfFormula

namespace Golog

/-- The constant that is written like a placeholder: `true` or `0`. For a number this is `false`,
since zero is written `0.0`. -/
def Position.placeholder : Position → Formula Handle
  | .truth => .bool true
  | .amount => .bool false

/-- What is reported about a reference. An effect has neither a truth value nor a value; only where
the past of its truth is asked for, this goes unnoticed. -/
def Reference.report? (m : Model) (r : Reference) : Option Degradation :=
  if m.role? r.element = some .effect then
    match r.position, r.situation with
    | .truth, .current => some (.effectAsCondition (m.nameOf r.element))
    | .truth, .initial => none
    | .amount, _ => some (.effectAsQuantity (m.nameOf r.element))
  else none

/-- A leaf of a formula whose misfits are cut off. -/
inductive Part where
  | reference (r : Reference)
  | misfit (position : Position) (whole : Formula Handle) (report : Degradation)

namespace Part

/-- What stands at a leaf. -/
def formula : Part → Formula Handle
  | reference r => .atom r.element
  | misfit _ whole _ => whole

/-- What stands at a leaf once misfits are replaced. -/
def replaced : Part → Formula Handle
  | reference r => .atom r.element
  | misfit p _ _ => p.placeholder

/-- What is reported at a leaf. -/
def report? (m : Model) : Part → Option Degradation
  | reference r => r.report? m
  | misfit _ _ report => some report

end Part

/-- A formula over references and misfits, each of them in its place. -/
inductive Fits : Position → Formula Part → Prop
  | atom (h : Handle) (p : Position) : Fits p (.atom (.reference ⟨h, p, .current⟩))
  | previous (h : Handle) (p : Position) :
    Fits p (.unary .previous (.atom (.reference ⟨h, p, .initial⟩)))
  | misfit {p : Position} {f : Formula Handle} {d : Degradation} : f.Misfit p d →
    Fits p (.atom (.misfit p f d))
  | bool (value : Bool) (p : Position) : Fits p (.bool value)
  | number (x : Number) : Fits .amount (.number x)
  | not {s : Formula Part} : Fits .truth s → Fits .truth (.unary .not s)
  | negate {s : Formula Part} : Fits .amount s → Fits .amount (.unary .negate s)
  | binary {op : BinaryOperator} {left right : Formula Part} : Fits op.operands left →
    Fits op.operands right → Fits op.result (.binary op left right)

end Golog

/-- A formula in a position, with its misfits cut off. -/
def Formula.parts (p : Position) : Formula Handle → Formula Part
  | .atom h => .atom (.reference ⟨h, p, .current⟩)
  | .bool value => .bool value
  | .number x =>
    match p with
    | .truth => .atom (.misfit .truth (.number x) (.numberAsCondition x))
    | .amount => .number x
  | .unary .previous (.atom h) => .unary .previous (.atom (.reference ⟨h, p, .initial⟩))
  | .unary .previous operand => .atom (.misfit p (.unary .previous operand) .previousOfFormula)
  | .unary .not operand =>
    match p with
    | .truth => .unary .not (operand.parts .truth)
    | .amount =>
      .atom (.misfit .amount (.unary .not operand)
        (Position.amount.misplaced UnaryOperator.not.name))
  | .unary .negate operand =>
    match p with
    | .truth =>
      .atom (.misfit .truth (.unary .negate operand)
        (Position.truth.misplaced UnaryOperator.negate.name))
    | .amount => .unary .negate (operand.parts .amount)
  | .binary op left right =>
    if op.result = p then .binary op (left.parts op.operands) (right.parts op.operands)
    else .atom (.misfit p (.binary op left right) (p.misplaced op.name))

theorem Formula.atoms_bind {α β : Type} (g : α → Formula β) (f : Formula α) :
    (f.bind g).atoms = f.atoms.flatMap fun a => (g a).atoms := by
  induction f with
  | atom a => simp [bind, atoms]
  | number | bool => rfl
  | binary op left right ihl ihr => rw [bind, atoms, atoms, ihl, ihr, List.flatMap_append]
  | unary op operand ih => exact ih

theorem Formula.bind_congr {α β : Type} {g g' : α → Formula β} {f : Formula α}
    (h : ∀ a ∈ f.atoms, g a = g' a) : f.bind g = f.bind g' := by
  induction f with
  | atom a => exact h a (List.mem_singleton_self a)
  | number | bool => rfl
  | binary op left right ihl ihr =>
    obtain ⟨hl, hr⟩ := List.forall_mem_append.mp h
    rw [bind, bind, ihl hl, ihr hr]
  | unary op operand ih => rw [bind, bind, ih h]

namespace Golog

variable {m : Model} {p : Position} {s : Formula Part} {f : Formula Handle} {d : Degradation}

/-! ## Taking formulas apart -/

theorem fits_parts (p : Position) (f : Formula Handle) : Fits p (f.parts p) := by
  induction f generalizing p with
  | atom h => cases p <;> exact .atom h _
  | bool value => cases p <;> exact .bool value _
  | number x =>
    cases p with
    | truth => exact .misfit (.number x)
    | amount => exact .number x
  | unary op operand ih =>
    cases op with
    | not =>
      cases p with
      | truth => exact .not (ih .truth)
      | amount => exact .misfit (.not operand)
    | negate =>
      cases p with
      | truth => exact .misfit (.negate operand)
      | amount => exact .negate (ih .amount)
    | previous =>
      cases operand with
      | atom h => cases p <;> exact .previous h _
      | _ => cases p <;> exact .misfit (.previous fun _ h => by cases h)
  | binary op left right ihl ihr =>
    rw [Formula.parts]
    split
    · next hresult => exact hresult ▸ .binary (ihl _) (ihr _)
    · next hresult => exact .misfit (.binary left right hresult)

theorem bind_parts (p : Position) (f : Formula Handle) : (f.parts p).bind Part.formula = f := by
  induction f generalizing p with
  | atom h => cases p <;> rfl
  | bool value => cases p <;> rfl
  | number x => cases p <;> rfl
  | unary op operand ih =>
    cases op with
    | not =>
      cases p with
      | truth => exact congrArg _ (ih .truth)
      | amount => rfl
    | negate =>
      cases p with
      | truth => rfl
      | amount => exact congrArg _ (ih .amount)
    | previous => cases operand <;> cases p <;> rfl
  | binary op left right ihl ihr =>
    rw [Formula.parts]
    split
    · rw [Formula.bind, ihl, ihr]
    · rfl

theorem parts_of_misfit (h : f.Misfit p d) : f.parts p = .atom (.misfit p f d) := by
  cases h with
  | number | negate | not => rfl
  | binary left right hresult => exact if_neg hresult
  | @previous p operand hatom =>
    cases operand with
    | atom a => exact absurd rfl (hatom a)
    | _ => cases p <;> rfl

/-- There is no other way to cut the misfits of a formula off. -/
theorem Fits.parts_bind (h : Fits p s) : (s.bind Part.formula).parts p = s := by
  induction h with
  | atom h p => cases p <;> rfl
  | previous h p => cases p <;> rfl
  | misfit hmisfit => exact parts_of_misfit hmisfit
  | bool value p => cases p <;> rfl
  | number => rfl
  | not _ ih => exact congrArg _ ih
  | negate _ ih => exact congrArg _ ih
  | @binary op left right _ _ ihl ihr =>
    rw [Formula.bind, Formula.parts, if_pos rfl, ihl, ihr]

/-! ## Rendering what is left -/

/-- A way to fill the leaves: references are what they are, and what stands in the place of a misfit
is rendered as a placeholder. -/
structure Fills (m : Model) (fill : Part → Formula Handle)
    (reports : Part → Option Degradation) : Prop where
  reference : ∀ r, fill (.reference r) = .atom r.element
  noted : ∀ r, reports (.reference r) = r.report? m
  condition : ∀ f d, f.Misfit .truth d → (renderCondition m (fill (.misfit .truth f d))).Yields
    conditionPlaceholder (reports (.misfit .truth f d)).toList
  quantity : ∀ f d, f.Misfit .amount d → (renderQuantity m (fill (.misfit .amount f d))).Yields
    .placeholder (reports (.misfit .amount f d)).toList

/-- A misfit is rendered as a placeholder and reported. -/
theorem fills_formula (m : Model) : Fills m Part.formula (Part.report? m) where
  reference _ := rfl
  noted _ := rfl
  condition f d hmisfit := by
    cases hmisfit with
    | number x => exact .report_pure _ _
    | @binary _ op left right hresult =>
      cases op <;> first | exact absurd rfl hresult | exact .report_pure _ _
    | negate => exact .report_pure _ _
    | @previous _ operand hatom =>
      cases operand with
      | atom a => exact absurd rfl (hatom a)
      | _ => exact .report_pure _ _
  quantity f d hmisfit := by
    cases hmisfit with
    | @binary _ op left right hresult =>
      cases op <;> first | exact absurd rfl hresult | exact .report_pure _ _
    | not => exact .report_pure _ _
    | @previous _ operand hatom =>
      cases operand with
      | atom a => exact absurd rfl (hatom a)
      | _ => exact .report_pure _ _

/-- What is reported once misfits are replaced. -/
def Part.reportOutside? (m : Model) : Part → Option Degradation
  | reference r => r.report? m
  | misfit _ _ _ => none

theorem fills_replaced (m : Model) : Fills m Part.replaced (Part.reportOutside? m) where
  reference _ := rfl
  noted _ := rfl
  condition _ _ _ := .of_pure _
  quantity _ _ _ := .of_pure _

theorem filterMap_singleton {α β : Type} (g : α → Option β) (a : α) :
    [a].filterMap g = (g a).toList := rfl

/-- A goal stands for a leaf outside of the misfits, if only by the name of an effect, or it calls
nothing. -/
def Outside (m : Model) (s : Formula Part) (goal : Term) : Prop :=
  goal.IsTest ∨ ∃ r, .reference r ∈ s.atoms ∧
    (r.goal? m = some goal ∨
      m.role? r.element = some .effect ∧ goal = nameTerm m r.element)

theorem Outside.mono {s s' : Formula Part} {goal : Term} (h : Outside m s goal)
    (hs : ∀ part ∈ s.atoms, part ∈ s'.atoms) : Outside m s' goal := by
  refine h.imp_right ?_
  rintro ⟨r, hr, hgoal⟩
  exact ⟨r, hs _ hr, hgoal⟩

/-! ### Quantities -/

/-- What a formula is rendered as for a number, whatever its misfits are. -/
structure RendersPartsAsQuantity (m : Model) (s : Formula Part) (q : Quantity) : Prop where
  rendered : ∀ fill reports, Fills m fill reports →
    (renderQuantity m (s.bind fill)).Yields q (s.atoms.filterMap reports)
  outside : ∀ b ∈ q.bindings, Outside m s b.goal

/-- A reference to a value is rendered as its binding, or reported. -/
theorem exists_renderValue {h : Handle} (hh : h.index < m.elements.length)
    (situation : Situation) : ∃ q : Quantity,
      (renderValue m h situation).Yields q ((Reference.mk h .amount situation).report? m).toList ∧
      ∀ b ∈ q.bindings, (Reference.mk h .amount situation).goal? m = some b.goal := by
  obtain ⟨role, hrole⟩ := exists_role? hh
  unfold renderValue Reference.report? Reference.goal? leafBinding?
  simp only [hrole, Option.bind_some, Option.some.injEq]
  cases hreading : Reading.ofRole role with
  | none =>
    obtain rfl : role = .effect := by cases role <;> first | rfl | cases hreading
    exact ⟨_, .report_pure _ _, fun _ hb => absurd hb List.not_mem_nil⟩
  | some reading =>
    have heffect : role ≠ .effect := by
      rintro rfl
      cases hreading
    rw [if_neg heffect]
    exact ⟨_, .of_pure _, List.forall_mem_singleton.mpr rfl⟩

/-- A formula over a single reference to a value. -/
theorem exists_quantity_of_value {h : Handle} {situation : Situation}
    (hh : h.index < m.elements.length) (hatoms : s.atoms = [.reference ⟨h, .amount, situation⟩])
    (hrender : ∀ fill : Part → Formula Handle, (∀ r, fill (.reference r) = .atom r.element) →
      renderQuantity m (s.bind fill) = renderValue m h situation) :
    ∃ q, RendersPartsAsQuantity m s q := by
  obtain ⟨q, hyields, hgoal⟩ := exists_renderValue hh situation
  refine ⟨q, fun fill reports hfill => ?_, fun b hb => .inr ?_⟩
  · rw [hrender fill hfill.reference, hatoms, filterMap_singleton, hfill.noted]
    exact hyields
  · exact ⟨_, hatoms ▸ List.mem_singleton_self _, .inl (hgoal b hb)⟩

/-- What two sides bind together comes from one of them. -/
theorem RendersPartsAsQuantity.outside_merge {op : BinaryOperator} {left right : Formula Part}
    {l r : Quantity} (hl : RendersPartsAsQuantity m left l)
    (hr : RendersPartsAsQuantity m right r) :
    ∀ b ∈ Binding.merge l.bindings r.bindings, Outside m (.binary op left right) b.goal := by
  intro b hb
  rcases Binding.mem_merge.mp hb with hb | hb
  · exact (hl.outside b hb).mono fun _ => List.mem_append_left _
  · exact (hr.outside b hb).mono fun _ => List.mem_append_right _

theorem exists_arithmeticSymbol? {op : BinaryOperator} (h : op.result = .amount) :
    op.operands = .amount ∧ ∃ symbol, op.arithmeticSymbol? = some symbol := by
  cases op <;> first | exact ⟨rfl, _, rfl⟩ | cases h

/-- What a formula is rendered as for a number is known when it is known what fits. -/
theorem Fits.exists_quantity (h : Fits p s) (hp : p = .amount)
    (hrange : ∀ r, .reference r ∈ s.atoms → r.element.index < m.elements.length) :
    ∃ q, RendersPartsAsQuantity m s q := by
  -- The operands of an operator have its position, so that no condition is met on the way down.
  induction h with
  | atom h p =>
    subst hp
    refine exists_quantity_of_value (hrange _ (List.mem_singleton_self _)) rfl fun fill hfill => ?_
    rw [Formula.bind, hfill, renderQuantity]
  | previous h p =>
    subst hp
    refine exists_quantity_of_value (hrange _ (List.mem_singleton_self _)) rfl fun fill hfill => ?_
    rw [Formula.bind, Formula.bind, hfill, renderQuantity]
  | @misfit _ f d hmisfit =>
    subst hp
    refine ⟨.placeholder, fun fill reports hfill => ?_, fun _ hb => absurd hb List.not_mem_nil⟩
    rw [Formula.bind, Formula.atoms, filterMap_singleton]
    exact hfill.quantity f d hmisfit
  | bool value | number x =>
    exact ⟨_, fun _ _ _ => .of_pure _, fun _ hb => absurd hb List.not_mem_nil⟩
  | not => cases hp
  | negate _ ih =>
    obtain ⟨q, hq⟩ := ih rfl hrange
    exact ⟨_, fun fill reports hfill => (hq.rendered fill reports hfill).map _, hq.outside⟩
  | @binary op left right _ _ ihl ihr =>
    obtain ⟨hoperands, symbol, hsymbol⟩ := exists_arithmeticSymbol? hp
    obtain ⟨l, hl⟩ := ihl hoperands fun r hr => hrange r (List.mem_append_left _ hr)
    obtain ⟨r, hr⟩ := ihr hoperands fun r hr => hrange r (List.mem_append_right _ hr)
    refine ⟨⟨Binding.merge l.bindings r.bindings,
      .binary (.tight symbol) (.group l.expression) (.group r.expression)⟩,
      fun fill reports hfill => ?_, hl.outside_merge hr⟩
    rw [Formula.atoms, List.filterMap_append]
    simp only [Formula.bind, renderQuantity, hsymbol]
    exact (hl.rendered fill reports hfill).map₂ _ (hr.rendered fill reports hfill)

/-! ### Conditions -/

/-- What a formula is rendered as for a truth value, whatever its misfits are: goals that are read
as such, each of them from a leaf. -/
structure RendersPartsAsCondition (m : Model) (s : Formula Part) (t : Term) : Prop where
  rendered : ∀ fill reports, Fills m fill reports →
    (renderCondition m (s.bind fill)).Yields t (s.atoms.filterMap reports)
  priority : t.priority < 1000
  outside : ∀ goal ∈ t.goals, Outside m s goal

namespace RendersPartsAsCondition

/-- A goal in itself. -/
theorem of_goal {t : Term} (hpriority : t.priority = 0) (hgoals : t.goals = [t])
    (ht : Outside m s t) (hrendered : ∀ fill reports, Fills m fill reports →
      (renderCondition m (s.bind fill)).Yields t (s.atoms.filterMap reports)) :
    RendersPartsAsCondition m s t where
  rendered := hrendered
  priority := hpriority ▸ Nat.zero_lt_succ _
  outside := hgoals ▸ List.forall_mem_singleton.mpr ht

variable {op : BinaryOperator} {left right : Formula Part}

/-- A connective in parentheses has the goals of both sides. -/
theorem connective {sign : Operator} {l r : Term}
    (hsign : sign.symbol = "," ∨ sign.symbol = ";")
    (hrender : ∀ l r : Formula Handle, renderCondition m (.binary op l r) = do
      return .group (.binary sign (← renderCondition m l) (← renderCondition m r)))
    (hl : RendersPartsAsCondition m left l) (hr : RendersPartsAsCondition m right r) :
    RendersPartsAsCondition m (.binary op left right) (.group (.binary sign l r)) where
  rendered fill reports hfill := by
    rw [Formula.bind, hrender, Formula.atoms, List.filterMap_append]
    exact (hl.rendered fill reports hfill).map₂ _ (hr.rendered fill reports hfill)
  priority := Nat.zero_lt_succ _
  outside := by
    have hpriority : 1000 ≤ sign.priority := by
      unfold Operator.priority
      rcases hsign with h | h <;> rw [h] <;> decide
    have hgoals : (Term.group (.binary sign l r)).goals = l.goals ++ r.goals :=
      if_pos ⟨hsign, hl.priority.trans_le hpriority, hr.priority.le.trans hpriority⟩
    rw [hgoals]
    refine List.forall_mem_append.mpr ⟨fun goal hgoal => ?_, fun goal hgoal => ?_⟩
    · exact (hl.outside goal hgoal).mono fun _ => List.mem_append_left _
    · exact (hr.outside goal hgoal).mono fun _ => List.mem_append_right _

/-- A comparison has the bindings of both sides. -/
theorem compare {symbol : String} {l r : Quantity} (hop : op.comparisonSymbol? = some symbol)
    (hrender : ∀ l r : Formula Handle, renderCondition m (.binary op l r) = do
      return comparison symbol (← renderQuantity m l) (← renderQuantity m r))
    (hl : RendersPartsAsQuantity m left l) (hr : RendersPartsAsQuantity m right r) :
    RendersPartsAsCondition m (.binary op left right) (comparison symbol l r) where
  rendered fill reports hfill := by
    rw [Formula.bind, hrender, Formula.atoms, List.filterMap_append]
    exact (hl.rendered fill reports hfill).map₂ _ (hr.rendered fill reports hfill)
  priority := Nat.zero_lt_succ _
  outside := by
    rw [comparison, Term.goals, goals_chain_bindings _ _ (priority_comparison hop)]
    refine List.forall_mem_append.mpr ⟨List.forall_mem_map.mpr (hl.outside_merge hr), ?_⟩
    exact List.forall_mem_singleton.mpr (.inl trivial)

end RendersPartsAsCondition

/-- A reference to a truth value is rendered as a goal of its own. -/
theorem exists_condition_of_truth (m : Model) (h : Handle) :
    ∃ t, RendersPartsAsCondition m (.atom (.reference ⟨h, .truth, .current⟩)) t := by
  have hleaf : Part.reference ⟨h, .truth, .current⟩ ∈
      (Formula.atom (Part.reference ⟨h, .truth, .current⟩)).atoms := List.mem_singleton_self _
  by_cases heffect : m.role? h = some .effect
  · refine ⟨_, .of_goal rfl rfl (.inr ⟨_, hleaf, .inr ⟨heffect, rfl⟩⟩)
      fun fill reports hfill => ?_⟩
    rw [Formula.bind, hfill.reference, Formula.atoms, filterMap_singleton, hfill.noted]
    simp only [renderCondition, renderTruth, Reference.report?, heffect, if_true]
    exact .report_pure _ _
  · refine ⟨_, .of_goal rfl rfl (.inr ⟨_, hleaf, .inl (if_neg heffect)⟩)
      fun fill reports hfill => ?_⟩
    rw [Formula.bind, hfill.reference, Formula.atoms, filterMap_singleton, hfill.noted]
    simp only [renderCondition, renderTruth, Reference.report?, heffect, if_false]
    exact .of_pure _

/-- What a formula is rendered as for a truth value is known when it is known what fits. -/
theorem Fits.exists_condition (h : Fits p s) (hp : p = .truth)
    (hrange : ∀ r, .reference r ∈ s.atoms → r.element.index < m.elements.length) :
    ∃ t, RendersPartsAsCondition m s t := by
  -- Comparisons leave the induction: their operands are quantities.
  induction h with
  | atom h p =>
    subst hp
    exact exists_condition_of_truth m h
  | previous h p =>
    subst hp
    refine ⟨holdsIn (ended (m.nameOf h) .fluent) .initial, .of_goal rfl rfl
      (.inr ⟨_, List.mem_singleton_self _, .inl rfl⟩) fun fill reports hfill => ?_⟩
    have hnone : (Reference.mk h .truth .initial).report? m = none := ite_self _
    rw [Formula.bind, Formula.bind, hfill.reference, Formula.atoms, Formula.atoms,
      filterMap_singleton, hfill.noted, hnone]
    exact .of_pure _
  | @misfit _ f d hmisfit =>
    subst hp
    refine ⟨conditionPlaceholder, .of_goal rfl rfl (.inl (.inl rfl)) fun fill reports hfill => ?_⟩
    rw [Formula.bind, Formula.atoms, filterMap_singleton]
    exact hfill.condition f d hmisfit
  | bool value =>
    refine ⟨.word (if value then "true" else "fail"), .of_goal rfl rfl (.inl ?_)
      fun _ _ _ => .of_pure _⟩
    cases value with
    | true => exact .inl rfl
    | false => exact .inr rfl
  | number | negate => cases hp
  | not _ ih =>
    obtain ⟨t, ht⟩ := ih rfl hrange
    have hpriority : Operator.negation.priority < 1000 := by decide
    exact ⟨.unary .negation (.group t),
      fun fill reports hfill => (ht.rendered fill reports hfill).map _, hpriority, ht.outside⟩
  | @binary op left right hleft hright ihl ihr =>
    have hrangel r hr := hrange r (List.mem_append_left _ hr)
    have hranger r hr := hrange r (List.mem_append_right _ hr)
    cases op with
    | plus | minus | multiply | divide => cases hp
    | and =>
      obtain ⟨l, hl⟩ := ihl rfl hrangel
      obtain ⟨r, hr⟩ := ihr rfl hranger
      exact ⟨_, .connective (.inl rfl) (fun _ _ => rfl) hl hr⟩
    | or =>
      obtain ⟨l, hl⟩ := ihl rfl hrangel
      obtain ⟨r, hr⟩ := ihr rfl hranger
      exact ⟨_, .connective (.inr rfl) (fun _ _ => rfl) hl hr⟩
    | gt | gte | lt | lte | eq | neq =>
      obtain ⟨l, hl⟩ := hleft.exists_quantity rfl hrangel
      obtain ⟨r, hr⟩ := hright.exists_quantity rfl hranger
      exact ⟨_, .compare rfl (fun _ _ => rfl) hl hr⟩

/-! ## Degradation is local -/

/-- What a rendering does to a formula with misfits: they are where they are in one way only, the
result is that of the formula with placeholders in their places, no goal comes from inside of them,
and one report about each of them and about each misused effect is added, in their order. -/
structure DegradesLocally {α : Type} (m : Model) (p : Position)
    (render : Formula Handle → Render α) (goals : α → List Term) (f : Formula Handle)
    (s : Formula Part) : Prop where
  fits : Fits p s
  whole : s.bind Part.formula = f
  unique : ∀ s', Fits p s' → s'.bind Part.formula = f → s' = s
  rendered : ∀ sink sink',
    ((render f).run sink).1 = ((render (s.bind Part.replaced)).run sink').1
  outside : ∀ sink, ∀ goal ∈ goals ((render f).run sink).1, Outside m s goal
  reported : ∀ sink, ((render f).run sink).2 =
    { sink with entries := sink.entries ++
        (s.atoms.filterMap (Part.report? m)).map fun d => ⟨sink.context, d.message⟩ }
  whole_of_silent : s.atoms.filterMap (Part.report? m) = [] → s.bind Part.replaced = f

/-- Where nothing is reported, nothing is replaced. -/
theorem bind_replaced_of_silent (h : s.atoms.filterMap (Part.report? m) = []) :
    s.bind Part.replaced = s.bind Part.formula := by
  refine Formula.bind_congr fun part hpart => ?_
  cases part with
  | reference r => rfl
  | misfit p whole report => exact nomatch List.filterMap_eq_nil_iff.mp h _ hpart

/-- A rendering that does not ask what the misfits are degrades locally. -/
theorem degradesLocally_parts {α : Type} {render : Formula Handle → Render α}
    {goals : α → List Term} {a : α}
    (hrendered : ∀ fill reports, Fills m fill reports →
      (render ((f.parts p).bind fill)).Yields a ((f.parts p).atoms.filterMap reports))
    (houtside : ∀ goal ∈ goals a, Outside m (f.parts p) goal) :
    DegradesLocally m p render goals f (f.parts p) := by
  have hyields := hrendered _ _ (fills_formula m)
  have hreplaced := hrendered _ _ (fills_replaced m)
  rw [bind_parts] at hyields
  refine ⟨fits_parts p f, bind_parts p f, fun s' hs' hwhole => ?_, fun sink sink' => ?_,
    fun sink => ?_, fun sink => ?_, fun hsilent => ?_⟩
  · rw [← hwhole, hs'.parts_bind]
  · rw [hyields.eq_fst, hreplaced.eq_fst]
  · rw [hyields.eq_fst]
    exact houtside
  · rw [hyields, Diagnostics.foldl_add]
  · rw [bind_replaced_of_silent hsilent, bind_parts]

/-- The references of a formula are among its atoms. -/
theorem element_mem_atoms {r : Reference} (hr : .reference r ∈ (f.parts p).atoms) :
    r.element ∈ f.atoms := by
  rw [← bind_parts p f, Formula.atoms_bind]
  exact List.mem_flatMap.mpr ⟨_, hr, List.mem_singleton_self _⟩

/-- Renderings of a formula over the elements of a model degrade locally. Placeholders are written
`true` and `0`. -/
theorem renderings_degrade_locally (m : Model) {f : Formula Handle}
    (hrange : ∀ h ∈ f.atoms, h.index < m.elements.length) :
    renderCondition m (Position.placeholder .truth) = pure (.word "true") ∧
      renderQuantity m (Position.placeholder .amount) = pure ⟨[], .word "0"⟩ ∧
      (∃ s, DegradesLocally m .truth (renderCondition m) Term.goals f s) ∧
      ∃ s, DegradesLocally m .amount (renderQuantity m) (·.bindings.map (·.goal)) f s := by
  obtain ⟨t, ht⟩ := (fits_parts .truth f).exists_condition rfl
    fun r hr => hrange _ (element_mem_atoms hr)
  obtain ⟨q, hq⟩ := (fits_parts .amount f).exists_quantity rfl
    fun r hr => hrange _ (element_mem_atoms hr)
  exact ⟨rfl, rfl, ⟨_, degradesLocally_parts ht.rendered ht.outside⟩,
    ⟨_, degradesLocally_parts hq.rendered (List.forall_mem_map.mpr hq.outside)⟩⟩

/-- A number is no condition, a conjunction no number, and an effect has no value: of
`1 and Force + (Opened and Inside) > previous Walked` three parts are reported, from left to
right. -/
theorem door_degrades :
    let f : Formula Handle := .binary .and (.number .one)
      (.binary .gt (.binary .plus (.atom ⟨2⟩) (.binary .and (.atom ⟨0⟩) (.atom ⟨1⟩)))
        (.unary .previous (.atom ⟨11⟩)))
    ∃ s, DegradesLocally Document.door.linked .truth (renderCondition Document.door.linked)
        Term.goals f s ∧
      s.bind Part.replaced = .binary .and (.bool true)
        (.binary .gt (.binary .plus (.atom ⟨2⟩) (.bool false)) (.unary .previous (.atom ⟨11⟩))) ∧
      s.atoms.filterMap (Part.report? Document.door.linked) =
        [.numberAsCondition .one, .booleanAsQuantity "and", .effectAsQuantity "Walked"] := by
  intro f
  obtain ⟨-, -, ⟨s, hs⟩, -⟩ := renderings_degrade_locally Document.door.linked (f := f) (by decide)
  obtain rfl := hs.unique _ (fits_parts .truth f) (bind_parts .truth f)
  exact ⟨_, hs, rfl, by decide⟩

end Golog

end GoalModel
