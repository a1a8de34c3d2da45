import GoalModel.Proofs.Golog.BoundVariables

/-! # Values of the previous run

A cross-run quality goes on from its value in the previous run. The value is added to the formula,
unless the formula refers to it and so says itself what becomes of it. Whether it does is asked of
the whole formula; what the clause binds is found while the formula is rendered, and parts that
mean nothing where they stand are left out then. So the two agree unless the value is referred to
in such a part (`Formula.referencesPrevious_iff`). A quality whose formula refers to its previous
value there and nowhere else does not go on from it, which is reported along with the part; all
others do, and the value is added exactly if it is not bound already
(`Document.previousValue_bound`). -/

namespace GoalModel

open Golog

/-- The value of an element in the previous run is referred to in a part that is left out when the
formula is rendered for a number. -/
def Formula.PreviousLeftOut (f : Formula Handle) (q : Handle) : Prop :=
  ∃ p whole d, .misfit p whole d ∈ (f.parts .amount).atoms ∧ whole.referencesPrevious q = true

namespace Golog

/-- The goal for the value of a quality in the previous run. -/
def previousValueGoal (name : String) : String := name ++ "(R_" ++ name ++ "_init, s0)"

/-- The goals that bind what a formula needs, as they are written. -/
def boundGoals (m : Model) (f : Formula Handle) (sink : Diagnostics) : List String :=
  ((renderQuantity m f).run sink).1.bindings.map (·.goal.text)

/-- The clauses of a cross-run quality whose general clause has some goals before it evaluates an
expression. -/
def crossRunTexts (name : String) (goals : List String) (expression : String) : List String :=
  [name ++ "(V, s0) :- !, initialValue(" ++ name ++ ", V).",
    name ++ "(V, S) :- " ++ String.intercalate ", " (goals ++ ["V is " ++ expression]) ++ "."]

end Golog

namespace Formula

variable {f left right : Formula Handle} {op : BinaryOperator} {q : Handle} {d : Degradation}

/-! ## Where a formula refers to a previous value -/

/-- The operators of amounts are the arithmetic ones, and these ask for amounts. -/
theorem leaves_amount (hop : op.result = .amount) :
    (binary op left right).leaves = left.leaves ++ right.leaves := by
  obtain ⟨_, symbol, hsymbol⟩ := exists_arithmeticSymbol? hop
  exact leaves_arithmetic hsymbol left right

theorem parts_amount (hop : op.result = .amount) :
    (binary op left right).parts .amount =
      .binary op (left.parts .amount) (right.parts .amount) := by
  rw [parts, if_pos hop, (exists_arithmeticSymbol? hop).1]

theorem leaves_of_misfit (h : f.Misfit .amount d) : f.leaves = [] := by
  cases h with
  | @binary _ op left right hresult =>
    cases op <;> first | rfl | exact absurd rfl hresult
  | not operand => rfl
  | @previous _ operand hatom =>
    cases operand with
    | atom a => exact absurd rfl (hatom a)
    | _ => rfl

theorem previousLeftOut_of_misfit (h : f.Misfit .amount d) :
    f.PreviousLeftOut q ↔ f.referencesPrevious q = true := by
  simp [PreviousLeftOut, parts_of_misfit h, atoms]

theorem previousLeftOut_amount (hop : op.result = .amount) :
    (binary op left right).PreviousLeftOut q ↔ left.PreviousLeftOut q ∨ right.PreviousLeftOut q := by
  simp only [PreviousLeftOut, parts_amount hop, atoms, List.mem_append, or_and_right, exists_or]

theorem referencesPrevious_iff : f.referencesPrevious q = true ↔
    (q, .initial) ∈ f.leaves ∨ f.PreviousLeftOut q := by
  -- A misfit is left out as a whole; it has no leaves, and all that it refers to is lost.
  have hmisfit {f : Formula Handle} {d : Degradation} (h : f.Misfit .amount d) :
      f.referencesPrevious q = true ↔ (q, .initial) ∈ f.leaves ∨ f.PreviousLeftOut q := by
    rw [leaves_of_misfit h, previousLeftOut_of_misfit h]
    exact (or_iff_right List.not_mem_nil).symm
  induction f with
  | atom h | number x | bool value =>
    refine iff_of_false Bool.false_ne_true ?_
    rintro (hleaf | ⟨p, whole, d, hpart, -⟩)
    · simp [leaves] at hleaf
    · simp [parts, atoms] at hpart
  | unary op operand ih =>
    cases op with
    | not => exact hmisfit (.not operand)
    | negate => exact ih
    | previous =>
      cases operand with
      | atom h =>
        have hkept : ¬(unary .previous (atom h)).PreviousLeftOut q := by
          simp [PreviousLeftOut, parts, atoms]
        rw [or_iff_left hkept]
        simp [referencesPrevious, leaves, eq_comm]
      | _ => exact hmisfit (.previous fun _ h => by cases h)
  | binary op left right ihl ihr =>
    by_cases hop : op.result = .amount
    · rw [leaves_amount hop, previousLeftOut_amount hop, List.mem_append, or_or_or_comm]
      exact Bool.or_eq_true_iff.trans (or_congr ihl ihr)
    · exact hmisfit (.binary left right hop)

end Formula

namespace Golog

variable {m : Model} {q : Handle} {f : Formula Handle} {sink : Diagnostics} {name : String}

/-! ## What is bound -/

theorem text_previousValue (name : String) :
    (Binding.mk .value name .initial).goal.text = previousValueGoal name := by
  refine String.toList_injective ?_
  simp [Binding.goal, Binding.boundVariable, bindingVariable, ended, Term.call, Term.text,
    Term.texts, Gap.text, Situation.text, Identifier.Ending.text, previousValueGoal]

theorem Binding.merge_singleton {b : Binding} {first : List Binding} (hb : b ∉ first) :
    merge first [b] = first ++ [b] := by
  simp [merge, hb]

theorem Binding.nodup_merge {first others : List Binding} (hfirst : first.Nodup)
    (hothers : others.Nodup) : (merge first others).Nodup := by
  refine hfirst.append (hothers.filter _) ?_
  intro b hb hnew
  simp [hb] at hnew

/-- A formula binds everything once. -/
theorem nodup_bindings : ((renderQuantity m f).run sink).1.bindings.Nodup := by
  have hvalue (h : Handle) (situation : Situation) (sink : Diagnostics) :
      ((renderValue m h situation).run sink).1.bindings.Nodup := by
    unfold renderValue
    cases (m.role? h).bind Reading.ofRole with
    | none => exact .nil
    | some reading => exact List.nodup_singleton _
  apply renderQuantity_induction (motive := fun _ q => q.bindings.Nodup)
  case atom => exact fun h => hvalue h .current
  case previous => exact fun h => hvalue h .initial
  case number | bool => exact fun _ => .nil
  case placeholder => exact fun _ _ => .nil
  case negate => exact fun operand q ih => ih
  case arithmetic => exact fun _ _ _ _ _ _ _ ihl ihr => Binding.nodup_merge ihl ihr

theorem exists_leaf_of_mem_bindings {b : Binding}
    (hb : b ∈ ((renderQuantity m f).run sink).1.bindings) : ∃ leaf, leafBinding? m leaf = some b := by
  obtain ⟨leaf, _, hleaf⟩ := mem_bindings_renderQuantity.mp hb
  exact ⟨leaf, hleaf⟩

section Named
variable (hn : m.Named)
include hn

theorem nodup_boundGoals : (boundGoals m f sink).Nodup :=
  nodup_bindings.map_on fun _ hb _ hb' =>
    eq_of_text_eq hn (exists_leaf_of_mem_bindings hb) (exists_leaf_of_mem_bindings hb')

/-- The previous value of a quality is bound where the formula refers to it in place of a number,
and by nothing else. -/
theorem previousValueGoal_mem_iff (hq : m.role? q = some .quality) :
    previousValueGoal (m.nameOf q) ∈ boundGoals m f sink ↔ (q, .initial) ∈ f.leaves := by
  have hown := leafBinding?_of_quality hq .initial
  rw [boundGoals, ← text_previousValue, List.mem_map]
  constructor
  · -- Another binding that is written alike would have to be of the same leaf.
    rintro ⟨b, hb, htext⟩
    obtain ⟨leaf, hleaf, hb⟩ := mem_bindings_renderQuantity.mp hb
    obtain rfl := eq_of_text_eq hn ⟨leaf, hb⟩ ⟨_, hown⟩ htext
    exact leaf_unique hn hb hown ▸ hleaf
  · intro hleaf
    exact ⟨_, mem_bindings_renderQuantity.mpr ⟨_, hleaf, hown⟩, rfl⟩

end Named

/-- What accumulates binds the previous value last, if it is not bound already. -/
theorem map_text_accumulated (hnew : previousValueGoal name ∉ boundGoals m f sink) :
    (((renderQuantity m f).run sink).1.accumulated name).bindings.map (·.goal.text) =
      boundGoals m f sink ++ [previousValueGoal name] := by
  have hbinding : ⟨.value, name, .initial⟩ ∉ ((renderQuantity m f).run sink).1.bindings := by
    intro hb
    rw [← text_previousValue] at hnew
    exact hnew (List.mem_map_of_mem hb)
  rw [Quantity.accumulated, Binding.merge_singleton hbinding, List.map_append, List.map_singleton,
    text_previousValue, boundGoals]

theorem text_accumulated (quantity : Quantity) (name : String) :
    (quantity.accumulated name).expression.text =
      "R_" ++ name ++ "_init + " ++ quantity.expression.text := by
  refine String.toList_injective ?_
  simp [Quantity.accumulated, Term.text, Operator.text, Operator.spaced, Binding.boundVariable,
    bindingVariable, ended, Identifier.Ending.text]

/-! ## Clauses as they are written -/

theorem text_initialValueClause (name : String) : (initialValueClause name).text =
    name ++ "(V, s0) :- !, initialValue(" ++ name ++ ", V)." := by
  refine String.toList_injective ?_
  simp [Clause.text, initialValueClause, Clause.rule, valueGoal, Term.chain, Operator.listing,
    Operator.text, Term.call, Term.text, Term.texts, Gap.text, Situation.text]

theorem text_evaluationClause (name : String) (quantity : Quantity) :
    (evaluationClause name quantity).text = name ++ "(V, S) :- " ++ String.intercalate ", "
      (quantity.bindings.map (·.goal.text) ++ ["V is " ++ quantity.expression.text]) ++ "." := by
  have hhead : (valueGoal name .current).text ++ " :- " = name ++ "(V, S) :- " := by
    refine String.toList_injective ?_
    simp [valueGoal, Term.call, Term.text, Term.texts, Gap.text, Situation.text]
  rw [Clause.text, evaluationClause, Clause.rule]
  dsimp only
  rw [hhead, Term.text_chain (by simp), List.map_append, List.map_map]
  rfl

section CrossRun
variable {data : Quality} (hq : m.quality? q = some data) (hcross : m.isCrossRun q = true)
include hq hcross

/-- A cross-run quality has a base clause, and its general clause accumulates unless the formula
refers to the previous value. -/
theorem map_text_qualityClauses (sink : Diagnostics) :
    ((qualityClauses m q).run sink).1.map (·.text) =
      [(initialValueClause (m.nameOf q)).text,
        (evaluationClause (m.nameOf q)
          (if data.formula.referencesPrevious q then ((renderQuantity m data.formula).run sink).1
          else ((renderQuantity m data.formula).run sink).1.accumulated (m.nameOf q))).text] := by
  have haccumulates : accumulates m q = !data.formula.referencesPrevious q := by
    rw [accumulates, hcross, hq, Bool.true_and, Option.any_some]
  rw [run_qualityClauses hq, if_pos ((base_iff hq).mpr (.inl hcross)), haccumulates]
  cases data.formula.referencesPrevious q <;> rfl

theorem map_text_of_referencesPrevious (hrefers : data.formula.referencesPrevious q = true) :
    ((qualityClauses m q).run sink).1.map (·.text) =
      crossRunTexts (m.nameOf q) (boundGoals m data.formula sink)
        ((renderQuantity m data.formula).run sink).1.expression.text := by
  rw [map_text_qualityClauses hq hcross, if_pos hrefers, text_initialValueClause,
    text_evaluationClause]
  rfl

theorem map_text_of_not_referencesPrevious
    (hrefers : ¬data.formula.referencesPrevious q = true)
    (hnew : previousValueGoal (m.nameOf q) ∉ boundGoals m data.formula sink) :
    ((qualityClauses m q).run sink).1.map (·.text) =
      crossRunTexts (m.nameOf q)
        (boundGoals m data.formula sink ++ [previousValueGoal (m.nameOf q)])
        ("R_" ++ m.nameOf q ++ "_init + " ++
          ((renderQuantity m data.formula).run sink).1.expression.text) := by
  rw [map_text_qualityClauses hq hcross, if_neg hrefers, text_initialValueClause,
    text_evaluationClause, map_text_accumulated hnew, text_accumulated]
  rfl

end CrossRun

/-- What a part that is left out refers to is not lost unnoticed. -/
theorem entries_ne_of_previousLeftOut (hrange : ∀ h ∈ f.atoms, h.index < m.elements.length)
    (hleft : f.PreviousLeftOut q) (sink : Diagnostics) :
    ((renderQuantity m f).run sink).2.entries ≠ sink.entries := by
  obtain ⟨p, whole, d, hpart, _⟩ := hleft
  obtain ⟨quantity, hquantity⟩ := (fits_parts .amount f).exists_quantity rfl
    fun r hr => hrange _ (element_mem_atoms hr)
  have hyields := hquantity.rendered _ _ (fills_formula m)
  rw [bind_parts] at hyields
  have hreport : d ∈ (f.parts .amount).atoms.filterMap (Part.report? m) :=
    List.mem_filterMap.mpr ⟨_, hpart, rfl⟩
  rw [hyields sink, Diagnostics.entries_foldl_add]
  intro hnone
  have hempty := List.append_right_eq_self.mp hnone
  exact List.ne_nil_of_mem hreport (List.map_eq_nil_iff.mp hempty)

end Golog

namespace Document

/-- In a linked model, a formula refers to the previous value of a quality if it binds the value, or
if the reference is in a part that is left out, which is reported. A cross-run quality binds its
previous value once, unless its formula refers to it in such parts only; and the value is added to
the formula exactly if the formula does not refer to it. -/
theorem previousValue_bound {document : Document} {m : Model} (hlink : document.link = .ok m)
    {q : Handle} {data : Quality} (hq : m.quality? q = some data) :
    let name := m.nameOf q
    let own := previousValueGoal name
    (∀ f sink, f.referencesPrevious q = true ↔
      own ∈ boundGoals m f sink ∨ f.PreviousLeftOut q) ∧
    ∀ sink,
      let bound := boundGoals m data.formula sink
      let value := ((renderQuantity m data.formula).run sink).1.expression.text
      (data.formula.PreviousLeftOut q →
        ((renderQuantity m data.formula).run sink).2.entries ≠ sink.entries) ∧
      (m.isCrossRun q = true → ∃ goals expression,
        ((qualityClauses m q).run sink).1.map (·.text) = crossRunTexts name goals expression ∧
        goals.Nodup ∧
        (own ∈ goals ↔ (data.formula.PreviousLeftOut q → own ∈ bound)) ∧
        (own ∈ bound ∨ data.formula.PreviousLeftOut q → goals = bound ∧ expression = value) ∧
        (own ∉ bound → ¬data.formula.PreviousLeftOut q →
          goals = bound ++ [own] ∧ expression = "R_" ++ name ++ "_init + " ++ value)) := by
  intro name own
  have hn := named_of_link hlink
  obtain ⟨hwf, hlinked⟩ := link_eq_ok_iff.mp hlink
  have hsound : m.Sound := hlinked ▸ linked_sound hwf
  have hrefers (f : Formula Handle) (sink : Diagnostics) : f.referencesPrevious q = true ↔
      own ∈ boundGoals m f sink ∨ f.PreviousLeftOut q := by
    rw [Formula.referencesPrevious_iff, previousValueGoal_mem_iff hn (Model.role?_of_quality? hq)]
  refine ⟨hrefers, fun sink => ?_⟩
  intro bound value
  refine ⟨fun hleft => entries_ne_of_previousLeftOut
    (fun h hatom => hsound.index_lt_of_quality? hq hatom) hleft sink, fun hcross => ?_⟩
  have hnodup : bound.Nodup := nodup_boundGoals hn
  by_cases hdata : data.formula.referencesPrevious q = true
  · have hor := (hrefers _ sink).mp hdata
    refine ⟨bound, value, map_text_of_referencesPrevious hq hcross hdata, hnodup,
      ⟨fun h _ => h, fun h => hor.elim id h⟩, fun _ => ⟨rfl, rfl⟩, fun hnew hkept => ?_⟩
    exact absurd hor (not_or.mpr ⟨hnew, hkept⟩)
  · obtain ⟨hnew, hkept⟩ := not_or.mp (mt (hrefers _ sink).mpr hdata)
    have hbound : own ∈ bound ++ [own] := List.mem_append_right _ (List.mem_singleton_self _)
    refine ⟨bound ++ [own], _, map_text_of_not_referencesPrevious hq hcross hdata hnew,
      List.nodup_append_comm.mp (hnodup.cons hnew),
      iff_of_true hbound fun hleft => absurd hleft hkept, fun hor => ?_, fun _ _ => ⟨rfl, rfl⟩⟩
    exact absurd hor (not_or.mpr ⟨hnew, hkept⟩)

/-- Two qualities that go on from their previous values, but the formula of the second one refers to
it under a negation only. -/
def ledger : Document where
  name := "Ledger"
  actors := [{
    name := "Robot"
    predicates := []
    stateVariables := []
    goals := [⟨"rest", [], []⟩]
    tasks := []
    qualities := [
      ⟨"kept", false, .binary .plus (.unary .previous (.atom "kept"))
        (.unary .not (.unary .previous (.atom "kept")))⟩,
      ⟨"lost", false, .unary .not (.unary .previous (.atom "lost"))⟩]
    conditions := [] }]
  crossRun := ["kept", "lost"]
  exported := []
  initializations := []

/-- The first quality binds its previous value once, although a part that refers to it is left
out. -/
theorem ledger_kept_bound : ledger.link = .ok ledger.linked ∧
    ∃ goals value, ((qualityClauses ledger.linked ⟨1⟩).run .empty).1.map (·.text) =
        crossRunTexts "kept" goals value ∧
      goals.Nodup ∧ "kept(R_kept_init, s0)" ∈ goals ∧ value = "(R_kept_init)+(0)" := by
  have hlink : ledger.link = .ok ledger.linked := rfl
  have hquality : ledger.linked.quality? ⟨1⟩ = some _ := rfl
  obtain ⟨_, hclauses⟩ := previousValue_bound hlink hquality
  have hbound : "kept(R_kept_init, s0)" ∈ boundGoals ledger.linked
      (.binary .plus (.unary .previous (.atom ⟨1⟩))
        (.unary .not (.unary .previous (.atom ⟨1⟩)))) .empty := by decide +kernel
  obtain ⟨goals, value, htexts, hnodup, hmem, hrefers, _⟩ := (hclauses .empty).2 (by decide)
  exact ⟨hlink, goals, value, htexts, hnodup, hmem.mpr fun _ => hbound, (hrefers (.inl hbound)).2⟩

end Document

/-- The text of `Document.ledger`. -/
def ledgerText : String := r#"{
  "name": "Ledger",
  "actors": [{
    "name": "Robot",
    "goals": [{"name": "rest"}],
    "qualities": [
      {"name": "kept", "formula": {"plus": [
        {"previous": {"atom": "kept"}}, {"not": {"previous": {"atom": "kept"}}}]}},
      {"name": "lost", "formula": {"not": {"previous": {"atom": "lost"}}}}]}],
  "crossRun": ["kept", "lost"]}"#

set_option maxRecDepth 10000 in
theorem parseModel_ledgerText : parseModel ledgerText true = .ok Document.ledger.linked := by
  have htext : ledgerText = String.ofList _ := rfl
  refine eq_ok_of_toOption ?_
  rw [htext, parseModel, Json.read?_ofList]
  decide +kernel

/-- The formula of the second quality refers to its previous value, but the value is neither bound
nor added. -/
theorem ledger_lost_unbound : parseModel ledgerText true = .ok Document.ledger.linked ∧
    Document.ledger.linked.isCrossRun ⟨2⟩ = true ∧
    ∃ data, Document.ledger.linked.quality? ⟨2⟩ = some data ∧
      data.formula.referencesPrevious ⟨2⟩ = true ∧
      "lost(R_lost_init, s0)" ∉ boundGoals Document.ledger.linked data.formula .empty ∧
      ((qualityClauses Document.ledger.linked ⟨2⟩).run .empty).1.map (·.text) =
        ["lost(V, s0) :- !, initialValue(lost, V).", "lost(V, S) :- V is 0."] :=
  ⟨parseModel_ledgerText, by decide, _, rfl, rfl, List.not_mem_nil, by decide +kernel⟩

end GoalModel
