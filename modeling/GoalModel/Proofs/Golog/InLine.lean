import GoalModel.Proofs.Golog.Definitions
import GoalModel.Proofs.Number.ReadBack

/-! # Clauses without line feeds

What a program says comes from the vocabulary of the translation, from the names of elements,
from numbers and from initial values. Names are identifiers, and the text of a number has digits,
a point and few letters, so that none of these brings a line feed into a clause
(`inLine_of_mem_ownedClauses`). Only an initial value can: the clause of the initial values stands
in one line exactly if every text among them does (`inLine_initClause_iff`). -/

namespace GoalModel

/-! ## Text -/

/-- Text without a line feed. -/
def InLine (text : String) : Prop := '\n' ∉ text.toList

instance (text : String) : Decidable (InLine text) := inferInstanceAs (Decidable (_ ∉ _))

section
variable {text other separator : String} {parts : List String}

@[simp]
theorem inLine_append : InLine (text ++ other) ↔ InLine text ∧ InLine other := by
  simp [InLine, not_or]

theorem inLine_ofList {cs : List Char} : InLine (String.ofList cs) ↔ '\n' ∉ cs := by
  rw [InLine, String.toList_ofList]

theorem inLine_intercalate (hseparator : InLine separator) :
    InLine (String.intercalate separator parts) ↔ ∀ part ∈ parts, InLine part := by
  induction parts with
  | nil => simp [InLine]
  | cons part rest ih =>
    cases rest with
    | nil => simp
    | cons next rest =>
      rw [String.intercalate_cons_cons, inLine_append, inLine_append, ih,
        List.forall_mem_cons (l := next :: rest)]
      simp [hseparator]

theorem inLine_of_isValid (h : Identifier.isValid text) : InLine text := by
  intro hfeed
  exact absurd (Identifier.forall_isPart h _ hfeed) (by decide)

theorem Identifier.Ending.inLine (ending : Ending) : InLine ending.text := by
  cases ending <;> decide

end

theorem Literal.feed_notMem {l : Literal} (hl : l.Proper) : '\n' ∉ l.text := by
  have hdigits {cs : List Char} (hcs : ∀ c ∈ cs, c.isDigit) : '\n' ∉ cs := fun hfeed =>
    absurd (hcs _ hfeed) (by decide)
  have hexponent : '\n' ∉ exponentText l.exponent := by
    cases l.exponent with
    | none => exact List.not_mem_nil
    | some e =>
      have htext : '\n' ∉ Nat.toDigits 10 e.natAbs :=
        hdigits fun c hc => Nat.isDigit_of_mem_toDigits (by decide) (by decide) hc
      by_cases he : e < 0 <;> simp [exponentText, he, htext]
  simp [text, hdigits hl.whole.2, hdigits hl.fraction.2, hexponent]

@[simp]
theorem Number.inLine_write (x : Number) : InLine (x.write .program) := by
  match x with
  | .nan => decide
  | .ranked negative r =>
    have hmagnitude : '\n' ∉ (if r.val = infinityRank then ['i', 'n', 'f']
        else if r.val = 0 then positionalText .program ['0'] 0
        else magnitudeText .program r.val) := by
      by_cases hr : r.val = infinityRank
      · rw [if_pos hr]
        decide
      · obtain ⟨l, hproper, _, htext⟩ := exists_literal (r := r) (by omega)
        rw [if_neg hr, htext]
        exact l.feed_notMem hproper
    rw [write, inLine_ofList]
    cases negative <;> simpa using hmagnitude

namespace Golog

open Identifier

/-! ## Terms -/

/-- A term that is written without a line feed. -/
def Term.InLine (term : Term) : Prop := GoalModel.InLine term.text

instance (term : Term) : Decidable term.InLine :=
  inferInstanceAs (Decidable (GoalModel.InLine term.text))

namespace Term

variable {op : Operator} {functor text : String} {gap : Gap} {t left right empty : Term}
  {terms : List Term}

theorem texts_eq_map (terms : List Term) : texts terms = terms.map Term.text := by
  induction terms with
  | nil => rfl
  | cons t rest ih => rw [texts, ih, List.map_cons]

@[simp]
theorem inLine_word : (word text).InLine ↔ GoalModel.InLine text := Iff.rfl

@[simp]
theorem inLine_number (x : Number) : (number x).InLine := x.inLine_write

@[simp]
theorem inLine_compound :
    (compound functor gap terms).InLine ↔
      GoalModel.InLine functor ∧ ∀ t ∈ terms, t.InLine := by
  have hgap : GoalModel.InLine gap.text := by cases gap <;> decide
  have hparentheses : GoalModel.InLine "(" ∧ GoalModel.InLine ")" := by decide
  simp [InLine, Term.text, texts_eq_map, inLine_intercalate hgap, hparentheses]

@[simp]
theorem inLine_list : (list terms).InLine ↔ ∀ t ∈ terms, t.InLine := by
  have hcomma : GoalModel.InLine "," := by decide
  have hbrackets : GoalModel.InLine "[" ∧ GoalModel.InLine "]" := by decide
  simp [InLine, Term.text, texts_eq_map, inLine_intercalate hcomma, hbrackets]

@[simp]
theorem inLine_unary : (unary op t).InLine ↔ GoalModel.InLine op.text ∧ t.InLine :=
  inLine_append

@[simp]
theorem inLine_binary :
    (binary op left right).InLine ↔ GoalModel.InLine op.text ∧ left.InLine ∧ right.InLine := by
  simp [InLine, Term.text, and_assoc, and_left_comm]

@[simp]
theorem inLine_group : (group t).InLine ↔ t.InLine := by
  have hparentheses : GoalModel.InLine "(" ∧ GoalModel.InLine ")" := by decide
  simp [InLine, Term.text, hparentheses]

theorem inLine_chain (hop : GoalModel.InLine op.text) (hempty : empty.InLine)
    (hterms : ∀ t ∈ terms, t.InLine) : (chain op empty terms).InLine := by
  induction terms with
  | nil => exact hempty
  | cons t rest ih =>
    obtain ⟨ht, hrest⟩ := List.forall_mem_cons.mp hterms
    cases rest with
    | nil => exact ht
    | cons next rest =>
      rw [chain_cons_cons, inLine_binary]
      exact ⟨hop, ht, ih hrest⟩

theorem inLine_groupedConjunction (hterms : ∀ t ∈ terms, t.InLine) :
    (groupedConjunction terms).InLine := by
  have hchain : (chain .conjunction (.word "true") terms).InLine :=
    inLine_chain (by decide) (by decide) hterms
  match terms with
  | [] => exact hchain
  | [t] => exact hchain
  | _ :: _ :: _ => exact inLine_group.mpr hchain

end Term

/-- A clause that is written without a line feed. -/
def Clause.InLine (clause : Clause) : Prop := GoalModel.InLine clause.text

namespace Clause

variable {head body : Term} {functor : String} {terms : List Term}

@[simp]
theorem inLine_fact : (fact head).InLine ↔ head.InLine := by
  have hstop : GoalModel.InLine "." := by decide
  simp [InLine, text, fact, Term.InLine, hstop]

@[simp]
theorem inLine_rule : (rule head body).InLine ↔ head.InLine ∧ body.InLine := by
  have hmarks : GoalModel.InLine " :- " ∧ GoalModel.InLine "." := by decide
  simp [InLine, text, rule, Term.InLine, hmarks]

theorem inLine_listFact (hfunctor : GoalModel.InLine functor) :
    (listFact functor terms).InLine ↔ ∀ t ∈ terms, t.InLine := by
  simp [listFact, Term.apply, hfunctor]

end Clause

/-! ## Names -/

section
variable {m : Model} {name : String} {s : Situation} {ending : Ending}

@[simp]
theorem inLine_ended : InLine (ended name ending) ↔ InLine name := by
  simp [ended, ending.inLine]

@[simp]
theorem Situation.inLine (s : Situation) : InLine s.text := by
  cases s <;> decide

@[simp]
theorem inLine_bindingVariable : InLine (bindingVariable name s) ↔ InLine name := by
  have hmark : InLine "R_" := by decide
  cases s <;> simp [bindingVariable, hmark]

@[simp]
theorem inLine_holdsIn : (holdsIn name s).InLine ↔ InLine name := by
  simp [holdsIn, Term.applyWord, Term.apply]

@[simp]
theorem inLine_possible : (possible name).InLine ↔ InLine name := by
  simp +decide [possible, Term.apply]

@[simp]
theorem inLine_valueGoal : (valueGoal name s).InLine ↔ InLine name := by
  simp +decide [valueGoal, Term.call]

@[simp]
theorem inLine_goal {b : Binding} : b.goal.InLine ↔ InLine b.state := by
  unfold Binding.goal
  split <;> simp +decide [Term.call, Binding.boundVariable]

variable (hn : m.Named) (h : Handle)
include hn

theorem inLine_nameOf : InLine (m.nameOf h) := by
  by_cases hh : h.index < m.elements.length
  · exact inLine_of_isValid (isValid_nameOf hn hh)
  · -- a handle that leads nowhere has the empty name
    have hnone : m.element? h = none := List.getElem?_eq_none (Nat.le_of_not_lt hh)
    rw [Model.nameOf, hnone]
    decide

theorem inLine_stateName : InLine (stateName m h) := by
  unfold stateName
  split <;> simp [inLine_nameOf hn h]

end

/-! ## Formulas -/

/-- A quantity without line feeds, neither in its expression nor in the names that it binds. -/
structure Quantity.InLine (q : Quantity) : Prop where
  bindings : ∀ b ∈ q.bindings, GoalModel.InLine b.state
  expression : q.expression.InLine

/-- Bindings and a last goal, one after the other. -/
theorem inLine_chain_bindings {bindings : List Binding} {last : Term}
    (hbindings : ∀ b ∈ bindings, InLine b.state) (hlast : last.InLine) :
    (Term.chain .listing (.word "true") (bindings.map (·.goal) ++ [last])).InLine := by
  refine Term.inLine_chain (by decide) (by decide) ?_
  refine List.forall_mem_append.mpr ⟨List.forall_mem_map.mpr fun b hb => ?_, ?_⟩
  · exact inLine_goal.mpr (hbindings b hb)
  · exact List.forall_mem_singleton.mpr hlast

theorem inLine_comparison {symbol : String} {l r : Quantity} (hsymbol : InLine symbol)
    (hl : l.InLine) (hr : r.InLine) : (comparison symbol l r).InLine := by
  have hop : InLine (Operator.spaced symbol).text := by
    simpa +decide [Operator.text, Operator.spaced] using hsymbol
  refine Term.inLine_group.mpr (inLine_chain_bindings (fun b hb => ?_) ?_)
  · exact (Binding.mem_merge.mp hb).elim (hl.bindings b) (hr.bindings b)
  · exact Term.inLine_binary.mpr ⟨hop, hl.expression, hr.expression⟩

theorem Quantity.InLine.accumulated {q : Quantity} {name : String} (hq : q.InLine)
    (hname : GoalModel.InLine name) : (q.accumulated name).InLine where
  bindings b hb := by
    rcases Binding.mem_merge.mp hb with hb | hb
    · exact hq.bindings b hb
    · rw [List.mem_singleton.mp hb]
      exact hname
  expression :=
    Term.inLine_binary.mpr ⟨by decide, inLine_bindingVariable.mpr hname, hq.expression⟩

theorem inLine_evaluationClause {q : Quantity} {name : String} (hname : InLine name)
    (hq : q.InLine) : (evaluationClause name q).InLine := by
  refine Clause.inLine_rule.mpr ⟨inLine_valueGoal.mpr hname, inLine_chain_bindings hq.bindings ?_⟩
  exact Term.inLine_binary.mpr ⟨by decide, by decide, hq.expression⟩

section
variable {m : Model} (hn : m.Named)
include hn

theorem inLine_expression_renderValue (h : Handle) (s : Situation) (sink : Diagnostics) :
    ((renderValue m h s).run sink).1.expression.InLine := by
  unfold renderValue
  cases (m.role? h).bind Reading.ofRole with
  | some reading =>
    have hvariable : InLine (bindingVariable (stateName m h) s) := by
      simpa using inLine_stateName hn h
    exact hvariable
  | none => exact inLine_nameOf hn h

theorem inLine_expression_renderQuantity (f : Formula Handle) (sink : Diagnostics) :
    ((renderQuantity m f).run sink).1.expression.InLine := by
  have htruth (value : Bool) : InLine (if value then "1" else "0") := by cases value <;> decide
  apply renderQuantity_induction (motive := fun _ q => q.expression.InLine)
  case atom => exact fun h => inLine_expression_renderValue hn h .current
  case previous => exact fun h => inLine_expression_renderValue hn h .initial
  case number => exact fun x => x.inLine_write
  case bool => exact htruth
  case placeholder => exact fun _ _ => by decide
  case negate =>
    exact fun operand q ih => Term.inLine_unary.mpr ⟨by decide, Term.inLine_group.mpr ih⟩
  case arithmetic =>
    intro op symbol left right l r hsymbol ihl ihr
    have hop : InLine (Operator.tight symbol).text := by
      cases op <;> cases hsymbol <;> decide
    exact Term.inLine_binary.mpr ⟨hop, Term.inLine_group.mpr ihl, Term.inLine_group.mpr ihr⟩

theorem inLine_renderQuantity (f : Formula Handle) (sink : Diagnostics) :
    ((renderQuantity m f).run sink).1.InLine where
  bindings b hb := by
    obtain ⟨leaf, _, hleaf⟩ := mem_bindings_renderQuantity.mp hb
    obtain ⟨_, _, rfl⟩ := Option.map_eq_some_iff.mp hleaf
    exact inLine_stateName hn leaf.1
  expression := inLine_expression_renderQuantity hn f sink

theorem inLine_renderCondition (f : Formula Handle) (sink : Diagnostics) :
    ((renderCondition m f).run sink).1.InLine := by
  have hplaceholder : conditionPlaceholder.InLine := by decide
  have htruth (value : Bool) : InLine (if value then "true" else "fail") := by
    cases value <;> decide
  induction f generalizing sink with
  | atom h =>
    unfold renderCondition renderTruth
    split
    · exact inLine_nameOf hn h
    · exact inLine_holdsIn.mpr (inLine_stateName hn h)
  | number x => exact hplaceholder
  | bool value => exact htruth value
  | binary op left right ihl ihr =>
    have hconnective {op : Operator} (hop : InLine op.text) (sink sink' : Diagnostics) :
        (Term.group (.binary op ((renderCondition m left).run sink).1
          ((renderCondition m right).run sink').1)).InLine :=
      Term.inLine_group.mpr (Term.inLine_binary.mpr ⟨hop, ihl _, ihr _⟩)
    cases op with
    | and => exact hconnective (by decide) _ _
    | or => exact hconnective (by decide) _ _
    | plus | minus | multiply | divide => exact hplaceholder
    | gt | gte | lt | lte | eq | neq =>
      exact inLine_comparison (by decide) (inLine_renderQuantity hn left _)
        (inLine_renderQuantity hn right _)
  | unary op operand ih =>
    cases op with
    | not => exact Term.inLine_unary.mpr ⟨by decide, Term.inLine_group.mpr (ih _)⟩
    | negate => exact hplaceholder
    | previous =>
      cases operand with
      | atom h => exact inLine_holdsIn.mpr (inLine_ended.mpr (inLine_nameOf hn h))
      | _ => exact hplaceholder

end

/-! ## Clauses of elements -/

section
variable {m : Model} (hn : m.Named) {h : Handle} {clause : Clause}
include hn

theorem inLine_nameTerm (h : Handle) : (nameTerm m h).InLine := inLine_nameOf hn h

theorem inLine_stateTerm (h : Handle) : (stateTerm m h).InLine := inLine_stateName hn h

theorem inLine_of_mem_successorClauses (hclause : clause ∈ successorClauses m h) :
    clause.InLine := by
  have hstate := inLine_stateName hn h
  simp only [successorClauses, List.mem_cons, List.not_mem_nil, or_false] at hclause
  rcases hclause with rfl | rfl
  · simpa +decide [Term.applyWord, Term.apply] using hstate
  · refine Clause.inLine_rule.mpr ⟨?_, Term.inLine_chain (by decide) (by decide) ?_⟩
    · simpa +decide [Term.apply] using hstate
    · refine List.forall_mem_cons.mpr ⟨inLine_holdsIn.mpr hstate, List.forall_mem_map.mpr ?_⟩
      intro e _
      exact Term.inLine_binary.mpr ⟨by decide, by decide, inLine_nameTerm hn e⟩

theorem inLine_derivedClause (d : Derived) (h : Handle) : (derivedClause m d h).InLine := by
  have hholds (g : Handle) (ending : Ending) (s : Situation) :
      (holdsIn (ended (m.nameOf g) ending) s).InLine := by
    simpa using inLine_nameOf hn g
  refine Clause.inLine_rule.mpr ⟨hholds h _ _, ?_⟩
  unfold derivedBody
  split
  · refine Term.inLine_chain (by decide) (by decide) (List.forall_mem_map.mpr fun effect _ => ?_)
    exact Term.inLine_groupedConjunction (List.forall_mem_map.mpr fun p _ => hholds p _ _)
  · have hop (kind : Refinement) : InLine (d.operator kind).text := by
      cases d <;> cases kind <;> decide
    exact Term.inLine_chain (hop _) (by decide) (List.forall_mem_map.mpr fun c _ => hholds c _ _)
  · decide

theorem inLine_of_mem_qualityClauses (hq : m.role? h = some .quality)
    (hclause : clause ∈ ((qualityClauses m h).run .empty).1) : clause.InLine := by
  obtain ⟨data, hdata⟩ := Model.exists_quality? hq
  have hname := inLine_nameOf hn h
  have hquantity := inLine_renderQuantity hn data.formula .empty
  rw [run_qualityClauses hdata] at hclause
  rcases List.mem_append.mp hclause with hclause | hclause
  · split at hclause
    · rw [List.mem_singleton.mp hclause]
      simpa +decide [initialValueClause, Term.chain, Term.call] using hname
    · cases hclause
  · rw [List.mem_singleton.mp hclause]
    refine inLine_evaluationClause hname ?_
    split
    · exact hquantity.accumulated hname
    · exact hquantity

theorem inLine_of_mem_conditionClauses (hc : m.role? h = some .condition)
    (hclause : clause ∈ ((conditionClauses m h).run .empty).1) : clause.InLine := by
  obtain ⟨formula, hformula⟩ := Model.exists_condition? hc
  have hname := inLine_nameOf hn h
  rw [run_conditionClauses hformula] at hclause
  simp only [List.mem_cons, List.not_mem_nil, or_false] at hclause
  rcases hclause with rfl | rfl
  · simpa +decide [initialTruthClause, Term.chain, Term.applyWord, Term.apply] using hname
  · exact Clause.inLine_rule.mpr ⟨inLine_holdsIn.mpr hname, inLine_renderCondition hn formula _⟩

/-- The clauses that are written for elements have no line feeds. -/
theorem WrittenFor.inLine {kind : SectionKind} (hwritten : WrittenFor m h kind clause) :
    clause.InLine := by
  cases hwritten with
  | successor _ hclause => exact inLine_of_mem_successorClauses hn hclause
  | derived d _ => exact inLine_derivedClause hn d h
  | value hq hclause => exact inLine_of_mem_qualityClauses hn hq hclause
  | truth hc hclause => exact inLine_of_mem_conditionClauses hn hc hclause

end

/-! ## Clauses of the vocabulary -/

/-- A list of terms that are written for elements. -/
theorem inLine_listFact_map {functor : String} {term : Handle → Term} {hs : List Handle}
    (hfunctor : InLine functor) (hterm : ∀ h, (term h).InLine) :
    (Clause.listFact functor (hs.map term)).InLine :=
  (Clause.inLine_listFact hfunctor).mpr (List.forall_mem_map.mpr fun h _ => hterm h)

section
variable {m : Model} (hn : m.Named) {clause : Clause}
include hn

theorem inLine_exportTerm (entry : Export) : (exportTerm m entry).InLine := by
  have hbound (bound : Option Number) {fallback : String} (hfallback : InLine fallback) :
      ((bound.map Term.number).getD (.word fallback)).InLine := by
    cases bound with
    | none => exact hfallback
    | some x => exact x.inLine_write
  unfold exportTerm
  split
  · exact inLine_stateTerm hn entry.element
  · refine Term.inLine_compound.mpr ⟨inLine_stateName hn entry.element, ?_⟩
    simp only [List.forall_mem_cons]
    exact ⟨hbound _ (by decide), hbound _ (by decide), List.forall_mem_nil _⟩

/-- The names of actions, in a list and one by one. -/
theorem inLine_of_mem_actionClauses {listing functor : String} {hs : List Handle}
    (hlisting : InLine listing) (hfunctor : InLine functor)
    (hclause : clause ∈ Clause.listFact listing (hs.map (nameTerm m)) ::
      (hs.map (nameTerm m)).map fun name => .fact (.apply functor [name])) : clause.InLine := by
  rcases List.mem_cons.mp hclause with rfl | hclause
  · exact inLine_listFact_map hlisting (inLine_nameTerm hn)
  · rw [List.map_map] at hclause
    obtain ⟨h, _, rfl⟩ := List.mem_map.mp hclause
    simpa [Term.apply, hfunctor] using inLine_nameTerm hn h

theorem inLine_nondetClause (t : Handle) : (nondetClause m t).InLine := by
  simp +decide [nondetClause, Term.apply, inLine_nameTerm hn]

theorem inLine_of_mem_probabilities
    (hclause : clause ∈ m.effects.filterMap (probabilityClause? m)) : clause.InLine := by
  obtain ⟨e, _, hclause⟩ := List.mem_filterMap.mp hclause
  obtain ⟨effect, _, rfl⟩ := Option.map_eq_some_iff.mp hclause
  simp +decide [Term.apply, inLine_nameTerm hn]

theorem inLine_procedureClause (g : Handle) : (procedureClause m g).InLine := by
  have hop : InLine (Operator.spaced (if m.refinement g = .or then "#" else ":")).text := by
    split <;> decide
  have hchildren : ∀ t ∈ (m.children g).map (nameTerm m), t.InLine :=
    List.forall_mem_map.mpr fun c _ => inLine_nameTerm hn c
  refine Clause.inLine_fact.mpr (Term.inLine_compound.mpr ⟨by decide, ?_⟩)
  refine List.forall_mem_cons.mpr ⟨inLine_nameTerm hn g, List.forall_mem_singleton.mpr ?_⟩
  split
  · decide
  · next child hchild => exact hchildren child (hchild ▸ List.mem_singleton_self child)
  · exact Term.inLine_group.mpr (Term.inLine_chain hop (by decide) hchildren)

theorem inLine_of_mem_preconditionClauses (hclause : clause ∈ preconditionClauses m) :
    clause.InLine := by
  have hpossible (h : Handle) : (possible (m.nameOf h)).InLine := by
    simpa using inLine_nameOf hn h
  rcases List.mem_append.mp hclause with hclause | hclause
  · obtain ⟨e, _, hclause⟩ := List.mem_filterMap.mp hclause
    obtain ⟨effect, _, rfl⟩ := Option.map_eq_some_iff.mp hclause
    refine Clause.inLine_rule.mpr ⟨hpossible e, Term.inLine_chain (by decide) (by decide) ?_⟩
    refine List.forall_mem_map.mpr fun h _ => Term.inLine_unary.mpr ⟨by decide, ?_⟩
    simpa using inLine_nameOf hn h
  · obtain ⟨t, _, rfl⟩ := List.mem_map.mp hclause
    unfold taskPrecondition
    split
    · exact Clause.inLine_fact.mpr (hpossible t)
    · refine Clause.inLine_rule.mpr ⟨hpossible t, Term.inLine_chain (by decide) (by decide) ?_⟩
      exact List.forall_mem_map.mpr fun e _ => hpossible e

theorem inLine_rewardClause : (rewardClause m).InLine := by
  unfold rewardClause
  split
  · simp +decide [inLine_nameOf hn]
  · exact Clause.inLine_fact.mpr (by decide)

theorem inLine_senseClause (e : Handle) : (senseClause m e).InLine := by
  have hsensed : (Term.groupedConjunction ((m.turnsTrue e).map (stateTerm m))).InLine :=
    Term.inLine_groupedConjunction (List.forall_mem_map.mpr fun p _ => inLine_stateTerm hn p)
  simp +decide [senseClause, Term.apply, inLine_nameTerm hn, hsensed]

theorem inLine_of_mem_situationArgumentClauses (hclause : clause ∈ situationArgumentClauses m) :
    clause.InLine := by
  have hrestore {name : String} (hname : InLine name) : (restoreClause name).InLine := by
    simp +decide [restoreClause, Term.apply, hname]
  have hvalue {name : String} (hname : InLine name) : (restoreValueClause name).InLine := by
    simp +decide [restoreValueClause, Term.apply, Term.applyWord, hname]
  have hname := inLine_nameOf hn
  simp only [situationArgumentClauses, List.mem_append, List.mem_map, List.mem_flatMap] at hclause
  rcases hclause with ((⟨p, _, rfl⟩ | ⟨h, _, d, _, rfl⟩) | ⟨c, _, rfl⟩) | ⟨q, _, rfl⟩
  · exact hrestore (inLine_ended.mpr (hname p))
  · exact hrestore (inLine_ended.mpr (hname h))
  · exact hrestore (hname c)
  · exact hvalue (hname q)

/-- The clauses of the vocabulary have no line feeds, those of the initial values apart. -/
theorem inLine_vocabularyClauses (root : Handle) {kind : SectionKind}
    (hkind : kind ≠ .initialValues) :
    ∀ clause ∈ vocabularyClauses m root kind, clause.InLine := by
  cases kind with
  | initialValues => exact absurd rfl hkind
  | successorState | conditions => exact fun _ hclause => absurd hclause List.not_mem_nil
  | stateStructure | fluents =>
    refine List.forall_mem_singleton.mpr ?_
    exact inLine_listFact_map (by decide) (inLine_stateTerm hn)
  | discreteExported | continuousExported =>
    refine List.forall_mem_singleton.mpr ((Clause.inLine_listFact (by decide)).mpr ?_)
    exact List.forall_mem_map.mpr fun entry _ => inLine_exportTerm hn entry
  | agentActions | stochasticActions =>
    exact fun _ => inLine_of_mem_actionClauses hn (by decide) (by decide)
  | nondetActions => exact List.forall_mem_map.mpr fun t _ => inLine_nondetClause hn t
  | probabilities => exact fun _ => inLine_of_mem_probabilities hn
  | procedures => exact List.forall_mem_map.mpr fun g _ => inLine_procedureClause hn g
  | preconditions => exact fun _ => inLine_of_mem_preconditionClauses hn
  | satisfaction =>
    refine List.forall_mem_singleton.mpr (Clause.inLine_rule.mpr ⟨by decide, ?_⟩)
    simpa using inLine_nameOf hn root
  | rewards => exact List.forall_mem_singleton.mpr (inLine_rewardClause hn)
  | sensing => exact List.forall_mem_map.mpr fun e _ => inLine_senseClause hn e
  | situationArguments => exact fun _ => inLine_of_mem_situationArgumentClauses hn

theorem inLine_initialTerm_iff {entry : Initialization} :
    (initialTerm m entry).InLine ↔ ∀ text, entry.value = .text text → InLine text := by
  have hstate := inLine_stateName hn entry.element
  have hterm : (initialTerm m entry).InLine ↔ (initialValueTerm entry.value).InLine := by
    simp [initialTerm, Term.apply, hstate]
  rw [hterm]
  cases entry.value with
  | bool value =>
    have htruth : InLine (if value then "true" else "false") := by cases value <;> decide
    simpa [initialValueTerm] using htruth
  | number x => simp [initialValueTerm]
  | text text => simp [initialValueTerm]

end

variable {m : Model} {root : Handle}

theorem inLine_of_mem_ownedClauses (hv : m.Valid) {kind : SectionKind} {owner : Owner}
    {clause : Clause} (hkind : kind ≠ .initialValues)
    (hmem : (owner, clause) ∈ ownedClauses m root kind) : clause.InLine := by
  cases owner with
  | vocabulary =>
    exact inLine_vocabularyClauses hv.named root hkind clause (mem_vocabularyClauses_iff.mp hmem)
  | element h => exact ((mem_ownedClauses_iff hv).mp hmem).inLine hv.named

theorem inLine_initClause_iff (hv : m.Valid) :
    (Clause.listFact "init" (m.initializations.map (initialTerm m))).InLine ↔
      ∀ entry ∈ m.initializations, ∀ text, entry.value = .text text → InLine text := by
  rw [Clause.inLine_listFact (by decide), List.forall_mem_map]
  exact forall₂_congr fun entry _ => inLine_initialTerm_iff hv.named

/-- All clauses are written in one line each if the texts among the initial values are, and only
then. -/
theorem forall_inLine_iff (hv : m.Valid) (root : Handle) :
    (∀ kind, ∀ clause ∈ (translateFrom m root).clauses kind, clause.InLine) ↔
      ∀ entry ∈ m.initializations, ∀ text, entry.value = .text text → InLine text := by
  rw [← inLine_initClause_iff hv]
  constructor
  · intro hall
    refine hall .initialValues _ ?_
    rw [clauses_translateFrom rfl]
    exact List.mem_singleton_self _
  · intro hinit kind clause hclause
    by_cases hkind : kind = .initialValues
    · subst hkind
      rw [clauses_translateFrom rfl] at hclause
      exact List.mem_singleton.mp hclause ▸ hinit
    · rw [clauses_eq_ownedClauses] at hclause
      obtain ⟨⟨owner, _⟩, hmem, rfl⟩ := List.mem_map.mp hclause
      exact inLine_of_mem_ownedClauses hv hkind hmem

end Golog

end GoalModel
