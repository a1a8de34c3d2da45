import GoalModel.Golog.Program
import GoalModel.Proofs.Model.Renumbering

/-! # Programs of renumbered models

A program is written in names, and in the order of the lists of a model. So every renderer gives
the same for an element and for the one that it is renumbered to, section by section
(`Model.Renumbers.sectionClauses`), and a model and its renumbering have the same program with the
same diagnostics (`Model.Renumbers.assemble`). -/

namespace GoalModel

namespace Model.Renumbers

open Golog

variable {ρ : Handle → Handle} {m m' : Model} (r : Renumbers ρ m m')
include r

/-! ## Names -/

theorem stateName (h : Handle) : stateName m' (ρ h) = stateName m h := by
  simp only [Golog.stateName, r.role?, r.nameOf]

theorem stateTerm (h : Handle) : stateTerm m' (ρ h) = stateTerm m h := by
  rw [Golog.stateTerm, r.stateName, Golog.stateTerm]

theorem nameTerm (h : Handle) : nameTerm m' (ρ h) = nameTerm m h := by
  rw [Golog.nameTerm, r.nameOf, Golog.nameTerm]

/-! ## State -/

theorem exportTerm (entry : Export) : exportTerm m' (entry.renumber ρ) = exportTerm m entry := by
  simp only [Golog.exportTerm, Export.renumber, r.stateTerm, r.stateName]

theorem exportedTerms (domain : Domain) : exportedTerms m' domain = exportedTerms m domain := by
  simp only [Golog.exportedTerms, r.exported, List.filter_map, List.map_map, Function.comp_def,
    r.exportTerm]
  rfl

theorem initialTerm (entry : Initialization) :
    initialTerm m' (entry.renumber ρ) = initialTerm m entry := by
  simp only [Golog.initialTerm, Initialization.renumber, r.stateName]

/-! ## Actions -/

theorem nondetClause (task : Handle) : nondetClause m' (ρ task) = nondetClause m task := by
  simp only [Golog.nondetClause, r.nameTerm, r.effectsOf, List.map_map, Function.comp_def]

theorem probabilityClause? (effect : Handle) :
    probabilityClause? m' (ρ effect) = probabilityClause? m effect := by
  simp only [Golog.probabilityClause?, r.effect?, Option.map_map, Function.comp_def, r.nameTerm,
    Effect.renumber]

theorem procedureClause (goal : Handle) : procedureClause m' (ρ goal) = procedureClause m goal := by
  simp only [Golog.procedureClause, r.refinement, r.children, r.nameTerm, List.map_map,
    Function.comp_def]

/-! ## Situations -/

theorem successorClauses (predicate : Handle) :
    successorClauses m' (ρ predicate) = successorClauses m predicate := by
  simp only [Golog.successorClauses, r.stateName, r.effects, List.filter_map, List.map_map,
    Function.comp_def, r.nameTerm, r.turnsTrue, List.mem_map_of_injective r.injective]

theorem effectPrecondition? (effect : Handle) :
    effectPrecondition? m' (ρ effect) = effectPrecondition? m effect := by
  have hguards (task : Handle) : (guards m' (ρ task)).map (notAttempted m') =
      (guards m task).map (notAttempted m) := by
    have hguards : guards m' (ρ task) = (guards m task).map ρ := by
      rw [guards, r.competingAlternatives, guards, List.map_cons]
    rw [hguards, List.map_map]
    exact List.map_congr_left fun h _ => by rw [Function.comp, notAttempted, r.nameOf, notAttempted]
  simp only [Golog.effectPrecondition?, r.effect?, Option.map_map, Function.comp_def, r.nameOf,
    Effect.renumber, hguards]

theorem taskPrecondition (task : Handle) :
    taskPrecondition m' (ρ task) = taskPrecondition m task := by
  unfold Golog.taskPrecondition
  rw [r.effectsOf, r.nameOf]
  cases m.effectsOf task with
  | nil => rfl
  | cons e rest => simp only [List.map_cons, List.map_map, Function.comp_def, r.nameOf]

theorem effectTrace (situation : Situation) (effect : Effect) :
    effectTrace m' situation (effect.renumber ρ) = effectTrace m situation effect := by
  simp only [Golog.effectTrace, Effect.renumber, List.map_map, Function.comp_def, r.nameOf]

theorem derivedBody (derived : Derived) (h : Handle) :
    derivedBody m' derived (ρ h) = derivedBody m derived h := by
  unfold Golog.derivedBody
  rw [r.element?]
  cases m.element? h with
  | none => rfl
  | some element =>
    obtain ⟨name, kind⟩ := element
    cases kind with
    | task data =>
      have heffects : (data.effects.map ρ).filterMap m'.effect? =
          (data.effects.filterMap m.effect?).map (·.renumber ρ) := by
        rw [List.filterMap_map, List.map_filterMap]
        exact List.filterMap_congr fun e _ => r.effect? e
      have hcounts (effect : Effect) :
          derived.counts (effect.renumber ρ) = derived.counts effect := by
        simp only [Derived.counts, Effect.renumber, List.isEmpty_map]
      simp only [Option.map_some, Element.renumber, ElementKind.renumber, Task.renumber, heffects,
        List.filter_map, List.map_map, Function.comp_def, hcounts, r.effectTrace]
    | goal node =>
      simp only [Option.map_some, Element.renumber, ElementKind.renumber, Decomposition.renumber,
        List.map_map, Function.comp_def, r.nameOf]
    | _ => rfl

theorem derivedClause (derived : Derived) (h : Handle) :
    derivedClause m' derived (ρ h) = derivedClause m derived h := by
  rw [Golog.derivedClause, r.nameOf, r.derivedBody, Golog.derivedClause]

theorem senseClause (effect : Handle) : senseClause m' (ρ effect) = senseClause m effect := by
  simp only [Golog.senseClause, r.nameTerm, r.turnsTrue, List.map_map, Function.comp_def,
    r.stateTerm]

/-! ## Formulas -/

theorem renderValue (h : Handle) (situation : Situation) :
    renderValue m' (ρ h) situation = renderValue m h situation := by
  simp only [Golog.renderValue, r.role?, r.stateName, r.nameOf, r.nameTerm]

theorem renderQuantity (formula : Formula Handle) :
    renderQuantity m' (formula.renumber ρ) = renderQuantity m formula := by
  induction formula with
  | atom h => exact r.renderValue h .current
  | number | bool => rfl
  | binary op left right ihl ihr =>
    simp only [Formula.renumber_binary, Golog.renderQuantity, ihl, ihr]
  | unary op operand ih =>
    cases op with
    | not => rfl
    | negate => simp only [Formula.renumber_unary, Golog.renderQuantity, ih]
    | previous =>
      cases operand with
      | atom h => exact r.renderValue h .initial
      | _ => rfl

theorem renderTruth (h : Handle) : renderTruth m' (ρ h) = renderTruth m h := by
  simp only [Golog.renderTruth, r.role?, r.stateName, r.nameOf, r.nameTerm]

theorem renderCondition (formula : Formula Handle) :
    renderCondition m' (formula.renumber ρ) = renderCondition m formula := by
  induction formula with
  | atom h => exact r.renderTruth h
  | number | bool => rfl
  | binary op left right ihl ihr =>
    rw [Formula.renumber_binary]
    cases op <;> simp only [Golog.renderCondition, ihl, ihr, r.renderQuantity]
  | unary op operand ih =>
    cases op with
    | not => simp only [Formula.renumber_unary, Golog.renderCondition, ih]
    | negate => rfl
    | previous =>
      cases operand with
      | atom h =>
        simp only [Formula.renumber_unary, Formula.renumber_atom, Golog.renderCondition, r.nameOf]
      | _ => rfl

theorem conditionClauses (condition : Handle) :
    conditionClauses m' (ρ condition) = conditionClauses m condition := by
  simp only [Golog.conditionClauses, r.nameOf, r.condition?]
  cases m.condition? condition with
  | none => rfl
  | some formula => simp only [Option.map_some, r.renderCondition]

theorem referencesPrevious (target : Handle) (formula : Formula Handle) :
    (formula.renumber ρ).referencesPrevious (ρ target) = formula.referencesPrevious target := by
  induction formula with
  | atom | number | bool => rfl
  | binary op left right ihl ihr =>
    simp only [Formula.renumber_binary, Formula.referencesPrevious, ihl, ihr]
  | unary op operand ih =>
    cases op with
    | not | negate => simp only [Formula.renumber_unary, Formula.referencesPrevious, ih]
    | previous =>
      cases operand with
      | atom h =>
        simp only [Formula.renumber_unary, Formula.renumber_atom, Formula.referencesPrevious,
          r.injective.eq_iff]
      | _ => exact ih

theorem qualityClauses (quality : Handle) :
    qualityClauses m' (ρ quality) = qualityClauses m quality := by
  have haccumulates : accumulates m' (ρ quality) = accumulates m quality := by
    simp only [accumulates, r.isCrossRun, r.quality?, Option.any_map,
      Quality.renumber, r.referencesPrevious]
  simp only [Golog.qualityClauses, r.quality?, haccumulates, r.nameOf]
  cases m.quality? quality with
  | none => rfl
  | some data =>
    simp only [Option.map_some, Quality.renumber, r.renderQuantity, r.referencesPrevious]

theorem rewardClause : rewardClause m' = rewardClause m := by
  unfold Golog.rewardClause
  rw [r.rootQuality?]
  cases m.rootQuality? with
  | none => rfl
  | some root => simp only [Option.map_some, r.nameOf]

/-! ## Sections -/

theorem sectionClauses (root : Handle) (kind : SectionKind) :
    sectionClauses m' (ρ root) kind = sectionClauses m root kind := by
  cases kind with
  | stateStructure =>
    simp only [Golog.sectionClauses, stateStructureClauses, r.crossRun, List.map_map,
      Function.comp_def, r.stateTerm]
  | discreteExported | continuousExported => simp only [Golog.sectionClauses, r.exportedTerms]
  | initialValues =>
    simp only [Golog.sectionClauses, r.initializations, List.map_map, Function.comp_def,
      r.initialTerm]
  | agentActions =>
    simp only [Golog.sectionClauses, agentActionClauses, r.tasks, List.map_map, Function.comp_def,
      r.nameTerm]
  | stochasticActions =>
    simp only [Golog.sectionClauses, stochasticActionClauses, r.effects, List.map_map,
      Function.comp_def, r.nameTerm]
  | nondetActions =>
    simp only [Golog.sectionClauses, r.tasks, List.map_map, Function.comp_def, r.nondetClause]
  | probabilities =>
    simp only [Golog.sectionClauses, r.effects, List.filterMap_map, Function.comp_def,
      r.probabilityClause?]
  | procedures =>
    simp only [Golog.sectionClauses, r.goals, List.map_map, Function.comp_def, r.procedureClause]
  | fluents =>
    simp only [Golog.sectionClauses, r.predicates, List.map_map, Function.comp_def, r.stateTerm]
  | successorState =>
    simp only [Golog.sectionClauses, r.predicates, List.flatMap_map, r.successorClauses]
  | preconditions =>
    simp only [Golog.sectionClauses, preconditionClauses, r.effects, r.tasks, List.filterMap_map,
      List.map_map, Function.comp_def, r.effectPrecondition?, r.taskPrecondition]
  | satisfaction =>
    simp only [Golog.sectionClauses, satisfactionClauses, r.tasks, r.goals, ← List.map_append,
      List.flatMap_map, r.derivedClause, r.nameOf]
  | rewards =>
    simp only [Golog.sectionClauses, Golog.rewardClauses, r.qualities, r.rewardClause,
      List.mapM_map, Function.comp_def, r.nameOf, r.qualityClauses]
  | conditions =>
    simp only [Golog.sectionClauses, allConditionClauses, r.conditions, List.mapM_map,
      Function.comp_def, r.conditionClauses]
  | sensing =>
    simp only [Golog.sectionClauses, r.effects, List.map_map, Function.comp_def, r.senseClause]
  | situationArguments =>
    simp only [Golog.sectionClauses, situationArgumentClauses, r.predicates, r.tasks, r.goals,
      r.conditions, r.qualities, ← List.map_append, List.flatMap_map, List.map_map,
      Function.comp_def, r.nameOf]

/-- Nothing about the program depends on the numbers of elements. -/
theorem assemble : assemble m' = assemble m := by
  have htranslate (root : Handle) : translateFrom m' (ρ root) = translateFrom m root := by
    simp only [translateFrom, r.sectionClauses]
  rw [Golog.assemble, r.rootGoals, Golog.assemble]
  match m.rootGoals with
  | [] => rfl
  | [root] => exact congrArg Except.ok (htranslate root)
  | root :: root' :: rest =>
    have hnames := r.map_nameOf (root :: root' :: rest)
    exact congrArg (fun names => Except.error (AssembleError.severalRootGoals names)) hnames

end Model.Renumbers

end GoalModel
