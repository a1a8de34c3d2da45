import GoalModel.Proofs.Golog.GeneratedNames
import GoalModel.Proofs.Golog.QualityCalls
import GoalModel.Proofs.Golog.Runs

/-! # What a program defines

A clause is written for an element, or it belongs to the vocabulary that all programs have in
common (`ownedClauses`). What the clauses of an element define is said by its role
(`defines_element_iff`), so that no two elements define the same. An element can still meet the
vocabulary: nothing is appended to the names of conditions and qualities, and the names that are
reserved do not include those of the vocabulary (`shared_definitions_iff`). A condition with the
name of the goal that the planner asks for is the shortest way to see it
(`finish_shares_goalAchieved`). -/

namespace GoalModel

namespace Golog

open Identifier

/-! ## Clauses and their owners -/

/-- What a clause is written for. -/
inductive Owner where
  | vocabulary
  | element (h : Handle)
  deriving DecidableEq, Repr

/-- Clauses with a common owner. -/
def Owner.clauses (owner : Owner) (clauses : List Clause) : List (Owner × Clause) :=
  clauses.map (owner, ·)

/-- The clauses of a section, each with its owner. -/
def ownedClauses (m : Model) (root : Handle) : SectionKind → List (Owner × Clause)
  | .successorState =>
    m.predicates.flatMap fun p => (Owner.element p).clauses (successorClauses m p)
  | .satisfaction =>
    ((m.tasks ++ m.goals).flatMap fun node =>
      (Owner.element node).clauses (Derived.all.map fun d => derivedClause m d node)) ++
    Owner.vocabulary.clauses [.rule (holdsIn "goalAchieved" .current)
      (holdsIn (ended (m.nameOf root) .satisfied) .current)]
  | .rewards =>
    (m.qualities.flatMap fun q =>
      (Owner.element q).clauses ((qualityClauses m q).run .empty).1) ++
    Owner.vocabulary.clauses [rewardClause m]
  | .conditions =>
    m.conditions.flatMap fun c =>
      (Owner.element c).clauses ((conditionClauses m c).run .empty).1
  | kind => Owner.vocabulary.clauses ((sectionClauses m root kind).run .empty).1

/-- A condition holds before the run if it is initially true. -/
def initialTruthClause (name : String) : Clause :=
  .rule (holdsIn name .initial)
    (.chain .listing (.word "true") [.word "!", .applyWord "initiallyTrue" name])

/-- The name and the number of arguments of a compound term. -/
def Term.indicator? : Term → Option (String × Nat)
  | .compound functor _ arguments => some (functor, arguments.length)
  | _ => none

/-- What a clause defines. -/
def Clause.indicator? (clause : Clause) : Option (String × Nat) := clause.head.indicator?

/-- Some clause of the program defines a name with a number of arguments for an owner. -/
def Defines (m : Model) (root : Handle) (owner : Owner) (indicator : String × Nat) : Prop :=
  ∃ kind clause, (owner, clause) ∈ ownedClauses m root kind ∧
    clause.indicator? = some indicator

/-- What the translation itself may define. -/
def vocabulary : List (String × Nat) :=
  [("init", 1), ("fluentList", 1), ("agentAction", 1), ("agentActionList", 1),
    ("stochasticAction", 1), ("stochasticActionList", 1), ("transStateStructure", 1),
    ("discreteExportedSet", 1), ("continuousExportedSet", 1), ("nondetActions", 3), ("prob", 3),
    ("proc", 2), ("poss", 2), ("goalAchieved", 1), ("reward", 2), ("senseCondition", 2),
    ("restoreSitArg", 3)]

namespace Owner

variable {owner owner' : Owner} {clauses : List Clause} {clause : Clause}

theorem mem_clauses :
    (owner, clause) ∈ owner'.clauses clauses ↔ owner = owner' ∧ clause ∈ clauses := by
  simp only [Owner.clauses, List.mem_map, Prod.mk.injEq]
  constructor
  · rintro ⟨_, hclause, rfl, rfl⟩
    exact ⟨rfl, hclause⟩
  · rintro ⟨rfl, hclause⟩
    exact ⟨clause, hclause, rfl, rfl⟩

theorem mem_flatMap_clauses {hs : List Handle} {clausesOf : Handle → List Clause} :
    (owner, clause) ∈ hs.flatMap (fun h => (Owner.element h).clauses (clausesOf h)) ↔
      ∃ h ∈ hs, owner = .element h ∧ clause ∈ clausesOf h := by
  simp only [List.mem_flatMap, mem_clauses]

theorem map_snd_clauses (owner : Owner) (clauses : List Clause) :
    (owner.clauses clauses).map Prod.snd = clauses := by
  simp [Owner.clauses, Function.comp_def]

theorem map_snd_flatMap_clauses (hs : List Handle) (clausesOf : Handle → List Clause) :
    (hs.flatMap fun h => (Owner.element h).clauses (clausesOf h)).map Prod.snd =
      hs.flatMap clausesOf := by
  simp only [List.map_flatMap, map_snd_clauses]

end Owner

variable {m : Model} {root g h : Handle} {i : String × Nat}

/-! ## Sections -/

/-- The clauses of a condition report what the rendering of its formula reports. -/
theorem run_conditionClauses {c : Handle} {formula : Formula Handle}
    (hc : m.condition? c = some formula) (sink : Diagnostics) :
    let rendered := (renderCondition m formula).run (sink.enter (m.nameOf c))
    (conditionClauses m c).run sink =
      ([initialTruthClause (m.nameOf c), .rule (holdsIn (m.nameOf c) .current) rendered.1],
        rendered.2) := by
  simp only [conditionClauses, hc]
  rfl

theorem fst_run_conditionClauses (m : Model) (c : Handle) (sink : Diagnostics) :
    ((conditionClauses m c).run sink).1 = ((conditionClauses m c).run .empty).1 := by
  cases hc : m.condition? c with
  | none =>
    simp only [conditionClauses, hc]
    rfl
  | some formula =>
    have hbody := (renderCondition_ensures m formula).run_fst (sink.enter (m.nameOf c))
      (Diagnostics.empty.enter (m.nameOf c))
    rw [run_conditionClauses hc, run_conditionClauses hc, hbody]

theorem run_allConditionClauses (m : Model) (sink : Diagnostics) :
    ((allConditionClauses m).run sink).1 =
      m.conditions.flatMap fun c => ((conditionClauses m c).run .empty).1 := by
  change (((m.conditions.mapM (conditionClauses m)).run sink).1).flatten = _
  rw [run_mapM (fst_run_conditionClauses m), ← List.flatMap_def]

theorem run_sectionClauses (m : Model) (root : Handle) (kind : SectionKind)
    (sink : Diagnostics) :
    ((sectionClauses m root kind).run sink).1 = (ownedClauses m root kind).map Prod.snd := by
  cases kind with
  | successorState => exact (Owner.map_snd_flatMap_clauses ..).symm
  | satisfaction =>
    rw [ownedClauses, List.map_append, Owner.map_snd_flatMap_clauses, Owner.map_snd_clauses]
    rfl
  | rewards =>
    rw [ownedClauses, List.map_append, Owner.map_snd_flatMap_clauses, Owner.map_snd_clauses]
    exact run_rewardClauses m sink
  | conditions =>
    rw [ownedClauses, Owner.map_snd_flatMap_clauses]
    exact run_allConditionClauses m sink
  | _ => exact (Owner.map_snd_clauses ..).symm

theorem clauses_eq_ownedClauses (m : Model) (root : Handle) (kind : SectionKind) :
    (translateFrom m root).clauses kind = (ownedClauses m root kind).map Prod.snd := by
  obtain ⟨before, hclauses⟩ := exists_clauses_translateFrom m root kind
  rw [hclauses, run_sectionClauses]

/-- The program is the sections in order, without the owners of the clauses. -/
theorem program_translateFrom (m : Model) (root : Handle) :
    (translateFrom m root).program = SectionKind.all.map fun kind =>
      ⟨kind, (ownedClauses m root kind).map Prod.snd⟩ := by
  have hsection (kind : SectionKind) (sink : Diagnostics) :
      ((do return ⟨kind, ← sectionClauses m root kind⟩ : Render (Section Clause)).run sink).1 =
        ⟨kind, (ownedClauses m root kind).map Prod.snd⟩ :=
    congrArg (Section.mk kind) (run_sectionClauses m root kind sink)
  exact run_mapM hsection SectionKind.all .empty

/-! ## The vocabulary -/

/-- A clause that defines something of the vocabulary. -/
def Clause.InVocabulary (clause : Clause) : Prop := ∃ i ∈ vocabulary, clause.indicator? = some i

/-- What the clauses of a section define that are not written for an element. -/
def vocabularyOf : SectionKind → List (String × Nat)
  | .stateStructure => [("transStateStructure", 1)]
  | .discreteExported => [("discreteExportedSet", 1)]
  | .continuousExported => [("continuousExportedSet", 1)]
  | .initialValues => [("init", 1)]
  | .agentActions => [("agentActionList", 1), ("agentAction", 1)]
  | .stochasticActions => [("stochasticActionList", 1), ("stochasticAction", 1)]
  | .nondetActions => [("nondetActions", 3)]
  | .probabilities => [("prob", 3)]
  | .procedures => [("proc", 2)]
  | .fluents => [("fluentList", 1)]
  | .successorState => []
  | .preconditions => [("poss", 2)]
  | .satisfaction => [("goalAchieved", 1)]
  | .rewards => [("reward", 2)]
  | .conditions => []
  | .sensing => [("senseCondition", 2)]
  | .situationArguments => [("restoreSitArg", 3)]

theorem vocabularyOf_subset (kind : SectionKind) : vocabularyOf kind ⊆ vocabulary := by
  cases kind <;> decide

/-- The clauses of a section that are not written for elements. -/
def vocabularyClauses (m : Model) (root : Handle) : SectionKind → List Clause
  | .successorState => []
  | .conditions => []
  | .satisfaction => [.rule (holdsIn "goalAchieved" .current)
      (holdsIn (ended (m.nameOf root) .satisfied) .current)]
  | .rewards => [rewardClause m]
  | kind => ((sectionClauses m root kind).run .empty).1

theorem mem_vocabularyClauses_iff {kind : SectionKind} {clause : Clause} :
    (.vocabulary, clause) ∈ ownedClauses m root kind ↔ clause ∈ vocabularyClauses m root kind := by
  cases kind <;>
    simp [ownedClauses, vocabularyClauses, Owner.mem_clauses]

theorem indicator?_of_mem_probabilities {clause : Clause}
    (hmem : clause ∈ m.effects.filterMap (probabilityClause? m)) :
    clause.indicator? = some ("prob", 3) := by
  obtain ⟨e, _, hclause⟩ := List.mem_filterMap.mp hmem
  obtain ⟨_, _, rfl⟩ := Option.map_eq_some_iff.mp hclause
  rfl

theorem indicator?_of_mem_preconditionClauses {clause : Clause}
    (hmem : clause ∈ preconditionClauses m) : clause.indicator? = some ("poss", 2) := by
  rcases List.mem_append.mp hmem with hmem | hmem
  · obtain ⟨e, _, hclause⟩ := List.mem_filterMap.mp hmem
    obtain ⟨_, _, rfl⟩ := Option.map_eq_some_iff.mp hclause
    rfl
  · obtain ⟨t, _, rfl⟩ := List.mem_map.mp hmem
    exact congrArg Term.indicator? head_taskPrecondition

theorem indicator?_of_mem_situationArgumentClauses {clause : Clause}
    (hmem : clause ∈ situationArgumentClauses m) :
    clause.indicator? = some ("restoreSitArg", 3) := by
  simp only [situationArgumentClauses, List.mem_append, List.mem_map, List.mem_flatMap] at hmem
  rcases hmem with ((⟨_, _, rfl⟩ | ⟨_, _, _, _, rfl⟩) | ⟨_, _, rfl⟩) | ⟨_, _, rfl⟩ <;> rfl

theorem indicator?_rewardClause (m : Model) :
    (rewardClause m).indicator? = some ("reward", 2) := by
  unfold rewardClause
  split <;> rfl

theorem forall_mem_vocabularyClauses (m : Model) (root : Handle) (kind : SectionKind) :
    ∀ clause ∈ vocabularyClauses m root kind,
      ∃ i ∈ vocabularyOf kind, clause.indicator? = some i := by
  cases kind with
  | successorState | conditions => exact fun _ hclause => absurd hclause List.not_mem_nil
  | rewards => exact List.forall_mem_singleton.mpr ⟨_, .head _, indicator?_rewardClause m⟩
  | stateStructure | discreteExported | continuousExported | initialValues | fluents
  | satisfaction => exact List.forall_mem_singleton.mpr ⟨_, .head _, rfl⟩
  | agentActions | stochasticActions =>
    refine List.forall_mem_cons.mpr ⟨⟨_, .head _, rfl⟩, ?_⟩
    intro clause hclause
    obtain ⟨_, _, rfl⟩ := List.mem_map.mp hclause
    exact ⟨_, .tail _ (.head _), rfl⟩
  | nondetActions | procedures | sensing =>
    exact List.forall_mem_map.mpr fun h _ => ⟨_, .head _, rfl⟩
  | probabilities =>
    exact fun _ hclause => ⟨_, .head _, indicator?_of_mem_probabilities hclause⟩
  | preconditions =>
    exact fun _ hclause => ⟨_, .head _, indicator?_of_mem_preconditionClauses hclause⟩
  | situationArguments =>
    exact fun _ hclause => ⟨_, .head _, indicator?_of_mem_situationArgumentClauses hclause⟩

/-- What is defined in a section, but not for an element. -/
theorem exists_indicator?_of_mem {kind : SectionKind} {clause : Clause}
    (hmem : (.vocabulary, clause) ∈ ownedClauses m root kind) :
    ∃ i ∈ vocabularyOf kind, clause.indicator? = some i :=
  forall_mem_vocabularyClauses m root kind clause (mem_vocabularyClauses_iff.mp hmem)

theorem inVocabulary_of_mem {kind : SectionKind} {clause : Clause}
    (hmem : (.vocabulary, clause) ∈ ownedClauses m root kind) : clause.InVocabulary := by
  obtain ⟨i, hi, hclause⟩ := exists_indicator?_of_mem hmem
  exact ⟨i, vocabularyOf_subset kind hi, hclause⟩

theorem mem_vocabulary_of_defines (hdefines : Defines m root .vocabulary i) :
    i ∈ vocabulary := by
  obtain ⟨kind, clause, hmem, hi⟩ := hdefines
  obtain ⟨i', hi', hclause⟩ := inVocabulary_of_mem hmem
  exact Option.some.inj (hclause.symm.trans hi) ▸ hi'

/-! ## Elements -/

/-- The clauses that are written for an element, by its role. -/
inductive WrittenFor (m : Model) (h : Handle) : SectionKind → Clause → Prop
  | successor {clause : Clause} : m.role? h = some .predicate → clause ∈ successorClauses m h →
    WrittenFor m h .successorState clause
  | derived (d : Derived) : m.role? h = some .goal ∨ m.role? h = some .task →
    WrittenFor m h .satisfaction (derivedClause m d h)
  | value {clause : Clause} : m.role? h = some .quality →
    clause ∈ ((qualityClauses m h).run .empty).1 → WrittenFor m h .rewards clause
  | truth {clause : Clause} : m.role? h = some .condition →
    clause ∈ ((conditionClauses m h).run .empty).1 → WrittenFor m h .conditions clause

/-- How many arguments there are in the heads of the clauses for an element. None are written for
variables and effects. -/
def definedArity? : Role → Option Nat
  | .predicate => some 1
  | .goal => some 1
  | .task => some 1
  | .quality => some 2
  | .condition => some 1
  | .stateVariable => none
  | .effect => none

theorem indicator?_of_mem_successorClauses {clause : Clause}
    (hmem : clause ∈ successorClauses m h) : clause.indicator? = some (stateName m h, 1) := by
  simp only [successorClauses, List.mem_cons, List.not_mem_nil, or_false] at hmem
  rcases hmem with rfl | rfl <;> rfl

theorem indicator?_of_mem_qualityClauses {clause : Clause} (hq : m.role? h = some .quality)
    (hmem : clause ∈ ((qualityClauses m h).run .empty).1) :
    clause.indicator? = some (m.nameOf h, 2) := by
  obtain ⟨data, hdata⟩ := Model.exists_quality? hq
  obtain ⟨quantity, _, hrun⟩ := exists_run_qualityClauses hdata
  rw [hrun] at hmem
  rcases List.mem_append.mp hmem with hmem | hmem
  · split at hmem
    · rw [List.mem_singleton.mp hmem]
      rfl
    · cases hmem
  · rw [List.mem_singleton.mp hmem]
    rfl

theorem indicator?_of_mem_conditionClauses {clause : Clause} (hc : m.role? h = some .condition)
    (hmem : clause ∈ ((conditionClauses m h).run .empty).1) :
    clause.indicator? = some (m.nameOf h, 1) := by
  obtain ⟨formula, hformula⟩ := Model.exists_condition? hc
  rw [run_conditionClauses hformula] at hmem
  simp only [List.mem_cons, List.not_mem_nil, or_false] at hmem
  rcases hmem with rfl | rfl <;> rfl

/-- A clause that is written for an element defines one of its generated names. -/
theorem WrittenFor.indicator? {kind : SectionKind} {clause : Clause}
    (hwritten : WrittenFor m h kind clause) :
    ∃ n, (m.role? h).bind definedArity? = some n ∧
      ∃ x ∈ generatedNames m h, clause.indicator? = some (x, n) := by
  cases hwritten with
  | successor hp hclause =>
    exact ⟨1, by rw [hp]; rfl, _, stateName_mem_generatedNames m h,
      indicator?_of_mem_successorClauses hclause⟩
  | derived d hnode =>
    refine ⟨1, by rcases hnode with hnode | hnode <;> rw [hnode] <;> rfl,
      ended (m.nameOf h) d.ending, ?_, rfl⟩
    rw [generatedNames_of_node hnode]
    exact List.mem_map_of_mem d.mem_all
  | value hq hclause =>
    refine ⟨2, by rw [hq]; rfl, m.nameOf h, ?_, indicator?_of_mem_qualityClauses hq hclause⟩
    rw [generatedNames_of_bare hq rfl]
    exact List.mem_singleton_self _
  | truth hc hclause =>
    refine ⟨1, by rw [hc]; rfl, m.nameOf h, ?_, indicator?_of_mem_conditionClauses hc hclause⟩
    rw [generatedNames_of_bare hc rfl]
    exact List.mem_singleton_self _

/-- For each generated name of an element that something is written for, some clause defines
it. -/
theorem exists_writtenFor {n : Nat} {x : String}
    (hn : (m.role? h).bind definedArity? = some n) (hx : x ∈ generatedNames m h) :
    ∃ kind clause, WrittenFor m h kind clause ∧ clause.indicator? = some (x, n) := by
  obtain ⟨role, hrole, harity⟩ := Option.bind_eq_some_iff.mp hn
  cases role with
  | stateVariable | effect => cases harity
  | predicate =>
    cases harity
    simp only [generatedNames, hrole, List.mem_singleton] at hx
    have hstate : stateName m h = x := by rw [hx, stateName_of_role hrole]; rfl
    exact ⟨_, _, .successor hrole List.mem_cons_self, hstate ▸ rfl⟩
  | goal | task =>
    cases harity
    have hnode : m.role? h = some .goal ∨ m.role? h = some .task := by simp [hrole]
    rw [generatedNames_of_node hnode] at hx
    obtain ⟨d, _, rfl⟩ := List.mem_map.mp hx
    exact ⟨_, _, .derived d hnode, rfl⟩
  | quality =>
    cases harity
    rw [generatedNames_of_bare hrole rfl, List.mem_singleton] at hx
    obtain ⟨data, hdata⟩ := Model.exists_quality? hrole
    obtain ⟨quantity, _, hrun⟩ := exists_run_qualityClauses hdata
    have hgeneral : ∃ clause, clause ∈ ((qualityClauses m h).run .empty).1 :=
      ⟨_, hrun .empty ▸ List.mem_append_right _ List.mem_cons_self⟩
    obtain ⟨clause, hclause⟩ := hgeneral
    exact ⟨_, clause, .value hrole hclause, hx ▸ indicator?_of_mem_qualityClauses hrole hclause⟩
  | condition =>
    cases harity
    rw [generatedNames_of_bare hrole rfl, List.mem_singleton] at hx
    obtain ⟨formula, hformula⟩ := Model.exists_condition? hrole
    have hbase : initialTruthClause (m.nameOf h) ∈ ((conditionClauses m h).run .empty).1 := by
      rw [run_conditionClauses hformula]
      exact List.mem_cons_self
    exact ⟨_, _, .truth hrole hbase, hx ▸ indicator?_of_mem_conditionClauses hrole hbase⟩

/-- Nothing that is defined for an element with an ending belongs to the vocabulary. -/
theorem ended_notMem_vocabulary (name : String) (ending : Ending) (n : Nat) :
    (ended name ending, n) ∉ vocabulary := by
  have hunreserved : ∀ i ∈ vocabulary, reservedEnding? i.1 = none := by decide
  intro hmem
  exact reservedEnding?_eq_none.mp (hunreserved _ hmem) ending name rfl

section Valid
variable (hv : m.Valid)
include hv

theorem mem_ownedClauses_iff {kind : SectionKind} {clause : Clause} :
    (.element h, clause) ∈ ownedClauses m root kind ↔ WrittenFor m h kind clause := by
  have hvocabulary {clauses : List Clause} :
      (Owner.element h, clause) ∉ Owner.vocabulary.clauses clauses := by
    intro hmem
    cases (Owner.mem_clauses.mp hmem).1
  constructor
  · intro hmem
    cases kind with
    | successorState =>
      obtain ⟨_, hp, ⟨⟩, hclause⟩ := Owner.mem_flatMap_clauses.mp hmem
      exact .successor (hv.mem_predicates_iff.mp hp) hclause
    | satisfaction =>
      have hmem := (List.mem_append.mp hmem).resolve_right hvocabulary
      obtain ⟨_, hnode, ⟨⟩, hclause⟩ := Owner.mem_flatMap_clauses.mp hmem
      obtain ⟨d, _, rfl⟩ := List.mem_map.mp hclause
      exact .derived d (hv.mem_nodes_iff.mp hnode)
    | rewards =>
      have hmem := (List.mem_append.mp hmem).resolve_right hvocabulary
      obtain ⟨_, hq, ⟨⟩, hclause⟩ := Owner.mem_flatMap_clauses.mp hmem
      exact .value (hv.mem_qualities_iff.mp hq) hclause
    | conditions =>
      obtain ⟨_, hc, ⟨⟩, hclause⟩ := Owner.mem_flatMap_clauses.mp hmem
      exact .truth (hv.mem_conditions_iff.mp hc) hclause
    | _ => exact absurd hmem hvocabulary
  · intro hwritten
    cases hwritten with
    | successor hp hclause =>
      exact Owner.mem_flatMap_clauses.mpr ⟨h, hv.mem_predicates_iff.mpr hp, rfl, hclause⟩
    | derived d hnode =>
      refine List.mem_append_left _ (Owner.mem_flatMap_clauses.mpr ?_)
      exact ⟨h, hv.mem_nodes_iff.mpr hnode, rfl, List.mem_map_of_mem d.mem_all⟩
    | value hq hclause =>
      refine List.mem_append_left _ (Owner.mem_flatMap_clauses.mpr ?_)
      exact ⟨h, hv.mem_qualities_iff.mpr hq, rfl, hclause⟩
    | truth hc hclause =>
      exact Owner.mem_flatMap_clauses.mpr ⟨h, hv.mem_conditions_iff.mpr hc, rfl, hclause⟩

/-- An element defines its generated names. -/
theorem defines_element_iff : Defines m root (.element h) i ↔
    ∃ n, (m.role? h).bind definedArity? = some n ∧ ∃ x ∈ generatedNames m h, i = (x, n) := by
  simp only [Defines, mem_ownedClauses_iff hv]
  constructor
  · rintro ⟨kind, clause, hwritten, hi⟩
    obtain ⟨n, hn, x, hx, hclause⟩ := hwritten.indicator?
    exact ⟨n, hn, x, hx, Option.some.inj (hi.symm.trans hclause)⟩
  · rintro ⟨n, hn, x, hx, rfl⟩
    exact exists_writtenFor hn hx

/-- What one element defines no other element defines. -/
theorem eq_of_defines (hg : Defines m root (.element g) i) (hh : Defines m root (.element h) i) :
    g = h := by
  obtain ⟨n, hn, x, hx, rfl⟩ := (defines_element_iff hv).mp hg
  obtain ⟨n', hn', x', hx', hname⟩ := (defines_element_iff hv).mp hh
  obtain ⟨rfl, rfl⟩ := Prod.mk.inj hname
  have hlt {h : Handle} {n : Nat} (hn : (m.role? h).bind definedArity? = some n) :
      h.index < m.elements.length := by
    obtain ⟨role, hrole, _⟩ := Option.bind_eq_some_iff.mp hn
    exact m.index_lt_of_role? hrole
  exact eq_of_mem_generatedNames hv.named (hlt hn) (hlt hn') hx hx'

/-- Only the names of conditions and qualities can be those of the vocabulary. -/
theorem defines_iff_of_mem_vocabulary (hi : i ∈ vocabulary) :
    Defines m root (.element h) i ↔
      m.role? h = some .condition ∧ i = (m.nameOf h, 1) ∨
        m.role? h = some .quality ∧ i = (m.nameOf h, 2) := by
  rw [defines_element_iff hv]
  constructor
  · rintro ⟨n, hn, x, hx, rfl⟩
    obtain ⟨role, hrole, harity⟩ := Option.bind_eq_some_iff.mp hn
    cases role with
    | stateVariable | effect => cases harity
    | predicate | goal | task =>
      obtain ⟨ending, rfl⟩ := exists_ended_of_mem_generatedNames hrole rfl hx
      exact absurd hi (ended_notMem_vocabulary _ ending n)
    | quality =>
      cases harity
      rw [generatedNames_of_bare hrole rfl, List.mem_singleton] at hx
      exact .inr ⟨hrole, hx ▸ rfl⟩
    | condition =>
      cases harity
      rw [generatedNames_of_bare hrole rfl, List.mem_singleton] at hx
      exact .inl ⟨hrole, hx ▸ rfl⟩
  · have hown {role : Role} (hrole : m.role? h = some role) (hbare : stateEnding? role = none) :
        m.nameOf h ∈ generatedNames m h := by
      rw [generatedNames_of_bare hrole hbare]
      exact List.mem_singleton_self _
    rintro (⟨hrole, rfl⟩ | ⟨hrole, rfl⟩)
    · exact ⟨1, by rw [hrole]; rfl, m.nameOf h, hown hrole rfl, rfl⟩
    · exact ⟨2, by rw [hrole]; rfl, m.nameOf h, hown hrole rfl, rfl⟩

end Valid

end Golog

open Golog

/-- Every clause of a program belongs to the vocabulary or is written for an element. No two
elements define the same name with the same number of arguments, and what the vocabulary uses is
also defined for an element exactly if this is the bare name of a condition or a quality. -/
theorem shared_definitions_iff {text : String} {withSchema : Bool} {m : Model}
    (h : parseModel text withSchema = .ok m) :
    ∃ t root, assemble m = .ok t ∧
      t.program = (SectionKind.all.map fun kind =>
        ⟨kind, (ownedClauses m root kind).map Prod.snd⟩) ∧
      (∀ g h i, Defines m root (.element g) i → Defines m root (.element h) i → g = h) ∧
      ∀ i, Defines m root .vocabulary i → i ∈ vocabulary ∧
        ∀ h, Defines m root (.element h) i ↔
          m.role? h = some .condition ∧ i = (m.nameOf h, 1) ∨
            m.role? h = some .quality ∧ i = (m.nameOf h, 2) := by
  have hv := valid_of_parseModel h
  obtain ⟨root, hroot⟩ := hv.exists_rootGoals
  refine ⟨translateFrom m root, root, assemble_eq_ok hroot, program_translateFrom m root,
    fun g h i => eq_of_defines hv, fun i hdefines => ?_⟩
  have hi := mem_vocabulary_of_defines hdefines
  exact ⟨hi, fun h => defines_iff_of_mem_vocabulary hv hi⟩

/-! ## A condition with a name of the vocabulary -/

/-- A goal, and a condition with the name of what the planner asks for. -/
def Document.finish : Document where
  name := "Finish"
  actors := [{
    name := "Robot"
    predicates := []
    stateVariables := []
    goals := [⟨"rest", [], []⟩]
    tasks := []
    qualities := []
    conditions := [⟨"goalAchieved", .bool true⟩] }]
  crossRun := []
  exported := []
  initializations := []

/-- The text of `Document.finish`. -/
def finishText : String := r#"{
  "name": "Finish",
  "actors": [{
    "name": "Robot",
    "goals": [{"name": "rest"}],
    "conditions": [{"name": "goalAchieved", "formula": {"bool": true}}]}]}"#

set_option maxRecDepth 10000 in
theorem parseModel_finishText : parseModel finishText true = .ok Document.finish.linked := by
  have htext : finishText = String.ofList _ := rfl
  refine eq_ok_of_toOption ?_
  rw [htext, parseModel, Json.read?_ofList]
  decide +kernel

theorem finish_defines : Defines Document.finish.linked ⟨0⟩ .vocabulary ("goalAchieved", 1) :=
  ⟨.satisfaction, _, List.mem_append_right _ List.mem_cons_self, rfl⟩

/-- The program defines the condition and the satisfaction of the root goal under one name. -/
theorem finish_shares_goalAchieved :
    parseModel finishText true = .ok Document.finish.linked ∧
      ∃ t, assemble Document.finish.linked = .ok t ∧
        t.program = (SectionKind.all.map fun kind =>
          ⟨kind, (ownedClauses Document.finish.linked ⟨0⟩ kind).map Prod.snd⟩) ∧
        Defines Document.finish.linked ⟨0⟩ .vocabulary ("goalAchieved", 1) ∧
        Defines Document.finish.linked ⟨0⟩ (.element ⟨1⟩) ("goalAchieved", 1) := by
  have hv := valid_of_parseModel parseModel_finishText
  have hroot : Document.finish.linked.rootGoals = [⟨0⟩] := by decide
  have hi := mem_vocabulary_of_defines finish_defines
  refine ⟨parseModel_finishText, _, assemble_eq_ok hroot, program_translateFrom _ _,
    finish_defines, (defines_iff_of_mem_vocabulary hv hi).mpr (.inl ⟨by decide, by decide⟩)⟩

theorem finish_shared_definitions : ∃ t root, assemble Document.finish.linked = .ok t ∧
    ∀ i, Defines Document.finish.linked root .vocabulary i →
      (Defines Document.finish.linked root (.element ⟨1⟩) i ↔ i = ("goalAchieved", 1)) := by
  obtain ⟨t, root, ht, _, _, hshared⟩ := shared_definitions_iff parseModel_finishText
  refine ⟨t, root, ht, fun i hi => ?_⟩
  have hrole : Document.finish.linked.role? ⟨1⟩ = some .condition := by decide
  have hname : Document.finish.linked.nameOf ⟨1⟩ = "goalAchieved" := by decide
  rw [(hshared i hi).2 ⟨1⟩, hrole, hname]
  simp

end GoalModel
