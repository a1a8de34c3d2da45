import GoalModel.Proofs.Golog.Procedures

/-! # The action vocabulary

Eight sections of a program speak of tasks and effects, each by a list or by a walk of its own.
They speak of the same ones (`ActionVocabulary`, `exists_actionVocabulary`): the tasks and the
effects of the two lists have their facts and guards once each, the outcomes of the tasks in order
make up the list of effects, and procedures call nothing but tasks and goals.

The facts of a kind stand in a single section (`facts_eq`), and since names tell elements apart,
those about one name are those written for one element (`about_map`). -/

namespace GoalModel.Golog

/-! ## Facts -/

/-- Whether a clause is a fact with a name and a number of arguments. -/
def Clause.isFactOf (indicator : String × Nat) (clause : Clause) : Bool :=
  clause.body.isNone && clause.indicator? == some indicator

/-- The facts of a program with a name and a number of arguments. -/
def Translation.facts (t : Translation) (indicator : String × Nat) : List Clause :=
  (t.program.flatMap (·.lines)).filter (·.isFactOf indicator)

/-- The word that a clause is about: the first argument of its head. -/
def Clause.subject? (clause : Clause) : Option String :=
  match clause.head with
  | .compound _ _ (.word subject :: _) => some subject
  | _ => none

/-- The clauses about a word. -/
def about (name : String) (clauses : List Clause) : List Clause :=
  clauses.filter fun clause => clause.subject? == some name

/-- The outcomes that a clause lists for a task. -/
def Clause.outcomes (clause : Clause) : List Term :=
  match clause.head with
  | .compound _ _ [_, _, .list outcomes] => outcomes
  | _ => []

mutual

/-- The words in a term. -/
def Term.words : Term → List String
  | .word text => [text]
  | .number _ => []
  | .compound functor _ arguments => functor :: Term.wordsOf arguments
  | .list items => Term.wordsOf items
  | .unary _ operand => operand.words
  | .binary _ left right => left.words ++ right.words
  | .group inner => inner.words

def Term.wordsOf : List Term → List String
  | [] => []
  | term :: rest => term.words ++ Term.wordsOf rest

end

/-- The sections of a program agree on its tasks and effects. -/
structure ActionVocabulary (m : Model) (t : Translation) (tasks effects : List String) : Prop where
  agentActionList :
    t.facts ("agentActionList", 1) = [.listFact "agentActionList" (tasks.map .word)]
  nodup_tasks : tasks.Nodup
  mem_tasks : ∀ x, x ∈ tasks ↔ ∃ a, m.role? a = some .task ∧ m.nameOf a = x
  agentAction : ∀ x ∈ tasks, about x (t.facts ("agentAction", 1)) =
    [.fact (.apply "agentAction" [.word x])]
  nondetActions : ∀ x ∈ tasks, ∃ outcomes : List String, about x (t.facts ("nondetActions", 3)) =
    [.fact (.apply "nondetActions" [.word x, .word "_", .list (outcomes.map .word)])]
  taskGuard : ∀ x ∈ tasks, ∃ body, about x (t.clauses .preconditions) = [⟨possible x, body⟩]
  stochasticActionList :
    t.facts ("stochasticActionList", 1) = [.listFact "stochasticActionList" (effects.map .word)]
  /-- The outcomes of the tasks, one task after the other. -/
  outcomes : (t.facts ("nondetActions", 3)).flatMap Clause.outcomes = effects.map .word
  nodup_effects : effects.Nodup
  mem_effects : ∀ x, x ∈ effects ↔ ∃ e, m.role? e = some .effect ∧ m.nameOf e = x
  stochasticAction : ∀ x ∈ effects, about x (t.facts ("stochasticAction", 1)) =
    [.fact (.apply "stochasticAction" [.word x])]
  probability : ∀ x ∈ effects, ∃ p, about x (t.facts ("prob", 3)) =
    [.fact (.apply "prob" [.word x, .number p, .word "_"])]
  senseCondition : ∀ x ∈ effects, ∃ sensed, about x (t.facts ("senseCondition", 2)) =
    [.fact (.apply "senseCondition" [.word x, sensed])]
  /-- An effect asks first whether the task that has it as an outcome has been attempted. -/
  effectGuard : ∀ x ∈ effects, ∃ task ∈ tasks, ∃ outcomes : List String, x ∈ outcomes ∧
    about task (t.facts ("nondetActions", 3)) =
      [.fact (.apply "nondetActions" [.word task, .word "_", .list (outcomes.map .word)])] ∧
    ∃ others, about x (t.clauses .preconditions) =
      [.rule (possible x) (.chain .listing (.word "true")
        (.unary .negation (holdsIn (ended task .attempted) .current) :: others))]
  /-- A procedure calls tasks, and goals that have one procedure. -/
  procedures : ∀ clause ∈ t.facts ("proc", 2), ∃ x body,
    clause = .fact (.call "proc" [.word x, body]) ∧ ∀ y ∈ body.words, y ≠ "nil" → y ∈ tasks ∨
      (∃ g, m.role? g = some .goal ∧ m.nameOf g = y) ∧
        ∃ called, about y (t.facts ("proc", 2)) = [.fact (.call "proc" [.word y, called])]

/-! ## Where facts stand -/

variable {m : Model} {root h : Handle} {kind : SectionKind} {i : String × Nat}

/-- What is written for an element is a rule. -/
theorem WrittenFor.isSome_body {clause : Clause} (hwritten : WrittenFor m h kind clause) :
    clause.body.isSome := by
  cases hwritten with
  | successor _ hclause =>
    rw [successorClauses_eq, List.mem_cons, List.mem_singleton] at hclause
    rcases hclause with rfl | rfl <;> rfl
  | derived => rfl
  | value hq hclause =>
    obtain ⟨data, hdata⟩ := Model.exists_quality? hq
    obtain ⟨quantity, _, hrun⟩ := exists_run_qualityClauses hdata
    rw [hrun] at hclause
    rcases List.mem_append.mp hclause with hclause | hclause
    · split at hclause
      · rw [List.mem_singleton.mp hclause]
        rfl
      · cases hclause
    · rw [List.mem_singleton.mp hclause]
      rfl
  | truth hc hclause =>
    obtain ⟨formula, hformula⟩ := Model.exists_condition? hc
    rw [run_conditionClauses hformula, List.mem_cons, List.mem_singleton] at hclause
    rcases hclause with rfl | rfl <;> rfl

/-- All facts of one kind stand in one section. -/
theorem facts_eq (hv : m.Valid) (hkind : ∀ k, i ∈ vocabularyOf k → k = kind) (root : Handle) :
    (translateFrom m root).facts i =
      ((translateFrom m root).clauses kind).filter (·.isFactOf i) := by
  have hother (k : SectionKind) (hne : k ≠ kind) (clause : Clause)
      (hclause : clause ∈ (ownedClauses m root k).map Prod.snd) : ¬clause.isFactOf i := by
    rw [Clause.isFactOf, Bool.and_eq_true, Option.isNone_iff_eq_none, beq_iff_eq]
    rintro ⟨hbody, hindicator⟩
    obtain ⟨⟨owner, _⟩, hmem, rfl⟩ := List.mem_map.mp hclause
    cases owner with
    | vocabulary =>
      obtain ⟨i', hi', hclause⟩ := exists_indicator?_of_mem hmem
      exact hne (hkind k (Option.some.inj (hclause.symm.trans hindicator) ▸ hi'))
    | element h =>
      have hrule := ((mem_ownedClauses_iff hv).mp hmem).isSome_body
      rw [hbody] at hrule
      cases hrule
  rw [clauses_eq_ownedClauses, Translation.facts, program_translateFrom, List.flatMap_map,
    List.filter_flatMap]
  exact flatMap_eq_of_unique (by decide) kind.mem_all fun k _ hne =>
    List.filter_eq_nil_iff.mpr (hother k hne)

/-- A section with facts of one kind only. -/
theorem facts_eq_clauses (hv : m.Valid) (kind : SectionKind)
    (hkind : ∀ k, i ∈ vocabularyOf k → k = kind) {clauses : List Clause}
    (hclauses : sectionClauses m root kind = pure clauses)
    (hfacts : ∀ clause ∈ clauses, clause.isFactOf i) :
    (translateFrom m root).facts i = clauses := by
  rw [facts_eq hv hkind, clauses_translateFrom hclauses, List.filter_eq_self.mpr hfacts]

theorem Clause.not_isFactOf {clause : Clause} {j : String × Nat} (h : clause.isFactOf i)
    (hne : i ≠ j) : ¬clause.isFactOf j := by
  rw [isFactOf, Bool.and_eq_true, beq_iff_eq] at h ⊢
  exact fun h' => hne (Option.some.inj (h.2.symm.trans h'.2))

/-- A section that begins with a list of everything that its other facts are about. -/
theorem facts_eq_cons (hv : m.Valid) (root : Handle) (kind : SectionKind) {i j : String × Nat}
    (hne : i ≠ j)
    (hkind : ∀ k, i ∈ vocabularyOf k ∨ j ∈ vocabularyOf k → k = kind) {first : Clause}
    {rest : List Clause} (hclauses : sectionClauses m root kind = pure (first :: rest))
    (hfirst : first.isFactOf i) (hrest : ∀ clause ∈ rest, clause.isFactOf j) :
    (translateFrom m root).facts i = [first] ∧ (translateFrom m root).facts j = rest := by
  rw [facts_eq hv fun k hk => hkind k (.inl hk), facts_eq hv fun k hk => hkind k (.inr hk),
    clauses_translateFrom hclauses]
  constructor
  · rw [List.filter_cons_of_pos hfirst, List.filter_eq_nil_iff.mpr]
    exact fun clause hclause => Clause.not_isFactOf (hrest clause hclause) hne.symm
  · rw [List.filter_cons_of_neg (Clause.not_isFactOf hfirst hne), List.filter_eq_self.mpr hrest]

section Valid
variable (hv : m.Valid) (root : Handle)
include hv

theorem facts_agentActions :
    (translateFrom m root).facts ("agentActionList", 1) =
      [.listFact "agentActionList" (m.tasks.map (nameTerm m))] ∧
    (translateFrom m root).facts ("agentAction", 1) =
      m.tasks.map fun a => .fact (.apply "agentAction" [nameTerm m a]) := by
  have hne : ("agentActionList", 1) ≠ ("agentAction", 1) := by decide
  have h := facts_eq_cons hv root .agentActions hne (fun k => by cases k <;> decide) rfl rfl
    (List.forall_mem_map.mpr fun _ _ => rfl)
  rwa [List.map_map] at h

theorem facts_stochasticActions :
    (translateFrom m root).facts ("stochasticActionList", 1) =
      [.listFact "stochasticActionList" (m.effects.map (nameTerm m))] ∧
    (translateFrom m root).facts ("stochasticAction", 1) =
      m.effects.map fun e => .fact (.apply "stochasticAction" [nameTerm m e]) := by
  have hne : ("stochasticActionList", 1) ≠ ("stochasticAction", 1) := by decide
  have h := facts_eq_cons hv root .stochasticActions hne (fun k => by cases k <;> decide) rfl rfl
    (List.forall_mem_map.mpr fun _ _ => rfl)
  rwa [List.map_map] at h

theorem facts_nondetActions :
    (translateFrom m root).facts ("nondetActions", 3) = m.tasks.map (nondetClause m) :=
  facts_eq_clauses hv .nondetActions (fun k => by cases k <;> decide) rfl
    (List.forall_mem_map.mpr fun _ _ => rfl)

theorem facts_procedures :
    (translateFrom m root).facts ("proc", 2) = m.goals.map (procedureClause m) :=
  facts_eq_clauses hv .procedures (fun k => by cases k <;> decide) rfl
    (List.forall_mem_map.mpr fun _ _ => rfl)

theorem facts_sensing :
    (translateFrom m root).facts ("senseCondition", 2) = m.effects.map (senseClause m) :=
  facts_eq_clauses hv .sensing (fun k => by cases k <;> decide) rfl
    (List.forall_mem_map.mpr fun _ _ => rfl)

/-- Every listed effect has a probability. -/
theorem facts_probabilities : ∃ probability : Handle → Number,
    (translateFrom m root).facts ("prob", 3) = m.effects.map fun e =>
      .fact (.apply "prob" [nameTerm m e, .number (probability e), .word "_"]) := by
  refine ⟨fun e => ((m.effect? e).map (·.probability)).getD .zero, ?_⟩
  have hclause (e : Handle) (he : e ∈ m.effects) : probabilityClause? m e =
      some (.fact (.apply "prob" [nameTerm m e,
        .number (((m.effect? e).map (·.probability)).getD .zero), .word "_"])) := by
    obtain ⟨effect, hf⟩ := Model.exists_effect? (hv.mem_effects_iff.mp he)
    rw [probabilityClause?, hf]
    rfl
  have hall := (List.filterMap_congr hclause).trans (congrFun List.filterMap_eq_map m.effects)
  dsimp only
  rw [← hall]
  refine facts_eq_clauses hv .probabilities (fun k => by cases k <;> decide) rfl ?_
  rw [hall]
  exact List.forall_mem_map.mpr fun _ _ => rfl

/-! ## Facts about a name -/

/-- Among clauses that are written for elements, one is about the name of each. -/
theorem about_map {hs : List Handle} (hnodup : hs.Nodup)
    (hlt : ∀ h ∈ hs, h.index < m.elements.length) {write : Handle → Clause}
    (hsubject : ∀ h, (write h).subject? = some (m.nameOf h)) (hh : h ∈ hs) :
    about (m.nameOf h) (hs.map write) = [write h] := by
  rw [about, List.map_eq_flatMap]
  refine filter_flatMap_eq hnodup hh (List.forall_mem_singleton.mpr ?_) fun g hg hne => ?_
  · rw [hsubject, beq_self_eq_true]
  · refine List.forall_mem_singleton.mpr fun hsame => hne ?_
    rw [hsubject, beq_iff_eq, Option.some.injEq] at hsame
    exact hv.nameOf_inj (hlt g hg) (hlt h hh) hsame

/-- The precondition of an effect or task. -/
def precondition (m : Model) (h : Handle) : Clause :=
  (effectPrecondition? m h).getD (taskPrecondition m h)

omit hv in
theorem head_precondition (h : Handle) : (precondition m h).head = possible (m.nameOf h) := by
  unfold precondition
  cases hclause : effectPrecondition? m h with
  | none => exact head_taskPrecondition
  | some clause =>
    obtain ⟨_, _, rfl⟩ := Option.map_eq_some_iff.mp hclause
    rfl

theorem preconditionClauses_eq_map :
    preconditionClauses m = (m.effects ++ m.tasks).map (precondition m) := by
  have heffect (e : Handle) (he : e ∈ m.effects) :
      effectPrecondition? m e = some (precondition m e) := by
    obtain ⟨effect, hf⟩ := Model.exists_effect? (hv.mem_effects_iff.mp he)
    rw [precondition, effectPrecondition?, hf]
    rfl
  have htask (t : Handle) (ht : t ∈ m.tasks) : taskPrecondition m t = precondition m t := by
    cases hf : m.effect? t with
    | none =>
      rw [precondition, effectPrecondition?, hf]
      rfl
    | some effect => cases (Model.role?_of_effect? hf).symm.trans (hv.mem_tasks_iff.mp ht)
  rw [preconditionClauses, List.filterMap_congr heffect, List.map_congr_left htask,
    List.map_append]
  exact congrArg (· ++ _) (congrFun List.filterMap_eq_map m.effects)

theorem about_preconditions (hh : h ∈ m.effects ++ m.tasks) :
    about (m.nameOf h) (preconditionClauses m) = [precondition m h] := by
  have hlt (h : Handle) (hh : h ∈ m.effects ++ m.tasks) : h.index < m.elements.length := by
    rcases List.mem_append.mp hh with hh | hh
    · exact m.index_lt_of_role? (hv.mem_effects_iff.mp hh)
    · exact m.index_lt_of_role? (hv.mem_tasks_iff.mp hh)
  rw [preconditionClauses_eq_map hv]
  refine about_map hv hv.nodup_actions hlt (fun h => ?_) hh
  rw [Clause.subject?, head_precondition]
  rfl

/-! ## Words of procedures -/

omit hv in
theorem mem_words_chain {op : Operator} {word x : String} {terms : List Term}
    (hx : x ∈ (Term.chain op (.word word) terms).words) :
    x = word ∨ ∃ term ∈ terms, x ∈ term.words := by
  induction terms with
  | nil => exact .inl (by simpa [Term.chain, Term.words] using hx)
  | cons term rest ih =>
    cases rest with
    | nil => exact .inr ⟨term, .head _, hx⟩
    | cons next rest =>
      rw [Term.chain_cons_cons, Term.words, List.mem_append] at hx
      rcases hx with hx | hx
      · exact .inr ⟨term, .head _, hx⟩
      · rcases ih hx with hword | ⟨term, hterm, hx⟩
        · exact .inl hword
        · exact .inr ⟨term, .tail _ hterm, hx⟩

omit hv in
theorem mem_words_procedureBody {g : Handle} {x : String} (hx : x ∈ (procedureBody m g).words) :
    x = "nil" ∨ ∃ c ∈ m.children g, x = m.nameOf c := by
  have hchild {cs : List Handle} (hx : ∃ term ∈ cs.map (nameTerm m), x ∈ term.words) :
      ∃ c ∈ cs, x = m.nameOf c := by
    obtain ⟨_, hterm, hx⟩ := hx
    obtain ⟨c, hc, rfl⟩ := List.mem_map.mp hterm
    exact ⟨c, hc, by simpa [nameTerm, Term.words] using hx⟩
  unfold procedureBody at hx
  split at hx
  · exact .inl (by simpa [Term.words] using hx)
  · next child heq => exact .inr (hchild ⟨child, heq ▸ .head _, hx⟩)
  · rw [Term.words] at hx
    exact (mem_words_chain hx).imp_right hchild

/-! ## The vocabulary -/

theorem nodup_names {hs : List Handle} (hnodup : hs.Nodup)
    (hlt : ∀ h ∈ hs, h.index < m.elements.length) : (hs.map m.nameOf).Nodup :=
  List.Nodup.map_on (fun g hg h hh hname => hv.nameOf_inj (hlt g hg) (hlt h hh) hname) hnodup

omit hv in
theorem map_nameTerm (hs : List Handle) :
    hs.map (nameTerm m) = (hs.map m.nameOf).map .word := by
  rw [List.map_map]
  rfl

theorem actionVocabulary : ActionVocabulary m (translateFrom m root) (m.tasks.map m.nameOf)
    (m.effects.map m.nameOf) := by
  have hltTask (a : Handle) (ha : a ∈ m.tasks) := m.index_lt_of_role? (hv.mem_tasks_iff.mp ha)
  have hltEffect (e : Handle) (he : e ∈ m.effects) :=
    m.index_lt_of_role? (hv.mem_effects_iff.mp he)
  have hltGoal (g : Handle) (hg : g ∈ m.goals) := m.index_lt_of_role? (hv.mem_goals_iff.mp hg)
  have hnondet (a : Handle) (ha : a ∈ m.tasks) :
      about (m.nameOf a) ((translateFrom m root).facts ("nondetActions", 3)) =
        [.fact (.apply "nondetActions" [.word (m.nameOf a), .word "_",
          .list (((m.effectsOf a).map m.nameOf).map .word)])] := by
    rw [facts_nondetActions hv, about_map hv hv.nodup_tasks hltTask (fun _ => rfl) ha,
      nondetClause, map_nameTerm]
    rfl
  exact {
    agentActionList := map_nameTerm m.tasks ▸ (facts_agentActions hv root).1
    nodup_tasks := nodup_names hv hv.nodup_tasks hltTask
    mem_tasks := fun x => by simp only [List.mem_map, hv.mem_tasks_iff]
    agentAction := List.forall_mem_map.mpr fun a ha => by
      rw [(facts_agentActions hv root).2, about_map hv hv.nodup_tasks hltTask (fun _ => rfl) ha]
      rfl
    nondetActions := List.forall_mem_map.mpr fun a ha => ⟨_, hnondet a ha⟩
    taskGuard := List.forall_mem_map.mpr fun a ha => by
      rw [clauses_translateFrom rfl, about_preconditions hv (List.mem_append_right _ ha)]
      exact ⟨_, congrArg (fun head => [Clause.mk head _]) (head_precondition a)⟩
    stochasticActionList := map_nameTerm m.effects ▸ (facts_stochasticActions hv root).1
    outcomes := by
      rw [facts_nondetActions hv, List.flatMap_map, ← map_nameTerm, Model.effects,
        List.map_flatMap]
      rfl
    nodup_effects := nodup_names hv hv.nodup_effects hltEffect
    mem_effects := fun x => by simp only [List.mem_map, hv.mem_effects_iff]
    stochasticAction := List.forall_mem_map.mpr fun e he => by
      rw [(facts_stochasticActions hv root).2,
        about_map hv hv.nodup_effects hltEffect (fun _ => rfl) he]
      rfl
    probability := List.forall_mem_map.mpr fun e he => by
      obtain ⟨probability, hfacts⟩ := facts_probabilities hv root
      rw [hfacts, about_map hv hv.nodup_effects hltEffect (fun _ => rfl) he]
      exact ⟨_, rfl⟩
    senseCondition := List.forall_mem_map.mpr fun e he => by
      rw [facts_sensing hv, about_map hv hv.nodup_effects hltEffect (fun _ => rfl) he]
      exact ⟨_, rfl⟩
    effectGuard := List.forall_mem_map.mpr fun e he => by
      obtain ⟨effect, hf⟩ := Model.exists_effect? (hv.mem_effects_iff.mp he)
      have hmem : e ∈ m.effectsOf effect.task := (hv.effects _ e).mpr (by rw [hf]; rfl)
      obtain ⟨task, ht, _⟩ := Model.task?_of_mem_effectsOf hmem
      have ha := hv.mem_tasks_iff.mpr (Model.role?_of_task? ht)
      refine ⟨_, List.mem_map_of_mem ha, _, List.mem_map_of_mem hmem, hnondet _ ha, ?_⟩
      rw [clauses_translateFrom rfl, about_preconditions hv (List.mem_append_left _ he),
        precondition, effectPrecondition?, hf]
      exact ⟨_, rfl⟩
    procedures := by
      rw [facts_procedures hv]
      refine List.forall_mem_map.mpr fun g hg => ⟨_, _, procedureClause_eq m g, fun x hx hne => ?_⟩
      obtain ⟨c, hc, rfl⟩ := (mem_words_procedureBody hx).resolve_left hne
      rcases hv.role?_of_mem_children hc with hgoal | htask
      · refine .inr ⟨⟨c, hgoal, rfl⟩, ?_⟩
        rw [about_map hv hv.nodup_goals hltGoal (fun _ => rfl) (hv.mem_goals_iff.mpr hgoal)]
        exact ⟨_, rfl⟩
      · exact .inl (List.mem_map_of_mem (hv.mem_tasks_iff.mpr htask)) }

end Valid

/-- The sections of every program agree on its tasks and effects. -/
theorem exists_actionVocabulary {text : String} {withSchema : Bool} {m : Model}
    (h : parseModel text withSchema = .ok m) :
    ∃ t tasks effects, assemble m = .ok t ∧ ActionVocabulary m t tasks effects := by
  have hv := valid_of_parseModel h
  obtain ⟨root, hroot⟩ := hv.exists_rootGoals
  exact ⟨_, _, _, assemble_eq_ok hroot, actionVocabulary hv root⟩

/-- The robot pushes, pulls and walks, and each of it can come out in the ways that are listed. -/
theorem door_actionVocabulary : ∃ t tasks effects, assemble Document.door.linked = .ok t ∧
    ActionVocabulary Document.door.linked t tasks effects ∧ "Push" ∈ tasks ∧ "Stuck" ∈ effects ∧
    ∃ sensed, about "Stuck" (t.facts ("senseCondition", 2)) =
      [.fact (.apply "senseCondition" [.word "Stuck", sensed])] := by
  obtain ⟨t, tasks, effects, ht, h⟩ := exists_actionVocabulary parseModel_doorText
  have hpush : "Push" ∈ tasks := (h.mem_tasks _).mpr ⟨⟨5⟩, by decide, by decide⟩
  have hstuck : "Stuck" ∈ effects := (h.mem_effects _).mpr ⟨⟨7⟩, by decide, by decide⟩
  exact ⟨t, tasks, effects, ht, h, hpush, hstuck, h.senseCondition _ hstuck⟩

end GoalModel.Golog
