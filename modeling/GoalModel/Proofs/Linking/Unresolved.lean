import GoalModel.Proofs.Linking.WellFormed

/-! # Unresolved references

Linking goes on after an error, so that a name without a declaration is reported wherever it
stands and whatever else is wrong with the document: each list of references reports the names in
it that do not resolve, and neither what has been claimed nor what has been seen before plays a
part. There is one exception. A goal that is refined in both ways is given up as a whole, and the
names of its children are not looked at (`Document.unresolved_reported`). -/

namespace GoalModel

/-! ## References of a document -/

/-- A goal that is refined in both ways. -/
def GoalEntry.Mixed (goal : GoalEntry) : Prop := goal.and ≠ [] ∧ goal.or ≠ []

instance (goal : GoalEntry) : Decidable goal.Mixed := inferInstanceAs (Decidable (_ ∧ _))

/-- The names that an actor refers to outside of its goals, and what they stand in. -/
inductive ActorEntry.Refers (actor : ActorEntry) : Referrer → String → Prop
  | turnsTrue {effect : EffectEntry} {name : String} : effect ∈ actor.effects →
    name ∈ effect.turnsTrue → Refers actor (.effect effect.name) name
  | quality {quality : QualityEntry} {name : String} : quality ∈ actor.qualities →
    name ∈ quality.formula.atoms → Refers actor (.quality quality.name) name
  | condition {condition : ConditionEntry} {name : String} : condition ∈ actor.conditions →
    name ∈ condition.formula.atoms → Refers actor (.condition condition.name) name

namespace Document

variable (document : Document)

/-- The goals that are refined in one way at most. -/
def singlyRefined : List GoalEntry := document.goals.filter fun goal => ¬goal.Mixed

/-- The names that a document refers to, and what they stand in. Of the references in goals only
those of the given goals count. -/
inductive Refers (goals : List GoalEntry) : Referrer → String → Prop
  | child {goal : GoalEntry} {name : String} : goal ∈ goals → name ∈ goal.children →
    Refers goals (.goal goal.name) name
  | inActor {actor : ActorEntry} {referrer : Referrer} {name : String} :
    actor ∈ document.actors → actor.Refers referrer name → Refers goals referrer name
  | crossRun {name : String} : name ∈ document.crossRun → Refers goals .crossRun name
  | exported {entry : ExportEntry} : entry ∈ document.exported →
    Refers goals .exported entry.name
  | initialization {entry : InitialEntry} : entry ∈ document.initializations →
    Refers goals .initializations entry.name

end Document

/-! ## Names that do not resolve -/

variable {scope : Scope} {referrer referrer' : Referrer} {name name' : String}

namespace Scope

/-- What resolves has a role. -/
theorem exists_role?_of_resolve? {h : Handle} (hr : scope.resolve? name = some h) :
    ∃ role, scope.role? h = some role := by
  obtain ⟨role, hget⟩ := declared_of_resolve? hr
  exact ⟨role, by rw [role?, hget, Option.map_some]⟩

theorem resolveAs_eq_unresolved_iff (requirement : Requirement) :
    scope.resolveAs referrer requirement name = .error (.unresolved referrer' name') ↔
      referrer = referrer' ∧ name = name' ∧ scope.resolve? name' = none := by
  have hname : name = name' ∧ scope.resolve? name' = none ↔
      name = name' ∧ scope.resolve? name = none := and_congr_right fun h => by rw [h]
  rw [hname]
  unfold resolveAs
  cases hr : scope.resolve? name with
  | none => simp
  | some h =>
    obtain ⟨role, hrole⟩ := exists_role?_of_resolve? hr
    simp only [hrole, reduceCtorEq, and_false, iff_false]
    split <;> simp

theorem exists_unresolved_iff (requirement : Requirement) {names : List String} :
    (∃ name ∈ names,
        scope.resolveAs referrer requirement name = .error (.unresolved referrer' name')) ↔
      referrer = referrer' ∧ name' ∈ names ∧ scope.resolve? name' = none := by
  simp only [resolveAs_eq_unresolved_iff]
  constructor
  · rintro ⟨_, hname, hreferrer, rfl, hnone⟩
    exact ⟨hreferrer, hname, hnone⟩
  · rintro ⟨hreferrer, hname, hnone⟩
    exact ⟨name', hname, hreferrer, rfl, hnone⟩

theorem unresolved_mem_formulaErrors_iff {formula : Formula String} :
    .unresolved referrer' name' ∈ scope.formulaErrors referrer formula ↔
      referrer = referrer' ∧ name' ∈ formula.atoms ∧ scope.resolve? name' = none := by
  simp only [formulaErrors, List.mem_map, List.mem_filter, Option.isNone_iff_eq_none,
    LinkError.unresolved.injEq]
  constructor
  · rintro ⟨_, hname, hreferrer, rfl⟩
    exact ⟨hreferrer, hname⟩
  · rintro ⟨hreferrer, hname⟩
    exact ⟨name', hname, hreferrer, rfl⟩

end Scope

/-- Whatever has been seen before, every name that does not resolve is reported. -/
theorem mem_distinctHandles_errors_iff {resolve : String → Except LinkError Handle}
    {repeated : String → LinkError} {seen : List Handle} {names : List String} {e : LinkError}
    (hrepeated : ∀ name, repeated name ≠ e) :
    e ∈ (distinctHandles resolve repeated seen names).2 ↔
      ∃ name ∈ names, resolve name = .error e := by
  fun_induction distinctHandles resolve repeated seen names with
  | case1 => simp
  | case2 seen name rest error hname tail errors htail ih =>
    rw [htail] at ih
    rw [List.exists_mem_cons_iff, hname, Except.error.injEq, ← ih, List.mem_cons, eq_comm]
  | case3 seen name rest handle hname hseen tail errors htail ih =>
    rw [htail] at ih
    rw [List.exists_mem_cons_iff, hname, ← ih, List.mem_cons]
    exact or_congr_left (iff_of_false (hrepeated name).symm (by simp))
  | case4 seen name rest handle hname hseen tail errors htail ih =>
    rw [htail] at ih
    rw [List.exists_mem_cons_iff, hname, ← ih]
    simp

/-! ## Goals -/

namespace Claims

variable {claims : Claims} {goal : Handle}

/-- What has been claimed makes no difference to a name that does not resolve. -/
theorem candidate_eq_unresolved_iff :
    claims.candidate scope goal name = .error (.unresolved referrer name') ↔
      scope.resolveAs (.goal (scope.nameOf goal)) .node name =
        .error (.unresolved referrer name') := by
  dsimp only [candidate]
  cases scope.resolveAs (.goal (scope.nameOf goal)) .node name with
  | error e => exact .rfl
  | ok child =>
    -- What resolves may still be refused, but for another reason.
    refine iff_of_false (fun h => ?_) (by simp)
    dsimp only [bind, Except.bind] at h
    split at h
    · cases h
    · split at h <;> cases h

theorem unresolved_mem_addAll_iff {names : List String} :
    .unresolved referrer name' ∈ (addAll scope goal claims names).2 ↔
      .goal (scope.nameOf goal) = referrer ∧ name' ∈ names ∧ scope.resolve? name' = none := by
  rw [← Scope.exists_unresolved_iff .node]
  fun_induction addAll scope goal claims names with
  | case1 => simp
  | case2 claims name rest child hok ih =>
    rw [List.exists_mem_cons_iff, ← candidate_eq_unresolved_iff, hok, ih]
    simp
  | case3 claims name rest e herror tail errors htail ih =>
    rw [htail] at ih
    rw [List.exists_mem_cons_iff, ← candidate_eq_unresolved_iff, herror, Except.error.injEq, ← ih,
      List.mem_cons, eq_comm]

theorem mixed_iff {entry : GoalEntry} :
    (!entry.and.isEmpty && !entry.or.isEmpty) = true ↔ entry.Mixed := by
  simp [GoalEntry.Mixed]

/-- A goal that is refined in both ways reports none of its children. -/
theorem unresolved_mem_addGoal_iff {entry : GoalEntry} :
    .unresolved referrer name' ∈ (addGoal scope claims goal entry).2 ↔ ¬entry.Mixed ∧
      .goal (scope.nameOf goal) = referrer ∧ name' ∈ entry.children ∧
        scope.resolve? name' = none := by
  unfold addGoal
  split
  · next h => exact iff_of_false (by simp) fun hnot => hnot.1 (mixed_iff.mp h)
  · next h =>
    rw [unresolved_mem_addAll_iff, and_iff_right (mixed_iff.not.mp h)]
    rfl

theorem unresolved_mem_addNumbered_iff {goals : List (Handle × GoalEntry)} :
    .unresolved referrer name' ∈ (addNumbered scope claims goals).2 ↔
      ∃ g ∈ goals, ¬g.2.Mixed ∧ .goal (scope.nameOf g.1) = referrer ∧
        name' ∈ g.2.children ∧ scope.resolve? name' = none := by
  induction goals generalizing claims with
  | nil => simp [addNumbered]
  | cons g rest ih =>
    rw [List.exists_mem_cons_iff, ← ih, ← unresolved_mem_addGoal_iff]
    exact List.mem_append

theorem mixed_mem_addNumbered {goals : List (Handle × GoalEntry)} {g : Handle × GoalEntry}
    (hg : g ∈ goals) (hmixed : g.2.Mixed) :
    .mixedRefinement (scope.nameOf g.1) ∈ (addNumbered scope claims goals).2 := by
  have hgoal (claims : Claims) :
      (claims.addGoal scope g.1 g.2).2 = [.mixedRefinement (scope.nameOf g.1)] := by
    unfold addGoal
    rw [if_pos (mixed_iff.mpr hmixed)]
  induction goals generalizing claims with
  | nil => cases hg
  | cons g' rest ih =>
    change _ ∈ (claims.addGoal scope g'.1 g'.2).2 ++ _
    rcases List.mem_cons.mp hg with rfl | hg
    · rw [hgoal]
      exact List.mem_append_left _ (List.mem_singleton_self _)
    · exact List.mem_append_right _ (ih hg)

end Claims

/-! ## Actors -/

theorem EffectEntry.unresolved_mem_linkTurnsTrue_iff {effect : EffectEntry} :
    .unresolved referrer name ∈ (effect.linkTurnsTrue scope).2 ↔
      .effect effect.name = referrer ∧ name ∈ effect.turnsTrue ∧ scope.resolve? name = none := by
  rw [linkTurnsTrue, mem_distinctHandles_errors_iff fun _ => by simp,
    Scope.exists_unresolved_iff]

namespace ActorEntry

variable {actor : ActorEntry}

theorem unresolved_mem_referenceErrors_iff :
    .unresolved referrer name ∈ actor.referenceErrors scope ↔
      actor.Refers referrer name ∧ scope.resolve? name = none := by
  simp only [referenceErrors, List.mem_append, List.mem_flatMap (l := actor.qualities),
    List.mem_flatMap (l := actor.conditions), List.mem_flatMap (l := List.flatMap _ _),
    EffectEntry.unresolved_mem_linkTurnsTrue_iff, Scope.unresolved_mem_formulaErrors_iff]
  constructor
  · rintro ((⟨effect, heffect, rfl, hname, hnone⟩ | ⟨quality, hquality, rfl, hname, hnone⟩) |
      ⟨condition, hcondition, rfl, hname, hnone⟩)
    · exact ⟨.turnsTrue heffect hname, hnone⟩
    · exact ⟨.quality hquality hname, hnone⟩
    · exact ⟨.condition hcondition hname, hnone⟩
  · rintro ⟨hrefers, hnone⟩
    cases hrefers with
    | turnsTrue heffect hname => exact .inl (.inl ⟨_, heffect, rfl, hname, hnone⟩)
    | quality hquality hname => exact .inl (.inr ⟨_, hquality, rfl, hname, hnone⟩)
    | condition hcondition hname => exact .inr ⟨_, hcondition, rfl, hname, hnone⟩

end ActorEntry

/-! ## Documents -/

/-- Declarations refer to nothing. -/
theorem unresolved_notMem_declarationErrors {seen : List String} {ds : List Declaration} :
    .unresolved referrer name ∉ declarationErrors seen ds := by
  have hnames (seen : List String) (declared : String) :
      .unresolved referrer name ∉ nameErrors seen declared := by
    unfold nameErrors
    cases Identifier.reservedEnding? declared <;> simp
  induction ds generalizing seen with
  | nil => exact List.not_mem_nil
  | cons d rest ih =>
    intro h
    rcases List.mem_append.mp h with h | h
    · rcases List.mem_append.mp h with h | h
      · cases d <;> simp at h
      · exact hnames _ _ h
    · exact ih h

theorem ExportEntry.unresolved_mem_linkErrors_iff {entry : ExportEntry} :
    .unresolved referrer name ∈ entry.linkErrors scope ↔
      .exported = referrer ∧ entry.name = name ∧ scope.resolve? name = none := by
  rw [← Scope.resolveAs_eq_unresolved_iff .stateful]
  unfold linkErrors
  split
  · next e he => rw [he, List.mem_singleton, Except.error.injEq, eq_comm]
  · next h hok =>
    rw [hok]
    refine iff_of_false ?_ (by simp)
    cases entry.min <;> cases entry.max <;> simp

theorem InitialEntry.unresolved_mem_linkErrors_iff {entry : InitialEntry} :
    .unresolved referrer name ∈ entry.linkErrors scope ↔
      .initializations = referrer ∧ entry.name = name ∧ scope.resolve? name = none := by
  rw [← Scope.resolveAs_eq_unresolved_iff .stateful]
  unfold linkErrors
  split
  · next e he => rw [he, List.mem_singleton, Except.error.injEq, eq_comm]
  · next h hok => simp [hok]

namespace Document

variable {document : Document}

/-- A goal is reported by its own name. -/
theorem nameOf_of_mem_numberedGoals {g : Handle × GoalEntry} (hg : g ∈ document.numberedGoals) :
    document.scope.nameOf g.1 = g.2.name := by
  have hd := mem_numberedGoals.mp hg
  simp [Scope.nameOf, scope, hd, Declaration.name]

/-- The names that do not resolve are those that are not declared. -/
theorem resolve?_eq_none : document.scope.resolve? name = none ↔ name ∉ document.declaredNames := by
  rw [← resolve?_isSome, Option.not_isSome_iff_eq_none]

theorem mem_singlyRefined {goal : GoalEntry} :
    goal ∈ document.singlyRefined ↔ goal ∈ document.goals ∧ ¬goal.Mixed := by
  rw [singlyRefined, List.mem_filter, decide_eq_true_iff]

theorem unresolved_mem_addNumbered_iff {claims : Claims} :
    .unresolved referrer name ∈ (claims.addNumbered document.scope document.numberedGoals).2 ↔
      (∃ goal ∈ document.singlyRefined, .goal goal.name = referrer ∧ name ∈ goal.children) ∧
        name ∉ document.declaredNames := by
  simp only [Claims.unresolved_mem_addNumbered_iff, resolve?_eq_none, mem_singlyRefined,
    ← map_snd_numberedGoals, List.mem_map]
  constructor
  · rintro ⟨g, hg, hmixed, hreferrer, hname, hundeclared⟩
    rw [nameOf_of_mem_numberedGoals hg] at hreferrer
    exact ⟨⟨g.2, ⟨⟨g, hg, rfl⟩, hmixed⟩, hreferrer, hname⟩, hundeclared⟩
  · rintro ⟨⟨_, ⟨⟨g, hg, rfl⟩, hmixed⟩, hreferrer, hname⟩, hundeclared⟩
    rw [← nameOf_of_mem_numberedGoals hg] at hreferrer
    exact ⟨g, hg, hmixed, hreferrer, hname, hundeclared⟩

theorem unresolved_mem_linkActors_iff :
    .unresolved referrer name ∈ document.linkActors.2 ↔
      ((∃ goal ∈ document.singlyRefined, .goal goal.name = referrer ∧ name ∈ goal.children) ∨
        ∃ actor ∈ document.actors, actor.Refers referrer name) ∧
      name ∉ document.declaredNames := by
  have hnumbered : document.numberedGoals =
      GoalModel.numberedGoals 0 (ActorEntry.allDeclarations 0 document.actors) := rfl
  simp only [linkActors, ActorEntry.mem_linkAll_errors_iff, ← hnumbered,
    unresolved_mem_addNumbered_iff, ActorEntry.unresolved_mem_referenceErrors_iff,
    resolve?_eq_none, ← and_assoc, exists_and_right, or_and_right]

theorem unresolved_mem_linkCrossRun_iff :
    .unresolved referrer name ∈ document.linkCrossRun.2 ↔
      .crossRun = referrer ∧ name ∈ document.crossRun ∧ name ∉ document.declaredNames := by
  rw [linkCrossRun, mem_distinctHandles_errors_iff fun _ => by simp,
    Scope.exists_unresolved_iff, resolve?_eq_none]

theorem unresolved_notMem_rootQualityErrors :
    .unresolved referrer name ∉ document.rootQualityErrors := by
  dsimp only [rootQualityErrors]
  split <;> simp

/-- Every reference to a name that is not declared is reported, but for those of goals that are
refined in both ways, and no other reference is. -/
theorem unresolved_mem_linkErrors_iff :
    .unresolved referrer name ∈ document.linkErrors ↔
      document.Refers document.singlyRefined referrer name ∧ name ∉ document.declaredNames := by
  -- One disjunct for each part of the list; declarations and roots have nothing to add.
  simp only [linkErrors, List.mem_append, List.mem_flatMap, unresolved_mem_linkActors_iff,
    unresolved_mem_linkCrossRun_iff, ExportEntry.unresolved_mem_linkErrors_iff,
    InitialEntry.unresolved_mem_linkErrors_iff, resolve?_eq_none,
    iff_false_intro unresolved_notMem_declarationErrors,
    iff_false_intro unresolved_notMem_rootQualityErrors, false_or, or_false]
  constructor
  · rintro (((⟨⟨goal, hgoal, rfl, hname⟩ | ⟨actor, hactor, hrefers⟩, hundeclared⟩ |
      ⟨rfl, hname, hundeclared⟩) | ⟨entry, hentry, rfl, rfl, hundeclared⟩) |
      ⟨entry, hentry, rfl, rfl, hundeclared⟩)
    · exact ⟨.child hgoal hname, hundeclared⟩
    · exact ⟨.inActor hactor hrefers, hundeclared⟩
    · exact ⟨.crossRun hname, hundeclared⟩
    · exact ⟨.exported hentry, hundeclared⟩
    · exact ⟨.initialization hentry, hundeclared⟩
  · rintro ⟨hrefers, hundeclared⟩
    cases hrefers with
    | child hgoal hname =>
      exact .inl (.inl (.inl ⟨.inl ⟨_, hgoal, rfl, hname⟩, hundeclared⟩))
    | inActor hactor hrefers =>
      exact .inl (.inl (.inl ⟨.inr ⟨_, hactor, hrefers⟩, hundeclared⟩))
    | crossRun hname => exact .inl (.inl (.inr ⟨rfl, hname, hundeclared⟩))
    | exported hentry => exact .inl (.inr ⟨_, hentry, rfl, rfl, hundeclared⟩)
    | initialization hentry => exact .inr ⟨_, hentry, rfl, rfl, hundeclared⟩

theorem mixed_mem_linkErrors {goal : GoalEntry} (hgoal : goal ∈ document.goals)
    (hmixed : goal.Mixed) : .mixedRefinement goal.name ∈ document.linkErrors := by
  rw [← map_snd_numberedGoals, List.mem_map] at hgoal
  obtain ⟨g, hg, rfl⟩ := hgoal
  have hactors : .mixedRefinement (document.scope.nameOf g.1) ∈ document.linkActors.2 :=
    ActorEntry.mem_linkAll_errors_iff.mpr (.inl (Claims.mixed_mem_addNumbered hg hmixed))
  rw [nameOf_of_mem_numberedGoals hg] at hactors
  simp only [linkErrors, List.mem_append, hactors, or_true, true_or]

theorem link_eq_error {e : LinkError} (he : e ∈ document.linkErrors) :
    document.link = .error document.linkErrors := by
  have hne : document.linkErrors.isEmpty = false :=
    List.isEmpty_eq_false_iff_exists_mem.mpr ⟨e, he⟩
  rw [link, if_neg (by simp [hne])]

/-- A reference that counts in all goals but not in the singly refined ones is one to a child of a
goal that is refined in both ways. -/
theorem exists_mixed_of_refers (hrefers : document.Refers document.goals referrer name)
    (hsingly : ¬document.Refers document.singlyRefined referrer name) :
    ∃ goal ∈ document.goals, goal.Mixed ∧ referrer = .goal goal.name ∧ name ∈ goal.children := by
  cases hrefers with
  | @child goal _ hgoal hname =>
    by_cases hmixed : goal.Mixed
    · exact ⟨goal, hgoal, hmixed, rfl, hname⟩
    · exact absurd (.child (mem_singlyRefined.mpr ⟨hgoal, hmixed⟩) hname) hsingly
  | inActor hactor hrefers => exact absurd (.inActor hactor hrefers) hsingly
  | crossRun hname => exact absurd (.crossRun hname) hsingly
  | exported hentry => exact absurd (.exported hentry) hsingly
  | initialization hentry => exact absurd (.initialization hentry) hsingly

/-- Whatever else is wrong with a document, a reference to a name that is not declared makes
linking fail, and it is reported unless it stands only in goals that are refined in both ways.
Such a goal is reported itself. -/
theorem unresolved_reported (hrefers : document.Refers document.goals referrer name)
    (hundeclared : name ∉ document.declaredNames) :
    ∃ errors, document.link = .error errors ∧
      (.unresolved referrer name ∈ errors ↔
        document.Refers document.singlyRefined referrer name) ∧
      (document.Refers document.singlyRefined referrer name →
        referrer.text ++ ": unresolved reference '" ++ name ++ "'" ∈ errors.map (·.message)) ∧
      (¬document.Refers document.singlyRefined referrer name →
        ∃ goal ∈ document.goals, goal.Mixed ∧ referrer = .goal goal.name ∧
          name ∈ goal.children ∧ .mixedRefinement goal.name ∈ errors) := by
  have hmem : .unresolved referrer name ∈ document.linkErrors ↔
      document.Refers document.singlyRefined referrer name := by
    rw [unresolved_mem_linkErrors_iff, and_iff_left hundeclared]
  by_cases hsingly : document.Refers document.singlyRefined referrer name
  · exact ⟨_, link_eq_error (hmem.mpr hsingly), hmem,
      fun _ => List.mem_map_of_mem (hmem.mpr hsingly), fun h => absurd hsingly h⟩
  · obtain ⟨goal, hgoal, hmixed, hreferrer, hname⟩ := exists_mixed_of_refers hrefers hsingly
    have herror := mixed_mem_linkErrors hgoal hmixed
    exact ⟨_, link_eq_error herror, hmem, fun h => absurd h hsingly,
      fun _ => ⟨goal, hgoal, hmixed, hreferrer, hname, herror⟩⟩

/-- A goal that is refined in both ways, by children that are not declared, and an effect that
refers to one of them. -/
def fork : Document where
  name := "Fork"
  actors := [{
    name := "Robot"
    predicates := []
    stateVariables := []
    goals := [⟨"open", ["push"], ["pull"]⟩]
    tasks := [⟨"walk", [⟨"walked", .zero, true, ["push"]⟩]⟩]
    qualities := []
    conditions := [] }]
  crossRun := []
  exported := []
  initializations := []

/-- The effect is reported for its reference, although its probability and the goal have been
reported before. -/
theorem fork_effect_reported : ∃ errors, fork.link = .error errors ∧
    .unresolved (.effect "walked") "push" ∈ errors := by
  have heffect : (⟨"walked", .zero, true, ["push"]⟩ : EffectEntry) ∈ fork.actors[0].effects := by
    decide
  have hactor : fork.actors[0].Refers (.effect "walked") "push" := .turnsTrue heffect (by decide)
  have hrefers (goals : List GoalEntry) : fork.Refers goals (.effect "walked") "push" :=
    .inActor (by decide) hactor
  obtain ⟨errors, herror, hmem, _⟩ := unresolved_reported (hrefers fork.goals) (by decide)
  exact ⟨errors, herror, hmem.mpr (hrefers fork.singlyRefined)⟩

/-- The goal is not: neither of its children is reported. -/
theorem fork_goal_unreported :
    fork.Refers fork.goals (.goal "open") "push" ∧ "push" ∉ fork.declaredNames ∧
      ∃ errors, fork.link = .error errors ∧
        "goal 'open': unresolved reference 'push'" ∉ errors.map (·.message) := by
  have hgoal : (⟨"open", ["push"], ["pull"]⟩ : GoalEntry) ∈ fork.goals := by decide
  refine ⟨.child hgoal (by decide), by decide, _, rfl, ?_⟩
  decide +kernel

end Document

end GoalModel
