import GoalModel.Proofs.Golog.References
import GoalModel.Proofs.Golog.Successors
import Mathlib.Data.List.Flatten

/-! # Closed sections

What the clauses of a program refer to comes from walks through the tree and from the lists of
single elements; what the program defines comes from the lists of its actors. The two agree:
the goals in guards, derived clauses and successor clauses are defined, each in one place, and the
lines that restore a situation are for the terms that clauses are written for
(`exists_closedSections`).

A walk ends at an element with some role, the actors list the elements of this role without
repetition (`Model.Listed.nodup_flatMap`), and the names generated for two elements differ. So a
head stands once among the heads of its section (`standsOnce_derived`, `standsOnce_possible`). The
goals in a body follow its shape, one lemma for each way to write bodies
(`mem_goals_effectPrecondition`, `mem_goals_taskPrecondition`, `mem_goals_derivedBody`). -/

namespace GoalModel

/-! ## Lists -/

/-- An item stands at exactly one place of a list. -/
def StandsOnce {α : Type} (a : α) (items : List α) : Prop := ∃! i : Nat, items[i]? = some a

theorem standsOnce_of_nodup {α : Type} {a : α} {items : List α} (hnodup : items.Nodup)
    (ha : a ∈ items) : StandsOnce a items := by
  obtain ⟨i, hi⟩ := List.mem_iff_getElem?.mp ha
  refine ⟨i, hi, fun j hj => ?_⟩
  have hlt : j < items.length := (List.getElem?_eq_some_iff.mp hj).1
  exact (List.getElem?_inj hlt hnodup).mp (hj.trans hi.symm)

/-- Where only one member of a list contributes anything, the whole is what it contributes. -/
theorem flatMap_eq_of_unique {α β : Type} {as : List α} {a : α} {f : α → List β}
    (hnodup : as.Nodup) (ha : a ∈ as) (hother : ∀ a' ∈ as, a' ≠ a → f a' = []) :
    as.flatMap f = f a := by
  obtain ⟨before, after, rfl⟩ := List.append_of_mem ha
  obtain ⟨hnotBefore, hnotAfter⟩ : a ∉ before ∧ a ∉ after := by
    simp only [List.nodup_append, List.nodup_cons, List.mem_cons] at hnodup
    exact ⟨fun h => hnodup.2.2 a h a (.inl rfl) rfl, hnodup.2.1.1⟩
  have hnone {others : List α} (hsub : ∀ a' ∈ others, a' ∈ before ++ a :: after)
      (hnot : a ∉ others) : others.flatMap f = [] :=
    List.flatMap_eq_nil_iff.mpr fun a' ha' => hother a' (hsub a' ha') fun heq => hnot (heq ▸ ha')
  rw [List.flatMap_append, List.flatMap_cons,
    hnone (fun a' h => List.mem_append_left _ h) hnotBefore,
    hnone (fun a' h => List.mem_append_right _ (List.mem_cons_of_mem _ h)) hnotAfter,
    List.nil_append, List.append_nil]

/-- A filter that keeps what one member of a list contributes, and nothing else. -/
theorem filter_flatMap_eq {α β : Type} {as : List α} {a : α} {f : α → List β} {p : β → Bool}
    (hnodup : as.Nodup) (ha : a ∈ as) (hown : ∀ b ∈ f a, p b)
    (hother : ∀ a' ∈ as, a' ≠ a → ∀ b ∈ f a', ¬p b) : (as.flatMap f).filter p = f a := by
  rw [List.filter_flatMap, flatMap_eq_of_unique hnodup ha, List.filter_eq_self.mpr hown]
  exact fun a' ha' hne => List.filter_eq_nil_iff.mpr (hother a' ha' hne)

/-! ## Listed elements -/

namespace Model.Listed

variable {m : Model} (hs : m.Listed)
include hs

/-- What every actor lists in part, all actors together list without repetition. -/
theorem nodup_flatMap {list : Actor → List Handle}
    (hpart : ∀ actor, (list actor).Sublist (actor.listed m.effectsOf)) :
    (m.actors.flatMap list).Nodup := by
  have hlisting : m.listing.Nodup := hs.listing ▸ Handle.nodup_range ..
  exact hlisting.sublist (List.Sublist.flatMap_right _ fun actor _ => hpart actor)

theorem nodup_predicates : m.predicates.Nodup := by
  refine hs.nodup_flatMap fun actor => ?_
  simp only [Actor.listed, List.append_assoc]
  exact List.sublist_append_left ..

theorem nodup_goals : m.goals.Nodup := by
  refine hs.nodup_flatMap fun actor => ?_
  simp only [Actor.listed, List.append_assoc]
  refine .trans ?_ (List.sublist_append_right ..)
  refine .trans ?_ (List.sublist_append_right ..)
  exact List.sublist_append_left ..

theorem nodup_qualities : m.qualities.Nodup := by
  refine hs.nodup_flatMap fun actor => ?_
  exact (List.sublist_append_right ..).trans (List.sublist_append_left ..)

theorem nodup_conditions : m.conditions.Nodup := by
  refine hs.nodup_flatMap fun actor => ?_
  exact List.sublist_append_right ..

/-- Tasks with their effects are a part of what an actor lists. -/
theorem nodup_flatMap_tasks {part : Handle → List Handle}
    (hpart : ∀ t, (part t).Sublist (t :: m.effectsOf t)) : (m.tasks.flatMap part).Nodup := by
  rw [tasks, List.flatMap_assoc]
  refine hs.nodup_flatMap fun actor => ?_
  refine .trans ?_ ((List.sublist_append_left ..).trans (List.sublist_append_left ..))
  exact (List.Sublist.flatMap_right _ fun t _ => hpart t).trans (List.sublist_append_right ..)

theorem nodup_tasks : m.tasks.Nodup := by
  have h : (m.tasks.flatMap fun t => [t]).Nodup :=
    hs.nodup_flatMap_tasks fun _ => List.cons_sublist_cons.mpr (List.nil_sublist _)
  rwa [List.flatMap_singleton'] at h

theorem nodup_effects : m.effects.Nodup :=
  hs.nodup_flatMap_tasks fun _ => List.sublist_cons_self ..

theorem nodup_nodes : (m.tasks ++ m.goals).Nodup := by
  refine List.nodup_append.mpr ⟨hs.nodup_tasks, hs.nodup_goals, ?_⟩
  rintro t ht _ hg rfl
  cases (hs.mem_tasks_iff.mp ht).symm.trans (hs.mem_goals_iff.mp hg)

theorem nodup_actions : (m.effects ++ m.tasks).Nodup := by
  refine List.nodup_append.mpr ⟨hs.nodup_effects, hs.nodup_tasks, ?_⟩
  rintro e he _ ht rfl
  cases (hs.mem_effects_iff.mp he).symm.trans (hs.mem_tasks_iff.mp ht)

end Model.Listed

namespace Golog

/-! ## Heads -/

def heads (clauses : List Clause) : List Term := clauses.map (·.head)

variable {m : Model} {root h e p : Handle} {d : Derived}

theorem holdsIn_inj {name name' : String} {s : Situation}
    (h : holdsIn name s = holdsIn name' s) : name = name' := (Term.compound.inj h).1

section Valid
variable (hv : m.Valid)
include hv

theorem heads_satisfactionClauses (root : Handle) : heads (satisfactionClauses m root) =
    ((m.tasks ++ m.goals).flatMap (generatedNames m) ++ ["goalAchieved"]).map
      (holdsIn · .current) := by
  have hnode (h : Handle) (hh : h ∈ m.tasks ++ m.goals) :
      (Derived.all.map fun d => derivedClause m d h).map (·.head) =
        (generatedNames m h).map (holdsIn · .current) := by
    rw [generatedNames_of_node (hv.mem_nodes_iff.mp hh), List.map_map, List.map_map]
    rfl
  rw [heads, satisfactionClauses, List.map_append, List.map_append, List.map_flatMap,
    List.map_flatMap, List.flatMap_congr hnode]
  rfl

theorem nodup_heads_satisfactionClauses (root : Handle) :
    (heads (satisfactionClauses m root)).Nodup := by
  have hnames : ((m.tasks ++ m.goals).flatMap (generatedNames m)).Nodup := by
    refine List.nodup_flatMap.mpr ⟨fun h _ => nodup_generatedNames m h, ?_⟩
    refine hv.nodup_nodes.pairwise_of_forall_ne fun g hg h hh hne x hxg hxh => hne ?_
    exact eq_of_mem_generatedNames hv.named (m.index_lt_of_node (hv.mem_nodes_iff.mp hg))
      (m.index_lt_of_node (hv.mem_nodes_iff.mp hh)) hxg hxh
  rw [heads_satisfactionClauses hv]
  refine List.Nodup.map (fun _ _ => holdsIn_inj) (List.nodup_append.mpr
    ⟨hnames, List.nodup_singleton _, ?_⟩)
  intro x hx _ hachieved heq
  obtain ⟨h, hh, hx⟩ := List.mem_flatMap.mp hx
  rw [generatedNames_of_node (hv.mem_nodes_iff.mp hh)] at hx
  obtain ⟨d, _, rfl⟩ := List.mem_map.mp hx
  exact ended_ne_goalAchieved (heq.trans (List.mem_singleton.mp hachieved))

/-- Each derived term of a goal or task has one clause. -/
theorem standsOnce_derived (hh : m.role? h = some .goal ∨ m.role? h = some .task)
    (d : Derived) (root : Handle) : StandsOnce (holdsIn (ended (m.nameOf h) d.ending) .current)
      (heads (satisfactionClauses m root)) := by
  refine standsOnce_of_nodup (nodup_heads_satisfactionClauses hv root) ?_
  rw [heads_satisfactionClauses hv]
  refine List.mem_map_of_mem (List.mem_append_left _ ?_)
  refine List.mem_flatMap.mpr ⟨h, hv.mem_nodes_iff.mpr hh, ?_⟩
  rw [generatedNames_of_node hh]
  exact List.mem_map_of_mem d.mem_all

theorem heads_preconditionClauses : heads (preconditionClauses m) =
    (m.effects ++ m.tasks).map fun h => possible (m.nameOf h) := by
  have heffect (e : Handle) (he : e ∈ m.effects) :
      (effectPrecondition? m e).map (·.head) = some (possible (m.nameOf e)) := by
    obtain ⟨effect, he⟩ := Model.exists_effect? (hv.mem_effects_iff.mp he)
    rw [effectPrecondition?, he]
    rfl
  have htask (t : Handle) : (taskPrecondition m t).head = possible (m.nameOf t) :=
    head_taskPrecondition
  rw [heads, preconditionClauses, List.map_append, List.map_append, List.map_filterMap,
    List.filterMap_congr heffect, List.map_map]
  refine congrArg₂ _ ?_ (List.map_congr_left fun t _ => htask t)
  exact congrFun List.filterMap_eq_map m.effects

theorem nodup_heads_preconditionClauses : (heads (preconditionClauses m)).Nodup := by
  have hlt (h : Handle) (hh : h ∈ m.effects ++ m.tasks) : h.index < m.elements.length := by
    rcases List.mem_append.mp hh with hh | hh
    · exact m.index_lt_of_role? (hv.mem_effects_iff.mp hh)
    · exact m.index_lt_of_role? (hv.mem_tasks_iff.mp hh)
  rw [heads_preconditionClauses hv]
  refine List.Nodup.map_on (fun g hg h hh hhead => ?_) hv.nodup_actions
  exact hv.nameOf_inj (hlt g hg) (hlt h hh) (possible_inj hhead)

/-- Each effect has one precondition. -/
theorem standsOnce_possible (he : m.role? e = some .effect) :
    StandsOnce (possible (m.nameOf e)) (heads (preconditionClauses m)) := by
  refine standsOnce_of_nodup (nodup_heads_preconditionClauses hv) ?_
  rw [heads_preconditionClauses hv]
  exact List.mem_map_of_mem (List.mem_append_left _ (hv.mem_effects_iff.mpr he))

end Valid

/-! ## Goals in bodies -/

/-- The goals in the body of a clause. -/
def Clause.goals (clause : Clause) : List Term :=
  match clause.body with
  | some body => body.goals
  | none => []

section
variable {op : Operator} {word : String} {terms : List Term} {goal : Term}

/-- The goals of a chain are those of its links. -/
theorem Term.mem_goals_chain (hop : op.symbol = "," ∨ op.symbol = ";") (hne : terms ≠ [])
    (hterms : ∀ t ∈ terms, t.priority < op.priority) :
    goal ∈ (chain op (.word word) terms).goals ↔ ∃ t ∈ terms, goal ∈ t.goals := by
  have hconnective (left right : Term) (hjoins : Joins op left right) :
      goal ∉ (binary op left right).goals ↔ goal ∉ left.goals ∧ goal ∉ right.goals := by
    rw [goals, if_pos ⟨hop, hjoins⟩, List.mem_append, not_or]
  have hnone : goal ∉ (chain op (.word word) terms).goals ↔ ∀ t ∈ terms, goal ∉ t.goals :=
    forall_chain (P := fun t => goal ∉ t.goals) hconnective hne rfl hterms
  rw [← not_iff_not, hnone]
  push Not
  rfl

theorem Term.eq_or_exists_of_mem_goals_chain (hop : op.symbol = "," ∨ op.symbol = ";")
    (hterms : ∀ t ∈ terms, t.priority < op.priority)
    (hgoal : goal ∈ (chain op (.word word) terms).goals) :
    goal = .word word ∨ ∃ t ∈ terms, goal ∈ t.goals := by
  by_cases hne : terms = []
  · subst hne
    exact .inl (List.mem_singleton.mp hgoal)
  · exact .inr ((mem_goals_chain hop hne hterms).mp hgoal)

theorem Term.mem_goals_groupedConjunction (hne : terms ≠ [])
    (hterms : ∀ t ∈ terms, t.priority = 0) :
    goal ∈ (groupedConjunction terms).goals ↔ ∃ t ∈ terms, goal ∈ t.goals := by
  have hlower (t : Term) (ht : t ∈ terms) : t.priority < Operator.conjunction.priority := by
    rw [hterms t ht]
    exact Nat.zero_lt_succ _
  have hchain : goal ∈ (chain .conjunction (.word "true") terms).goals ↔
      ∃ t ∈ terms, goal ∈ t.goals := mem_goals_chain (.inl rfl) hne hlower
  match terms with
  | [] => exact absurd rfl hne
  | [t] => simp [groupedConjunction]
  | _ :: _ :: _ => exact hchain

theorem goals_notAttempted (m : Model) (h : Handle) :
    (notAttempted m h).goals = [holdsIn (ended (m.nameOf h) .attempted) .current] :=
  if_pos ⟨rfl, Nat.zero_le _⟩

end

/-- The goals of a trace are fluents. -/
theorem mem_goals_effectTrace {effect : Effect} {goal : Term} {s : Situation}
    (hcounts : d.counts effect) (hgoal : goal ∈ (effectTrace m s effect).goals) :
    ∃ p ∈ effect.turnsTrue, goal = holdsIn (ended (m.nameOf p) .fluent) s := by
  have hne : effect.turnsTrue.map (fun p => holdsIn (ended (m.nameOf p) .fluent) s) ≠ [] := by
    simp only [Derived.counts, Bool.and_eq_true, Bool.not_eq_true', List.isEmpty_eq_false_iff]
      at hcounts
    exact fun hnil => hcounts.2 (List.map_eq_nil_iff.mp hnil)
  obtain ⟨_, hfluent, hgoal⟩ := (Term.mem_goals_groupedConjunction hne
    (List.forall_mem_map.mpr fun _ _ => rfl)).mp hgoal
  obtain ⟨p, hp, rfl⟩ := List.mem_map.mp hfluent
  exact ⟨p, hp, List.mem_singleton.mp hgoal⟩

section Valid
variable (hv : m.Valid)
include hv

/-- What competes with a goal or task is one, too. -/
theorem role?_of_mem_competingAlternatives {other : Handle}
    (hother : other ∈ m.competingAlternatives h) :
    m.role? other = some .goal ∨ m.role? other = some .task := by
  obtain ⟨⟨node, up⟩, _, hother⟩ := List.mem_flatMap.mp hother
  simp only at hother
  split at hother
  · unfold Model.siblings at hother
    split at hother
    · exact hv.role?_of_mem_children (List.mem_filter.mp hother).1
    · cases hother
  · cases hother

/-- The goals in the guard of an effect. -/
theorem mem_goals_effectPrecondition {clause : Clause} {goal : Term}
    (hclause : effectPrecondition? m e = some clause) (hgoal : goal ∈ clause.goals) :
    ∃ h, (m.role? h = some .goal ∨ m.role? h = some .task) ∧
      goal = holdsIn (ended (m.nameOf h) .attempted) .current := by
  obtain ⟨effect, he, rfl⟩ := Option.map_eq_some_iff.mp hclause
  have htask : m.role? effect.task = some .task := by
    have hmem : e ∈ m.effectsOf effect.task := (hv.effects effect.task e).mpr (by rw [he]; rfl)
    obtain ⟨_, ht, _⟩ := Model.task?_of_mem_effectsOf hmem
    exact Model.role?_of_task? ht
  have hpriority : ∀ t ∈ (guards m effect.task).map (notAttempted m),
      t.priority < Operator.listing.priority := by
    refine List.forall_mem_map.mpr fun h _ => ?_
    change 900 < 1000
    omega
  have hne : (guards m effect.task).map (notAttempted m) ≠ [] := List.cons_ne_nil _ _
  obtain ⟨_, hguard, hgoal⟩ := (Term.mem_goals_chain (.inl rfl) hne hpriority).mp hgoal
  obtain ⟨h, hh, rfl⟩ := List.mem_map.mp hguard
  rw [goals_notAttempted, List.mem_singleton] at hgoal
  refine ⟨h, ?_, hgoal⟩
  rcases List.mem_cons.mp hh with rfl | hh
  · exact .inr htask
  · exact role?_of_mem_competingAlternatives hv hh

/-- The goals in the guard of a task. -/
theorem mem_goals_taskPrecondition {t : Handle} {goal : Term}
    (hgoal : goal ∈ (taskPrecondition m t).goals) :
    ∃ e, m.role? e = some .effect ∧ goal = possible (m.nameOf e) := by
  have heffect (e : Handle) (he : e ∈ m.effectsOf t) := hv.role?_of_mem_effectsOf he
  unfold taskPrecondition at hgoal
  split at hgoal
  · cases hgoal
  · next hne =>
    have hpriority : ∀ goal ∈ (m.effectsOf t).map fun e => possible (m.nameOf e),
        goal.priority < Operator.disjunction.priority :=
      List.forall_mem_map.mpr fun _ _ => Nat.zero_lt_succ _
    obtain ⟨_, hlink, hgoal⟩ := (Term.mem_goals_chain (.inr rfl)
      (fun hnil => hne (List.map_eq_nil_iff.mp hnil)) hpriority).mp hgoal
    obtain ⟨e, he, rfl⟩ := List.mem_map.mp hlink
    exact ⟨e, heffect e he, List.mem_singleton.mp hgoal⟩

/-- The goals in the body of a derived clause. -/
theorem mem_goals_derivedBody {goal : Term} (hgoal : goal ∈ (derivedBody m d h).goals) :
    goal = .word "fail" ∨
      (∃ c, (m.role? c = some .goal ∨ m.role? c = some .task) ∧
        goal = holdsIn (ended (m.nameOf c) d.ending) .current) ∨
      ∃ p, m.role? p = some .predicate ∧
        goal = holdsIn (ended (m.nameOf p) .fluent) d.situation := by
  unfold derivedBody at hgoal
  split at hgoal
  · next task hkind =>
    have hpriority : ∀ trace ∈ ((task.effects.filterMap m.effect?).filter d.counts).map
        (effectTrace m d.situation), trace.priority < Operator.disjunction.priority := by
      refine List.forall_mem_map.mpr fun effect _ => ?_
      rw [effectTrace, Term.priority_groupedConjunction (List.forall_mem_map.mpr fun _ _ => rfl)]
      exact Nat.zero_lt_succ _
    rcases Term.eq_or_exists_of_mem_goals_chain (.inr rfl) hpriority hgoal with
      hgoal | ⟨_, htrace, hgoal⟩
    · exact .inl hgoal
    · obtain ⟨effect, hcounts, rfl⟩ := List.mem_map.mp htrace
      obtain ⟨heffect, hcounts⟩ := List.mem_filter.mp hcounts
      obtain ⟨e, _, he⟩ := List.mem_filterMap.mp heffect
      obtain ⟨p, hp, hgoal⟩ := mem_goals_effectTrace hcounts hgoal
      exact .inr (.inr ⟨p, hv.turnsTrue e p (Model.turnsTrue_eq he ▸ hp), hgoal⟩)
  · next node hkind =>
    have hpriority : ∀ goal ∈ node.children.map fun c =>
        holdsIn (ended (m.nameOf c) d.ending) .current,
        goal.priority < (d.operator node.kind).priority := by
      refine List.forall_mem_map.mpr fun c _ => ?_
      cases d <;> cases node.kind <;> exact Nat.zero_lt_succ _
    have hop : (d.operator node.kind).symbol = "," ∨ (d.operator node.kind).symbol = ";" := by
      cases d <;> cases node.kind <;> simp [Derived.operator, Operator.conjunction,
        Operator.disjunction, Operator.spaced]
    rcases Term.eq_or_exists_of_mem_goals_chain hop hpriority hgoal with
      hgoal | ⟨_, hchild, hgoal⟩
    · exact .inl hgoal
    · obtain ⟨c, hc, rfl⟩ := List.mem_map.mp hchild
      have hgoalRole : m.role? h = some .goal := by
        rw [Model.role?_eq_map_kind, hkind]
        rfl
      obtain ⟨node', hkind', hnode⟩ := Model.kind_of_goal hgoalRole
      obtain rfl : node = node' := by
        rw [hkind'] at hkind
        cases hkind
        rfl
      rw [← Model.children_eq hnode] at hc
      exact .inr (.inl ⟨c, hv.role?_of_mem_children hc, List.mem_singleton.mp hgoal⟩)
  · exact .inl (List.mem_singleton.mp hgoal)

end Valid

/-! ## Fluents -/

/-- A fluent is listed once, and only the two successor clauses of one predicate define it. -/
structure FluentDefined (m : Model) (t : Translation) (fluent : String) : Prop where
  listed : ∃ fluents : List String, StandsOnce fluent fluents ∧
    t.clauses .fluents = [.listFact "fluentList" (fluents.map .word)]
  defined : ∃ p, m.role? p = some .predicate ∧ fluent = ended (m.nameOf p) .fluent ∧
    (t.clauses .successorState).filter (fun clause => clause.indicator? = some (fluent, 1)) =
      successorClauses m p

section Valid
variable (hv : m.Valid)
include hv

theorem fluentDefined (hp : m.role? p = some .predicate) (root : Handle) :
    FluentDefined m (translateFrom m root) (ended (m.nameOf p) .fluent) := by
  have hlt {h : Handle} (hh : h ∈ m.predicates) : h.index < m.elements.length :=
    m.index_lt_of_role? (hv.mem_predicates_iff.mp hh)
  have hmem : p ∈ m.predicates := hv.mem_predicates_iff.mpr hp
  have hstate : stateName m p = ended (m.nameOf p) .fluent := by
    rw [stateName_of_role hp]
    rfl
  rw [← hstate]
  constructor
  · refine ⟨m.predicates.map (stateName m), ?_, ?_⟩
    · refine standsOnce_of_nodup (List.Nodup.map_on (fun g hg h hh hname => ?_)
        hv.nodup_predicates) (List.mem_map_of_mem hmem)
      exact stateName_inj hv.named (hlt hg) (hlt hh) hname
    · rw [clauses_translateFrom rfl, List.map_map]
      rfl
  · refine ⟨p, hp, hstate, ?_⟩
    rw [clauses_translateFrom rfl]
    refine filter_flatMap_eq hv.nodup_predicates hmem (fun clause hclause => ?_) ?_
    · exact decide_eq_true (indicator?_of_mem_successorClauses hclause)
    · intro p' hp' hne clause hclause hsame
      rw [decide_eq_true_eq, indicator?_of_mem_successorClauses hclause] at hsame
      have hname := (Prod.mk.inj (Option.some.inj hsame)).1
      exact hne (stateName_inj hv.named (hlt hp') (hlt hmem) hname)

end Valid

/-! ## Situation arguments -/

/-- The terms of an element that take a situation, with the number of arguments of the clauses
that define them. -/
def situatedTerms (m : Model) (h : Handle) : List (String × Nat) :=
  match m.role? h with
  | some .predicate => [(ended (m.nameOf h) .fluent, 1)]
  | some .goal => Derived.all.map fun d => (ended (m.nameOf h) d.ending, 1)
  | some .task => Derived.all.map fun d => (ended (m.nameOf h) d.ending, 1)
  | some .condition => [(m.nameOf h, 1)]
  | some .quality => [(m.nameOf h, 2)]
  | _ => []

/-- The elements that have terms with a situation, in the order of the program. -/
def situatedElements (m : Model) : List Handle :=
  m.predicates ++ (m.tasks ++ m.goals) ++ m.conditions ++ m.qualities

/-- The line that restores the situation of a term. -/
def restoringLine : String × Nat → Clause
  | (name, 2) => restoreValueClause name
  | (name, _) => restoreClause name

/-- A line tells which term it restores. -/
theorem restoringLine_inj {x y : String} {n n' : Nat} (hn : n = 1 ∨ n = 2) (hn' : n' = 1 ∨ n' = 2)
    (h : restoringLine (x, n) = restoringLine (y, n')) : (x, n) = (y, n') := by
  rcases hn with rfl | rfl <;> rcases hn' with rfl | rfl <;>
    simp_all [restoringLine, restoreClause, restoreValueClause, Clause.fact, Term.apply,
      Term.applyWord, holdsIn]

/-- The terms with a situation are the generated names that clauses are written for. -/
theorem mem_situatedTerms_iff {i : String × Nat} : i ∈ situatedTerms m h ↔
    ∃ n, (m.role? h).bind definedArity? = some n ∧ ∃ x ∈ generatedNames m h, i = (x, n) := by
  unfold situatedTerms generatedNames
  cases m.role? h with
  | none => simp
  | some role => cases role <;> simp [definedArity?, eq_comm]

section Valid
variable (hv : m.Valid)
include hv

theorem mem_situatedElements_iff :
    h ∈ situatedElements m ↔ ((m.role? h).bind definedArity?).isSome := by
  simp only [situatedElements, List.mem_append, hv.mem_predicates_iff, hv.mem_tasks_iff,
    hv.mem_goals_iff, hv.mem_conditions_iff, hv.mem_qualities_iff]
  cases m.role? h with
  | none => simp
  | some role => cases role <;> simp [definedArity?]

theorem nodup_situatedElements : (situatedElements m).Nodup := by
  refine List.nodup_append.mpr ⟨List.nodup_append.mpr ⟨List.nodup_append.mpr
    ⟨hv.nodup_predicates, hv.nodup_nodes, ?_⟩, hv.nodup_conditions, ?_⟩, hv.nodup_qualities, ?_⟩
  all_goals
    rintro h hh _ hh' rfl
    simp only [List.mem_append, hv.mem_predicates_iff, hv.mem_tasks_iff, hv.mem_goals_iff,
      hv.mem_conditions_iff, hv.mem_qualities_iff] at hh hh'
    simp_all

/-- No term with a situation comes from two elements. -/
theorem nodup_situatedTerms : ((situatedElements m).flatMap (situatedTerms m)).Nodup := by
  have hlt (h : Handle) (hh : h ∈ situatedElements m) : h.index < m.elements.length := by
    obtain ⟨n, hn⟩ := Option.isSome_iff_exists.mp ((mem_situatedElements_iff hv).mp hh)
    obtain ⟨role, hrole, _⟩ := Option.bind_eq_some_iff.mp hn
    exact m.index_lt_of_role? hrole
  refine List.nodup_flatMap.mpr ⟨fun h _ => ?_, ?_⟩
  · have hderived : (Derived.all.map fun d => (ended (m.nameOf h) d.ending, 1)).Nodup := by
      refine List.Nodup.map (fun d d' hsame => ?_) (by decide)
      exact Derived.ending_inj (ended_inj (Prod.mk.inj hsame).1).2
    unfold situatedTerms
    split
    · exact List.nodup_singleton _
    · exact hderived
    · exact hderived
    · exact List.nodup_singleton _
    · exact List.nodup_singleton _
    · exact List.nodup_nil
  · refine (nodup_situatedElements hv).pairwise_of_forall_ne fun g hg h hh hne i hig hih => hne ?_
    obtain ⟨_, _, x, hxg, rfl⟩ := mem_situatedTerms_iff.mp hig
    obtain ⟨_, _, x', hxh, hsame⟩ := mem_situatedTerms_iff.mp hih
    obtain ⟨rfl, -⟩ := Prod.mk.inj hsame
    exact eq_of_mem_generatedNames hv.named (hlt g hg) (hlt h hh) hxg hxh

theorem situationArgumentClauses_eq : situationArgumentClauses m =
    ((situatedElements m).flatMap (situatedTerms m)).map restoringLine := by
  have hpredicate (p : Handle) (hp : p ∈ m.predicates) :
      (situatedTerms m p).map restoringLine = [restoreClause (ended (m.nameOf p) .fluent)] := by
    rw [situatedTerms, hv.mem_predicates_iff.mp hp]
    rfl
  have hnode (h : Handle) (hh : h ∈ m.tasks ++ m.goals) :
      (situatedTerms m h).map restoringLine =
        Derived.all.map fun d => restoreClause (ended (m.nameOf h) d.ending) := by
    rcases hv.mem_nodes_iff.mp hh with hrole | hrole <;> rw [situatedTerms, hrole] <;> rfl
  have hcondition (c : Handle) (hc : c ∈ m.conditions) :
      (situatedTerms m c).map restoringLine = [restoreClause (m.nameOf c)] := by
    rw [situatedTerms, hv.mem_conditions_iff.mp hc]
    rfl
  have hquality (q : Handle) (hq : q ∈ m.qualities) :
      (situatedTerms m q).map restoringLine = [restoreValueClause (m.nameOf q)] := by
    rw [situatedTerms, hv.mem_qualities_iff.mp hq]
    rfl
  rw [situatedElements, List.map_flatMap, List.flatMap_append, List.flatMap_append,
    List.flatMap_append, List.flatMap_congr hpredicate, List.flatMap_congr hnode,
    List.flatMap_congr hcondition, List.flatMap_congr hquality, ← List.map_eq_flatMap,
    ← List.map_eq_flatMap, ← List.map_eq_flatMap]
  rfl

theorem nodup_situationArgumentClauses : (situationArgumentClauses m).Nodup := by
  have harity {i : String × Nat} (hi : i ∈ (situatedElements m).flatMap (situatedTerms m)) :
      i.2 = 1 ∨ i.2 = 2 := by
    obtain ⟨h, _, hi⟩ := List.mem_flatMap.mp hi
    obtain ⟨n, hn, _, _, rfl⟩ := mem_situatedTerms_iff.mp hi
    obtain ⟨role, _, hn⟩ := Option.bind_eq_some_iff.mp hn
    cases role <;> simp_all [definedArity?]
  rw [situationArgumentClauses_eq hv]
  refine List.Nodup.map_on (fun i hi j hj hline => ?_) (nodup_situatedTerms hv)
  exact restoringLine_inj (harity hi) (harity hj) hline

end Valid

/-! ## Closed sections -/

/-- What the guards, the derived clauses and the successor clauses of a program refer to is
defined, each thing in one place, and so are the terms whose situation can be restored. -/
structure ClosedSections (m : Model) (root : Handle) (t : Translation) : Prop where
  /-- A guard asks what has been attempted, or which effects are possible. -/
  preconditions : ∀ clause ∈ t.clauses .preconditions, ∀ goal ∈ clause.goals,
    (∃ x, goal = holdsIn (ended x .attempted) .current ∧
      StandsOnce goal (heads (t.clauses .satisfaction))) ∨
    ∃ e guard, goal = possible (m.nameOf e) ∧ effectPrecondition? m e = some guard ∧
      guard ∈ t.clauses .preconditions ∧ StandsOnce goal (heads (t.clauses .preconditions))
  satisfaction : ∀ clause ∈ t.clauses .satisfaction, ∀ goal ∈ clause.goals,
    goal = .word "fail" ∨
    (∃ x, ∃ d : Derived, goal = holdsIn (ended x d.ending) .current ∧
      StandsOnce goal (heads (t.clauses .satisfaction))) ∨
    ∃ fluent s, goal = holdsIn fluent s ∧ FluentDefined m t fluent
  successorState : ∀ clause ∈ t.clauses .successorState, ∀ goal ∈ clause.goals,
    (∃ fluent, (goal = holdsIn fluent .current ∨ goal = .applyWord "initiallyTrue" fluent) ∧
      FluentDefined m t fluent) ∨
    ∃ e, m.role? e = some .effect ∧
      goal = .binary (.tight "=") (.word "A") (nameTerm m e)
  situationArguments : t.clauses .situationArguments =
    ((situatedElements m).flatMap (situatedTerms m)).map restoringLine
  nodup_situationArguments : (t.clauses .situationArguments).Nodup
  /-- A line restores the situation of every term that clauses are written for. -/
  restored : ∀ i, i ∈ (situatedElements m).flatMap (situatedTerms m) ↔
    ∃ h, Defines m root (.element h) i

section Valid
variable (hv : m.Valid)
include hv

theorem closed_preconditions {clause : Clause} (hclause : clause ∈ preconditionClauses m)
    {goal : Term} (hgoal : goal ∈ clause.goals) (root : Handle) :
    (∃ x, goal = holdsIn (ended x .attempted) .current ∧
      StandsOnce goal (heads (satisfactionClauses m root))) ∨
    ∃ e guard, goal = possible (m.nameOf e) ∧ effectPrecondition? m e = some guard ∧
      guard ∈ preconditionClauses m ∧ StandsOnce goal (heads (preconditionClauses m)) := by
  rcases List.mem_append.mp hclause with hclause | hclause
  · obtain ⟨e, _, hclause⟩ := List.mem_filterMap.mp hclause
    obtain ⟨h, hh, rfl⟩ := mem_goals_effectPrecondition hv hclause hgoal
    exact .inl ⟨_, rfl, standsOnce_derived hv hh .attempted root⟩
  · obtain ⟨t, _, rfl⟩ := List.mem_map.mp hclause
    obtain ⟨e, he, rfl⟩ := mem_goals_taskPrecondition hv hgoal
    obtain ⟨effect, heffect⟩ := Model.exists_effect? he
    have hguard : effectPrecondition? m e = some _ := congrArg (Option.map _) heffect
    refine .inr ⟨e, _, rfl, hguard, List.mem_append_left _ ?_, standsOnce_possible hv he⟩
    exact List.mem_filterMap.mpr ⟨e, hv.mem_effects_iff.mpr he, hguard⟩

theorem closed_satisfaction (hroot : m.role? root = some .goal) {clause : Clause}
    (hclause : clause ∈ satisfactionClauses m root) {goal : Term} (hgoal : goal ∈ clause.goals) :
    goal = .word "fail" ∨
    (∃ x, ∃ d : Derived, goal = holdsIn (ended x d.ending) .current ∧
      StandsOnce goal (heads (satisfactionClauses m root))) ∨
    ∃ fluent s, goal = holdsIn fluent s ∧ FluentDefined m (translateFrom m root) fluent := by
  rcases List.mem_append.mp hclause with hclause | hclause
  · obtain ⟨h, _, hclause⟩ := List.mem_flatMap.mp hclause
    obtain ⟨d, _, rfl⟩ := List.mem_map.mp hclause
    rcases mem_goals_derivedBody hv hgoal with hfail | ⟨c, hc, rfl⟩ | ⟨p, hp, rfl⟩
    · exact .inl hfail
    · exact .inr (.inl ⟨_, d, rfl, standsOnce_derived hv hc d root⟩)
    · exact .inr (.inr ⟨_, _, rfl, fluentDefined hv hp root⟩)
  · rw [List.mem_singleton.mp hclause] at hgoal
    obtain rfl := List.mem_singleton.mp hgoal
    exact .inr (.inl ⟨_, .satisfied, rfl, standsOnce_derived hv (.inl hroot) .satisfied root⟩)

theorem closed_successorState {clause : Clause}
    (hclause : clause ∈ m.predicates.flatMap (successorClauses m)) {goal : Term}
    (hgoal : goal ∈ clause.goals) (root : Handle) :
    (∃ fluent, (goal = holdsIn fluent .current ∨ goal = .applyWord "initiallyTrue" fluent) ∧
      FluentDefined m (translateFrom m root) fluent) ∨
    ∃ e, m.role? e = some .effect ∧
      goal = .binary (.tight "=") (.word "A") (nameTerm m e) := by
  obtain ⟨p, hp, hclause⟩ := List.mem_flatMap.mp hclause
  have hp := hv.mem_predicates_iff.mp hp
  have hfluent : FluentDefined m (translateFrom m root) (stateName m p) := by
    rw [stateName_of_role hp]
    exact fluentDefined hv hp root
  rw [successorClauses_eq, List.mem_cons, List.mem_singleton] at hclause
  rcases hclause with rfl | rfl
  · exact .inl ⟨_, .inr (List.mem_singleton.mp hgoal), hfluent⟩
  · have hcomparison (e : Handle) :
        (Term.binary (.tight "=") (.word "A") (nameTerm m e)).priority < 1000 := by
      change 700 < 1000
      omega
    have hpriority : ∀ t ∈ holdsIn (stateName m p) .current ::
        (causes m p).map fun e => .binary (.tight "=") (.word "A") (nameTerm m e),
        t.priority < Operator.disjunction.priority := by
      refine List.forall_mem_cons.mpr ⟨Nat.zero_lt_succ _, List.forall_mem_map.mpr fun e _ => ?_⟩
      refine (hcomparison e).trans ?_
      change 1000 < 1100
      omega
    obtain ⟨_, halternative, hgoal⟩ :=
      (Term.mem_goals_chain (.inr rfl) (List.cons_ne_nil _ _) hpriority).mp hgoal
    rcases List.mem_cons.mp halternative with rfl | halternative
    · exact .inl ⟨_, .inl (List.mem_singleton.mp hgoal), hfluent⟩
    · obtain ⟨e, he, rfl⟩ := List.mem_map.mp halternative
      rw [Term.goals_binary (hcomparison e), List.mem_singleton] at hgoal
      exact .inr ⟨e, hv.mem_effects_iff.mp (List.mem_filter.mp he).1, hgoal⟩

theorem restored_iff {i : String × Nat} : i ∈ (situatedElements m).flatMap (situatedTerms m) ↔
    ∃ h, Defines m root (.element h) i := by
  simp only [List.mem_flatMap, defines_element_iff hv, mem_situatedTerms_iff]
  refine exists_congr fun h => and_iff_right_of_imp ?_
  rintro ⟨n, hn, _⟩
  rw [mem_situatedElements_iff hv, hn]
  rfl

theorem closedSections (hroot : m.rootGoals = [root]) :
    ClosedSections m root (translateFrom m root) := by
  have hrole : m.role? root = some .goal := by
    have hmem : root ∈ m.rootGoals := hroot ▸ List.mem_singleton_self root
    exact hv.mem_goals_iff.mp (List.mem_filter.mp hmem).1
  constructor
  · rw [clauses_translateFrom rfl, clauses_translateFrom rfl]
    intro clause hclause goal hgoal
    exact closed_preconditions hv hclause hgoal root
  · rw [clauses_translateFrom rfl]
    intro clause hclause goal hgoal
    exact closed_satisfaction hv hrole hclause hgoal
  · rw [clauses_translateFrom rfl]
    intro clause hclause goal hgoal
    exact closed_successorState hv hclause hgoal root
  · rw [clauses_translateFrom rfl]
    exact situationArgumentClauses_eq hv
  · rw [clauses_translateFrom rfl]
    exact nodup_situationArgumentClauses hv
  · intro i
    exact restored_iff hv

end Valid

/-- In every program the goals of guards, derived clauses and successor clauses are defined, each
derived term by one clause and each fluent by the two clauses of one predicate, and the situation
is restored, by one line each, of the terms that clauses are written for. -/
theorem exists_closedSections {text : String} {withSchema : Bool} {m : Model}
    (h : parseModel text withSchema = .ok m) :
    ∃ t root, assemble m = .ok t ∧
      t.program = (SectionKind.all.map fun kind =>
        ⟨kind, (ownedClauses m root kind).map Prod.snd⟩) ∧
      ClosedSections m root t := by
  have hv := valid_of_parseModel h
  obtain ⟨root, hroot⟩ := hv.exists_rootGoals
  exact ⟨translateFrom m root, root, assemble_eq_ok hroot, program_translateFrom m root,
    closedSections hv hroot⟩

/-- Before the door is pushed, the program asks whether it is being pulled. -/
theorem door_closedSections : ∃ t, assemble Document.door.linked = .ok t ∧
    (∃ guard ∈ t.clauses .preconditions, holdsIn "Pull_Att" .current ∈ guard.goals) ∧
    StandsOnce (holdsIn "Pull_Att" .current) (heads (t.clauses .satisfaction)) := by
  obtain ⟨t, root, ht, _, hclosed⟩ := exists_closedSections parseModel_doorText
  have hroot : Document.door.linked.rootGoals = [⟨3⟩] := by decide
  obtain rfl : translateFrom _ ⟨3⟩ = t := Except.ok.inj ((assemble_eq_ok hroot).symm.trans ht)
  have hguard : ∃ guard ∈ (translateFrom Document.door.linked ⟨3⟩).clauses .preconditions,
      holdsIn "Pull_Att" .current ∈ guard.goals := by
    rw [clauses_translateFrom rfl]
    exact ⟨_, .head _, .tail _ (.head _)⟩
  obtain ⟨guard, hmem, hgoal⟩ := hguard
  rcases hclosed.preconditions guard hmem _ hgoal with ⟨_, _, hstands⟩ | ⟨e, _, hpossible, _⟩
  · exact ⟨_, ht, ⟨guard, hmem, hgoal⟩, hstands⟩
  · have hname := (Term.compound.inj hpossible).1
    exact absurd hname (by decide)

end Golog

end GoalModel
