import GoalModel.Proofs.Golog.Names
import GoalModel.Proofs.Golog.Reading
import GoalModel.Proofs.Golog.Sections

/-! # Reading satisfaction and attempt

In a valid model every derived name belongs to one goal or task, so that its clause is the only
one to prove it (`derives_derived_iff`). Read through the clauses, a task is satisfied or
attempted if all that some effect of it turns true holds (`derives_task_iff`), and a goal that
combines its children by disjunction if one child is (`derives_goal_iff`). -/

namespace GoalModel.Golog

open Identifier (Ending)

/-! ## Derived names -/

theorem ended_ne_goalAchieved {name : String} {e : Ending} : ended name e ≠ "goalAchieved" := by
  intro h
  have h : (ended name e).toList.reverse = "goalAchieved".toList.reverse := by rw [h]
  simp only [ended, String.toList_append, List.reverse_append] at h
  cases e <;> simp [Ending.text] at h

theorem Situation.text_inj {s s' : Situation} (h : s.text = s'.text) : s = s' := by
  revert h
  cases s <;> cases s' <;> decide

theorem Derived.ending_inj {d d' : Derived} (h : d.ending = d'.ending) : d = d' := by
  revert h
  cases d <;> cases d' <;> decide

theorem Derived.ending_ne_fluent (d : Derived) : d.ending ≠ .fluent := by
  cases d <;> decide

theorem Derived.mem_all (d : Derived) : d ∈ Derived.all := by
  cases d <;> decide

/-! ## Clauses -/

section
variable {m : Model} {root h t p : Handle} {d : Derived} {world : World}

theorem mem_satisfactionClauses {functor : String} {gap : Gap} {arguments : List Term}
    {body : Term} :
    .rule (.compound functor gap arguments) body ∈ satisfactionClauses m root ↔
      gap = .tight ∧ arguments = [.word "S"] ∧
        ((∃ h ∈ m.tasks ++ m.goals, ∃ d : Derived,
          functor = ended (m.nameOf h) d.ending ∧ body = derivedBody m d h) ∨
        functor = "goalAchieved" ∧
          body = holdsIn (ended (m.nameOf root) .satisfied) .current) := by
  simp only [satisfactionClauses, List.mem_append, List.mem_flatMap, List.mem_map,
    List.mem_singleton, derivedClause, Clause.rule, Clause.mk.injEq, holdsIn, Term.applyWord,
    Term.apply, Term.compound.injEq, Option.some.injEq, Situation.text]
  constructor
  · rintro (⟨h, hh, d, _, ⟨rfl, rfl, rfl⟩, rfl⟩ | ⟨⟨rfl, rfl, rfl⟩, rfl⟩)
    · exact ⟨rfl, rfl, .inl ⟨h, hh, d, rfl, rfl⟩⟩
    · exact ⟨rfl, rfl, .inr ⟨rfl, rfl⟩⟩
  · rintro ⟨rfl, rfl, ⟨h, hh, d, rfl, rfl⟩ | ⟨rfl, rfl⟩⟩
    · exact .inl ⟨h, hh, d, d.mem_all, ⟨rfl, rfl, rfl⟩, rfl⟩
    · exact .inr ⟨⟨rfl, rfl, rfl⟩, rfl⟩

/-- The only clause for what is derived of a goal or task is its own. -/
theorem rule_derived_mem_iff (hl : m.Listed) (hn : m.Named)
    (hh : m.role? h = some .goal ∨ m.role? h = some .task) {body : Term} :
    .rule (holdsIn (ended (m.nameOf h) d.ending) .current) body ∈ satisfactionClauses m root ↔
      body = derivedBody m d h := by
  refine mem_satisfactionClauses.trans ⟨?_, ?_⟩
  · rintro ⟨-, -, ⟨h', hh', d', hname, rfl⟩ | ⟨hname, -⟩⟩
    · obtain ⟨hsame, hending⟩ := ended_inj hname
      obtain rfl := Derived.ending_inj hending
      obtain rfl := hn.nameOf_inj (m.index_lt_of_node hh)
        (m.index_lt_of_node (hl.mem_nodes_iff.mp hh')) hsame
      rfl
    · exact absurd hname ended_ne_goalAchieved
  · rintro rfl
    exact ⟨rfl, rfl, .inl ⟨h, hl.mem_nodes_iff.mpr hh, d, rfl, rfl⟩⟩

section Valid
variable (hv : m.Valid)
include hv

theorem derives_fluent_iff {situation : Situation} (hp : m.role? p = some .predicate) :
    Derives m (satisfactionClauses m root) world
        (holdsIn (ended (m.nameOf p) .fluent) situation) ↔ world situation p := by
  refine derives_compound.trans ⟨?_, fun hworld => ?_⟩
  · rintro (⟨p', hp', situation', hworld, hname, _, hsituation⟩ | ⟨body, hmem, _⟩)
    · obtain rfl := hv.nameOf_inj (m.index_lt_of_role? hp)
        (m.index_lt_of_role? (hv.mem_predicates_iff.mp hp')) (ended_inj hname).1
      simp only [List.cons.injEq, Term.word.injEq, and_true] at hsituation
      exact Situation.text_inj hsituation ▸ hworld
    · rcases mem_satisfactionClauses.mp hmem with ⟨_, _, ⟨_, _, d, hname, _⟩ | ⟨hname, _⟩⟩
      · exact absurd (ended_inj hname).2.symm d.ending_ne_fluent
      · exact absurd hname ended_ne_goalAchieved
  · exact .inl ⟨p, hv.mem_predicates_iff.mpr hp, situation, hworld, rfl, rfl, rfl⟩

theorem derives_derived_iff (hh : m.role? h = some .goal ∨ m.role? h = some .task) :
    Derives m (satisfactionClauses m root) world
        (holdsIn (ended (m.nameOf h) d.ending) .current) ↔
      Derives m (satisfactionClauses m root) world (derivedBody m d h) := by
  have hrule {body : Term} : .rule (holdsIn (ended (m.nameOf h) d.ending) .current) body ∈
      satisfactionClauses m root ↔ body = derivedBody m d h :=
    rule_derived_mem_iff hv.toListed hv.named hh
  refine derives_compound.trans ⟨?_, fun hbody => .inr ⟨_, hrule.mpr rfl, hbody⟩⟩
  rintro (⟨p, _, _, _, hname, _⟩ | ⟨body, hmem, hbody⟩)
  · exact absurd (ended_inj hname).2 d.ending_ne_fluent
  · exact hrule.mp hmem ▸ hbody

theorem derives_effectTrace_iff {e : Handle} {effect : Effect} {situation : Situation}
    (he : m.effect? e = some effect) :
    Derives m (satisfactionClauses m root) world (effectTrace m situation effect) ↔
      ∀ p ∈ effect.turnsTrue, world situation p := by
  rw [effectTrace, derives_groupedConjunction]
  · rw [List.forall_mem_map]
    exact forall₂_congr fun p hp =>
      derives_fluent_iff hv (hv.turnsTrue e p (Model.turnsTrue_eq he ▸ hp))
  · exact List.forall_mem_map.mpr fun _ _ => Nat.zero_lt_succ _

/-- A task is derived if everything that one of its effects turns true holds. -/
theorem derives_task_iff {task : Task} (ht : m.task? t = some task) :
    Derives m (satisfactionClauses m root) world
        (holdsIn (ended (m.nameOf t) d.ending) .current) ↔
      ∃ e ∈ m.effectsOf t, ∃ effect, m.effect? e = some effect ∧ d.counts effect ∧
        ∀ p ∈ effect.turnsTrue, world d.situation p := by
  have hbody : derivedBody m d t = .chain .disjunction (.word "fail")
      (((task.effects.filterMap m.effect?).filter d.counts).map (effectTrace m d.situation)) := by
    rw [derivedBody, Model.kind_of_task? ht]
  rw [derives_derived_iff hv (.inr (Model.role?_of_task? ht)), hbody, derives_chain_disjunction,
    Model.effectsOf_eq ht]
  · simp only [List.mem_map, List.mem_filter, List.mem_filterMap]
    constructor
    · rintro ⟨_, ⟨effect, ⟨⟨e, he, hf⟩, hcounts⟩, rfl⟩, htrace⟩
      exact ⟨e, he, effect, hf, hcounts, (derives_effectTrace_iff hv hf).mp htrace⟩
    · rintro ⟨e, he, effect, hf, hcounts, hholds⟩
      exact ⟨_, ⟨effect, ⟨⟨e, he, hf⟩, hcounts⟩, rfl⟩,
        (derives_effectTrace_iff hv hf).mpr hholds⟩
  · refine List.forall_mem_map.mpr fun effect _ => ?_
    rw [effectTrace, Term.priority_groupedConjunction (List.forall_mem_map.mpr fun _ _ => rfl)]
    exact Nat.zero_lt_succ _

/-- A goal that is derived as soon as one of its children is. -/
theorem derives_goal_iff {g : Handle} (hg : m.role? g = some .goal)
    (hop : d.operator (m.refinement g) = .disjunction) :
    Derives m (satisfactionClauses m root) world
        (holdsIn (ended (m.nameOf g) d.ending) .current) ↔
      ∃ c ∈ m.children g, Derives m (satisfactionClauses m root) world
        (holdsIn (ended (m.nameOf c) d.ending) .current) := by
  obtain ⟨node, hkind, hnode⟩ := Model.kind_of_goal hg
  have hbody : derivedBody m d g = .chain .disjunction (.word "fail")
      (node.children.map fun c => holdsIn (ended (m.nameOf c) d.ending) .current) := by
    rw [Model.refinement_eq hnode] at hop
    rw [derivedBody, hkind]
    simp only [hop]
  rw [derives_derived_iff hv (.inl hg), hbody, derives_chain_disjunction, Model.children_eq hnode]
  · simp only [List.mem_map, exists_exists_and_eq_and]
  · exact List.forall_mem_map.mpr fun _ _ => Nat.zero_lt_succ _

/-- A goal that is derived only if all of its children are. -/
theorem derives_goal_all_iff {g : Handle} (hg : m.role? g = some .goal) (hne : m.children g ≠ [])
    (hop : d.operator (m.refinement g) = .conjunction) :
    Derives m (satisfactionClauses m root) world
        (holdsIn (ended (m.nameOf g) d.ending) .current) ↔
      ∀ c ∈ m.children g, Derives m (satisfactionClauses m root) world
        (holdsIn (ended (m.nameOf c) d.ending) .current) := by
  obtain ⟨node, hkind, hnode⟩ := Model.kind_of_goal hg
  have hbody : derivedBody m d g = .chain .conjunction (.word "fail")
      (node.children.map fun c => holdsIn (ended (m.nameOf c) d.ending) .current) := by
    rw [Model.refinement_eq hnode] at hop
    rw [derivedBody, hkind]
    simp only [hop]
  rw [Model.children_eq hnode] at hne ⊢
  rw [derives_derived_iff hv (.inl hg), hbody, Term.forall_chain
    (P := Derives m (satisfactionClauses m root) world) (fun _ _ => derives_conjunction)
    (List.map_eq_nil_iff.not.mpr hne) rfl, List.forall_mem_map]
  exact List.forall_mem_map.mpr fun _ _ => Nat.zero_lt_succ _

end Valid

end

end GoalModel.Golog
