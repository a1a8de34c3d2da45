import GoalModel.Proofs.Golog.Closure
import GoalModel.Proofs.Golog.Runs

/-! # Traces of procedures

A trace of a goal or task is what its procedure does: a sequence does all its parts, a choice does
one of them, a goal does what its own procedure does, and a task has one of its outcomes (`Trace`).
What a trace has done is never undone, so that a procedure which runs through without idle goals and
with satisfying effects leaves what it was called for satisfied (`Trace.achieved`,
`satisfied_of_trace`). -/

namespace GoalModel.Golog

section
variable (m : Model) (t : Translation)

/-- The program says what a word does. -/
def Callable (name : String) : Prop :=
  (∃ body, .fact (.call "proc" [.word name, body]) ∈ t.clauses .procedures) ∨
    ∃ situation outcomes, .fact (.apply "nondetActions" [.word name, situation, outcomes]) ∈
      t.clauses .nondetActions

/-- The complete traces of a procedure, read through the clauses of the program: the goals that are
expanded, and the effects that occur. -/
inductive Trace : Term → List Handle → List Handle → Prop
  | goal {g : Handle} {body : Term} {goals run : List Handle} : g ∈ m.goals →
    .fact (.call "proc" [nameTerm m g, body]) ∈ t.clauses .procedures → Trace body goals run →
    Trace (nameTerm m g) (g :: goals) run
  | task {a e : Handle} {situation : Term} {outcomes : List Term} : a ∈ m.tasks → e ∈ m.effects →
    .fact (.apply "nondetActions" [nameTerm m a, situation, .list outcomes]) ∈
      t.clauses .nondetActions → nameTerm m e ∈ outcomes → Trace (nameTerm m a) [] [e]
  /-- Nothing is done, unless something else goes by this name. -/
  | idle : ¬Callable t "nil" → Trace (.word "nil") [] []
  | sequence {op : Operator} {left right : Term} {goals goals' run run' : List Handle} :
    op.symbol = ":" → Term.Joins op left right → Trace left goals run → Trace right goals' run' →
    Trace (.binary op left right) (goals ++ goals') (run ++ run')
  | first {op : Operator} {left right : Term} {goals run : List Handle} :
    op.symbol = "#" → Term.Joins op left right → Trace left goals run →
    Trace (.binary op left right) goals run
  | second {op : Operator} {left right : Term} {goals run : List Handle} :
    op.symbol = "#" → Term.Joins op left right → Trace right goals run →
    Trace (.binary op left right) goals run
  | group {inner : Term} {goals run : List Handle} : Trace inner goals run →
    Trace (.group inner) goals run

end

/-! ## What a trace achieves -/

/-- What a procedure was called for is satisfied after a run: the goal or task that a word stands
for, all parts of a sequence, some part of a choice. -/
def Achieved (m : Model) (t : Translation) (init : Handle → Prop) (run : List Handle) :
    Term → Prop
  | .word name => ∀ h, (m.role? h = some .goal ∨ m.role? h = some .task) → m.nameOf h = name →
    ProvedAfter m t init run (holdsIn (ended name .satisfied) .current)
  | .binary op left right =>
    if op.symbol = ":" then Achieved m t init run left ∧ Achieved m t init run right
    else Achieved m t init run left ∨ Achieved m t init run right
  | .group inner => Achieved m t init run inner
  | _ => False

variable {m : Model} {t : Translation} {root g a e : Handle} {init : Handle → Prop}
  {run goals : List Handle} {terms : List Term}

theorem achieved_sequence (hne : terms ≠ []) (hterms : ∀ term ∈ terms, term.priority = 0) :
    Achieved m t init run (.chain (.spaced ":") (.word "nil") terms) ↔
      ∀ term ∈ terms, Achieved m t init run term := by
  refine Term.forall_chain (fun left right _ => ?_) hne rfl fun term hterm => ?_
  · have hsymbol : (Operator.spaced ":").symbol = ":" := rfl
    rw [Achieved, if_pos hsymbol]
  · exact hterms term hterm ▸ Nat.zero_lt_succ _

theorem achieved_choice (hne : terms ≠ []) (hterms : ∀ term ∈ terms, term.priority = 0) :
    Achieved m t init run (.chain (.spaced "#") (.word "nil") terms) ↔
      ∃ term ∈ terms, Achieved m t init run term := by
  have hnone : ¬Achieved m t init run (.chain (.spaced "#") (.word "nil") terms) ↔
      ∀ term ∈ terms, ¬Achieved m t init run term := by
    refine Term.forall_chain (P := fun term => ¬Achieved m t init run term)
      (fun left right _ => ?_) hne rfl fun term hterm => ?_
    · rw [Achieved, if_neg (by decide), not_or]
    · exact hterms term hterm ▸ Nat.zero_lt_succ _
  rw [← not_iff_not, hnone]
  push Not
  rfl

/-! ## Procedures -/

/-- The body of the procedure of a goal. -/
def procedureBody (m : Model) (goal : Handle) : Term :=
  match (m.children goal).map (nameTerm m) with
  | [] => .word "nil"
  | [child] => child
  | children =>
    .group (.chain (.spaced (if m.refinement goal = .or then "#" else ":")) (.word "nil") children)

theorem procedureClause_eq (m : Model) (goal : Handle) :
    procedureClause m goal = .fact (.call "proc" [nameTerm m goal, procedureBody m goal]) := rfl

/-- A procedure achieves what it should if its children do, all of them or one. -/
theorem achieved_procedureBody (hne : m.children g ≠ []) :
    Achieved m t init run (procedureBody m g) ↔
      if m.refinement g = .or then ∃ c ∈ m.children g, Achieved m t init run (nameTerm m c)
      else ∀ c ∈ m.children g, Achieved m t init run (nameTerm m c) := by
  have hterms : ∀ term ∈ (m.children g).map (nameTerm m), term.priority = 0 :=
    List.forall_mem_map.mpr fun _ _ => rfl
  unfold procedureBody
  match hchildren : m.children g with
  | [] => exact absurd hchildren hne
  | [c] => simp
  | c :: c' :: rest =>
    rw [hchildren] at hterms
    simp only [List.map_cons, Achieved] at hterms ⊢
    split
    · rw [achieved_choice (List.cons_ne_nil _ _) hterms]
      simp only [← List.map_cons, List.mem_map, exists_exists_and_eq_and]
    · rw [achieved_sequence (List.cons_ne_nil _ _) hterms]
      simp only [← List.map_cons, List.forall_mem_map]

/-- What a node's name achieves is its satisfaction. -/
theorem achieved_nameTerm_iff {h : Handle} (hh : m.role? h = some .goal ∨ m.role? h = some .task) :
    Achieved m t init run (nameTerm m h) ↔
      ProvedAfter m t init run (holdsIn (ended (m.nameOf h) .satisfied) .current) := by
  constructor
  · exact fun hachieved => hachieved h hh rfl
  · intro hproved _ _ _
    exact hproved

section Valid
variable (hv : m.Valid)
include hv

theorem eq_procedureBody (hg : g ∈ m.goals) {body : Term}
    (h : .fact (.call "proc" [nameTerm m g, body]) ∈ (translateFrom m root).clauses .procedures) :
    body = procedureBody m g := by
  rw [clauses_translateFrom rfl] at h
  obtain ⟨g', hg', heq⟩ := List.mem_map.mp h
  rw [procedureClause_eq] at heq
  simp only [Clause.fact, Clause.mk.injEq, Term.call, Term.compound.injEq, List.cons.injEq,
    nameTerm, Term.word.injEq, true_and, and_true] at heq
  obtain ⟨hname, rfl⟩ := heq
  rw [hv.nameOf_inj (m.index_lt_of_role? (hv.mem_goals_iff.mp hg'))
    (m.index_lt_of_role? (hv.mem_goals_iff.mp hg)) hname]

theorem mem_effectsOf_of_nondet (ha : a ∈ m.tasks) (he : e ∈ m.effects) {situation : Term}
    {outcomes : List Term}
    (h : .fact (.apply "nondetActions" [nameTerm m a, situation, .list outcomes]) ∈
      (translateFrom m root).clauses .nondetActions) (hmem : nameTerm m e ∈ outcomes) :
    e ∈ m.effectsOf a := by
  rw [clauses_translateFrom rfl] at h
  obtain ⟨a', ha', heq⟩ := List.mem_map.mp h
  simp only [nondetClause, Clause.fact, Clause.mk.injEq, Term.apply, Term.compound.injEq,
    List.cons.injEq, nameTerm, Term.word.injEq, Term.list.injEq, true_and, and_true] at heq
  obtain ⟨hname, rfl, rfl⟩ := heq
  obtain rfl := hv.nameOf_inj (m.index_lt_of_role? (hv.mem_tasks_iff.mp ha'))
    (m.index_lt_of_role? (hv.mem_tasks_iff.mp ha)) hname
  obtain ⟨e', he', heq⟩ := List.mem_map.mp hmem
  exact hv.nameOf_inj (m.index_lt_of_role? (hv.role?_of_mem_effectsOf he'))
    (m.index_lt_of_role? (hv.mem_effects_iff.mp he)) (Term.word.inj heq) ▸ he'

theorem satisfied_of_procedure (hg : g ∈ m.goals) (hne : m.children g ≠ [])
    (h : Achieved m (translateFrom m root) init run (procedureBody m g)) :
    ProvedAfter m (translateFrom m root) init run
      (holdsIn (ended (m.nameOf g) .satisfied) .current) := by
  have hg := hv.mem_goals_iff.mp hg
  have hchild (c : Handle) (hc : c ∈ m.children g) :
      Achieved m (translateFrom m root) init run (nameTerm m c) ↔
        ProvedAfter m (translateFrom m root) init run
          (holdsIn (ended (m.nameOf c) .satisfied) .current) :=
    achieved_nameTerm_iff (hv.role?_of_mem_children hc)
  rw [achieved_procedureBody hne] at h
  rw [provedAfter_eq] at hchild ⊢
  split at h
  · next hor =>
    obtain ⟨c, hc, h⟩ := h
    exact (derives_goal_iff (d := .satisfied) hv hg (by rw [hor]; rfl)).mpr
      ⟨c, hc, (hchild c hc).mp h⟩
  · next hor =>
    have hop : Derived.satisfied.operator (m.refinement g) = .conjunction := by
      cases hkind : m.refinement g <;> simp_all [Derived.operator]
    exact (derives_goal_all_iff hv hg hne hop).mpr fun c hc => (hchild c hc).mp (h c hc)

theorem satisfied_of_effect (he : e ∈ m.effectsOf a) (hrun : e ∈ run) {effect : Effect}
    (hf : m.effect? e = some effect) (hsatisfying : effect.satisfying = true)
    (hne : effect.turnsTrue ≠ []) :
    ProvedAfter m (translateFrom m root) init run
      (holdsIn (ended (m.nameOf a) .satisfied) .current) := by
  obtain ⟨task, ha, _⟩ := Model.task?_of_mem_effectsOf he
  rw [provedAfter_eq]
  refine (derives_task_iff (d := .satisfied) hv ha).mpr ⟨e, he, effect, hf, ?_, fun p hp => ?_⟩
  · simp [Derived.counts, hsatisfying, hne]
  · exact .inr ⟨e, hrun, Model.turnsTrue_eq hf ▸ hp⟩

/-- A task and a goal have clauses that say what they do. -/
theorem callable_of_node {h : Handle} (hh : m.role? h = some .goal ∨ m.role? h = some .task) :
    Callable (translateFrom m root) (m.nameOf h) := by
  unfold Callable
  rw [clauses_translateFrom rfl, clauses_translateFrom rfl]
  rcases hh with hh | hh
  · exact .inl ⟨_, List.mem_map_of_mem (hv.mem_goals_iff.mpr hh)⟩
  · exact .inr ⟨_, _, List.mem_map_of_mem (hv.mem_tasks_iff.mpr hh)⟩

/-- What a trace has achieved is not undone by what happens before, between and after its
effects. -/
theorem Trace.achieved {term : Term} {done : List Handle}
    (h : Trace m (translateFrom m root) term goals done)
    (hgoals : ∀ g ∈ goals, m.children g ≠ [])
    (heffects : ∀ e ∈ done, ∃ effect, m.effect? e = some effect ∧ effect.satisfying = true ∧
      effect.turnsTrue ≠ []) (hdone : ∀ e ∈ done, e ∈ run) :
    Achieved m (translateFrom m root) init run term := by
  induction h with
  | goal hg hclause _ ih =>
    obtain ⟨hne, hgoals⟩ := List.forall_mem_cons.mp hgoals
    obtain rfl := eq_procedureBody hv hg hclause
    exact (achieved_nameTerm_iff (.inl (hv.mem_goals_iff.mp hg))).mpr
      (satisfied_of_procedure hv hg hne (ih hgoals heffects hdone))
  | task ha he hclause houtcome =>
    obtain ⟨effect, hf, hsatisfying, hne⟩ := heffects _ (.head _)
    exact (achieved_nameTerm_iff (.inr (hv.mem_tasks_iff.mp ha))).mpr
      (satisfied_of_effect hv (mem_effectsOf_of_nondet hv ha he hclause houtcome)
        (hdone _ (.head _)) hf hsatisfying hne)
  | idle hnot =>
    intro h hh hname
    exact absurd (hname ▸ callable_of_node hv hh) hnot
  | sequence hop _ _ _ ihl ihr =>
    simp only [List.forall_mem_append] at hgoals heffects hdone
    rw [Achieved, if_pos hop]
    exact ⟨ihl hgoals.1 heffects.1 hdone.1, ihr hgoals.2 heffects.2 hdone.2⟩
  | first hop _ _ ih =>
    rw [Achieved, if_neg (by rw [hop]; decide)]
    exact .inl (ih hgoals heffects hdone)
  | second hop _ _ ih =>
    rw [Achieved, if_neg (by rw [hop]; decide)]
    exact .inr (ih hgoals heffects hdone)
  | group _ ih => exact ih hgoals heffects hdone

end Valid

/-- After a complete trace of a goal or task in any situation, which expands no goal without
children and in which every effect is satisfying and turns something true, the goal or task is
satisfied. -/
theorem satisfied_of_trace {text : String} {withSchema : Bool} {m : Model}
    (h : parseModel text withSchema = .ok m) :
    ∃ t, assemble m = .ok t ∧
      ∀ x, (m.role? x = some .goal ∨ m.role? x = some .task) →
        ∀ (init : Handle → Prop) (before goals run : List Handle),
          Trace m t (nameTerm m x) goals run → (∀ g ∈ goals, m.children g ≠ []) →
          (∀ e ∈ run, ∃ effect, m.effect? e = some effect ∧ effect.satisfying = true ∧
            effect.turnsTrue ≠ []) →
          ProvedAfter m t init (before ++ run)
            (holdsIn (ended (m.nameOf x) .satisfied) .current) := by
  have hv := valid_of_parseModel h
  obtain ⟨root, hroot⟩ := hv.exists_rootGoals
  refine ⟨translateFrom m root, assemble_eq_ok hroot, ?_⟩
  intro x hx init before goals run htrace hgoals heffects
  exact (achieved_nameTerm_iff hx).mp
    (htrace.achieved hv hgoals heffects fun e he => List.mem_append_right _ he)

/-- The robot pushes the door open and walks through it. -/
theorem trace_door : Trace Document.door.linked (translateFrom Document.door.linked ⟨3⟩)
    (.word "Enter") [⟨3⟩, ⟨4⟩] [⟨6⟩, ⟨11⟩] := by
  have hclauses : (translateFrom Document.door.linked ⟨3⟩).clauses .procedures =
      Document.door.linked.goals.map (procedureClause Document.door.linked) :=
    clauses_translateFrom rfl
  have houtcomes : (translateFrom Document.door.linked ⟨3⟩).clauses .nondetActions =
      Document.door.linked.tasks.map (nondetClause Document.door.linked) :=
    clauses_translateFrom rfl
  have htask (a e : Handle) (ha : a ∈ Document.door.linked.tasks)
      (he : e ∈ Document.door.linked.effectsOf a) (hlisted : e ∈ Document.door.linked.effects) :
      Trace Document.door.linked (translateFrom Document.door.linked ⟨3⟩)
        (nameTerm Document.door.linked a) [] [e] :=
    .task ha hlisted (houtcomes ▸ List.mem_map_of_mem ha) (List.mem_map_of_mem he)
  have hpush := htask ⟨5⟩ ⟨6⟩ (by decide) (by decide) (by decide)
  have hwalk := htask ⟨10⟩ ⟨11⟩ (by decide) (by decide) (by decide)
  have hgoal (g : Handle) (hg : g ∈ Document.door.linked.goals) :
      .fact (.call "proc" [nameTerm Document.door.linked g,
        procedureBody Document.door.linked g]) ∈
          (translateFrom Document.door.linked ⟨3⟩).clauses .procedures :=
    hclauses ▸ List.mem_map_of_mem hg
  have hopen : Trace Document.door.linked (translateFrom Document.door.linked ⟨3⟩)
      (nameTerm Document.door.linked ⟨4⟩) [⟨4⟩] [⟨6⟩] :=
    .goal (by decide) (hgoal ⟨4⟩ (by decide)) (.group (.first rfl (by decide) hpush))
  exact .goal (by decide) (hgoal ⟨3⟩ (by decide)) (.group (.sequence rfl (by decide) hopen hwalk))

theorem door_satisfied : ∃ t, assemble Document.door.linked = .ok t ∧
    Trace Document.door.linked t (.word "Enter") [⟨3⟩, ⟨4⟩] [⟨6⟩, ⟨11⟩] ∧
    ProvedAfter Document.door.linked t (fun _ => False) [⟨6⟩, ⟨11⟩]
      (holdsIn "Enter_Sat" .current) := by
  have hroot : Document.door.linked.rootGoals = [⟨3⟩] := by decide
  obtain ⟨t, ht, hsatisfied⟩ := satisfied_of_trace parseModel_doorText
  obtain rfl := Except.ok.inj ((assemble_eq_ok hroot).symm.trans ht)
  exact ⟨_, ht, trace_door, hsatisfied ⟨3⟩ (by decide) _ [] _ _ trace_door (by decide) (by decide)⟩

end GoalModel.Golog
