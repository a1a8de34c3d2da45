import GoalModel.Proofs.Golog.Satisfaction
import GoalModel.Proofs.Model.Tree

/-! # Runs

A run is the list of the effects that have occurred. It is legal if the guard of every effect
succeeds when the effect occurs (`Legal`). The guard asks that neither the task of the effect nor
anything that competes with it is attempted (`possible_iff`), and an effect that turns something
true leaves its task and everything above it attempted for the rest of the run
(`provedAfter_attempted`). -/

namespace GoalModel.Golog

section
variable (m : Model) (t : Translation) (init : Handle → Prop)

/-- A predicate holds after a run if it held before or if some effect of the run turns it
true. -/
def worldAfter (run : List Handle) : World
  | .initial, p => init p
  | .current, p => init p ∨ ∃ e ∈ run, p ∈ m.turnsTrue e

/-- What the satisfaction section proves after a run. -/
def ProvedAfter (run : List Handle) : Term → Prop :=
  Derives m (t.clauses .satisfaction) (worldAfter m init run)

/-- The guard of an effect succeeds after a run. -/
def Possible (run : List Handle) (e : Handle) : Prop :=
  e ∈ m.effects ∧ ∃ guard, .rule (possible (m.nameOf e)) guard ∈ t.clauses .preconditions ∧
    guard.Holds (ProvedAfter m t init run)

/-- Every effect of a run is possible when it occurs. -/
inductive Legal : List Handle → Prop
  | nil : Legal []
  | snoc {run : List Handle} {e : Handle} : Legal run → Possible m t init run e →
    Legal (run ++ [e])

end

variable {m : Model} {root : Handle} {init : Handle → Prop} {run : List Handle}
  {t e c : Handle}

theorem provedAfter_eq : ProvedAfter m (translateFrom m root) init run =
    Derives m (satisfactionClauses m root) (worldAfter m init run) := by
  rw [ProvedAfter, clauses_translateFrom rfl]

theorem possible_inj {a b : String} (h : possible a = possible b) : a = b := by
  simpa [possible, Term.apply] using h

theorem head_taskPrecondition : (taskPrecondition m t).head = possible (m.nameOf t) := by
  unfold taskPrecondition
  split <;> rfl

theorem holds_notAttempted {proved : Term → Prop} {h : Handle} :
    (notAttempted m h).Holds proved ↔
      ¬proved (holdsIn (ended (m.nameOf h) .attempted) .current) :=
  ⟨fun holds => holds.2.2, fun hnot => ⟨rfl, Nat.zero_le _, hnot⟩⟩

section Valid
variable (hv : m.Valid)
include hv

theorem provedAfter_task_iff (ht : m.role? t = some .task) :
    ProvedAfter m (translateFrom m root) init run
        (holdsIn (ended (m.nameOf t) .attempted) .current) ↔
      ∃ e ∈ m.effectsOf t, m.turnsTrue e ≠ [] ∧
        ∀ p ∈ m.turnsTrue e, init p ∨ ∃ e' ∈ run, p ∈ m.turnsTrue e' := by
  obtain ⟨task, ht⟩ := Model.exists_task? ht
  rw [provedAfter_eq]
  refine (derives_task_iff (d := .attempted) hv ht).trans ?_
  refine exists_congr fun e => and_congr_right fun he => ?_
  obtain ⟨effect, hf, _⟩ := Option.map_eq_some_iff.mp ((hv.effects t e).mp he)
  have hcounts : Derived.attempted.counts effect ↔ effect.turnsTrue ≠ [] := by
    simp [Derived.counts]
  simp only [hf, Option.some.injEq, exists_eq_left', hcounts, Model.turnsTrue_eq hf]
  rfl

/-- What an effect has attempted stays attempted: its task, and every goal above. -/
theorem provedAfter_attempted (he : e ∈ m.effectsOf t) (hrun : e ∈ run)
    (hne : m.turnsTrue e ≠ []) (hbelow : m.AtOrBelow t c) :
    ProvedAfter m (translateFrom m root) init run
      (holdsIn (ended (m.nameOf c) .attempted) .current) := by
  induction hbelow with
  | refl =>
    obtain ⟨_, ht, _⟩ := Model.task?_of_mem_effectsOf he
    exact (provedAfter_task_iff hv (Model.role?_of_task? ht)).mpr
      ⟨e, he, hne, fun p hp => .inr ⟨e, hrun, hp⟩⟩
  | tail _ hparent ih =>
    rw [provedAfter_eq] at ih ⊢
    exact (derives_goal_iff (d := .attempted) hv (hv.role?_of_parent? hparent) rfl).mpr
      ⟨_, (hv.children _ _).mpr hparent, ih⟩

/-- The only clause for the precondition of an effect is its own. -/
theorem mem_preconditionClauses {effect : Effect} (he : m.effect? e = some effect)
    {guard : Term} : .rule (possible (m.nameOf e)) guard ∈ preconditionClauses m ↔
      guard = .chain .listing (.word "true") ((guards m effect.task).map (notAttempted m)) := by
  have hrole := Model.role?_of_effect? he
  simp only [preconditionClauses, List.mem_append, List.mem_filterMap, List.mem_map]
  constructor
  · rintro (⟨e', _, hclause⟩ | ⟨t', ht', hclause⟩)
    · obtain ⟨effect', he', hclause⟩ := Option.map_eq_some_iff.mp hclause
      obtain rfl := hv.nameOf_inj (m.index_lt_of_role? (Model.role?_of_effect? he'))
        (m.index_lt_of_role? hrole) (possible_inj (congrArg Clause.head hclause))
      rw [he, Option.some.injEq] at he'
      subst he'
      exact (Option.some.inj (congrArg Clause.body hclause)).symm
    · have hname := congrArg Clause.head hclause
      rw [head_taskPrecondition] at hname
      have htask := hv.mem_tasks_iff.mp ht'
      obtain rfl := hv.nameOf_inj (m.index_lt_of_role? htask) (m.index_lt_of_role? hrole)
        (possible_inj hname)
      rw [htask] at hrole
      cases hrole
  · rintro rfl
    exact .inl ⟨e, hv.mem_effects_iff.mpr hrole, Option.map_eq_some_iff.mpr ⟨effect, he, rfl⟩⟩

theorem possible_iff (he : e ∈ m.effectsOf t) :
    Possible m (translateFrom m root) init run e ↔
      ∀ h ∈ guards m t, ¬ProvedAfter m (translateFrom m root) init run
        (holdsIn (ended (m.nameOf h) .attempted) .current) := by
  obtain ⟨effect, hf, rfl⟩ := Option.map_eq_some_iff.mp ((hv.effects t e).mp he)
  have hpriority {h : Handle} : (notAttempted m h).priority < 1000 := by
    change 900 < 1000
    decide
  rw [Possible, clauses_translateFrom rfl]
  simp only [hv.mem_effects_iff, Model.role?_of_effect? hf, mem_preconditionClauses hv hf,
    true_and, exists_eq_left]
  rw [holds_chain_listing (by simp [guards]) (List.forall_mem_map.mpr fun _ _ => hpriority)]
  simp only [List.forall_mem_map, holds_notAttempted]

end Valid

end GoalModel.Golog
