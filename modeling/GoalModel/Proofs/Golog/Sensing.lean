import GoalModel.Proofs.Golog.Reports
import GoalModel.Proofs.Golog.Runs

/-! # What is sensed and what counts

After an effect an agent can sense the fluents that the effect turns true. What makes a task
attempted is written from the same effects in another way, and comes to the same: the task is
attempted where what is sensed after one of its effects holds, satisfied where this is a satisfying
effect, and satisfied before the run where the same held in the initial situation
(`CountsAsSensed`). What is sensed of an effect that turns nothing true is `true`, so the clauses
of the task have to leave such an effect out, and do. -/

namespace GoalModel.Golog

/-! ## Situations in terms -/

/-- A term whose words are applied to a situation: `p_fl` becomes `p_fl(S)`. Connectives and
parentheses stay where they are. -/
def Term.inSituation (situation : Situation) : Term → Term
  | .word name => holdsIn name situation
  | .binary op left right => .binary op (left.inSituation situation) (right.inSituation situation)
  | .group inner => .group (inner.inSituation situation)
  | term => term

mutual

/-- A term with one word in place of another, wherever it stands. -/
def Term.replaceWord (word other : String) : Term → Term
  | .word text => .word (if text = word then other else text)
  | .number value => .number value
  | .compound functor gap arguments => .compound functor gap (replaceWords word other arguments)
  | .list items => .list (replaceWords word other items)
  | .unary op operand => .unary op (operand.replaceWord word other)
  | .binary op left right =>
    .binary op (left.replaceWord word other) (right.replaceWord word other)
  | .group inner => .group (inner.replaceWord word other)

def Term.replaceWords (word other : String) : List Term → List Term
  | [] => []
  | term :: rest => term.replaceWord word other :: replaceWords word other rest

end

section
variable {op : Operator} {empty : Term} {terms : List Term} {f : Term → Term}

/-- What goes through an operator goes through a chain. -/
theorem Term.map_chain
    (hop : ∀ left right, f (.binary op left right) = .binary op (f left) (f right)) :
    f (chain op empty terms) = chain op (f empty) (terms.map f) := by
  induction terms with
  | nil => rfl
  | cons t rest ih =>
    cases rest with
    | nil => rfl
    | cons t' rest =>
      rw [chain_cons_cons, hop, ih]
      rfl

theorem Term.chain_congr_empty {other : Term} (hne : terms ≠ []) :
    chain op empty terms = chain op other terms := by
  induction terms with
  | nil => exact absurd rfl hne
  | cons t rest ih =>
    cases rest with
    | nil => rfl
    | cons t' rest => rw [chain_cons_cons, chain_cons_cons, ih (List.cons_ne_nil _ _)]

theorem Term.map_groupedConjunction (hgroup : ∀ t, f (.group t) = .group (f t))
    (hop : ∀ left right,
      f (.binary .conjunction left right) = .binary .conjunction (f left) (f right))
    (hne : terms ≠ []) :
    f (groupedConjunction terms) = groupedConjunction (terms.map f) := by
  match terms with
  | [] => exact absurd rfl hne
  | [_] => rfl
  | t :: t' :: rest =>
    change f (group (chain .conjunction (.word "true") (t :: t' :: rest))) = _
    rw [hgroup, map_chain hop]
    exact congrArg group (chain_congr_empty (List.cons_ne_nil _ _))

end

/-! ## Effects of a task -/

section
variable (m : Model)

/-- What can be sensed after an effect. -/
def sensed (e : Handle) : Term := .groupedConjunction ((m.turnsTrue e).map (stateTerm m))

/-- The effects of a task that turn something true. -/
def tracing (t : Handle) : List Handle :=
  (m.effectsOf t).filter fun e => !(m.turnsTrue e).isEmpty

def isSatisfying (e : Handle) : Bool := (m.effect? e).any (·.satisfying)

end

/-- A term and its text are alternatives between semicolons, or a failure if there are none. -/
def Term.IsAnyOf (body : Term) (alternatives : List Term) : Prop :=
  body = .chain .disjunction (.word "fail") alternatives ∧
    body.text =
      if alternatives = [] then "fail" else String.intercalate " ; " (alternatives.map Term.text)

theorem Term.isAnyOf_chain (alternatives : List Term) :
    (chain .disjunction (.word "fail") alternatives).IsAnyOf alternatives := by
  refine ⟨rfl, ?_⟩
  split
  · next hnone => rw [hnone]; rfl
  · next hne => exact text_chain hne

/-- A task is attempted and satisfied by what is sensed after its effects. -/
structure CountsAsSensed (m : Model) (t : Handle) : Prop where
  sensing : ∀ e, senseClause m e = .fact (.apply "senseCondition" [nameTerm m e, sensed m e])
  attempted : (derivedBody m .attempted t).IsAnyOf
    ((tracing m t).map fun e => (sensed m e).inSituation .current)
  satisfied : (derivedBody m .satisfied t).IsAnyOf
    (((tracing m t).filter (isSatisfying m)).map fun e => (sensed m e).inSituation .current)
  preRun : derivedBody m .preRun t = (derivedBody m .satisfied t).replaceWord "S" "s0"
  /-- What is proved of the task is proved from an effect that turns something true. -/
  derives_iff : ∀ (d : Derived) (clauses : List Clause) (world : World),
    Derives m clauses world (derivedBody m d t) ↔
      ∃ e ∈ m.effectsOf t, m.turnsTrue e ≠ [] ∧ (d = .attempted ∨ isSatisfying m e) ∧
        ∀ p ∈ m.turnsTrue e,
          Derives m clauses world (holdsIn (ended (m.nameOf p) .fluent) d.situation)

/-! ## Bodies -/

section
variable {m : Model} {t e p : Handle} {d : Derived} {effect : Effect} {situation : Situation}

theorem counts_eq (hf : m.effect? e = some effect) : d.counts effect =
    ((d == .attempted || isSatisfying m e) && !(m.turnsTrue e).isEmpty) := by
  simp [Derived.counts, Model.turnsTrue_eq hf, isSatisfying, hf]

/-- The fluents that an effect turns true, by the handle of the effect. -/
def trace (m : Model) (situation : Situation) (e : Handle) : Term :=
  .groupedConjunction
    ((m.turnsTrue e).map fun p => holdsIn (ended (m.nameOf p) .fluent) situation)

theorem effectTrace_eq (hf : m.effect? e = some effect) :
    effectTrace m situation effect = trace m situation e := by
  rw [effectTrace, trace, Model.turnsTrue_eq hf]

theorem map_effectTrace_counting {effects : List Handle}
    (heffects : ∀ e ∈ effects, ∃ effect, m.effect? e = some effect) :
    ((effects.filterMap m.effect?).filter d.counts).map (effectTrace m d.situation) =
      ((effects.filter fun e => !(m.turnsTrue e).isEmpty).filter
        fun e => d == .attempted || isSatisfying m e).map (trace m d.situation) := by
  rw [List.filter_filter]
  induction effects with
  | nil => rfl
  | cons e rest ih =>
    obtain ⟨⟨effect, hf⟩, hrest⟩ := List.forall_mem_cons.mp heffects
    rw [List.filterMap_cons_some hf, List.filter_cons, List.filter_cons, counts_eq hf]
    split
    · rw [List.map_cons, List.map_cons, effectTrace_eq hf, ih hrest]
    · exact ih hrest

/-- The body of a task has what the effects that count for it leave behind. -/
theorem derivedBody_task (hs : m.Sound) (ht : m.role? t = some .task) (d : Derived) :
    derivedBody m d t = .chain .disjunction (.word "fail")
      (((tracing m t).filter fun e => d == .attempted || isSatisfying m e).map
        (trace m d.situation)) := by
  obtain ⟨task, ht⟩ := Model.exists_task? ht
  have heffects : ∀ e ∈ task.effects, ∃ effect, m.effect? e = some effect := by
    intro e he
    obtain ⟨effect, hf, _⟩ :=
      Option.map_eq_some_iff.mp ((hs.effects t e).mp (Model.effectsOf_eq ht ▸ he))
    exact ⟨effect, hf⟩
  rw [derivedBody, Model.kind_of_task? ht, tracing, Model.effectsOf_eq ht]
  exact congrArg _ (map_effectTrace_counting heffects)

/-- What is sensed after an effect that turns something true, in a situation. -/
theorem inSituation_sensed (hs : m.Sound) (hne : m.turnsTrue e ≠ []) :
    (sensed m e).inSituation situation = trace m situation e := by
  rw [sensed, Term.map_groupedConjunction (f := Term.inSituation situation) (fun _ => rfl)
    (fun _ _ => rfl) (List.map_eq_nil_iff.not.mpr hne), List.map_map, trace]
  refine congrArg _ (List.map_congr_left fun p hp => ?_)
  have hname : stateName m p = ended (m.nameOf p) .fluent :=
    stateName_of_role (hs.turnsTrue e p hp)
  rw [Function.comp_apply, stateTerm, hname]
  rfl

theorem map_trace (hs : m.Sound) {effects : List Handle}
    (heffects : ∀ e ∈ effects, m.turnsTrue e ≠ []) :
    effects.map (trace m situation) = effects.map fun e => (sensed m e).inSituation situation :=
  List.map_congr_left fun e he => (inSituation_sensed hs (heffects e he)).symm

theorem turnsTrue_ne_nil (he : e ∈ tracing m t) : m.turnsTrue e ≠ [] := by
  simpa using (List.mem_filter.mp he).2

theorem replaceWord_trace (hne : m.turnsTrue e ≠ []) :
    (trace m .current e).replaceWord "S" "s0" = trace m .initial e := by
  rw [trace, Term.map_groupedConjunction (f := Term.replaceWord "S" "s0") (fun _ => rfl)
    (fun _ _ => rfl) (List.map_eq_nil_iff.not.mpr hne), List.map_map]
  exact congrArg _ (List.map_congr_left fun p _ => rfl)

end

section
variable {m : Model} {t e : Handle} {d : Derived} {clauses : List Clause} {world : World}

theorem derives_trace_iff {situation : Situation} :
    Derives m clauses world (trace m situation e) ↔ ∀ p ∈ m.turnsTrue e,
      Derives m clauses world (holdsIn (ended (m.nameOf p) .fluent) situation) := by
  rw [trace, derives_groupedConjunction, List.forall_mem_map]
  exact List.forall_mem_map.mpr fun _ _ => Nat.zero_lt_succ _

variable (hs : m.Sound) (ht : m.role? t = some .task)
include hs ht

theorem derives_derivedBody_task_iff : Derives m clauses world (derivedBody m d t) ↔
    ∃ e ∈ m.effectsOf t, m.turnsTrue e ≠ [] ∧ (d = .attempted ∨ isSatisfying m e) ∧
      ∀ p ∈ m.turnsTrue e,
        Derives m clauses world (holdsIn (ended (m.nameOf p) .fluent) d.situation) := by
  rw [derivedBody_task hs ht, derives_chain_disjunction]
  · simp only [List.mem_map, exists_exists_and_eq_and, derives_trace_iff]
    simp only [tracing, List.mem_filter, Bool.or_eq_true, beq_iff_eq, Bool.not_eq_true',
      List.isEmpty_eq_false_iff, and_assoc]
  · refine List.forall_mem_map.mpr fun e _ => ?_
    rw [trace, Term.priority_groupedConjunction (List.forall_mem_map.mpr fun _ _ => rfl)]
    exact Nat.zero_lt_succ _

theorem countsAsSensed : CountsAsSensed m t where
  sensing := fun _ => rfl
  attempted := by
    have hall : ((tracing m t).filter fun e =>
        Derived.attempted == .attempted || isSatisfying m e) = tracing m t :=
      List.filter_eq_self.mpr fun _ _ => rfl
    rw [derivedBody_task hs ht, hall, map_trace hs fun _ he => turnsTrue_ne_nil he]
    exact Term.isAnyOf_chain _
  satisfied := by
    rw [derivedBody_task hs ht, map_trace hs fun _ he => turnsTrue_ne_nil (List.mem_filter.mp he).1]
    exact Term.isAnyOf_chain _
  preRun := by
    rw [derivedBody_task hs ht, derivedBody_task hs ht,
      Term.map_chain (f := Term.replaceWord "S" "s0") fun _ _ => rfl, List.map_map]
    refine congrArg _ (List.map_congr_left fun e he => ?_)
    exact (replaceWord_trace (turnsTrue_ne_nil (List.mem_filter.mp he).1)).symm
  derives_iff := fun _ _ _ => derives_derivedBody_task_iff hs ht

omit hs ht in
/-- The only condition that is sensed after an effect is its own. -/
theorem fact_sensed_mem_iff (hl : m.Listed) (hn : m.Named) (he : m.role? e = some .effect)
    {condition : Term} :
    .fact (.apply "senseCondition" [nameTerm m e, condition]) ∈ m.effects.map (senseClause m) ↔
      condition = sensed m e := by
  rw [List.mem_map]
  constructor
  · rintro ⟨e', he', hclause⟩
    simp only [senseClause, Clause.fact, Clause.mk.injEq, Term.apply, Term.compound.injEq,
      List.cons.injEq, nameTerm, Term.word.injEq, and_true, true_and] at hclause
    obtain ⟨hname, hcondition⟩ := hclause
    obtain rfl := hn.nameOf_inj (m.index_lt_of_role? (hl.mem_effects_iff.mp he'))
      (m.index_lt_of_role? he) hname
    exact hcondition.symm
  · rintro rfl
    exact ⟨e, hl.mem_effects_iff.mpr he, rfl⟩

omit hs ht in
theorem worldAfter_of_turnsTrue_eq_nil {init : Handle → Prop} {run : List Handle}
    (hnothing : m.turnsTrue e = []) : worldAfter m init (run ++ [e]) = worldAfter m init run := by
  funext situation p
  cases situation with
  | initial => rfl
  | current => simp [worldAfter, or_and_right, exists_or, hnothing]

end

end Golog

open Golog

/-- In a linked model what is sensed after the effects of a task is what makes the task attempted,
satisfied, and satisfied before the run. The program has these clauses and no others for them, and
an effect that turns nothing true changes nothing for its task. -/
theorem Document.sensing_agrees {document : Document} {m : Model} (h : document.link = .ok m)
    {t : Handle} (ht : m.role? t = some .task) :
    CountsAsSensed m t ∧ ∀ program, assemble m = .ok program →
      (∀ (d : Derived) (body : Term),
        .rule (holdsIn (ended (m.nameOf t) d.ending) .current) body ∈
            program.clauses .satisfaction ↔ body = derivedBody m d t) ∧
      ∀ e ∈ m.effectsOf t,
        (∀ condition, .fact (.apply "senseCondition" [nameTerm m e, condition]) ∈
            program.clauses .sensing ↔ condition = sensed m e) ∧
        (m.turnsTrue e = [] → ∀ (init : Handle → Prop) (run : List Handle) (d : Derived),
          ProvedAfter m program init (run ++ [e])
              (holdsIn (ended (m.nameOf t) d.ending) .current) ↔
            ProvedAfter m program init run
              (holdsIn (ended (m.nameOf t) d.ending) .current)) := by
  have hs := (Document.sound_of_link h).1
  have hn := Document.named_of_link h
  refine ⟨countsAsSensed hs ht, fun program hprogram => ?_⟩
  obtain ⟨root, -, rfl⟩ := exists_root_of_assemble hprogram
  refine ⟨fun d body => ?_, fun e he => ⟨fun condition => ?_, fun hnothing init run d => ?_⟩⟩
  · rw [clauses_translateFrom rfl]
    exact rule_derived_mem_iff hs.toListed hn (.inr ht)
  · rw [clauses_translateFrom rfl]
    exact fact_sensed_mem_iff hs.toListed hn (hs.role?_of_mem_effectsOf he)
  · rw [ProvedAfter, ProvedAfter, worldAfter_of_turnsTrue_eq_nil hnothing]

/-- Water boils, or spills, or nothing comes of it. -/
def Document.kettle : Document where
  name := "Kettle"
  actors := [{
    name := "Robot"
    predicates := ["Hot", "Loud", "Wet"]
    stateVariables := []
    goals := [⟨"Serve", ["Boil"], []⟩]
    tasks := [⟨"Boil", [
      ⟨"Boiled", .one, true, ["Hot", "Loud"]⟩,
      ⟨"Spilt", .one, false, ["Wet"]⟩,
      ⟨"Cold", .one, true, []⟩]⟩]
    qualities := []
    conditions := [] }]
  crossRun := []
  exported := []
  initializations := []

theorem Document.kettle_sensed :
    Document.kettle.link = .ok Document.kettle.linked ∧
    Document.kettle.linked.role? ⟨4⟩ = some .task ∧
    CountsAsSensed Document.kettle.linked ⟨4⟩ ∧
    (derivedClause Document.kettle.linked .attempted ⟨4⟩).text =
      "Boil_Att(S) :- (Hot_fl(S) , Loud_fl(S)) ; Wet_fl(S)." ∧
    (derivedClause Document.kettle.linked .preRun ⟨4⟩).text =
      "Boil_Pre(S) :- (Hot_fl(s0) , Loud_fl(s0))." ∧
    (senseClause Document.kettle.linked ⟨7⟩).text = "senseCondition(Cold,true)." := by
  have h : Document.kettle.link = .ok Document.kettle.linked := rfl
  have ht : Document.kettle.linked.role? ⟨4⟩ = some .task := rfl
  exact ⟨h, ht, (Document.sensing_agrees h ht).1, by decide +kernel, by decide +kernel,
    by decide +kernel⟩

end GoalModel
