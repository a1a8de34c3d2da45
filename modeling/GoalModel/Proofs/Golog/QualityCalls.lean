import GoalModel.Proofs.Golog.Rendering
import GoalModel.Proofs.Golog.Sections
import GoalModel.Proofs.Loading
import Mathlib.Logic.Relation

/-! # Which values a quality asks for

To find the value of a quality at the start, its base clause answers, if there is one; otherwise
its general clause asks for the values of other qualities at the start (`AsksAtStart`, read off
the program). In the model these are the qualities that the formula refers to
(`Model.DependsAtStart`). The base clause is written for qualities that are cross-run or refer to
their own previous value, and for no others, so that a quality is asked for again while it is
being evaluated exactly if it lies on a cycle of references between the others
(`asksAgain_iff`). Such cycles pass every check, and the shortest one is a formula
that is the quality itself (`echo_asksAgain`). -/

namespace GoalModel

/-- The formula of one quality refers to another quality, and no base clause keeps it from being
evaluated at the start. -/
def Model.DependsAtStart (m : Model) (q other : Handle) : Prop :=
  m.isCrossRun q = false ∧ m.role? other = some .quality ∧ ∃ data, m.quality? q = some data ∧
    data.formula.referencesPrevious q = false ∧ ∃ situation, (other, situation) ∈ data.formula.leaves

namespace Golog

/-- The goals that a conjunction consists of. -/
def Term.conjuncts : Term → List Term
  | .binary op left right =>
    if op.symbol = "," then left.conjuncts ++ right.conjuncts else [.binary op left right]
  | term => [term]

/-- A goal for the value of an element, in one situation or the other. -/
def Term.AsksFor (name : String) (goal : Term) : Prop :=
  ∃ (bound : String) (s : Situation), goal = .call name [.word bound, .word s.text]

/-- Without a base clause, the general clause of one quality calls another one at the start. The
situation at hand is the initial one, so that both kinds of goals ask for a value there. -/
def AsksAtStart (clauses : List Clause) (name other : String) : Prop :=
  initialValueClause name ∉ clauses ∧ ∃ body,
    .rule (valueGoal name .current) body ∈ clauses ∧ ∃ goal ∈ body.conjuncts, goal.AsksFor other

/-! ## Clauses -/

theorem Term.conjuncts_chain {empty : Term} {terms : List Term} (hne : terms ≠ [])
    (hterms : ∀ t ∈ terms, t.conjuncts = [t]) :
    (chain .listing empty terms).conjuncts = terms := by
  induction terms with
  | nil => exact absurd rfl hne
  | cons t rest ih =>
    obtain ⟨ht, hrest⟩ := List.forall_mem_cons.mp hterms
    cases rest with
    | nil => exact ht
    | cons t' rest =>
      have hchain : (chain .listing empty (t :: t' :: rest)).conjuncts =
          t.conjuncts ++ (chain .listing empty (t' :: rest)).conjuncts := rfl
      rw [hchain, ht, ih (List.cons_ne_nil _ _) hrest]
      rfl

theorem valueGoal_inj {name name' : String} {s s' : Situation}
    (h : valueGoal name s = valueGoal name' s') : name = name' ∧ s.text = s'.text := by
  simpa [valueGoal, Term.call] using h

/-- The goals of the general clause, bindings first. -/
theorem conjuncts_evaluationClause {name : String} {q : Quantity} {body : Term}
    (hbody : (evaluationClause name q).body = some body) :
    body.conjuncts = q.bindings.map (·.goal) ++
      [.binary (.spaced "is") (.word "V") q.expression] := by
  obtain rfl := Option.some.inj hbody
  refine Term.conjuncts_chain (by simp) fun t ht => ?_
  rcases List.mem_append.mp ht with ht | ht
  · obtain ⟨b, _, rfl⟩ := List.mem_map.mp ht
    unfold Binding.goal
    split <;> rfl
  · rw [List.mem_singleton.mp ht]
    rfl

/-- Only a binding that reads a value of its own calls a quality. -/
theorem call_mem_conjuncts {name other : String} {q : Quantity} {body : Term}
    (hbody : (evaluationClause name q).body = some body) :
    (∃ goal ∈ body.conjuncts, goal.AsksFor other) ↔
      ∃ b ∈ q.bindings, b.reading = .value ∧ b.state = other := by
  rw [conjuncts_evaluationClause hbody]
  constructor
  · rintro ⟨goal, hmem, bound, s, rfl⟩
    rcases List.mem_append.mp hmem with hmem | hmem
    · obtain ⟨b, hb, hgoal⟩ := List.mem_map.mp hmem
      refine ⟨b, hb, ?_⟩
      unfold Binding.goal at hgoal
      split at hgoal
      · simp [Term.call, holdsIn, Term.applyWord, Term.apply] at hgoal
      · next hreading =>
        simp only [Term.call, Term.compound.injEq] at hgoal
        exact ⟨hreading, hgoal.1⟩
    · have hevaluation := List.mem_singleton.mp hmem
      cases hevaluation
  · rintro ⟨b, hb, hreading, rfl⟩
    refine ⟨b.goal, List.mem_append_left _ (List.mem_map_of_mem hb), b.boundVariable,
      b.situation, ?_⟩
    rw [Binding.goal, hreading]

section
variable {m : Model} {q h other : Handle} {data : Quality}

/-- A base clause is written for cross-run qualities and for those that refer to their own
previous value. -/
theorem base_iff (hq : m.quality? q = some data) :
    (accumulates m q || data.formula.referencesPrevious q) = true ↔
      m.isCrossRun q = true ∨ data.formula.referencesPrevious q = true := by
  simp only [accumulates, hq, Option.any_some]
  cases m.isCrossRun q <;> cases data.formula.referencesPrevious q <;> decide

/-- The clauses of a quality do not depend on what has been reported before. -/
theorem exists_run_qualityClauses (hq : m.quality? q = some data) :
    ∃ quantity : Quantity,
      (∀ b, b ∈ quantity.bindings ↔
        ∃ leaf ∈ data.formula.leaves, leafBinding? m leaf = some b) ∧
      ∀ sink, ((qualityClauses m q).run sink).1 =
        (if accumulates m q || data.formula.referencesPrevious q then
          [initialValueClause (m.nameOf q)] else []) ++
        [evaluationClause (m.nameOf q)
          (if accumulates m q then quantity.accumulated (m.nameOf q) else quantity)] := by
  have hensures := renderQuantity_ensures m data.formula
  refine ⟨((renderQuantity m data.formula).run .empty).1, fun b => mem_bindings_renderQuantity,
    fun sink => ?_⟩
  rw [run_qualityClauses hq, hensures.run_fst sink .empty]

theorem run_mapM {α β : Type} {f : α → Render β} {value : α → β}
    (hf : ∀ a sink, ((f a).run sink).1 = value a) (as : List α) (sink : Diagnostics) :
    ((as.mapM f).run sink).1 = as.map value := by
  induction as generalizing sink with
  | nil => rfl
  | cons a rest ih =>
    rw [List.mapM_cons]
    change ((f a).run sink).1 :: ((rest.mapM f).run ((f a).run sink).2).1 = _
    rw [hf, ih, List.map_cons]

/-- The clauses of all qualities. -/
def allQualityClauses (m : Model) : List Clause :=
  m.qualities.flatMap fun q => ((qualityClauses m q).run .empty).1

theorem run_rewardClauses (m : Model) (sink : Diagnostics) :
    ((rewardClauses m).run sink).1 = allQualityClauses m ++ [rewardClause m] := by
  have hvalue (q : Handle) (sink : Diagnostics) :
      ((do enter (m.nameOf q); qualityClauses m q : Render (List Clause)).run sink).1 =
        ((qualityClauses m q).run .empty).1 := by
    change ((qualityClauses m q).run _).1 = _
    cases hq : m.quality? q with
    | none => simp only [qualityClauses, hq]; rfl
    | some data =>
      obtain ⟨_, _, hrun⟩ := exists_run_qualityClauses hq
      rw [hrun, hrun]
  change (((m.qualities.mapM fun q => do enter (m.nameOf q); qualityClauses m q).run sink).1
    ).flatten ++ [rewardClause m] = _
  rw [run_mapM hvalue, ← List.flatMap_def]
  rfl

/-! ## Valid models -/

section Valid
variable (hv : m.Valid)
include hv

theorem mem_allQualityClauses {clause : Clause} : clause ∈ allQualityClauses m ↔
    ∃ q, m.role? q = some .quality ∧ clause ∈ ((qualityClauses m q).run .empty).1 := by
  simp only [allQualityClauses, List.mem_flatMap, hv.mem_qualities_iff]

/-- The clauses whose head is the value of a quality are its own. -/
theorem mem_of_head {clause : Clause} {s : Situation} (hq : m.role? q = some .quality)
    (hhead : clause.head = valueGoal (m.nameOf q) s) (hmem : clause ∈ allQualityClauses m) :
    clause ∈ ((qualityClauses m q).run .empty).1 := by
  obtain ⟨q', hq', hclause⟩ := (mem_allQualityClauses hv).mp hmem
  obtain ⟨data, hdata⟩ := Model.exists_quality? hq'
  obtain ⟨quantity, _, hrun⟩ := exists_run_qualityClauses hdata
  have hown : ∃ s', clause.head = valueGoal (m.nameOf q') s' := by
    rw [hrun] at hclause
    rcases List.mem_append.mp hclause with hclause | hclause
    · split at hclause
      · rw [List.mem_singleton.mp hclause]
        exact ⟨.initial, rfl⟩
      · cases hclause
    · rw [List.mem_singleton.mp hclause]
      exact ⟨.current, rfl⟩
  obtain ⟨s', hs'⟩ := hown
  have hname := (valueGoal_inj (hhead.symm.trans hs')).1
  obtain rfl := hv.nameOf_inj (m.index_lt_of_role? hq) (m.index_lt_of_role? hq') hname
  exact hclause

theorem initialValueClause_mem_iff (hq : m.quality? q = some data) :
    initialValueClause (m.nameOf q) ∈ allQualityClauses m ↔
      m.isCrossRun q = true ∨ data.formula.referencesPrevious q = true := by
  have hrole := Model.role?_of_quality? hq
  obtain ⟨quantity, _, hrun⟩ := exists_run_qualityClauses hq
  rw [← base_iff hq]
  constructor
  · intro hmem
    have hmem := mem_of_head hv hrole rfl hmem
    rw [hrun] at hmem
    rcases List.mem_append.mp hmem with hmem | hmem
    · split at hmem
      · next hbase => exact hbase
      · cases hmem
    · have hhead := congrArg Clause.head (List.mem_singleton.mp hmem)
      exact absurd (valueGoal_inj hhead).2 (by decide)
  · intro hbase
    refine (mem_allQualityClauses hv).mpr ⟨q, hrole, ?_⟩
    rw [hrun, if_pos hbase]
    exact List.mem_cons_self

/-- A quality without a base clause has one general clause, which binds what the formula
needs. -/
theorem rule_mem_iff (hq : m.quality? q = some data) (hcross : m.isCrossRun q = false) :
    ∃ quantity : Quantity,
      (∀ b, b ∈ quantity.bindings ↔
        ∃ leaf ∈ data.formula.leaves, leafBinding? m leaf = some b) ∧
      ∀ body, .rule (valueGoal (m.nameOf q) .current) body ∈ allQualityClauses m ↔
        (evaluationClause (m.nameOf q) quantity).body = some body := by
  have hrole := Model.role?_of_quality? hq
  obtain ⟨quantity, hbindings, hrun⟩ := exists_run_qualityClauses hq
  have hplain : accumulates m q = false := by simp [accumulates, hcross]
  refine ⟨quantity, hbindings, fun body => ?_⟩
  constructor
  · intro hmem
    have hmem := mem_of_head hv hrole rfl hmem
    rw [hrun] at hmem
    rcases List.mem_append.mp hmem with hmem | hmem
    · split at hmem
      · have hhead := congrArg Clause.head (List.mem_singleton.mp hmem)
        exact absurd (valueGoal_inj hhead).2 (by decide)
      · cases hmem
    · rw [hplain] at hmem
      exact (congrArg Clause.body (List.mem_singleton.mp hmem)).symm
  · intro hbody
    refine (mem_allQualityClauses hv).mpr ⟨q, hrole, ?_⟩
    obtain rfl := Option.some.inj hbody
    rw [hrun, hplain]
    exact List.mem_append_right _ List.mem_cons_self

/-- What the program asks for is what the formulas refer to. -/
theorem asksAtStart_iff (hq : m.quality? q = some data) {name : String} :
    AsksAtStart (allQualityClauses m) (m.nameOf q) name ↔
      m.isCrossRun q = false ∧ data.formula.referencesPrevious q = false ∧
        ∃ leaf ∈ data.formula.leaves, ∃ b,
          leafBinding? m leaf = some b ∧ b.reading = .value ∧ b.state = name := by
  rw [AsksAtStart, initialValueClause_mem_iff hv hq, not_or, Bool.not_eq_true, Bool.not_eq_true,
    and_assoc]
  refine and_congr_right fun hcross => and_congr_right fun _ => ?_
  obtain ⟨quantity, hbindings, hrule⟩ := rule_mem_iff hv hq hcross
  constructor
  · rintro ⟨body, hmem, hasks⟩
    obtain ⟨b, hb, hvalue⟩ := (call_mem_conjuncts ((hrule body).mp hmem)).mp hasks
    obtain ⟨leaf, hleaf, hb⟩ := (hbindings b).mp hb
    exact ⟨leaf, hleaf, b, hb, hvalue⟩
  · rintro ⟨leaf, hleaf, b, hb, hvalue⟩
    have hb := (hbindings b).mpr ⟨leaf, hleaf, hb⟩
    have hbody : (evaluationClause (m.nameOf q) quantity).body = some _ := rfl
    exact ⟨_, (hrule _).mpr hbody, (call_mem_conjuncts hbody).mpr ⟨b, hb, hvalue⟩⟩

end Valid

/-- A binding reads the value of a quality or of a state variable by its name. -/
theorem value_of_leafBinding? {leaf : Handle × Situation} {b : Binding}
    (hb : leafBinding? m leaf = some b) (hreading : b.reading = .value) :
    leaf.1.index < m.elements.length ∧ b.state = m.nameOf leaf.1 := by
  obtain ⟨reading, hrole, rfl⟩ := Option.map_eq_some_iff.mp hb
  obtain ⟨role, hrole, hof⟩ := Option.bind_eq_some_iff.mp hrole
  refine ⟨m.index_lt_of_role? hrole, ?_⟩
  obtain rfl : reading = .value := hreading
  cases role <;> cases hof <;> simp only [stateName, hrole]

end

end Golog

open Golog

namespace Model.Valid

variable {m : Model} {q q' : Handle} (hv : m.Valid)
include hv

theorem asksAtStart_of_dependsAtStart (h : m.DependsAtStart q q') :
    AsksAtStart (allQualityClauses m) (m.nameOf q) (m.nameOf q') := by
  obtain ⟨hcross, hquality, data, hq, hprevious, s, hleaf⟩ := h
  have hbinding := leafBinding?_of_quality hquality s
  exact (asksAtStart_iff hv hq).mpr
    ⟨hcross, hprevious, (q', s), hleaf, _, hbinding, rfl, rfl⟩

theorem dependsAtStart_of_asksAtStart {data : Quality} (hq : m.quality? q = some data)
    (hq' : m.role? q' = some .quality)
    (h : AsksAtStart (allQualityClauses m) (m.nameOf q) (m.nameOf q')) :
    m.DependsAtStart q q' := by
  obtain ⟨hcross, hprevious, ⟨leaf, s⟩, hleaf, b, hb, hreading, hstate⟩ :=
    (asksAtStart_iff hv hq).mp h
  obtain ⟨hlt, hname⟩ := value_of_leafBinding? hb hreading
  obtain rfl := hv.nameOf_inj hlt (m.index_lt_of_role? hq') (hname.symm.trans hstate)
  exact ⟨hcross, hq', data, hq, hprevious, s, hleaf⟩

/-- A name that asks for something is that of a quality. -/
theorem exists_of_asksAtStart {name other : String}
    (h : AsksAtStart (allQualityClauses m) name other) :
    ∃ q data, m.quality? q = some data ∧ m.nameOf q = name := by
  obtain ⟨_, body, hmem, _⟩ := h
  obtain ⟨q, hq, hclause⟩ := (mem_allQualityClauses hv).mp hmem
  obtain ⟨data, hdata⟩ := exists_quality? hq
  refine ⟨q, data, hdata, ?_⟩
  obtain ⟨quantity, _, hrun⟩ := exists_run_qualityClauses hdata
  rw [hrun] at hclause
  rcases List.mem_append.mp hclause with hclause | hclause
  · split at hclause
    · have hhead := congrArg Clause.head (List.mem_singleton.mp hclause)
      exact absurd (valueGoal_inj hhead).2 (by decide)
    · cases hclause
  · have hhead := congrArg Clause.head (List.mem_singleton.mp hclause)
    exact (valueGoal_inj hhead).1.symm

/-- Following the calls of the program from quality to quality is following the references of
the model. -/
theorem transGen_asksAtStart_iff (hq : m.role? q = some .quality)
    (hq' : m.role? q' = some .quality) :
    Relation.TransGen (AsksAtStart (allQualityClauses m)) (m.nameOf q) (m.nameOf q') ↔
      Relation.TransGen m.DependsAtStart q q' := by
  constructor
  · intro hcalls
    generalize hname : m.nameOf q' = name at hcalls
    induction hcalls generalizing q' with
    | single hasks =>
      subst hname
      obtain ⟨data, hdata⟩ := exists_quality? hq
      exact .single (hv.dependsAtStart_of_asksAtStart hdata hq' hasks)
    | tail _ hasks ih =>
      subst hname
      obtain ⟨between, data, hdata, hname⟩ := hv.exists_of_asksAtStart hasks
      refine .tail (ih (role?_of_quality? hdata) hname) ?_
      exact hv.dependsAtStart_of_asksAtStart hdata hq' (hname ▸ hasks)
  · intro hdepends
    exact hdepends.lift m.nameOf fun _ _ => hv.asksAtStart_of_dependsAtStart

end Model.Valid

/-- The qualities of a program are asked for again exactly on cycles of references between
qualities without base clauses, and those that are cross-run or refer to their own previous value
have theirs in front of the general clause. -/
theorem asksAgain_iff {text : String} {withSchema : Bool} {m : Model}
    (h : parseModel text withSchema = .ok m) :
    ∃ t clauses, assemble m = .ok t ∧ t.clauses .rewards = clauses ++ [rewardClause m] ∧
      ∀ q data, m.quality? q = some data →
        (Relation.TransGen (AsksAtStart clauses) (m.nameOf q) (m.nameOf q) ↔
          Relation.TransGen m.DependsAtStart q q) ∧
        (m.isCrossRun q = true ∨ data.formula.referencesPrevious q = true →
          ∃ quantity, [initialValueClause (m.nameOf q),
            evaluationClause (m.nameOf q) quantity].Sublist clauses) := by
  have hv := valid_of_parseModel h
  obtain ⟨root, hroot⟩ := hv.exists_rootGoals
  obtain ⟨before, hsection⟩ := exists_clauses_translateFrom m root .rewards
  refine ⟨_, allQualityClauses m, assemble_eq_ok hroot,
    hsection.trans (run_rewardClauses m before), fun q data hq => ⟨?_, fun hbase => ?_⟩⟩
  · have hrole := Model.role?_of_quality? hq
    exact hv.transGen_asksAtStart_iff hrole hrole
  · obtain ⟨quantity, _, hrun⟩ := exists_run_qualityClauses hq
    have hown := hrun .empty
    rw [if_pos ((base_iff hq).mpr hbase)] at hown
    let own (q : Handle) := ((qualityClauses m q).run .empty).1
    have hlisted : q ∈ m.qualities := hv.mem_qualities_iff.mpr (Model.role?_of_quality? hq)
    have hsublist : (own q).Sublist (m.qualities.map own).flatten :=
      List.sublist_flatten_of_mem (List.mem_map_of_mem hlisted)
    refine ⟨if accumulates m q then quantity.accumulated (m.nameOf q) else quantity, ?_⟩
    have hown : own q = _ := hown
    rw [← List.flatMap_def, hown] at hsublist
    exact hsublist

/-! ## A quality that asks for itself -/

/-- A goal, and a quality whose formula is the quality itself. -/
def Document.echo : Document where
  name := "Echo"
  actors := [{
    name := "Robot"
    predicates := []
    stateVariables := []
    goals := [⟨"rest", [], []⟩]
    tasks := []
    qualities := [⟨"cost", false, .atom "cost"⟩]
    conditions := [] }]
  crossRun := []
  exported := []
  initializations := []

/-- The text of `Document.echo`. -/
def echoText : String := r#"{
  "name": "Echo",
  "actors": [{
    "name": "Robot",
    "goals": [{"name": "rest"}],
    "qualities": [{"name": "cost", "formula": {"atom": "cost"}}]}]}"#

set_option maxRecDepth 10000 in
theorem parseModel_echoText : parseModel echoText true = .ok Document.echo.linked := by
  have htext : echoText = String.ofList _ := rfl
  refine eq_ok_of_toOption ?_
  rw [htext, parseModel, Json.read?_ofList]
  decide +kernel

theorem echo_depends : Document.echo.linked.DependsAtStart ⟨1⟩ ⟨1⟩ :=
  ⟨by decide, by decide, ⟨.atom ⟨1⟩, false⟩, by decide, by decide, .current, by decide⟩

/-- The general clause of the quality calls the quality at the start, and nothing answers
first. -/
theorem echo_asksAgain : parseModel echoText true = .ok Document.echo.linked ∧
    ∃ t clauses, assemble Document.echo.linked = .ok t ∧
      t.clauses .rewards = clauses ++ [rewardClause Document.echo.linked] ∧
      initialValueClause "cost" ∉ clauses ∧ AsksAtStart clauses "cost" "cost" := by
  have hv := valid_of_parseModel parseModel_echoText
  have hroot : Document.echo.linked.rootGoals = [⟨0⟩] := by decide
  obtain ⟨before, hsection⟩ := exists_clauses_translateFrom Document.echo.linked ⟨0⟩ .rewards
  have hasks := hv.asksAtStart_of_dependsAtStart echo_depends
  exact ⟨parseModel_echoText, _, _, assemble_eq_ok hroot,
    hsection.trans (run_rewardClauses _ before), hasks.1, hasks⟩

theorem echo_asksAgain_iff : ∃ t clauses, assemble Document.echo.linked = .ok t ∧
    t.clauses .rewards = clauses ++ [rewardClause Document.echo.linked] ∧
    Relation.TransGen (AsksAtStart clauses) "cost" "cost" := by
  obtain ⟨t, clauses, ht, hclauses, hqualities⟩ := asksAgain_iff parseModel_echoText
  obtain ⟨hiff, _⟩ := hqualities ⟨1⟩ ⟨.atom ⟨1⟩, false⟩ (by decide)
  exact ⟨t, clauses, ht, hclauses, hiff.mpr (.single echo_depends)⟩

end GoalModel
