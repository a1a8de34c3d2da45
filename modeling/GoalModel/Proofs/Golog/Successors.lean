import GoalModel.Proofs.Golog.Names
import GoalModel.Proofs.Golog.Reading
import GoalModel.Proofs.Golog.Sections
import GoalModel.Proofs.Loading

/-! # What makes a predicate true

The successor clause of a predicate asks whether the predicate held before, and then compares the
action with each effect that turns the predicate true (`disjuncts_successorBody`). The comparison
is by name, and a name that starts with an upper-case letter or an underscore is a variable in the
program (`Identifier.isVariable`). So a predicate becomes true with the effects that turn it true,
but with every other action as well as soon as one of these effects has the name of a variable
(`becomesTrue_iff`). Nothing keeps effects from having such a name (`lamp_lights_on_failure`). -/

namespace GoalModel

/-- Whether an identifier is a variable in the program, and no constant. -/
def Identifier.isVariable (name : String) : Bool :=
  match name.toList with
  | [] => false
  | c :: _ => ('A' ≤ c ∧ c ≤ 'Z') ∨ c = '_'

namespace Golog

/-! ## Alternatives -/

/-- The alternatives that a disjunction consists of. -/
def Term.disjuncts : Term → List Term
  | .binary op left right =>
    if op.symbol = ";" ∧ Joins op left right then left.disjuncts ++ right.disjuncts
    else [.binary op left right]
  | term => [term]

/-- A constant for each variable. -/
abbrev Assignment := String → String

/-- What a word stands for. A constant stands for itself. -/
def Assignment.meaning (σ : Assignment) (word : String) : String :=
  if Identifier.isVariable word then σ word else word

/-- Whether an alternative succeeds under an assignment. Words are compared, all other goals are
proved or not. -/
def Term.Succeeds (proved : Term → Prop) (σ : Assignment) : Term → Prop
  | .binary op (.word left) (.word right) =>
    if op.symbol = "=" then σ.meaning left = σ.meaning right
    else proved (.binary op (.word left) (.word right))
  | goal => proved goal

/-- What holds in the situation after the action `A`: `p_fl(do(A,S))`. -/
def holdsAfter (name : String) : Term :=
  .apply name [.apply "do" [.word "A", .word Situation.current.text]]

/-- Whether an alternative other than that the fluent held before can succeed for an action. -/
def BecomesTrue (fluent : String) (body : Term) (proved : Term → Prop) (action : String) : Prop :=
  ∃ goal ∈ body.disjuncts, goal ≠ holdsIn fluent .current ∧
    ∃ σ : Assignment, σ "A" = action ∧ goal.Succeeds proved σ

/-- An action can be compared successfully with a word that is a variable, or with itself. -/
theorem exists_succeeds_comparison_iff {proved : Term → Prop} {action word : String} :
    (∃ σ : Assignment, σ "A" = action ∧
      (Term.binary (.tight "=") (.word "A") (.word word)).Succeeds proved σ) ↔
        word = action ∨ Identifier.isVariable word := by
  have hA : Identifier.isVariable "A" := by decide
  have hsucceeds (σ : Assignment) :
      (Term.binary (.tight "=") (.word "A") (.word word)).Succeeds proved σ ↔
        σ "A" = σ.meaning word := by
    simp only [Term.Succeeds, Operator.tight, if_true, Assignment.meaning, hA]
  simp only [hsucceeds]
  constructor
  · rintro ⟨σ, rfl, hmeaning⟩
    by_cases hword : Identifier.isVariable word
    · exact .inr hword
    · rw [Assignment.meaning, if_neg hword] at hmeaning
      exact .inl hmeaning.symm
  · intro hword
    refine ⟨fun _ => action, rfl, ?_⟩
    rw [Assignment.meaning]
    split
    · rfl
    · next hnot => exact (hword.resolve_right hnot).symm

/-! ## Successor clauses -/

/-- The effects that turn a predicate true, in the order of the program. -/
def causes (m : Model) (p : Handle) : List Handle :=
  m.effects.filter fun e => decide (p ∈ m.turnsTrue e)

/-- The body of the successor clause of a predicate. -/
def successorBody (m : Model) (p : Handle) : Term :=
  .chain .disjunction (.word "fail")
    (holdsIn (stateName m p) .current ::
      (causes m p).map fun e => .binary (.tight "=") (.word "A") (nameTerm m e))

variable {m : Model} {root p e : Handle}

theorem successorClauses_eq (m : Model) (p : Handle) : successorClauses m p =
    [.rule (holdsIn (stateName m p) .initial) (.applyWord "initiallyTrue" (stateName m p)),
      .rule (holdsAfter (stateName m p)) (successorBody m p)] := rfl

theorem disjuncts_successorBody (m : Model) (p : Handle) : (successorBody m p).disjuncts =
    holdsIn (stateName m p) .current ::
      (causes m p).map fun e => .binary (.tight "=") (.word "A") (nameTerm m e) := by
  have hcomparison (e : Handle) :
      (Term.binary (.tight "=") (.word "A") (nameTerm m e)).priority < 1100 := by
    change 700 < 1100
    decide
  refine Term.parts_chain (fun left right hjoins => if_pos ⟨rfl, hjoins⟩) (List.cons_ne_nil _ _)
    rfl ?_ ?_
  · exact List.forall_mem_cons.mpr
      ⟨Nat.zero_lt_succ _, List.forall_mem_map.mpr fun e _ => hcomparison e⟩
  · exact List.forall_mem_cons.mpr ⟨rfl, List.forall_mem_map.mpr fun e _ => rfl⟩

/-- A predicate can become true if the action is compared with itself or with a variable. -/
theorem becomesTrue_successorBody_iff {proved : Term → Prop} {action : String} :
    BecomesTrue (stateName m p) (successorBody m p) proved action ↔
      ∃ e ∈ causes m p, m.nameOf e = action ∨ Identifier.isVariable (m.nameOf e) := by
  rw [BecomesTrue, disjuncts_successorBody]
  constructor
  · rintro ⟨goal, hgoal, hne, hsucceeds⟩
    obtain ⟨e, he, rfl⟩ := List.mem_map.mp ((List.mem_cons.mp hgoal).resolve_left hne)
    exact ⟨e, he, exists_succeeds_comparison_iff.mp hsucceeds⟩
  · rintro ⟨e, he, hname⟩
    refine ⟨_, List.mem_cons_of_mem _ (List.mem_map_of_mem he), ?_,
      exists_succeeds_comparison_iff.mpr hname⟩
    rintro ⟨⟩

section Valid
variable (hv : m.Valid)
include hv

theorem mem_causes_iff : e ∈ causes m p ↔ p ∈ m.turnsTrue e := by
  simp only [causes, List.mem_filter, decide_eq_true_eq, and_iff_right_iff_imp]
  intro hp
  obtain ⟨effect, he, _⟩ := Model.exists_of_mem_turnsTrue hp
  exact hv.mem_effects_iff.mpr (Model.role?_of_effect? he)

/-- A predicate has one successor clause. -/
theorem rule_holdsAfter_mem_iff (hp : m.role? p = some .predicate) {body : Term} :
    .rule (holdsAfter (stateName m p)) body ∈ m.predicates.flatMap (successorClauses m) ↔
      body = successorBody m p := by
  simp only [List.mem_flatMap, successorClauses_eq, List.mem_cons, List.not_mem_nil, or_false]
  constructor
  · rintro ⟨p', hp', hrule⟩
    have hrule := hrule.resolve_left fun hbefore => by
      simp [Clause.rule, holdsAfter, holdsIn, Term.applyWord, Term.apply] at hbefore
    obtain ⟨hhead, hbody⟩ := Clause.mk.inj hrule
    have hname : stateName m p = stateName m p' := (Term.compound.inj hhead).1
    have hp' := hv.mem_predicates_iff.mp hp'
    rw [stateName_inj hv.named (m.index_lt_of_role? hp) (m.index_lt_of_role? hp') hname]
    exact Option.some.inj hbody
  · rintro rfl
    exact ⟨p, hv.mem_predicates_iff.mpr hp, .inr rfl⟩

end Valid

end Golog

open Golog

/-- Each predicate has one successor clause. Apart from the predicate itself, something in it can
succeed for an effect exactly if the effect turns the predicate true, or if any effect does whose
name is a variable. -/
theorem becomesTrue_iff {text : String} {withSchema : Bool} {m : Model}
    (h : parseModel text withSchema = .ok m) :
    ∃ t, assemble m = .ok t ∧ ∀ p, m.role? p = some .predicate → ∃ body,
      (∀ body', .rule (holdsAfter (stateName m p)) body' ∈ t.clauses .successorState ↔
        body' = body) ∧
      ∀ proved e, m.role? e = some .effect →
        (BecomesTrue (stateName m p) body proved (m.nameOf e) ↔
          p ∈ m.turnsTrue e ∨
            ∃ e', p ∈ m.turnsTrue e' ∧ Identifier.isVariable (m.nameOf e')) := by
  have hv := valid_of_parseModel h
  obtain ⟨root, hroot⟩ := hv.exists_rootGoals
  refine ⟨translateFrom m root, assemble_eq_ok hroot, fun p hp => ⟨successorBody m p, ?_, ?_⟩⟩
  · rw [clauses_translateFrom rfl]
    exact fun _ => rule_holdsAfter_mem_iff hv hp
  · intro proved e he
    rw [becomesTrue_successorBody_iff]
    simp only [mem_causes_iff hv]
    constructor
    · rintro ⟨e', hp', hname | hvariable⟩
      · obtain ⟨effect, he', _⟩ := Model.exists_of_mem_turnsTrue hp'
        have heq : e' = e := hv.nameOf_inj (m.index_lt_of_role? (Model.role?_of_effect? he'))
          (m.index_lt_of_role? he) hname
        exact .inl (heq ▸ hp')
      · exact .inr ⟨e', hp', hvariable⟩
    · rintro (hp' | ⟨e', hp', hvariable⟩)
      · exact ⟨e, hp', .inl rfl⟩
      · exact ⟨e', hp', .inr hvariable⟩

/-! ## An effect with the name of a variable -/

/-- A lamp that goes on if pressing its switch works, and does not if that fails. -/
def Document.lamp : Document where
  name := "Lamp"
  actors := [{
    name := "Robot"
    predicates := ["lit"]
    stateVariables := []
    goals := [⟨"light", ["press"], []⟩]
    tasks := [⟨"press", [⟨"Works", .one, true, ["lit"]⟩, ⟨"fails", .one, false, []⟩]⟩]
    qualities := []
    conditions := [] }]
  crossRun := []
  exported := []
  initializations := []

/-- The text of `Document.lamp`. -/
def lampText : String := r#"{
  "name": "Lamp",
  "actors": [{
    "name": "Robot",
    "predicates": ["lit"],
    "goals": [{"name": "light", "and": ["press"]}],
    "tasks": [{"name": "press", "effects": [
      {"name": "Works", "probability": 1, "satisfying": true, "turnsTrue": ["lit"]},
      {"name": "fails", "probability": 1}]}]}]}"#

set_option maxRecDepth 10000 in
theorem parseModel_lampText : parseModel lampText true = .ok Document.lamp.linked := by
  have htext : lampText = String.ofList _ := rfl
  refine eq_ok_of_toOption ?_
  rw [htext, parseModel, Json.read?_ofList]
  decide +kernel

/-- In the program the lamp goes on when pressing its switch fails. -/
theorem lamp_lights_on_failure :
    parseModel lampText true = .ok Document.lamp.linked ∧
      ∃ t body, assemble Document.lamp.linked = .ok t ∧
        .rule (holdsAfter "lit_fl") body ∈ t.clauses .successorState ∧
        body.text = "lit_fl(S) ; A=Works" ∧ (∀ proved, BecomesTrue "lit_fl" body proved "fails") ∧
        Document.lamp.linked.role? ⟨4⟩ = some .effect ∧
        Document.lamp.linked.nameOf ⟨4⟩ = "fails" ∧
        ⟨0⟩ ∉ Document.lamp.linked.turnsTrue ⟨4⟩ := by
  have hv := valid_of_parseModel parseModel_lampText
  have hroot : Document.lamp.linked.rootGoals = [⟨1⟩] := by decide
  have hp : Document.lamp.linked.role? ⟨0⟩ = some .predicate := by decide
  have hstate : stateName Document.lamp.linked ⟨0⟩ = "lit_fl" := by decide
  have hfails : Document.lamp.linked.nameOf ⟨4⟩ = "fails" := by decide
  have hcause : ⟨3⟩ ∈ causes Document.lamp.linked ⟨0⟩ := by decide
  refine ⟨parseModel_lampText, translateFrom Document.lamp.linked ⟨1⟩,
    successorBody Document.lamp.linked ⟨0⟩, assemble_eq_ok hroot, ?_, by decide, fun proved => ?_,
    by decide, hfails, by decide⟩
  · rw [clauses_translateFrom rfl, ← hstate]
    exact (rule_holdsAfter_mem_iff hv hp).mpr rfl
  · rw [← hstate]
    exact becomesTrue_successorBody_iff.mpr ⟨⟨3⟩, hcause, .inr (by decide)⟩

theorem lamp_becomesTrue_iff : ∃ t, assemble Document.lamp.linked = .ok t ∧ ∃ body,
    .rule (holdsAfter (stateName Document.lamp.linked ⟨0⟩)) body ∈ t.clauses .successorState ∧
    ∀ proved, BecomesTrue (stateName Document.lamp.linked ⟨0⟩) body proved
        (Document.lamp.linked.nameOf ⟨4⟩) ↔
      ⟨0⟩ ∈ Document.lamp.linked.turnsTrue ⟨4⟩ ∨ ∃ e, ⟨0⟩ ∈ Document.lamp.linked.turnsTrue e ∧
        Identifier.isVariable (Document.lamp.linked.nameOf e) := by
  obtain ⟨t, ht, hpredicates⟩ := becomesTrue_iff parseModel_lampText
  obtain ⟨body, hbody, hbecomes⟩ := hpredicates ⟨0⟩ (by decide)
  exact ⟨t, ht, body, (hbody body).mpr rfl, fun proved => hbecomes proved ⟨4⟩ (by decide)⟩

end GoalModel
