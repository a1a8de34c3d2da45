import GoalModel.Model.Invariants
import Mathlib.Data.List.Basic

/-! # Renumbered models

A model is a renumbering of another one if an injective map on handles leads from the elements of
the one, their links and the lists of all actors together to those of the other
(`Model.Renumbers`). Neither the order of the elements nor their division among actors plays a part.

What is looked up in a model goes along with the handles, and so do walks through the tree. What is
said in names stays the same, such as the violated invariants
(`Model.Renumbers.invariantViolations`). -/

namespace GoalModel

section
variable (ρ : Handle → Handle)

def Formula.renumber (formula : Formula Handle) : Formula Handle :=
  formula.bind fun h => .atom (ρ h)

theorem Formula.renumber_atom (h : Handle) : (Formula.atom h).renumber ρ = .atom (ρ h) := rfl

theorem Formula.renumber_binary (op : BinaryOperator) (left right : Formula Handle) :
    (Formula.binary op left right).renumber ρ = .binary op (left.renumber ρ) (right.renumber ρ) :=
  rfl

theorem Formula.renumber_unary (op : UnaryOperator) (operand : Formula Handle) :
    (Formula.unary op operand).renumber ρ = .unary op (operand.renumber ρ) := rfl

def Decomposition.renumber (node : Decomposition) : Decomposition :=
  ⟨node.kind, node.children.map ρ, node.parent.map ρ⟩

def Task.renumber (task : Task) : Task := ⟨task.node.renumber ρ, task.effects.map ρ⟩

def Effect.renumber (effect : Effect) : Effect :=
  ⟨ρ effect.task, effect.probability, effect.satisfying, effect.turnsTrue.map ρ⟩

def Quality.renumber (quality : Quality) : Quality := ⟨quality.formula.renumber ρ, quality.root⟩

def ElementKind.renumber : ElementKind → ElementKind
  | .predicate => .predicate
  | .stateVariable => .stateVariable
  | .goal node => .goal (node.renumber ρ)
  | .task data => .task (data.renumber ρ)
  | .effect data => .effect (data.renumber ρ)
  | .quality data => .quality (data.renumber ρ)
  | .condition formula => .condition (formula.renumber ρ)

def Element.renumber (element : Element) : Element := ⟨element.name, element.kind.renumber ρ⟩

def Export.renumber (entry : Export) : Export := { entry with element := ρ entry.element }

def Initialization.renumber (entry : Initialization) : Initialization :=
  { entry with element := ρ entry.element }

end

/-- The handles of one model lead to those of another one, which is the same otherwise but for its
actors. -/
structure Model.Renumbers (ρ : Handle → Handle) (m m' : Model) : Prop where
  injective : Function.Injective ρ
  count : m'.elements.length = m.elements.length
  element? : ∀ h, m'.element? (ρ h) = (m.element? h).map (·.renumber ρ)
  predicates : m'.predicates = m.predicates.map ρ
  goals : m'.goals = m.goals.map ρ
  tasks : m'.tasks = m.tasks.map ρ
  qualities : m'.qualities = m.qualities.map ρ
  conditions : m'.conditions = m.conditions.map ρ
  crossRun : m'.crossRun = m.crossRun.map ρ
  exported : m'.exported = m.exported.map (·.renumber ρ)
  initializations : m'.initializations = m.initializations.map (·.renumber ρ)

namespace Model.Renumbers

variable {ρ : Handle → Handle} {m m' : Model} (r : Renumbers ρ m m')
include r

/-! ## Elements -/

theorem nameOf (h : Handle) : m'.nameOf (ρ h) = m.nameOf h := by
  rw [Model.nameOf, r.element?, Option.map_map]
  rfl

theorem role? (h : Handle) : m'.role? (ρ h) = m.role? h := by
  rw [Model.role?, r.element?, Option.map_map, Model.role?]
  refine congrArg (Option.map · _) (funext fun element => ?_)
  cases h : element.kind <;> simp [Element.renumber, ElementKind.renumber, ElementKind.role, h]

/-- What is looked up in elements goes along if it does in each element. -/
theorem bind_element? {α : Type} {get : Element → Option α} {renumber : α → α}
    (hget : ∀ name kind, get (Element.renumber ρ ⟨name, kind⟩) = (get ⟨name, kind⟩).map renumber)
    (h : Handle) : (m'.element? (ρ h)).bind get = ((m.element? h).bind get).map renumber := by
  rw [r.element?]
  cases m.element? h with
  | none => rfl
  | some element => exact hget element.name element.kind

theorem decomposition? (h : Handle) :
    m'.decomposition? (ρ h) = (m.decomposition? h).map (·.renumber ρ) :=
  r.bind_element? (fun _ kind => by cases kind <;> rfl) h

theorem task? (h : Handle) : m'.task? (ρ h) = (m.task? h).map (·.renumber ρ) :=
  r.bind_element? (fun _ kind => by cases kind <;> rfl) h

theorem effect? (h : Handle) : m'.effect? (ρ h) = (m.effect? h).map (·.renumber ρ) :=
  r.bind_element? (fun _ kind => by cases kind <;> rfl) h

theorem quality? (h : Handle) : m'.quality? (ρ h) = (m.quality? h).map (·.renumber ρ) :=
  r.bind_element? (fun _ kind => by cases kind <;> rfl) h

theorem condition? (h : Handle) : m'.condition? (ρ h) = (m.condition? h).map (·.renumber ρ) :=
  r.bind_element? (fun _ kind => by cases kind <;> rfl) h

theorem map_nameOf (hs : List Handle) : (hs.map ρ).map m'.nameOf = hs.map m.nameOf := by
  rw [List.map_map]
  exact List.map_congr_left fun h _ => r.nameOf h

theorem isCrossRun (h : Handle) : m'.isCrossRun (ρ h) = m.isCrossRun h := by
  simp only [Model.isCrossRun, r.crossRun, List.mem_map_of_injective r.injective]

theorem effectsOf (h : Handle) : m'.effectsOf (ρ h) = (m.effectsOf h).map ρ := by
  rw [Model.effectsOf, r.task?, Model.effectsOf]
  cases m.task? h <;> rfl

theorem turnsTrue (h : Handle) : m'.turnsTrue (ρ h) = (m.turnsTrue h).map ρ := by
  rw [Model.turnsTrue, r.effect?, Model.turnsTrue]
  cases m.effect? h <;> rfl

theorem effects : m'.effects = m.effects.map ρ := by
  rw [Model.effects, r.tasks, List.flatMap_map, Model.effects, List.map_flatMap]
  exact List.flatMap_congr fun t _ => r.effectsOf t

/-! ## The tree -/

theorem parent? (h : Handle) : m'.parent? (ρ h) = (m.parent? h).map ρ := by
  rw [Model.parent?, r.decomposition?, Model.parent?]
  cases m.decomposition? h <;> rfl

theorem children (h : Handle) : m'.children (ρ h) = (m.children h).map ρ := by
  rw [Model.children, r.decomposition?, Model.children]
  cases m.decomposition? h <;> rfl

theorem refinement (h : Handle) : m'.refinement (ρ h) = m.refinement h := by
  rw [Model.refinement, r.decomposition?, Model.refinement]
  cases m.decomposition? h <;> rfl

theorem siblings (h : Handle) : m'.siblings (ρ h) = (m.siblings h).map ρ := by
  rw [Model.siblings, r.parent?, Model.siblings]
  cases m.parent? h with
  | none => rfl
  | some up =>
    simp only [Option.map_some, r.children, List.filter_map, Function.comp_def, ne_eq,
      r.injective.eq_iff]

theorem upwardLinks (steps : Nat) (h : Handle) :
    m'.upwardLinks steps (ρ h) = (m.upwardLinks steps h).map (Prod.map ρ ρ) := by
  induction steps generalizing h with
  | zero => rfl
  | succ steps ih =>
    rw [Model.upwardLinks, r.parent?, Model.upwardLinks]
    cases m.parent? h with
    | none => rfl
    | some up => simp only [Option.map_some, ih, List.map_cons, Prod.map]

theorem competingAlternatives (h : Handle) :
    m'.competingAlternatives (ρ h) = (m.competingAlternatives h).map ρ := by
  rw [Model.competingAlternatives, r.count, r.upwardLinks, List.flatMap_map,
    Model.competingAlternatives, List.map_flatMap]
  refine List.flatMap_congr fun link _ => ?_
  simp only [Prod.map_fst, Prod.map_snd, r.refinement, r.siblings]
  split <;> rfl

theorem endsWithin (steps : Nat) (h : Handle) :
    m'.endsWithin steps (ρ h) = m.endsWithin steps h := by
  induction steps generalizing h with
  | zero => rfl
  | succ steps ih =>
    rw [Model.endsWithin, r.parent?, Model.endsWithin]
    cases m.parent? h with
    | none => rfl
    | some up => exact ih up

theorem hasCycleAbove (h : Handle) : m'.hasCycleAbove (ρ h) = m.hasCycleAbove h := by
  rw [Model.hasCycleAbove, r.count, r.endsWithin, Model.hasCycleAbove]

/-! ## Roots and invariants -/

theorem rootGoals : m'.rootGoals = m.rootGoals.map ρ := by
  rw [Model.rootGoals, r.goals, List.filter_map, Model.rootGoals]
  refine congrArg (List.map ρ) (List.filter_congr fun h _ => ?_)
  simp only [Function.comp_apply, r.decomposition?]
  cases m.decomposition? h with
  | none => rfl
  | some node => cases hparent : node.parent <;> simp [Decomposition.renumber, hparent]

theorem rootQuality? : m'.rootQuality? = m.rootQuality?.map ρ := by
  rw [Model.rootQuality?, r.qualities, List.find?_map, Model.rootQuality?]
  refine congrArg (Option.map ρ) (congrArg (List.find? · _) (funext fun h => ?_))
  simp only [Function.comp_apply, r.quality?]
  cases m.quality? h <;> rfl

theorem rootViolations : m'.rootViolations = m.rootViolations := by
  rw [Model.rootViolations, r.rootGoals, Model.rootViolations]
  match m.rootGoals with
  | [] => rfl
  | [_] => rfl
  | root :: root' :: rest =>
    have hnames := r.map_nameOf (root :: root' :: rest)
    exact congrArg (fun names => [InvariantViolation.severalRootGoals names]) hnames

theorem nodeViolations (h : Handle) : m'.nodeViolations (ρ h) = m.nodeViolations h := by
  rw [Model.nodeViolations, r.decomposition?, Model.nodeViolations]
  cases m.decomposition? h with
  | none => rfl
  | some node =>
    obtain ⟨kind, children, parent⟩ := node
    have hdown (child : Handle) : m'.parent? (ρ child) ≠ some (ρ h) ↔ m.parent? child ≠ some h := by
      rw [r.parent?, ← Option.map_some, (Option.map_injective r.injective).ne_iff]
    simp only [Option.map_some, Decomposition.renumber, r.nameOf, r.hasCycleAbove, List.filter_map,
      List.map_map, Function.comp_def, hdown, List.map_eq_nil_iff, List.length_map]
    cases parent with
    | none => rfl
    | some up =>
      simp only [Option.map_some, r.children, List.mem_map_of_injective r.injective, r.nameOf]

theorem invariantViolations : m'.invariantViolations = m.invariantViolations := by
  rw [Model.invariantViolations, r.rootViolations, r.goals, r.tasks, ← List.map_append,
    List.flatMap_map, Model.invariantViolations]
  exact congrArg (m.rootViolations ++ ·) (List.flatMap_congr fun h _ => r.nodeViolations h)

end Model.Renumbers

end GoalModel
