import GoalModel.Proofs.Linking.Claims

/-! # Well-formed documents

`Document.WellFormed` says what a document must keep so that it can be linked, in terms of the
names in it only: no handle, no order of declarations and no order of references plays a part.
The main statement is `Document.exists_link_eq_ok_iff`: linking accepts exactly the well-formed
documents. Declarations and references are checked apart; `Document.declarationErrors_eq_nil`
treats the former, and as soon as names are distinct a reference can be resolved exactly if the
name is declared with a role that fits (`Document.accepted?_isSome`). -/

namespace GoalModel

/-! ## Names that may be declared -/

namespace Identifier

/-- An identifier, `[A-Za-z_][A-Za-z0-9_]*`, that ends in no reserved ending. -/
structure Declarable (name : String) : Prop where
  shape : ∃ c cs, name.toList = c :: cs ∧
    (('A' ≤ c ∧ c ≤ 'Z') ∨ ('a' ≤ c ∧ c ≤ 'z') ∨ c = '_') ∧
    ∀ d ∈ cs, ('A' ≤ d ∧ d ≤ 'Z') ∨ ('a' ≤ d ∧ d ≤ 'z') ∨ d = '_' ∨ ('0' ≤ d ∧ d ≤ '9')
  unreserved : ∀ (ending : Ending) (stem : String), name ≠ stem ++ ending.text

theorem isValid_iff {name : String} :
    isValid name = true ↔ ∃ c cs, name.toList = c :: cs ∧
      (('A' ≤ c ∧ c ≤ 'Z') ∨ ('a' ≤ c ∧ c ≤ 'z') ∨ c = '_') ∧
      ∀ d ∈ cs, ('A' ≤ d ∧ d ≤ 'Z') ∨ ('a' ≤ d ∧ d ≤ 'z') ∨ d = '_' ∨ ('0' ≤ d ∧ d ≤ '9') := by
  unfold isValid
  cases name.toList with
  | nil => simp
  | cons c cs => simp [isStart, isPart, or_assoc]

theorem Ending.ends_iff {ending : Ending} {name : String} :
    ending.ends name = true ↔ ∃ stem, name = stem ++ ending.text := by
  rw [Ending.ends, List.isSuffixOf_iff_suffix]
  constructor
  · rintro ⟨cs, hcs⟩
    exact ⟨String.ofList cs, String.toList_injective (by simpa using hcs.symm)⟩
  · rintro ⟨stem, rfl⟩
    exact ⟨stem.toList, by simp⟩

theorem reservedEnding?_eq_none {name : String} :
    reservedEnding? name = none ↔ ∀ (ending : Ending) (stem : String),
      name ≠ stem ++ ending.text := by
  have hall (ending : Ending) : ending ∈ Ending.all := by cases ending <;> decide
  simp only [reservedEnding?, List.find?_eq_none, Ending.ends_iff, not_exists]
  exact ⟨fun h ending => h ending (hall ending), fun h ending _ => h ending⟩

theorem declarable_iff {name : String} :
    Declarable name ↔ isValid name = true ∧ reservedEnding? name = none := by
  rw [isValid_iff, reservedEnding?_eq_none]
  exact ⟨fun h => ⟨h.1, h.2⟩, fun h => ⟨h.1, h.2⟩⟩

theorem nameErrors_eq_nil {seen : List String} {name : String} :
    nameErrors seen name = [] ↔ Declarable name ∧ name ∉ seen := by
  rw [declarable_iff, and_assoc]
  unfold nameErrors
  cases reservedEnding? name <;> simp

end Identifier

/-! ## The entries of a document -/

namespace ActorEntry

variable (actor : ActorEntry)

def effects : List EffectEntry := actor.tasks.flatMap (·.effects)

def formulas : List (Formula String) :=
  actor.qualities.map (·.formula) ++ actor.conditions.map (·.formula)

/-- The names that an actor declares, each with its role. -/
def declared : List (String × Role) :=
  actor.predicates.map (·, .predicate) ++
  actor.stateVariables.map (·, .stateVariable) ++
  actor.goals.map (·.name, .goal) ++
  (actor.tasks.flatMap fun task => (task.name, .task) :: task.effects.map (·.name, .effect)) ++
  actor.qualities.map (·.name, .quality) ++
  actor.conditions.map (·.name, .condition)

end ActorEntry

namespace Document

variable (document : Document)

def goals : List GoalEntry := document.actors.flatMap (·.goals)

def effects : List EffectEntry := document.actors.flatMap (·.effects)

def qualities : List QualityEntry := document.actors.flatMap (·.qualities)

def formulas : List (Formula String) := document.actors.flatMap (·.formulas)

/-- The names that a document declares, each with its role. -/
def declared : List (String × Role) := document.actors.flatMap (·.declared)

def declaredNames : List String := document.declared.map (·.1)

/-- The names of the children of all goals. -/
def childNames : List String := document.goals.flatMap (·.children)

/-- A declared name of something other than an effect. -/
def Stateful (name : String) : Prop := ∃ role, (name, role) ∈ document.declared ∧ role ≠ .effect

/-- What a document must keep so that it can be linked. -/
structure WellFormed : Prop where
  declarable : ∀ name ∈ document.declaredNames, Identifier.Declarable name
  distinct : document.declaredNames.Nodup
  probabilities : ∀ effect ∈ document.effects,
    Number.zero.lt effect.probability ∧ effect.probability.le .one
  /-- No goal is refined in both ways. -/
  oneWay : ∀ goal ∈ document.goals, goal.and = [] ∨ goal.or = []
  children : ∀ name ∈ document.childNames,
    (name, .goal) ∈ document.declared ∨ (name, .task) ∈ document.declared
  /-- No goal or task is a child twice, whether of one goal or of two. -/
  oneParent : document.childNames.Nodup
  turnsTrue : ∀ effect ∈ document.effects, effect.turnsTrue.Nodup ∧
    ∀ name ∈ effect.turnsTrue, (name, .predicate) ∈ document.declared
  atoms : ∀ formula ∈ document.formulas, ∀ name ∈ formula.atoms, name ∈ document.declaredNames
  oneRoot : (document.qualities.filter (·.root)).length ≤ 1
  crossRun : document.crossRun.Nodup ∧ ∀ name ∈ document.crossRun, document.Stateful name
  exported : ∀ entry ∈ document.exported, document.Stateful entry.name ∧
    ∀ min ∈ entry.min, ∀ max ∈ entry.max, ¬max.lt min
  initializations : ∀ entry ∈ document.initializations, document.Stateful entry.name

end Document

/-! ## Declarations by entries -/

theorem TaskEntry.map_declarations {base : Nat} {tasks : List TaskEntry} :
    (TaskEntry.declarations base tasks).map (fun d => (d.name, d.role)) =
      tasks.flatMap fun task => (task.name, .task) :: task.effects.map (·.name, .effect) := by
  induction tasks generalizing base with
  | nil => rfl
  | cons task rest ih =>
    simp only [TaskEntry.declarations, List.map_append, List.map_cons, List.map_map, ih,
      List.flatMap_cons]
    rfl

theorem ActorEntry.map_declarations {base : Nat} {actor : ActorEntry} :
    (actor.declarations base).map (fun d => (d.name, d.role)) = actor.declared := by
  simp only [ActorEntry.declarations, List.map_append, List.map_map, TaskEntry.map_declarations]
  rfl

theorem ActorEntry.map_allDeclarations {base : Nat} {actors : List ActorEntry} :
    (allDeclarations base actors).map (fun d => (d.name, d.role)) =
      actors.flatMap (·.declared) := by
  induction actors generalizing base with
  | nil => rfl
  | cons actor rest ih =>
    simp only [allDeclarations, List.map_append, ActorEntry.map_declarations, ih,
      List.flatMap_cons]

theorem Document.declared_scope {document : Document} :
    document.scope.declared = document.declared := ActorEntry.map_allDeclarations

theorem Document.map_name_declarations {document : Document} :
    document.declarations.map (·.name) = document.declaredNames := by
  rw [declaredNames, ← declared_scope, scope, List.map_map]
  rfl

/-- The effect that a declaration declares. -/
def Declaration.effect? : Declaration → Option EffectEntry
  | .effect _ entry => some entry
  | _ => none

theorem TaskEntry.filterMap_effect? {base : Nat} {tasks : List TaskEntry} :
    (TaskEntry.declarations base tasks).filterMap Declaration.effect? =
      tasks.flatMap (·.effects) := by
  induction tasks generalizing base with
  | nil => rfl
  | cons task rest ih =>
    have heffects : (task.effects.map (Declaration.effect ⟨base⟩)).filterMap Declaration.effect? =
        task.effects := by
      rw [List.filterMap_map]
      exact List.filterMap_some
    rw [TaskEntry.declarations, List.filterMap_append, ih, List.filterMap_cons_none rfl, heffects]
    rfl

theorem ActorEntry.filterMap_effect? {base : Nat} {actors : List ActorEntry} :
    (allDeclarations base actors).filterMap Declaration.effect? =
      actors.flatMap (·.effects) := by
  have hnone {α : Type} {f : α → Declaration} (xs : List α) (hf : ∀ x, (f x).effect? = none) :
      (xs.map f).filterMap Declaration.effect? = [] := by
    rw [List.filterMap_map]
    exact List.filterMap_eq_nil_iff.mpr fun x _ => hf x
  induction actors generalizing base with
  | nil => rfl
  | cons actor rest ih =>
    simp only [allDeclarations, declarations, List.filterMap_append, TaskEntry.filterMap_effect?,
      ih, List.flatMap_cons]
    rw [hnone _ fun _ => rfl, hnone _ fun _ => rfl, hnone _ fun _ => rfl, hnone _ fun _ => rfl,
      hnone _ fun _ => rfl]
    simp [effects]

theorem Document.filterMap_effect? {document : Document} :
    document.declarations.filterMap Declaration.effect? = document.effects :=
  ActorEntry.filterMap_effect?

theorem Document.map_snd_numberedGoals {document : Document} :
    document.numberedGoals.map Prod.snd = document.goals := by
  have hactors (base : Nat) (actors : List ActorEntry) :
      (GoalModel.numberedGoals base (ActorEntry.allDeclarations base actors)).map Prod.snd =
        actors.flatMap (·.goals) := by
    induction actors generalizing base with
    | nil => rfl
    | cons actor rest ih =>
      have hlen : (actor.declarations base).length = actor.size :=
        ActorEntry.length_declarations base 0 actor
      rw [ActorEntry.allDeclarations, numberedGoals_append, hlen, List.map_append, ih,
        ActorEntry.numberedGoals_declarations, List.map_snd_zip (by simp), List.flatMap_cons]
  exact hactors 0 document.actors

/-! ## Errors of declarations -/

theorem Declaration.errors_eq_nil {seen : List String} {d : Declaration} :
    d.errors seen = [] ↔ (∀ effect ∈ d.effect?, isProbability effect.probability) ∧
      Identifier.Declarable d.name ∧ d.name ∉ seen := by
  unfold Declaration.errors
  rw [List.append_eq_nil_iff, Identifier.nameErrors_eq_nil]
  refine and_congr_left fun _ => ?_
  cases d <;> simp [effect?]

theorem declarationErrors_eq_nil {seen : List String} {ds : List Declaration} :
    declarationErrors seen ds = [] ↔
      (∀ effect ∈ ds.filterMap Declaration.effect?, isProbability effect.probability) ∧
        (∀ name ∈ ds.map (·.name), Identifier.Declarable name ∧ name ∉ seen) ∧
          (ds.map (·.name)).Nodup := by
  induction ds generalizing seen with
  | nil => simp [declarationErrors]
  | cons d rest ih =>
    rw [declarationErrors, List.append_eq_nil_iff, ih, Declaration.errors_eq_nil]
    simp only [List.mem_filterMap, List.mem_cons, List.map_cons, List.nodup_cons, not_or,
      exists_eq_or_imp, or_imp, forall_and, forall_eq, Option.mem_def]
    constructor
    · rintro ⟨⟨hprob, hdecl, hseen⟩, hprobs, ⟨hdecls, hne, hseens⟩, hnd⟩
      exact ⟨⟨hprob, hprobs⟩, ⟨⟨hdecl, hdecls⟩, hseen, hseens⟩, fun h => hne _ h rfl, hnd⟩
    · rintro ⟨⟨hprob, hprobs⟩, ⟨⟨hdecl, hdecls⟩, hseen, hseens⟩, hne, hnd⟩
      exact ⟨⟨hprob, hdecl, hseen⟩, hprobs, ⟨hdecls, fun _ h he => hne (he ▸ h), hseens⟩, hnd⟩

namespace Document

variable {document : Document}

theorem declarationErrors_eq_nil :
    GoalModel.declarationErrors [] document.declarations = [] ↔
      (∀ effect ∈ document.effects,
          Number.zero.lt effect.probability ∧ effect.probability.le .one) ∧
        (∀ name ∈ document.declaredNames, Identifier.Declarable name) ∧
          document.declaredNames.Nodup := by
  rw [GoalModel.declarationErrors_eq_nil, filterMap_effect?, map_name_declarations]
  simp [isProbability]

/-! ## Errors of references -/

theorem resolve?_isSome {name : String} :
    (document.scope.resolve? name).isSome ↔ name ∈ document.declaredNames := by
  rw [Scope.resolve?_isSome, declared_scope]
  rfl

theorem referenceErrors_eq_nil {actor : ActorEntry} {scope : Scope} :
    actor.referenceErrors scope = [] ↔
      (∀ effect ∈ actor.effects, effect.turnsTrue.Nodup ∧
        ∀ name ∈ effect.turnsTrue, (scope.accepted? .predicate name).isSome) ∧
      ∀ formula ∈ actor.formulas, ∀ name ∈ formula.atoms, (scope.resolve? name).isSome := by
  simp only [ActorEntry.referenceErrors, List.append_eq_nil_iff, List.flatMap_eq_nil_iff,
    EffectEntry.linkTurnsTrue, Scope.distinctHandles_errors_eq_nil, Scope.formulaErrors_eq_nil,
    and_assoc]
  refine and_congr (forall₂_congr fun _ _ => and_comm) ?_
  simp [ActorEntry.formulas, or_imp, forall_and]

theorem rootQualityErrors_eq_nil :
    document.rootQualityErrors = [] ↔ (document.qualities.filter (·.root)).length ≤ 1 := by
  simp [rootQualityErrors, qualities, List.filter_flatMap]

theorem refines_iff :
    (∀ g ∈ document.numberedGoals, g.2.Refines document.scope) ↔
      (∀ goal ∈ document.goals, goal.and = [] ∨ goal.or = []) ∧
        ∀ name ∈ document.childNames, (document.scope.accepted? .node name).isSome := by
  simp only [childNames, ← map_snd_numberedGoals, List.mem_flatMap, List.mem_map]
  constructor
  · intro h
    constructor
    · rintro _ ⟨g, hg, rfl⟩
      exact (h g hg).oneWay
    · rintro name ⟨_, ⟨g, hg, rfl⟩, hname⟩
      exact (h g hg).children name hname
  · rintro ⟨hway, hchildren⟩ g hg
    exact ⟨hway _ ⟨g, hg, rfl⟩, fun name hname => hchildren name ⟨_, ⟨g, hg, rfl⟩, hname⟩⟩

theorem nodup_requested
    (hall : ∀ name ∈ document.childNames, (document.scope.accepted? .node name).isSome) :
    ((Claims.requested document.scope document.numberedGoals).map Prod.fst).Nodup ↔
      document.childNames.Nodup := by
  have hnames : document.numberedGoals.flatMap (·.2.children) = document.childNames := by
    rw [childNames, ← map_snd_numberedGoals, List.flatMap_map]
  rw [Claims.map_fst_requested, hnames]
  exact Scope.nodup_of_map_accepted? (Scope.map_accepted?_eq_map_some hall)

section Distinct
variable (hnd : document.declaredNames.Nodup)
include hnd

theorem nodup_scope : (document.scope.declared.map Prod.fst).Nodup := by
  rw [declared_scope]
  exact hnd

theorem accepted?_isSome {requirement : Requirement} {name : String} :
    (document.scope.accepted? requirement name).isSome ↔
      ∃ role, (name, role) ∈ document.declared ∧ requirement.accepts role := by
  rw [Option.isSome_iff_exists, Scope.exists_accepted? (nodup_scope hnd), declared_scope]

theorem accepted?_node_isSome {name : String} :
    (document.scope.accepted? .node name).isSome ↔
      (name, .goal) ∈ document.declared ∨ (name, .task) ∈ document.declared := by
  simp only [accepted?_isSome hnd, Requirement.accepts, decide_eq_true_eq, and_or_left,
    exists_or, exists_eq_right]

theorem accepted?_predicate_isSome {name : String} :
    (document.scope.accepted? .predicate name).isSome ↔
      (name, .predicate) ∈ document.declared := by
  simp only [accepted?_isSome hnd, Requirement.accepts, decide_eq_true_eq, exists_eq_right]

theorem accepted?_stateful_isSome {name : String} :
    (document.scope.accepted? .stateful name).isSome ↔ document.Stateful name := by
  simp only [accepted?_isSome hnd, Requirement.accepts, decide_eq_true_eq, Stateful]

theorem linkActors_errors_eq_nil_iff :
    document.linkActors.2 = [] ↔
      ((∀ goal ∈ document.goals, goal.and = [] ∨ goal.or = []) ∧
        (∀ name ∈ document.childNames,
          (name, .goal) ∈ document.declared ∨ (name, .task) ∈ document.declared) ∧
        document.childNames.Nodup) ∧
      (∀ effect ∈ document.effects, effect.turnsTrue.Nodup ∧
        ∀ name ∈ effect.turnsTrue, (name, .predicate) ∈ document.declared) ∧
      ∀ formula ∈ document.formulas, ∀ name ∈ formula.atoms, name ∈ document.declaredNames := by
  rw [linkActors_errors_eq_nil, refines_iff, ← and_assoc]
  refine and_congr ?_ ?_
  · rw [and_assoc]
    refine and_congr_right fun _ => ?_
    rw [and_congr_right nodup_requested]
    simp only [accepted?_node_isSome hnd]
  · simp only [referenceErrors_eq_nil, accepted?_predicate_isSome hnd, resolve?_isSome,
      effects, formulas, List.mem_flatMap]
    constructor
    · intro h
      constructor
      · rintro effect ⟨actor, hactor, heffect⟩
        exact (h actor hactor).1 effect heffect
      · rintro formula ⟨actor, hactor, hformula⟩
        exact (h actor hactor).2 formula hformula
    · rintro ⟨heffects, hformulas⟩ actor hactor
      exact ⟨fun effect h => heffects effect ⟨actor, hactor, h⟩,
        fun formula h => hformulas formula ⟨actor, hactor, h⟩⟩

theorem linkCrossRun_errors_eq_nil :
    document.linkCrossRun.2 = [] ↔
      document.crossRun.Nodup ∧ ∀ name ∈ document.crossRun, document.Stateful name := by
  simp only [linkCrossRun, Scope.distinctHandles_errors_eq_nil, accepted?_stateful_isSome hnd,
    and_comm]

theorem linkErrors_of_export {entry : ExportEntry} :
    entry.linkErrors document.scope = [] ↔ document.Stateful entry.name ∧
      ∀ min ∈ entry.min, ∀ max ∈ entry.max, ¬max.lt min := by
  rw [← accepted?_stateful_isSome hnd, Option.isSome_iff_exists]
  simp only [← @Scope.resolveAs_eq_ok _ _ _ _ .exported]
  unfold ExportEntry.linkErrors
  cases document.scope.resolveAs .exported .stateful entry.name with
  | error e => simp
  | ok h => cases entry.min <;> cases entry.max <;> simp

theorem linkErrors_of_initial {entry : InitialEntry} :
    entry.linkErrors document.scope = [] ↔ document.Stateful entry.name := by
  rw [← accepted?_stateful_isSome hnd, Option.isSome_iff_exists]
  simp only [← @Scope.resolveAs_eq_ok _ _ _ _ .initializations]
  unfold InitialEntry.linkErrors
  cases document.scope.resolveAs .initializations .stateful entry.name <;> simp

end Distinct

theorem linkErrors_eq_nil : document.linkErrors = [] ↔ document.WellFormed := by
  simp only [linkErrors, List.append_eq_nil_iff, and_assoc, List.flatMap_eq_nil_iff]
  rw [declarationErrors_eq_nil]
  constructor
  · rintro ⟨⟨hprob, hdecl, hnd⟩, hactors, hroot, hcross, hexported, hinit⟩
    obtain ⟨⟨hway, hchildren, hparent⟩, htrue, hatoms⟩ :=
      (linkActors_errors_eq_nil_iff hnd).mp hactors
    exact {
      declarable := hdecl
      distinct := hnd
      probabilities := hprob
      oneWay := hway
      children := hchildren
      oneParent := hparent
      turnsTrue := htrue
      atoms := hatoms
      oneRoot := rootQualityErrors_eq_nil.mp hroot
      crossRun := (linkCrossRun_errors_eq_nil hnd).mp hcross
      exported := fun entry h => (linkErrors_of_export hnd).mp (hexported entry h)
      initializations := fun entry h => (linkErrors_of_initial hnd).mp (hinit entry h) }
  · intro h
    have hnd := h.distinct
    exact ⟨⟨h.probabilities, h.declarable, hnd⟩,
      (linkActors_errors_eq_nil_iff hnd).mpr
        ⟨⟨h.oneWay, h.children, h.oneParent⟩, h.turnsTrue, h.atoms⟩,
      rootQualityErrors_eq_nil.mpr h.oneRoot,
      (linkCrossRun_errors_eq_nil hnd).mpr h.crossRun,
      fun entry he => (linkErrors_of_export hnd).mpr (h.exported entry he),
      fun entry he => (linkErrors_of_initial hnd).mpr (h.initializations entry he)⟩

/-- Linking accepts exactly the well-formed documents. -/
theorem exists_link_eq_ok_iff : (∃ m, document.link = .ok m) ↔ document.WellFormed := by
  rw [← linkErrors_eq_nil, link]
  cases document.linkErrors <;> simp

end Document

end GoalModel
