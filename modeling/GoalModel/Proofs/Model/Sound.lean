import GoalModel.Model.Invariants
import GoalModel.Proofs.Linking.Layout

/-! # Sound models

`Model.Sound` collects what holds of a model as linking builds it: its actors list every element
once and with the role of the list, its handles lead to elements, and the links that are stored
at both ends agree. Editing may break any of it.

In a sound model the elements of a role are the listed ones (`Model.Listed.mem_goals_iff` and the
like), and of the invariants only those on roots and cycles can be violated
(`Model.Sound.invariantViolations`). -/

namespace GoalModel

/-! ## Handles stored in a model -/

def Decomposition.references (node : Decomposition) : List Handle :=
  node.children ++ node.parent.toList

def ElementKind.references : ElementKind → List Handle
  | .predicate => []
  | .stateVariable => []
  | .goal node => node.references
  | .task t => t.node.references ++ t.effects
  | .effect e => e.task :: e.turnsTrue
  | .quality q => q.formula.atoms
  | .condition formula => formula.atoms

def Actor.references (actor : Actor) : List Handle :=
  actor.predicates ++ actor.stateVariables ++ actor.goals ++ actor.tasks ++ actor.qualities ++
  actor.conditions

namespace Model

/-- Every handle that is stored somewhere in a model. -/
def references (m : Model) : List Handle :=
  m.elements.flatMap (·.kind.references) ++ m.actors.flatMap (·.references) ++ m.crossRun ++
  m.exported.map (·.element) ++ m.initializations.map (·.element)

/-- The elements of all actors in the order of declaration, each task followed by its
effects. -/
def listing (m : Model) : List Handle := m.actors.flatMap (·.listed m.effectsOf)

/-- What an actor lists has the role of the list. -/
structure ListsRoles (m : Model) (actor : Actor) : Prop where
  predicates : ∀ h ∈ actor.predicates, m.role? h = some .predicate
  stateVariables : ∀ h ∈ actor.stateVariables, m.role? h = some .stateVariable
  goals : ∀ h ∈ actor.goals, m.role? h = some .goal
  tasks : ∀ h ∈ actor.tasks, m.role? h = some .task
  effects : ∀ t ∈ actor.tasks, ∀ h ∈ m.effectsOf t, m.role? h = some .effect
  qualities : ∀ h ∈ actor.qualities, m.role? h = some .quality
  conditions : ∀ h ∈ actor.conditions, m.role? h = some .condition

/-- The actors list every element once, in the order of the handles and by role. -/
structure Listed (m : Model) : Prop where
  listing : m.listing = Handle.range 0 m.elements.length
  roles : ∀ actor ∈ m.actors, m.ListsRoles actor

/-- The links of a model are what linking makes them. -/
structure Sound (m : Model) : Prop extends m.Listed where
  inRange : ∀ h ∈ m.references, h.index < m.elements.length
  /-- Child and parent links agree. -/
  children : ∀ g c, c ∈ m.children g ↔ m.parent? c = some g
  nodup_children : ∀ g, (m.children g).Nodup
  leaf : ∀ h, ∀ node ∈ m.decomposition? h, node.kind = .leaf ↔ node.children = []
  tasks : ∀ t, m.role? t = some .task → m.children t = []
  /-- Tasks and effects point to each other. -/
  effects : ∀ t e, e ∈ m.effectsOf t ↔ (m.effect? e).map (·.task) = some t
  nodup_turnsTrue : ∀ e, (m.turnsTrue e).Nodup
  turnsTrue : ∀ e, ∀ p ∈ m.turnsTrue e, m.role? p = some .predicate
  nodup_crossRun : m.crossRun.Nodup

/-! ## Elements of a role -/

section Roles
variable {m : Model} {h : Handle}

/-- What is found in an element tells its kind. -/
theorem kind_of_bind {α : Type} {get : Element → Option α} {make : α → ElementKind} {a : α}
    (hget : ∀ name kind, get ⟨name, kind⟩ = some a → kind = make a)
    (ha : (m.element? h).bind get = some a) : (m.element? h).map (·.kind) = some (make a) := by
  obtain ⟨element, he, ha⟩ := Option.bind_eq_some_iff.mp ha
  rw [he]
  exact congrArg some (hget element.name element.kind ha)

theorem kind_of_task? {task : Task} (ht : m.task? h = some task) :
    (m.element? h).map (·.kind) = some (.task task) :=
  kind_of_bind (fun _ kind ha => by cases kind <;> cases ha; rfl) ht

theorem role?_eq_map_kind : m.role? h = ((m.element? h).map (·.kind)).map (·.role) := by
  rw [Option.map_map]
  rfl

theorem role?_of_task? {task : Task} (ht : m.task? h = some task) : m.role? h = some .task := by
  rw [role?_eq_map_kind, kind_of_task? ht]
  rfl

theorem exists_task? (hr : m.role? h = some .task) : ∃ task, m.task? h = some task := by
  obtain ⟨⟨name, kind⟩, he, hrole⟩ := Option.map_eq_some_iff.mp hr
  cases kind <;> cases hrole
  exact ⟨_, by rw [task?, he]; rfl⟩

theorem kind_of_goal (hr : m.role? h = some .goal) :
    ∃ node, (m.element? h).map (·.kind) = some (.goal node) ∧ m.decomposition? h = some node := by
  obtain ⟨⟨name, kind⟩, he, hrole⟩ := Option.map_eq_some_iff.mp hr
  cases kind <;> cases hrole
  exact ⟨_, by rw [he]; rfl, by rw [decomposition?, he]; rfl⟩

theorem kind_of_effect? {effect : Effect} (hf : m.effect? h = some effect) :
    (m.element? h).map (·.kind) = some (.effect effect) :=
  kind_of_bind (fun _ kind ha => by cases kind <;> cases ha; rfl) hf

theorem role?_of_effect? {effect : Effect} (hf : m.effect? h = some effect) :
    m.role? h = some .effect := by
  rw [role?_eq_map_kind, kind_of_effect? hf]
  rfl

theorem exists_effect? (hr : m.role? h = some .effect) : ∃ effect, m.effect? h = some effect := by
  obtain ⟨⟨name, kind⟩, he, hrole⟩ := Option.map_eq_some_iff.mp hr
  cases kind <;> cases hrole
  exact ⟨_, by rw [effect?, he]; rfl⟩

theorem kind_of_quality? {data : Quality} (hq : m.quality? h = some data) :
    (m.element? h).map (·.kind) = some (.quality data) :=
  kind_of_bind (fun _ kind ha => by cases kind <;> cases ha; rfl) hq

theorem role?_of_quality? {data : Quality} (hq : m.quality? h = some data) :
    m.role? h = some .quality := by
  rw [role?_eq_map_kind, kind_of_quality? hq]
  rfl

theorem exists_quality? (hr : m.role? h = some .quality) : ∃ data, m.quality? h = some data := by
  obtain ⟨⟨name, kind⟩, he, hrole⟩ := Option.map_eq_some_iff.mp hr
  cases kind <;> cases hrole
  exact ⟨_, by rw [quality?, he]; rfl⟩

theorem kind_of_condition? {formula : Formula Handle} (hc : m.condition? h = some formula) :
    (m.element? h).map (·.kind) = some (.condition formula) :=
  kind_of_bind (fun _ kind ha => by cases kind <;> cases ha; rfl) hc

theorem role?_of_condition? {formula : Formula Handle} (hc : m.condition? h = some formula) :
    m.role? h = some .condition := by
  rw [role?_eq_map_kind, kind_of_condition? hc]
  rfl

theorem exists_condition? (hr : m.role? h = some .condition) :
    ∃ formula, m.condition? h = some formula := by
  obtain ⟨⟨name, kind⟩, he, hrole⟩ := Option.map_eq_some_iff.mp hr
  cases kind <;> cases hrole
  exact ⟨_, by rw [condition?, he]; rfl⟩

theorem role?_of_decomposition? {node : Decomposition} (hn : m.decomposition? h = some node) :
    m.role? h = some .goal ∨ m.role? h = some .task := by
  obtain ⟨element, he, hn⟩ := Option.bind_eq_some_iff.mp hn
  rw [role?, he]
  unfold Element.decomposition? at hn
  split at hn
  · next hk => rw [Option.map_some, hk]; exact .inl rfl
  · next hk => rw [Option.map_some, hk]; exact .inr rfl
  · cases hn

theorem exists_decomposition? (hr : m.role? h = some .goal ∨ m.role? h = some .task) :
    ∃ node, m.decomposition? h = some node := by
  rw [← Option.isSome_iff_exists]
  cases he : m.element? h with
  | none => simp [role?, he] at hr
  | some element =>
    obtain ⟨name, kind⟩ := element
    cases kind <;> simp [role?, he, ElementKind.role] at hr <;>
      simp [decomposition?, he, Element.decomposition?]

theorem decomposition?_of_task? {task : Task} (ht : m.task? h = some task) :
    m.decomposition? h = some task.node := by
  obtain ⟨element, he, hkind⟩ := Option.map_eq_some_iff.mp (kind_of_task? ht)
  rw [decomposition?, he, Option.bind_some, Element.decomposition?, hkind]

theorem children_eq {node : Decomposition} (hnode : m.decomposition? h = some node) :
    m.children h = node.children := by
  simp [children, hnode]

theorem parent?_eq {node : Decomposition} (hnode : m.decomposition? h = some node) :
    m.parent? h = node.parent := by
  simp [parent?, hnode]

theorem refinement_eq {node : Decomposition} (hnode : m.decomposition? h = some node) :
    m.refinement h = node.kind := by
  simp [refinement, hnode]

theorem effectsOf_eq {task : Task} (ht : m.task? h = some task) :
    m.effectsOf h = task.effects := by
  simp [effectsOf, ht]

theorem turnsTrue_eq {effect : Effect} (hf : m.effect? h = some effect) :
    m.turnsTrue h = effect.turnsTrue := by
  simp [turnsTrue, hf]

theorem task?_of_mem_effectsOf {e : Handle} (he : e ∈ m.effectsOf h) :
    ∃ task, m.task? h = some task ∧ e ∈ task.effects := by
  cases ht : m.task? h with
  | none => simp [effectsOf, ht] at he
  | some task => exact ⟨task, rfl, effectsOf_eq ht ▸ he⟩

theorem exists_of_mem_turnsTrue {p : Handle} (hp : p ∈ m.turnsTrue h) :
    ∃ effect, m.effect? h = some effect ∧ p ∈ effect.turnsTrue := by
  cases hf : m.effect? h with
  | none => simp [turnsTrue, hf] at hp
  | some effect => exact ⟨effect, rfl, turnsTrue_eq hf ▸ hp⟩

theorem exists_of_mem_children {c : Handle} (hc : c ∈ m.children h) :
    ∃ node, m.decomposition? h = some node ∧ c ∈ node.children := by
  cases hn : m.decomposition? h with
  | none => simp [children, hn] at hc
  | some node => exact ⟨node, rfl, children_eq hn ▸ hc⟩

theorem exists_of_parent? {g : Handle} (hp : m.parent? h = some g) :
    ∃ node, m.decomposition? h = some node ∧ node.parent = some g :=
  Option.bind_eq_some_iff.mp hp

end Roles

theorem index_lt_of_role? (m : Model) {h : Handle} {role : Role} (hr : m.role? h = some role) :
    h.index < m.elements.length := by
  obtain ⟨_, he, _⟩ := Option.map_eq_some_iff.mp hr
  exact (List.getElem?_eq_some_iff.mp he).1

theorem index_lt_of_node (m : Model) {h : Handle}
    (hr : m.role? h = some .goal ∨ m.role? h = some .task) : h.index < m.elements.length :=
  hr.elim m.index_lt_of_role? m.index_lt_of_role?

/-! ## Listed elements -/

namespace Listed

variable {m : Model} {h : Handle}

theorem exists_listed (hs : m.Listed) (hlt : h.index < m.elements.length) :
    ∃ actor ∈ m.actors, h ∈ actor.listed m.effectsOf := by
  have : h ∈ m.listing := by
    rw [hs.listing]
    exact Handle.mem_range.mpr ⟨Nat.zero_le _, by simpa using hlt⟩
  exact List.mem_flatMap.mp this

/-- An element stands in the list of an actor that its role belongs to. -/
theorem exists_mem_list (hs : m.Listed) {role : Role} (hr : m.role? h = some role) :
    ∃ actor ∈ m.actors, h ∈ match role with
      | .predicate => actor.predicates
      | .stateVariable => actor.stateVariables
      | .goal => actor.goals
      | .task => actor.tasks
      | .effect => actor.tasks.flatMap m.effectsOf
      | .quality => actor.qualities
      | .condition => actor.conditions := by
  obtain ⟨actor, hactor, hlisted⟩ := hs.exists_listed (m.index_lt_of_role? hr)
  refine ⟨actor, hactor, ?_⟩
  have hroles := hs.roles actor hactor
  simp only [Actor.listed, List.mem_append, List.mem_flatMap, List.mem_cons] at hlisted
  rcases hlisted with ((((hp | hv) | hg) | ⟨t, ht, rfl | he⟩) | hq) | hc
  · cases hr.symm.trans (hroles.predicates h hp); exact hp
  · cases hr.symm.trans (hroles.stateVariables h hv); exact hv
  · cases hr.symm.trans (hroles.goals h hg); exact hg
  · cases hr.symm.trans (hroles.tasks h ht); exact ht
  · cases hr.symm.trans (hroles.effects t ht h he); exact List.mem_flatMap.mpr ⟨t, ht, he⟩
  · cases hr.symm.trans (hroles.qualities h hq); exact hq
  · cases hr.symm.trans (hroles.conditions h hc); exact hc

theorem mem_flatMap_iff {role : Role} {list : Actor → List Handle}
    (hrole : ∀ actor ∈ m.actors, ∀ h ∈ list actor, m.role? h = some role)
    (hlist : m.role? h = some role → ∃ actor ∈ m.actors, h ∈ list actor) :
    h ∈ m.actors.flatMap list ↔ m.role? h = some role := by
  rw [List.mem_flatMap]
  exact ⟨fun ⟨actor, hactor, hh⟩ => hrole actor hactor h hh, hlist⟩

theorem mem_predicates_iff (hs : m.Listed) : h ∈ m.predicates ↔ m.role? h = some .predicate :=
  mem_flatMap_iff (fun actor hactor => (hs.roles actor hactor).predicates) hs.exists_mem_list

theorem mem_stateVariables_iff (hs : m.Listed) :
    h ∈ m.actors.flatMap (·.stateVariables) ↔ m.role? h = some .stateVariable :=
  mem_flatMap_iff (fun actor hactor => (hs.roles actor hactor).stateVariables) hs.exists_mem_list

theorem mem_goals_iff (hs : m.Listed) : h ∈ m.goals ↔ m.role? h = some .goal :=
  mem_flatMap_iff (fun actor hactor => (hs.roles actor hactor).goals) hs.exists_mem_list

theorem mem_tasks_iff (hs : m.Listed) : h ∈ m.tasks ↔ m.role? h = some .task :=
  mem_flatMap_iff (fun actor hactor => (hs.roles actor hactor).tasks) hs.exists_mem_list

theorem mem_qualities_iff (hs : m.Listed) : h ∈ m.qualities ↔ m.role? h = some .quality :=
  mem_flatMap_iff (fun actor hactor => (hs.roles actor hactor).qualities) hs.exists_mem_list

theorem mem_conditions_iff (hs : m.Listed) :
    h ∈ m.conditions ↔ m.role? h = some .condition :=
  mem_flatMap_iff (fun actor hactor => (hs.roles actor hactor).conditions) hs.exists_mem_list

theorem mem_nodes_iff (hs : m.Listed) :
    h ∈ m.tasks ++ m.goals ↔ m.role? h = some .goal ∨ m.role? h = some .task := by
  rw [List.mem_append, hs.mem_goals_iff, hs.mem_tasks_iff, or_comm]

theorem mem_effects_iff (hs : m.Listed) : h ∈ m.effects ↔ m.role? h = some .effect := by
  rw [effects, tasks, List.flatMap_assoc]
  refine mem_flatMap_iff (fun actor hactor h hh => ?_) hs.exists_mem_list
  obtain ⟨t, ht, hh⟩ := List.mem_flatMap.mp hh
  exact (hs.roles actor hactor).effects t ht h hh

end Listed

namespace Sound

variable {m : Model} {h g : Handle}

theorem role?_of_mem_children (hs : m.Sound) (hh : h ∈ m.children g) :
    m.role? h = some .goal ∨ m.role? h = some .task := by
  obtain ⟨_, hnode, _⟩ := exists_of_parent? ((hs.children g h).mp hh)
  exact role?_of_decomposition? hnode

theorem role?_of_mem_effectsOf (hs : m.Sound) (hh : h ∈ m.effectsOf g) :
    m.role? h = some .effect := by
  obtain ⟨_, heffect, _⟩ := Option.map_eq_some_iff.mp ((hs.effects g h).mp hh)
  exact role?_of_effect? heffect

theorem leaf_of_task (hs : m.Sound) (hh : m.role? h = some .task) :
    m.children h = [] ∧ m.refinement h = .leaf := by
  obtain ⟨node, hnode⟩ := exists_decomposition? (.inr hh)
  have hchildren := hs.tasks h hh
  refine ⟨hchildren, ?_⟩
  rw [refinement_eq hnode]
  exact (hs.leaf h node hnode).mpr (children_eq hnode ▸ hchildren)

/-- What an element refers to is an element. -/
theorem index_lt_of_mem_references (hs : m.Sound) {element : Element}
    (he : m.element? h = some element) (hg : g ∈ element.kind.references) :
    g.index < m.elements.length := by
  refine hs.inRange g ?_
  simp only [references, List.mem_append, List.mem_flatMap]
  exact .inl (.inl (.inl (.inl ⟨element, List.mem_of_getElem? he, hg⟩)))

/-- The atoms of a condition are elements. -/
theorem index_lt_of_condition? (hs : m.Sound) {formula : Formula Handle}
    (hc : m.condition? h = some formula) (hg : g ∈ formula.atoms) :
    g.index < m.elements.length := by
  obtain ⟨element, he, hkind⟩ := Option.map_eq_some_iff.mp (kind_of_condition? hc)
  refine hs.index_lt_of_mem_references he ?_
  rw [hkind]
  exact hg

/-- The atoms of a quality are elements. -/
theorem index_lt_of_quality? (hs : m.Sound) {quality : Quality}
    (hq : m.quality? h = some quality) (hg : g ∈ quality.formula.atoms) :
    g.index < m.elements.length := by
  obtain ⟨element, he, hkind⟩ := Option.map_eq_some_iff.mp (kind_of_quality? hq)
  refine hs.index_lt_of_mem_references he ?_
  rw [hkind]
  exact hg

theorem index_lt_of_mem_crossRun (hs : m.Sound) (hh : h ∈ m.crossRun) :
    h.index < m.elements.length :=
  hs.inRange h (by simp [references, hh])

theorem index_lt_of_mem_exported (hs : m.Sound) {entry : Export} (he : entry ∈ m.exported) :
    entry.element.index < m.elements.length :=
  hs.inRange entry.element (by simp [references, List.mem_map_of_mem he])

theorem index_lt_of_mem_initializations (hs : m.Sound) {entry : Initialization}
    (he : entry ∈ m.initializations) : entry.element.index < m.elements.length :=
  hs.inRange entry.element (by simp [references, List.mem_map_of_mem he])

/-! ## Invariants -/

theorem role?_of_parent? (hs : m.Sound) {g : Handle} (hp : m.parent? h = some g) :
    m.role? g = some .goal := by
  have hc := (hs.children g h).mpr hp
  obtain ⟨node, hnode, _⟩ := exists_of_mem_children hc
  refine (role?_of_decomposition? hnode).resolve_right fun htask => ?_
  rw [hs.tasks g htask] at hc
  cases hc

/-- The links at a goal or task are in order; only its way up may not end. -/
theorem nodeViolations (hs : m.Sound) {v : InvariantViolation} (hv : v ∈ m.nodeViolations h) :
    ∃ name, v = .cycle name := by
  unfold Model.nodeViolations at hv
  split at hv
  · cases hv
  · next node hnode =>
    simp only [List.mem_append] at hv
    rcases hv with ((hparent | hchild) | hleaf) | hcycle
    · split at hparent
      · next up hup =>
        have hlisted := (hs.children up h).mpr ((parent?_eq hnode).trans hup)
        rw [if_pos hlisted] at hparent
        cases hparent
      · cases hparent
    · obtain ⟨c, hc, _⟩ := List.mem_map.mp hchild
      obtain ⟨hc, hne⟩ := List.mem_filter.mp hc
      rw [← children_eq hnode] at hc
      exact absurd ((hs.children h c).mp hc) (of_decide_eq_true hne)
    · rw [if_pos (hs.leaf h node hnode)] at hleaf
      cases hleaf
    · split at hcycle
      · exact ⟨_, List.mem_singleton.mp hcycle⟩
      · cases hcycle

theorem invariantViolations (hs : m.Sound) {v : InvariantViolation}
    (hv : v ∈ m.invariantViolations) :
    v = .noRootGoal ∨ (∃ names, v = .severalRootGoals names) ∨ ∃ name, v = .cycle name := by
  rcases List.mem_append.mp hv with hv | hv
  · unfold Model.rootViolations at hv
    split at hv
    · exact .inl (List.mem_singleton.mp hv)
    · cases hv
    · exact .inr (.inl ⟨_, List.mem_singleton.mp hv⟩)
  · obtain ⟨h, _, hv⟩ := List.mem_flatMap.mp hv
    exact .inr (.inr (hs.nodeViolations hv))

end Sound

end Model

end GoalModel
