import GoalModel.Proofs.Linking.ReadBack
import GoalModel.Proofs.Model.Renumbering
import GoalModel.Proofs.Model.Valid
import Mathlib.Data.List.Perm.Subperm

/-! # Models that read the same

Two sound models whose elements have distinct names are renumberings of each other if they read the
same, list by list of all actors together (`Model.ReadsSame`, `Model.ReadsSame.renumbers`).

An element leads to the one with its name (`Model.counterpart`). Lists that read the same lead to
each other item by item (`Model.counterparts_of_names`, `Model.counterparts_of_entries`), and so do
the links of an element whose entries are the same. What an entry does not mention, parents and the
tasks of effects, is stored at the other end, too. -/

namespace GoalModel

/-- Lists that read the same are images of each other if items that read the same are. -/
theorem eq_map_of_reads {α β γ : Type} {xs : List α} {ys : List β} {read : α → γ}
    {read' : β → γ} {f : α → β} (heq : ys.map read' = xs.map read)
    (hf : ∀ x ∈ xs, ∀ y ∈ ys, read' y = read x → y = f x) : ys = xs.map f := by
  induction xs generalizing ys with
  | nil => rw [List.map_eq_nil_iff.mp heq, List.map_nil]
  | cons x xs ih =>
    obtain ⟨y, rest, rfl, hread, hrest⟩ := List.map_eq_cons_iff.mp heq
    rw [List.map_cons, ← hf x (.head _) y (.head _) hread,
      ← ih hrest fun x hx y hy => hf x (.tail _ hx) y (.tail _ hy)]

namespace Model

/-- Models as linking leaves them, in which the lists of all actors together read the same. -/
structure ReadsSame (m m' : Model) : Prop where
  sound : m.Sound
  sound' : m'.Sound
  named : m.Named
  named' : m'.Named
  predicates : m'.predicates.map m'.nameOf = m.predicates.map m.nameOf
  stateVariables : (m'.actors.flatMap (·.stateVariables)).map m'.nameOf =
    (m.actors.flatMap (·.stateVariables)).map m.nameOf
  goals : m'.goals.filterMap m'.goalEntry? = m.goals.filterMap m.goalEntry?
  tasks : m'.tasks.filterMap m'.taskEntry? = m.tasks.filterMap m.taskEntry?
  qualities : m'.qualities.filterMap m'.qualityEntry? = m.qualities.filterMap m.qualityEntry?
  conditions : m'.conditions.filterMap m'.conditionEntry? =
    m.conditions.filterMap m.conditionEntry?
  crossRun : m'.crossRun.map m'.nameOf = m.crossRun.map m.nameOf
  exported : m'.toDocument.exported = m.toDocument.exported
  initializations : m'.toDocument.initializations = m.toDocument.initializations

theorem ReadsSame.symm {m m' : Model} (r : ReadsSame m m') : ReadsSame m' m :=
  ⟨r.sound', r.sound, r.named', r.named, r.predicates.symm, r.stateVariables.symm, r.goals.symm,
    r.tasks.symm, r.qualities.symm, r.conditions.symm, r.crossRun.symm, r.exported.symm,
    r.initializations.symm⟩

/-- The element of another model with the same name. What is no element stays what it is. -/
def counterpart (m m' : Model) (h : Handle) : Handle :=
  if h.index < m.elements.length then (m'.find? (m.nameOf h)).getD h else h

/-- The counterpart is an element of the same name and role. -/
structure Corresponds (m m' : Model) (h : Handle) : Prop where
  nameOf : m'.nameOf (counterpart m m' h) = m.nameOf h
  role? : m'.role? (counterpart m m' h) = m.role? h

variable {m m' : Model} {h h' g t e : Handle}

/-! ## Lists that read the same -/

section Named
variable {hs hs' : List Handle} {role : Role} (hn' : m'.Named)
include hn'

theorem counterpart_eq (hh : h.index < m.elements.length) (hh' : h'.index < m'.elements.length)
    (hname : m'.nameOf h' = m.nameOf h) : h' = counterpart m m' h := by
  rw [counterpart, if_pos hh, ← hname, hn'.find?_nameOf hh', Option.getD_some]

/-- Handles of the same names are counterparts. -/
theorem map_counterpart_of_names (heq : hs'.map m'.nameOf = hs.map m.nameOf)
    (hlt : ∀ h ∈ hs, h.index < m.elements.length)
    (hlt' : ∀ h ∈ hs', h.index < m'.elements.length) : hs' = hs.map (counterpart m m') :=
  eq_map_of_reads heq fun h hh h' hh' => counterpart_eq hn' (hlt h hh) (hlt' h' hh')

/-- Formulas that read the same have counterparts as their atoms. -/
theorem renumber_counterpart_of_nameAtoms {formula formula' : Formula Handle}
    (heq : m'.nameAtoms formula' = m.nameAtoms formula)
    (hlt : ∀ h ∈ formula.atoms, h.index < m.elements.length)
    (hlt' : ∀ h ∈ formula'.atoms, h.index < m'.elements.length) :
    formula' = formula.renumber (counterpart m m') := by
  induction formula generalizing formula' with
  | atom h =>
    cases formula' with
    | atom h' =>
      have hname : m'.nameOf h' = m.nameOf h := Formula.atom.inj heq
      rw [Formula.renumber_atom, ← counterpart_eq hn' (hlt h (.head _)) (hlt' h' (.head _)) hname]
    | _ => cases heq
  | number value => cases formula' <;> cases heq; rfl
  | bool value => cases formula' <;> cases heq; rfl
  | binary op left right ihl ihr =>
    cases formula' with
    | binary op' left' right' =>
      obtain ⟨rfl, hleft, hright⟩ := Formula.binary.inj heq
      rw [Formula.renumber_binary,
        ← ihl hleft (fun h hh => hlt h (List.mem_append_left _ hh))
          fun h hh => hlt' h (List.mem_append_left _ hh),
        ← ihr hright (fun h hh => hlt h (List.mem_append_right _ hh))
          fun h hh => hlt' h (List.mem_append_right _ hh)]
    | _ => cases heq
  | unary op operand ih =>
    cases formula' with
    | unary op' operand' =>
      obtain ⟨rfl, hoperand⟩ := Formula.unary.inj heq
      rw [Formula.renumber_unary, ← ih hoperand hlt hlt']
    | _ => cases heq

/-- Elements of a role that read the same are counterparts if they have the same names, too. -/
theorem counterparts_of_reads {α : Type} {read read' : Handle → α}
    (heq : hs'.map read' = hs.map read) (hrole : ∀ h ∈ hs, m.role? h = some role)
    (hrole' : ∀ h ∈ hs', m'.role? h = some role)
    (hname : ∀ h ∈ hs, ∀ h' ∈ hs', read' h' = read h → m'.nameOf h' = m.nameOf h) :
    hs' = hs.map (counterpart m m') ∧
      ∀ h ∈ hs, read' (counterpart m m' h) = read h ∧ Corresponds m m' h := by
  have hcounterparts := eq_map_of_reads heq fun h hh h' hh' hread =>
    counterpart_eq hn' (m.index_lt_of_role? (hrole h hh)) (m'.index_lt_of_role? (hrole' h' hh'))
      (hname h hh h' hh' hread)
  have hmem {h : Handle} (hh : h ∈ hs) : counterpart m m' h ∈ hs' :=
    hcounterparts ▸ List.mem_map_of_mem hh
  have hread : ∀ h ∈ hs, read' (counterpart m m' h) = read h := by
    rw [hcounterparts, List.map_map] at heq
    exact List.map_inj_left.mp heq
  exact ⟨hcounterparts, fun h hh => ⟨hread h hh, hname h hh _ (hmem hh) (hread h hh),
    (hrole' _ (hmem hh)).trans (hrole h hh).symm⟩⟩

/-- Elements of the same names are counterparts. -/
theorem counterparts_of_names (heq : hs'.map m'.nameOf = hs.map m.nameOf)
    (hrole : ∀ h ∈ hs, m.role? h = some role) (hrole' : ∀ h ∈ hs', m'.role? h = some role) :
    hs' = hs.map (counterpart m m') ∧ ∀ h ∈ hs, Corresponds m m' h :=
  (counterparts_of_reads hn' heq hrole hrole' fun _ _ _ _ hname => hname).imp_right
    fun hreads h hh => (hreads h hh).2

/-- Elements of the same entries are counterparts. -/
theorem counterparts_of_entries {α : Type} {read? : Model → Handle → Option α} {name : α → String}
    (hentry : ∀ {m h}, m.role? h = some role → ∃ a, read? m h = some a ∧ name a = m.nameOf h)
    (heq : hs'.filterMap (read? m') = hs.filterMap (read? m))
    (hrole : ∀ h ∈ hs, m.role? h = some role) (hrole' : ∀ h ∈ hs', m'.role? h = some role) :
    hs' = hs.map (counterpart m m') ∧
      ∀ h ∈ hs, read? m' (counterpart m m' h) = read? m h ∧ Corresponds m m' h := by
  have hsome {m : Model} {hs : List Handle} (hrole : ∀ h ∈ hs, m.role? h = some role) :
      hs.map (read? m) = (hs.filterMap (read? m)).map some := by
    rw [List.map_filterMap_some_eq_filter_map_isSome, List.filter_eq_self.mpr]
    rintro _ ha
    obtain ⟨h, hh, rfl⟩ := List.mem_map.mp ha
    obtain ⟨a, ha, _⟩ := hentry (hrole h hh)
    rw [ha, Option.isSome_some]
  have hread : hs'.map (read? m') = hs.map (read? m) := by rw [hsome hrole', hsome hrole, heq]
  refine counterparts_of_reads hn' hread hrole hrole' fun h hh h' hh' hsame => ?_
  obtain ⟨a, ha, hname⟩ := hentry (hrole h hh)
  obtain ⟨a', ha', hname'⟩ := hentry (hrole' h' hh')
  rw [ha, ha', Option.some.injEq] at hsame
  rw [← hname, ← hname', hsame]

end Named

/-! ## Entries -/

/-- The entry of a goal tells how it is refined and into what. -/
theorem refinement_of_entries {α : Type} {kind kind' : Refinement} {names names' : List α}
    (hleaf : kind = .leaf ↔ names = []) (hleaf' : kind' = .leaf ↔ names' = [])
    (hand : (if kind' = .and then names' else []) = if kind = .and then names else [])
    (hor : (if kind' = .or then names' else []) = if kind = .or then names else []) :
    kind' = kind ∧ names' = names := by
  cases kind <;> cases kind' <;> simp_all

theorem exists_goalEntry? (hg : m.role? h = some .goal) :
    ∃ entry, m.goalEntry? h = some entry ∧ entry.name = m.nameOf h := by
  obtain ⟨node, _, hnode⟩ := kind_of_goal hg
  exact ⟨_, by rw [Model.goalEntry?, hnode, Option.map_some], rfl⟩

theorem exists_taskEntry? (ht : m.role? h = some .task) :
    ∃ entry, m.taskEntry? h = some entry ∧ entry.name = m.nameOf h := by
  obtain ⟨task, htask⟩ := exists_task? ht
  exact ⟨_, by rw [Model.taskEntry?, htask, Option.map_some], rfl⟩

theorem exists_effectEntry? (he : m.role? h = some .effect) :
    ∃ entry, m.effectEntry? h = some entry ∧ entry.name = m.nameOf h := by
  obtain ⟨effect, heffect⟩ := exists_effect? he
  exact ⟨_, by rw [Model.effectEntry?, heffect, Option.map_some], rfl⟩

theorem exists_qualityEntry? (hq : m.role? h = some .quality) :
    ∃ entry, m.qualityEntry? h = some entry ∧ entry.name = m.nameOf h := by
  obtain ⟨quality, hquality⟩ := exists_quality? hq
  exact ⟨_, by rw [Model.qualityEntry?, hquality, Option.map_some], rfl⟩

theorem exists_conditionEntry? (hc : m.role? h = some .condition) :
    ∃ entry, m.conditionEntry? h = some entry ∧ entry.name = m.nameOf h := by
  obtain ⟨formula, hformula⟩ := exists_condition? hc
  exact ⟨_, by rw [Model.conditionEntry?, hformula, Option.map_some], rfl⟩

/-! ## Counterparts of listed elements -/

namespace ReadsSame

variable (r : ReadsSame m m')
include r

theorem predicates_counterparts : m'.predicates = m.predicates.map (counterpart m m') ∧
    ∀ p ∈ m.predicates, Corresponds m m' p :=
  counterparts_of_names r.named' r.predicates (fun _ => r.sound.mem_predicates_iff.mp)
    (fun _ => r.sound'.mem_predicates_iff.mp)

theorem stateVariables_counterparts :
    m'.actors.flatMap (·.stateVariables) =
        (m.actors.flatMap (·.stateVariables)).map (counterpart m m') ∧
      ∀ v ∈ m.actors.flatMap (·.stateVariables), Corresponds m m' v :=
  counterparts_of_names r.named' r.stateVariables (fun _ => r.sound.mem_stateVariables_iff.mp)
    (fun _ => r.sound'.mem_stateVariables_iff.mp)

theorem goals_counterparts : m'.goals = m.goals.map (counterpart m m') ∧ ∀ g ∈ m.goals,
    m'.goalEntry? (counterpart m m' g) = m.goalEntry? g ∧ Corresponds m m' g :=
  counterparts_of_entries r.named' exists_goalEntry? r.goals (fun _ => r.sound.mem_goals_iff.mp)
    (fun _ => r.sound'.mem_goals_iff.mp)

theorem tasks_counterparts : m'.tasks = m.tasks.map (counterpart m m') ∧ ∀ t ∈ m.tasks,
    m'.taskEntry? (counterpart m m' t) = m.taskEntry? t ∧ Corresponds m m' t :=
  counterparts_of_entries r.named' exists_taskEntry? r.tasks (fun _ => r.sound.mem_tasks_iff.mp)
    (fun _ => r.sound'.mem_tasks_iff.mp)

theorem qualities_counterparts : m'.qualities = m.qualities.map (counterpart m m') ∧
    ∀ q ∈ m.qualities, m'.qualityEntry? (counterpart m m' q) = m.qualityEntry? q ∧
      Corresponds m m' q :=
  counterparts_of_entries r.named' exists_qualityEntry? r.qualities
    (fun _ => r.sound.mem_qualities_iff.mp) (fun _ => r.sound'.mem_qualities_iff.mp)

theorem conditions_counterparts : m'.conditions = m.conditions.map (counterpart m m') ∧
    ∀ c ∈ m.conditions, m'.conditionEntry? (counterpart m m' c) = m.conditionEntry? c ∧
      Corresponds m m' c :=
  counterparts_of_entries r.named' exists_conditionEntry? r.conditions
    (fun _ => r.sound.mem_conditions_iff.mp) (fun _ => r.sound'.mem_conditions_iff.mp)

theorem effectsOf_counterparts (ht : m.role? t = some .task) :
    m'.effectsOf (counterpart m m' t) = (m.effectsOf t).map (counterpart m m') ∧
      ∀ e ∈ m.effectsOf t, m'.effectEntry? (counterpart m m' e) = m.effectEntry? e ∧
        Corresponds m m' e := by
  have hentry := (r.tasks_counterparts.2 t (r.sound.mem_tasks_iff.mpr ht)).1
  obtain ⟨task, htask⟩ := exists_task? ht
  rw [Model.taskEntry?, Model.taskEntry?, htask, Option.map_some] at hentry
  obtain ⟨task', htask', heq⟩ := Option.map_eq_some_iff.mp hentry
  have heffects := congrArg TaskEntry.effects heq
  dsimp only at heffects
  rw [← effectsOf_eq htask, ← effectsOf_eq htask'] at heffects
  exact counterparts_of_entries r.named' exists_effectEntry? heffects
    (fun _ => r.sound.role?_of_mem_effectsOf) (fun _ => r.sound'.role?_of_mem_effectsOf)

/-- Every element has a counterpart. -/
theorem corresponds (hh : h.index < m.elements.length) : Corresponds m m' h := by
  have hrole : m.role? h = some m.elements[h.index].kind.role := by
    rw [Model.role?, element?, List.getElem?_eq_getElem hh, Option.map_some]
  cases hkind : m.elements[h.index].kind.role with
  | predicate =>
    exact r.predicates_counterparts.2 h (r.sound.mem_predicates_iff.mpr (hkind ▸ hrole))
  | stateVariable =>
    exact r.stateVariables_counterparts.2 h (r.sound.mem_stateVariables_iff.mpr (hkind ▸ hrole))
  | goal =>
    exact (r.goals_counterparts.2 h (r.sound.mem_goals_iff.mpr (hkind ▸ hrole))).2
  | task =>
    exact (r.tasks_counterparts.2 h (r.sound.mem_tasks_iff.mpr (hkind ▸ hrole))).2
  | effect =>
    obtain ⟨t, ht, he⟩ := List.mem_flatMap.mp (r.sound.mem_effects_iff.mpr (hkind ▸ hrole))
    exact ((r.effectsOf_counterparts (r.sound.mem_tasks_iff.mp ht)).2 h he).2
  | quality =>
    exact (r.qualities_counterparts.2 h (r.sound.mem_qualities_iff.mpr (hkind ▸ hrole))).2
  | condition =>
    exact (r.conditions_counterparts.2 h (r.sound.mem_conditions_iff.mpr (hkind ▸ hrole))).2

theorem index_counterpart_lt (hh : h.index < m.elements.length) :
    (counterpart m m' h).index < m'.elements.length := by
  have hrole : m'.role? (counterpart m m' h) = some m.elements[h.index].kind.role := by
    rw [(r.corresponds hh).role?, Model.role?, element?, List.getElem?_eq_getElem hh,
      Option.map_some]
  exact m'.index_lt_of_role? hrole

theorem length_elements_le : m.elements.length ≤ m'.elements.length := by
  have hsubset : m.elements.map (·.name) ⊆ m'.elements.map (·.name) := by
    intro name hname
    obtain ⟨i, hi, rfl⟩ := List.mem_iff_getElem.mp hname
    rw [List.length_map] at hi
    have hi' := r.index_counterpart_lt (h := ⟨i⟩) hi
    have hsame := (r.corresponds (h := ⟨i⟩) hi).nameOf
    rw [nameOf_eq_getElem hi', nameOf_eq_getElem hi] at hsame
    rw [List.getElem_map, ← hsame]
    exact List.mem_map_of_mem (List.getElem_mem hi')
  simpa using (List.subperm_of_subset r.named.distinct hsubset).length_le

/-! ## Links -/

theorem length_elements : m'.elements.length = m.elements.length :=
  Nat.le_antisymm r.symm.length_elements_le r.length_elements_le

theorem counterpart_injective : Function.Injective (counterpart m m') := by
  have hlength := r.length_elements
  have hout {h : Handle} (hh : ¬h.index < m.elements.length) : counterpart m m' h = h := if_neg hh
  intro h g heq
  by_cases hh : h.index < m.elements.length <;> by_cases hg : g.index < m.elements.length
  · refine r.named.nameOf_inj hh hg ?_
    rw [← (r.corresponds hh).nameOf, heq, (r.corresponds hg).nameOf]
  · have hlt := r.index_counterpart_lt hh
    rw [heq, hout hg, hlength] at hlt
    exact absurd hlt hg
  · have hlt := r.index_counterpart_lt hg
    rw [← heq, hout hh, hlength] at hlt
    exact absurd hlt hh
  · rwa [hout hh, hout hg] at heq

/-- A goal is refined in the same way into the counterparts of its children. -/
theorem children_goal (hg : m.role? g = some .goal) :
    m'.children (counterpart m m' g) = (m.children g).map (counterpart m m') ∧
      m'.refinement (counterpart m m' g) = m.refinement g := by
  obtain ⟨node, _, hnode⟩ := kind_of_goal hg
  have hentry := (r.goals_counterparts.2 g (r.sound.mem_goals_iff.mpr hg)).1
  rw [Model.goalEntry?, Model.goalEntry?, hnode, Option.map_some] at hentry
  obtain ⟨node', hnode', heq⟩ := Option.map_eq_some_iff.mp hentry
  obtain ⟨_, hand, hor⟩ := (GoalEntry.mk.injEq ..).mp heq
  obtain ⟨hkind, hnames⟩ := refinement_of_entries
    ((r.sound.leaf _ node hnode).trans List.map_eq_nil_iff.symm)
    ((r.sound'.leaf _ node' hnode').trans List.map_eq_nil_iff.symm) hand hor
  rw [children_eq hnode, children_eq hnode', refinement_eq hnode, refinement_eq hnode']
  refine ⟨map_counterpart_of_names r.named' hnames (fun c hc => ?_) fun c hc => ?_, hkind⟩
  · exact m.index_lt_of_node (r.sound.role?_of_mem_children (children_eq hnode ▸ hc))
  · exact m'.index_lt_of_node (r.sound'.role?_of_mem_children (children_eq hnode' ▸ hc))

theorem parent?_counterpart (h : Handle) :
    m'.parent? (counterpart m m' h) = (m.parent? h).map (counterpart m m') := by
  cases hp : m.parent? h with
  | some g =>
    refine (r.sound'.children _ _).mp ?_
    rw [(r.children_goal (r.sound.role?_of_parent? hp)).1]
    exact List.mem_map_of_mem ((r.sound.children g h).mpr hp)
  | none =>
    refine Option.eq_none_iff_forall_ne_some.mpr fun g' hp' => ?_
    -- a parent at the other side would be the counterpart of one on this side
    have hg' := r.sound'.mem_goals_iff.mpr (r.sound'.role?_of_parent? hp')
    rw [r.goals_counterparts.1] at hg'
    obtain ⟨g, hg, rfl⟩ := List.mem_map.mp hg'
    have hc := (r.sound'.children _ _).mpr hp'
    rw [(r.children_goal (r.sound.mem_goals_iff.mp hg)).1,
      List.mem_map_of_injective r.counterpart_injective] at hc
    rw [(r.sound.children g h).mp hc] at hp
    cases hp

theorem decomposition?_counterpart {node : Decomposition} (hnode : m.decomposition? h = some node) :
    m'.decomposition? (counterpart m m' h) = some (node.renumber (counterpart m m')) := by
  have hrole := role?_of_decomposition? hnode
  have hsame := (r.corresponds (m.index_lt_of_node hrole)).role?
  have hlinks : m'.children (counterpart m m' h) = (m.children h).map (counterpart m m') ∧
      m'.refinement (counterpart m m' h) = m.refinement h := by
    rcases hrole with hg | ht
    · exact r.children_goal hg
    · obtain ⟨hchildren, hleaf⟩ := r.sound.leaf_of_task ht
      obtain ⟨hchildren', hleaf'⟩ := r.sound'.leaf_of_task (hsame.trans ht)
      rw [hchildren, hchildren', hleaf, hleaf']
      exact ⟨rfl, rfl⟩
  rw [← hsame] at hrole
  obtain ⟨node', hnode'⟩ := exists_decomposition? hrole
  have hparent := r.parent?_counterpart h
  rw [children_eq hnode, children_eq hnode', refinement_eq hnode, refinement_eq hnode'] at hlinks
  rw [parent?_eq hnode, parent?_eq hnode'] at hparent
  rw [hnode', Decomposition.renumber, ← hlinks.1, ← hparent, ← hlinks.2]

theorem task?_counterpart {task : Task} (htask : m.task? t = some task) :
    m'.task? (counterpart m m' t) = some (task.renumber (counterpart m m')) := by
  have ht := role?_of_task? htask
  have hsame := (r.corresponds (m.index_lt_of_role? ht)).role?
  obtain ⟨task', htask'⟩ := exists_task? (hsame.trans ht)
  have hnode := r.decomposition?_counterpart (decomposition?_of_task? htask)
  rw [decomposition?_of_task? htask', Option.some.injEq] at hnode
  have heffects := (r.effectsOf_counterparts ht).1
  rw [effectsOf_eq htask, effectsOf_eq htask'] at heffects
  rw [htask', Task.renumber, ← hnode, ← heffects]

theorem effect?_counterpart {effect : Effect} (heffect : m.effect? e = some effect) :
    m'.effect? (counterpart m m' e) = some (effect.renumber (counterpart m m')) := by
  have he : e ∈ m.effectsOf effect.task :=
    (r.sound.effects _ e).mpr (by rw [heffect, Option.map_some])
  obtain ⟨_, htask, _⟩ := task?_of_mem_effectsOf he
  obtain ⟨heffects, hentries⟩ := r.effectsOf_counterparts (role?_of_task? htask)
  have hentry := (hentries e he).1
  rw [Model.effectEntry?, Model.effectEntry?, heffect, Option.map_some] at hentry
  obtain ⟨effect', heffect', heq⟩ := Option.map_eq_some_iff.mp hentry
  obtain ⟨_, hprobability, hsatisfying, hnames⟩ := (EffectEntry.mk.injEq ..).mp heq
  have htask' := (r.sound'.effects _ _).mp (heffects ▸ List.mem_map_of_mem he)
  rw [heffect', Option.map_some, Option.some.injEq] at htask'
  have hturnsTrue := map_counterpart_of_names r.named' hnames
    (fun p hp => m.index_lt_of_role? (r.sound.turnsTrue e p (turnsTrue_eq heffect ▸ hp)))
    (fun p hp => m'.index_lt_of_role? (r.sound'.turnsTrue _ p (turnsTrue_eq heffect' ▸ hp)))
  rw [heffect', Effect.renumber, ← htask', ← hprobability, ← hsatisfying, ← hturnsTrue]

theorem quality?_counterpart {quality : Quality} (hquality : m.quality? h = some quality) :
    m'.quality? (counterpart m m' h) = some (quality.renumber (counterpart m m')) := by
  have hq := r.sound.mem_qualities_iff.mpr (role?_of_quality? hquality)
  have hentry := (r.qualities_counterparts.2 h hq).1
  rw [Model.qualityEntry?, Model.qualityEntry?, hquality, Option.map_some] at hentry
  obtain ⟨quality', hquality', heq⟩ := Option.map_eq_some_iff.mp hentry
  obtain ⟨_, hroot, hformula⟩ := (QualityEntry.mk.injEq ..).mp heq
  have hatoms := renumber_counterpart_of_nameAtoms r.named' hformula
    (fun _ => r.sound.index_lt_of_quality? hquality)
    (fun _ => r.sound'.index_lt_of_quality? hquality')
  rw [hquality', Quality.renumber, ← hroot, ← hatoms]

theorem condition?_counterpart {formula : Formula Handle}
    (hformula : m.condition? h = some formula) :
    m'.condition? (counterpart m m' h) = some (formula.renumber (counterpart m m')) := by
  have hc := r.sound.mem_conditions_iff.mpr (role?_of_condition? hformula)
  have hentry := (r.conditions_counterparts.2 h hc).1
  rw [Model.conditionEntry?, Model.conditionEntry?, hformula, Option.map_some] at hentry
  obtain ⟨formula', hformula', heq⟩ := Option.map_eq_some_iff.mp hentry
  obtain ⟨_, hnames⟩ := (ConditionEntry.mk.injEq ..).mp heq
  have hatoms := renumber_counterpart_of_nameAtoms r.named' hnames
    (fun _ => r.sound.index_lt_of_condition? hformula)
    (fun _ => r.sound'.index_lt_of_condition? hformula')
  rw [hformula', ← hatoms]

/-- The counterpart of an element is of the same kind, with its links renumbered. -/
theorem kind_counterpart {element element' : Element} (he : m.element? h = some element)
    (he' : m'.element? (counterpart m m' h) = some element')
    (hrole : element'.kind.role = element.kind.role) :
    element'.kind = element.kind.renumber (counterpart m m') := by
  obtain ⟨name, kind⟩ := element
  obtain ⟨name', kind'⟩ := element'
  -- roles agree, so that only the same constructor is left for `kind'`
  cases kind with
  | predicate => cases kind' <;> cases hrole; rfl
  | stateVariable => cases kind' <;> cases hrole; rfl
  | goal node =>
    cases kind' <;> cases hrole
    have hnode : m.decomposition? h = some node := by rw [decomposition?, he]; rfl
    have hnode' := r.decomposition?_counterpart hnode
    rw [decomposition?, he'] at hnode'
    exact congrArg ElementKind.goal (Option.some.inj hnode')
  | task data =>
    cases kind' <;> cases hrole
    have hdata : m.task? h = some data := by rw [task?, he]; rfl
    have hdata' := r.task?_counterpart hdata
    rw [task?, he'] at hdata'
    exact congrArg ElementKind.task (Option.some.inj hdata')
  | effect data =>
    cases kind' <;> cases hrole
    have hdata : m.effect? h = some data := by rw [effect?, he]; rfl
    have hdata' := r.effect?_counterpart hdata
    rw [effect?, he'] at hdata'
    exact congrArg ElementKind.effect (Option.some.inj hdata')
  | quality data =>
    cases kind' <;> cases hrole
    have hdata : m.quality? h = some data := by rw [quality?, he]; rfl
    have hdata' := r.quality?_counterpart hdata
    rw [quality?, he'] at hdata'
    exact congrArg ElementKind.quality (Option.some.inj hdata')
  | condition formula =>
    cases kind' <;> cases hrole
    have hformula : m.condition? h = some formula := by rw [condition?, he]; rfl
    have hformula' := r.condition?_counterpart hformula
    rw [condition?, he'] at hformula'
    exact congrArg ElementKind.condition (Option.some.inj hformula')

theorem element?_counterpart (h : Handle) :
    m'.element? (counterpart m m' h) = (m.element? h).map (·.renumber (counterpart m m')) := by
  by_cases hh : h.index < m.elements.length
  · obtain ⟨hname, hrole⟩ := r.corresponds hh
    have he : m.element? h = some m.elements[h.index] := List.getElem?_eq_getElem hh
    have he' := List.getElem?_eq_getElem (r.index_counterpart_lt hh)
    change m'.element? (counterpart m m' h) = _ at he'
    simp only [Model.nameOf, Model.role?, he, he', Option.map_some, Option.getD_some,
      Option.some.injEq] at hname hrole
    rw [he, he', Option.map_some, Element.renumber, ← hname, ← r.kind_counterpart he he' hrole]
  · have hnone : m.element? h = none := List.getElem?_eq_none (Nat.le_of_not_lt hh)
    have hnone' : m'.element? h = none :=
      List.getElem?_eq_none (r.length_elements ▸ Nat.le_of_not_lt hh)
    rw [counterpart, if_neg hh, hnone, hnone', Option.map_none]

/-! ## The whole model -/

/-- Models that read the same are renumberings of each other. -/
theorem renumbers : m.Renumbers (counterpart m m') m' where
  injective := r.counterpart_injective
  count := r.length_elements
  element? := r.element?_counterpart
  predicates := r.predicates_counterparts.1
  goals := r.goals_counterparts.1
  tasks := r.tasks_counterparts.1
  qualities := r.qualities_counterparts.1
  conditions := r.conditions_counterparts.1
  crossRun := map_counterpart_of_names r.named' r.crossRun
    (fun _ => r.sound.index_lt_of_mem_crossRun) (fun _ => r.sound'.index_lt_of_mem_crossRun)
  exported := by
    refine eq_map_of_reads r.exported fun x hx y hy hread => ?_
    obtain ⟨hname, hdomain, hmin, hmax⟩ := (ExportEntry.mk.injEq ..).mp hread
    have helement := counterpart_eq r.named' (r.sound.index_lt_of_mem_exported hx)
      (r.sound'.index_lt_of_mem_exported hy) hname
    rw [Export.renumber, ← helement, ← hdomain, ← hmin, ← hmax]
  initializations := by
    refine eq_map_of_reads r.initializations fun x hx y hy hread => ?_
    obtain ⟨hname, hvalue⟩ := (InitialEntry.mk.injEq ..).mp hread
    have helement := counterpart_eq r.named' (r.sound.index_lt_of_mem_initializations hx)
      (r.sound'.index_lt_of_mem_initializations hy) hname
    rw [Initialization.renumber, ← helement, ← hvalue]

end ReadsSame

end Model

end GoalModel
