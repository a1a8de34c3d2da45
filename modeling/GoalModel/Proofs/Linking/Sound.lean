import GoalModel.Proofs.Linking.Linked

/-! # Linking makes sound models

`Document.linked_sound` proves `Model.Sound` of the model of every well-formed document: the
links at both ends come from the same claims, and every stored handle was resolved from a name,
so that something is declared there. The main statement, `Document.sound_of_link`, adds what
follows for the invariants: a linked model can lack a single root or contain a cycle, but no
link of it is broken. -/

namespace GoalModel

theorem Scope.mem_atoms_linkFormula {scope : Scope} {formula : Formula String} {h : Handle}
    (hh : h ∈ (scope.linkFormula formula).atoms) :
    ∃ name ∈ formula.atoms, scope.resolve? name = some h := by
  induction formula with
  | atom name =>
    cases hr : scope.resolve? name with
    | none => simp [linkFormula, Formula.bind, Formula.atoms, hr] at hh
    | some g =>
      simp only [linkFormula, Formula.bind, hr, Formula.atoms, List.mem_singleton] at hh
      exact ⟨name, List.mem_singleton_self _, hh ▸ hr⟩
  | number | bool => cases hh
  | binary op left right ihl ihr =>
    simp only [Formula.atoms, List.mem_append]
    rcases List.mem_append.mp hh with hh | hh
    · obtain ⟨name, hname, hr⟩ := ihl hh
      exact ⟨name, .inl hname, hr⟩
    · obtain ⟨name, hname, hr⟩ := ihr hh
      exact ⟨name, .inr hname, hr⟩
  | unary op operand ih => exact ih hh

namespace Document

variable {document : Document} {h c g t e : Handle}

section WellFormed
variable (hwf : document.WellFormed)
include hwf

theorem linkTurnsTrue_errors {entry : EffectEntry}
    (hd : document.declarations[e.index]? = some (.effect t entry)) :
    (entry.linkTurnsTrue document.scope).2 = [] := by
  have hentry : entry ∈ document.effects := by
    rw [← filterMap_effect?]
    exact List.mem_filterMap.mpr ⟨_, List.mem_of_getElem? hd, rfl⟩
  obtain ⟨hnd, hnames⟩ := hwf.turnsTrue entry hentry
  refine Scope.distinctHandles_errors_eq_nil.mpr ⟨fun name hname => ?_, hnd⟩
  exact (accepted?_predicate_isSome hwf.distinct).mpr (hnames name hname)

theorem linkCrossRun_errors : document.linkCrossRun.2 = [] :=
  (linkCrossRun_errors_eq_nil hwf.distinct).mpr hwf.crossRun

theorem nodup_turnsTrue_linked : (document.linked.turnsTrue e).Nodup := by
  cases hf : document.linked.effect? e with
  | none => simp [Model.turnsTrue, hf]
  | some effect =>
    obtain ⟨_, _, hd⟩ := declared_of_effect (Model.role?_of_effect? hf)
    rw [turnsTrue_of_effect hd]
    exact Scope.nodup_distinctHandles (linkTurnsTrue_errors hwf hd)

theorem role?_of_mem_turnsTrue (hh : h ∈ document.linked.turnsTrue e) :
    document.linked.role? h = some .predicate := by
  obtain ⟨_, hf, _⟩ := Model.exists_of_mem_turnsTrue hh
  obtain ⟨_, entry, hd⟩ := declared_of_effect (Model.role?_of_effect? hf)
  rw [turnsTrue_of_effect hd] at hh
  have hmap := Scope.map_distinctHandles (linkTurnsTrue_errors hwf hd)
  obtain ⟨name, _, hname⟩ := List.mem_map.mp (hmap ▸ List.mem_map_of_mem hh)
  obtain ⟨d, hd, _, hrole⟩ := declared_of_accepted? hname
  rw [role?_linked, hd]
  exact congrArg some (of_decide_eq_true hrole)

/-! ## Stored handles lead to elements -/

omit hwf in
theorem inRange_of_resolve? {name : String} (hr : document.scope.resolve? name = some h) :
    h.index < document.linked.elements.length := by
  obtain ⟨_, hs⟩ := Scope.declared_of_resolve? hr
  obtain ⟨_, hd, _⟩ := declared_of_scope hs
  rw [length_elements_linked]
  exact (List.getElem?_eq_some_iff.mp hd).1

omit hwf in
theorem inRange_of_accepted? {requirement : Requirement} {name : String}
    (ha : document.scope.accepted? requirement name = some h) :
    h.index < document.linked.elements.length :=
  inRange_of_resolve? (Option.filter_eq_some_iff.mp ha).1

theorem inRange_of_child (hc : (c, g) ∈ document.linkActors.1) :
    c.index < document.linked.elements.length :=
  document.linked.index_lt_of_node (node_of_mem_claims hwf hc)

theorem inRange_of_parent (hp : document.linkActors.1.parent? c = some g) :
    g.index < document.linked.elements.length := by
  have hc := (Claims.parent?_eq_some_iff (nodup_claims hwf)).mp hp
  obtain ⟨_, hd⟩ := goal_of_mem_claims hwf hc
  rw [length_elements_linked]
  exact (List.getElem?_eq_some_iff.mp hd).1

theorem inRange_of_mem_references {d : Declaration}
    (hd : document.declarations[h.index]? = some d)
    (hg : g ∈ (d.kind document.scope document.linkActors.1 h).references) :
    g.index < document.linked.elements.length := by
  cases d with
  | predicate | stateVariable => cases hg
  | goal entry =>
    rcases List.mem_append.mp hg with hg | hg
    · exact inRange_of_child hwf (Claims.mem_children.mp hg)
    · exact inRange_of_parent hwf (Option.mem_toList.mp hg)
  | task entry =>
    rcases List.mem_append.mp hg with hg | hg
    · rcases List.mem_append.mp hg with hg | hg
      · cases hg
      · exact inRange_of_parent hwf (Option.mem_toList.mp hg)
    · rw [← effectsOf_of_task hd, mem_effectsOf_linked, Option.map_eq_some_iff] at hg
      obtain ⟨_, heffect, _⟩ := hg
      exact Model.index_lt_of_role? _ (Model.role?_of_effect? heffect)
  | effect owner entry =>
    rcases List.mem_cons.mp hg with rfl | hg
    · have hlisted : h ∈ document.linked.effectsOf g := by
        rw [mem_effectsOf_linked, effect?_of_effect hd]
        rfl
      obtain ⟨_, htask, _⟩ := Model.task?_of_mem_effectsOf hlisted
      exact Model.index_lt_of_role? _ (Model.role?_of_task? htask)
    · rw [← turnsTrue_of_effect hd] at hg
      exact Model.index_lt_of_role? _ (role?_of_mem_turnsTrue hwf hg)
  | quality | condition =>
    obtain ⟨_, _, hr⟩ := Scope.mem_atoms_linkFormula hg
    exact inRange_of_resolve? hr

omit hwf in
theorem inRange_of_mem_actor {actor : Actor} (hactor : actor ∈ document.linked.actors)
    (hh : h ∈ actor.references) : h.index < document.linked.elements.length := by
  have hroles := document.linked_listed.roles actor hactor
  simp only [Actor.references, List.mem_append, or_assoc] at hh
  rcases hh with hh | hh | hh | hh | hh | hh
  · exact Model.index_lt_of_role? _ (hroles.predicates h hh)
  · exact Model.index_lt_of_role? _ (hroles.stateVariables h hh)
  · exact Model.index_lt_of_role? _ (hroles.goals h hh)
  · exact Model.index_lt_of_role? _ (hroles.tasks h hh)
  · exact Model.index_lt_of_role? _ (hroles.qualities h hh)
  · exact Model.index_lt_of_role? _ (hroles.conditions h hh)

theorem inRange_linked (hh : h ∈ document.linked.references) :
    h.index < document.linked.elements.length := by
  simp only [Model.references, List.mem_append, or_assoc] at hh
  rcases hh with hh | hh | hh | hh | hh
  · obtain ⟨element, helement, hh⟩ := List.mem_flatMap.mp hh
    obtain ⟨i, hi⟩ := List.mem_iff_getElem?.mp helement
    have hi : document.linked.element? ⟨i⟩ = some element := hi
    obtain ⟨d, hd, rfl⟩ := declared_of_element? hi
    exact inRange_of_mem_references hwf hd hh
  · obtain ⟨actor, hactor, hh⟩ := List.mem_flatMap.mp hh
    exact inRange_of_mem_actor hactor hh
  · have hmap := Scope.map_distinctHandles (linkCrossRun_errors hwf)
    obtain ⟨name, _, hname⟩ := List.mem_map.mp (hmap ▸ List.mem_map_of_mem hh)
    exact inRange_of_accepted? hname
  · obtain ⟨x, hx, rfl⟩ := List.mem_map.mp hh
    obtain ⟨entry, _, hlink⟩ := List.mem_filterMap.mp hx
    rw [ExportEntry.link?_eq, Option.map_eq_some_iff] at hlink
    obtain ⟨_, ha, rfl⟩ := hlink
    exact inRange_of_accepted? ha
  · obtain ⟨x, hx, rfl⟩ := List.mem_map.mp hh
    obtain ⟨entry, _, hlink⟩ := List.mem_filterMap.mp hx
    rw [InitialEntry.link?_eq, Option.map_eq_some_iff] at hlink
    obtain ⟨_, ha, rfl⟩ := hlink
    exact inRange_of_accepted? ha

theorem nodup_children_linked : (document.linked.children g).Nodup := by
  cases hn : document.linked.decomposition? g with
  | none => simp [Model.children, hn]
  | some node =>
    rcases Model.role?_of_decomposition? hn with hr | hr
    · obtain ⟨_, hd⟩ := declared_of_goal hr
      rw [Model.children, decomposition?_of_goal hd]
      exact (nodup_claims hwf).sublist (List.filter_sublist.map Prod.fst)
    · obtain ⟨_, hd⟩ := declared_of_task hr
      rw [Model.children, decomposition?_of_task hd]
      exact List.nodup_nil

omit hwf in
theorem leaf_linked {node : Decomposition}
    (hn : document.linked.decomposition? h = some node) :
    node.kind = .leaf ↔ node.children = [] := by
  rcases Model.role?_of_decomposition? hn with hr | hr
  · obtain ⟨entry, hd⟩ := declared_of_goal hr
    rw [decomposition?_of_goal hd, Option.some.injEq] at hn
    subst hn
    simp only [Claims.decomposition, ← List.isEmpty_iff]
    split
    · next hempty => simp [hempty]
    · next hempty => split <;> simpa using hempty
  · obtain ⟨_, hd⟩ := declared_of_task hr
    rw [decomposition?_of_task hd, Option.some.injEq] at hn
    subst hn
    exact ⟨fun _ => rfl, fun _ => rfl⟩

theorem linked_sound : document.linked.Sound where
  toListed := document.linked_listed
  inRange := fun _ hh => inRange_linked hwf hh
  children := fun _ _ => by rw [mem_children_linked hwf, parent?_linked hwf]
  nodup_children := fun _ => nodup_children_linked hwf
  leaf := fun _ _ hn => leaf_linked hn
  tasks := fun _ hr => by
    obtain ⟨_, hd⟩ := declared_of_task hr
    rw [Model.children, decomposition?_of_task hd]
    rfl
  effects := fun _ _ => mem_effectsOf_linked
  nodup_turnsTrue := fun _ => nodup_turnsTrue_linked hwf
  turnsTrue := fun _ _ hp => role?_of_mem_turnsTrue hwf hp
  nodup_crossRun := Scope.nodup_distinctHandles (linkCrossRun_errors hwf)

end WellFormed

/-- A linked model is sound, so that the invariants can only complain about its roots and its
cycles. -/
theorem sound_of_link {m : Model} (h : document.link = .ok m) :
    m.Sound ∧ ∀ v ∈ m.invariantViolations,
      v = .noRootGoal ∨ (∃ names, v = .severalRootGoals names) ∨ ∃ name, v = .cycle name := by
  obtain ⟨hwf, rfl⟩ := link_eq_ok_iff.mp h
  exact ⟨linked_sound hwf, fun _ => (linked_sound hwf).invariantViolations⟩

/-- A robot opens a door, by pushing or by pulling, and walks through it. -/
def door : Document where
  name := "Door"
  actors := [{
    name := "Robot"
    predicates := ["Opened", "Inside"]
    stateVariables := ["Force"]
    goals := [⟨"Enter", ["Open", "Walk"], []⟩, ⟨"Open", [], ["Push", "Pull"]⟩]
    tasks := [
      ⟨"Push", [⟨"Pushed", .one, true, ["Opened"]⟩, ⟨"Stuck", .one, false, []⟩]⟩,
      ⟨"Pull", [⟨"Pulled", .one, true, ["Opened"]⟩]⟩,
      ⟨"Walk", [⟨"Walked", .one, true, ["Inside"]⟩]⟩]
    qualities := [⟨"Ease", true, .binary .minus (.number .one) (.atom "Force")⟩]
    conditions := [⟨"Done", .atom "Enter"⟩] }]
  crossRun := ["Opened"]
  exported := [⟨"Force", .continuous, some .zero, some .one⟩]
  initializations := [⟨"Opened", .bool false⟩]

theorem door_sound : door.link = .ok door.linked ∧ door.linked.Sound ∧
    ∀ v ∈ door.linked.invariantViolations,
      v = .noRootGoal ∨ (∃ names, v = .severalRootGoals names) ∨ ∃ name, v = .cycle name := by
  have h : door.link = .ok door.linked := rfl
  exact ⟨h, sound_of_link h⟩

end Document

end GoalModel
