import GoalModel.Proofs.Linking.WellFormed
import GoalModel.Proofs.Model.Sound

/-! # The model of a well-formed document

What stands at a handle of `Document.linked` is made from the declaration at that position
(`Document.element?_linked`); the lemmas behind it read the model's projections off that
declaration. For a well-formed document the links are the claims of its goals
(`Document.mem_children_linked`, `Document.parent?_linked`) and every element is listed once
(`Document.linked_listed`). -/

namespace GoalModel

namespace Document

variable {document : Document} {h c g t e : Handle} {d : Declaration}

theorem link_eq_ok_iff {m : Model} :
    document.link = .ok m ↔ document.WellFormed ∧ m = document.linked := by
  rw [← linkErrors_eq_nil, link]
  cases document.linkErrors <;> simp [eq_comm]

/-! ## Elements and their declarations -/

theorem element?_linked : document.linked.element? h =
    document.declarations[h.index]?.map
      (·.element document.scope document.linkActors.1 h) := by
  simp [Model.element?, linked, elements, List.getElem?_mapIdx]

theorem declared_of_element? {element : Element}
    (he : document.linked.element? h = some element) :
    ∃ d, document.declarations[h.index]? = some d ∧
      d.element document.scope document.linkActors.1 h = element :=
  Option.map_eq_some_iff.mp (element?_linked ▸ he)

theorem element?_of_declared (hd : document.declarations[h.index]? = some d) :
    document.linked.element? h = some (d.element document.scope document.linkActors.1 h) := by
  rw [element?_linked, hd]
  rfl

@[simp] theorem length_elements_linked :
    document.linked.elements.length = document.declarations.length := by
  simp [linked, elements]

theorem role?_linked :
    document.linked.role? h = document.declarations[h.index]?.map (·.role) := by
  rw [Model.role?, element?_linked, Option.map_map]
  congr 1
  funext d
  cases d <;> rfl

theorem role?_eq_some {role : Role} (hr : document.linked.role? h = some role) :
    ∃ d, document.declarations[h.index]? = some d ∧ d.role = role :=
  Option.map_eq_some_iff.mp (role?_linked ▸ hr)

theorem declared_of_goal (hr : document.linked.role? h = some .goal) :
    ∃ entry, document.declarations[h.index]? = some (.goal entry) := by
  obtain ⟨d, hd, hrole⟩ := role?_eq_some hr
  cases d <;> simp [Declaration.role] at hrole
  exact ⟨_, hd⟩

theorem declared_of_task (hr : document.linked.role? h = some .task) :
    ∃ entry, document.declarations[h.index]? = some (.task entry) := by
  obtain ⟨d, hd, hrole⟩ := role?_eq_some hr
  cases d <;> simp [Declaration.role] at hrole
  exact ⟨_, hd⟩

theorem declared_of_effect (hr : document.linked.role? h = some .effect) :
    ∃ t entry, document.declarations[h.index]? = some (.effect t entry) := by
  obtain ⟨d, hd, hrole⟩ := role?_eq_some hr
  cases d <;> simp [Declaration.role] at hrole
  exact ⟨_, _, hd⟩

theorem nameOf_linked (hd : document.declarations[h.index]? = some d) :
    document.linked.nameOf h = d.name := by
  rw [Model.nameOf, element?_of_declared hd]
  rfl

theorem scope_declared (hd : document.declarations[h.index]? = some d) :
    document.scope.declared[h.index]? = some (d.name, d.role) := by
  simp [scope, hd]

theorem declared_of_scope {name : String} {role : Role}
    (hs : document.scope.declared[h.index]? = some (name, role)) :
    ∃ d, document.declarations[h.index]? = some d ∧ d.name = name ∧ d.role = role := by
  simpa [scope] using hs

theorem decomposition?_of_goal {entry : GoalEntry}
    (hd : document.declarations[h.index]? = some (.goal entry)) :
    document.linked.decomposition? h =
      some (document.linkActors.1.decomposition (if entry.or.isEmpty then .and else .or) h) := by
  rw [Model.decomposition?, element?_of_declared hd]
  rfl

theorem task?_of_task {entry : TaskEntry}
    (hd : document.declarations[h.index]? = some (.task entry)) :
    document.linked.task? h = some ⟨⟨.leaf, [], document.linkActors.1.parent? h⟩,
      Handle.range (h.index + 1) entry.effects.length⟩ := by
  rw [Model.task?, element?_of_declared hd]
  rfl

theorem decomposition?_of_task {entry : TaskEntry}
    (hd : document.declarations[h.index]? = some (.task entry)) :
    document.linked.decomposition? h = some ⟨.leaf, [], document.linkActors.1.parent? h⟩ := by
  rw [Model.decomposition?, element?_of_declared hd]
  rfl

theorem effectsOf_of_task {entry : TaskEntry}
    (hd : document.declarations[h.index]? = some (.task entry)) :
    document.linked.effectsOf h = Handle.range (h.index + 1) entry.effects.length := by
  rw [Model.effectsOf, task?_of_task hd]
  rfl

theorem effect?_of_effect {entry : EffectEntry}
    (hd : document.declarations[h.index]? = some (.effect t entry)) :
    document.linked.effect? h = some ⟨t, entry.probability, entry.satisfying,
      (entry.linkTurnsTrue document.scope).1⟩ := by
  rw [Model.effect?, element?_of_declared hd]
  rfl

theorem turnsTrue_of_effect {entry : EffectEntry}
    (hd : document.declarations[h.index]? = some (.effect t entry)) :
    document.linked.turnsTrue h = (entry.linkTurnsTrue document.scope).1 := by
  rw [Model.turnsTrue, effect?_of_effect hd]
  rfl

theorem quality?_of_quality {entry : QualityEntry}
    (hd : document.declarations[h.index]? = some (.quality entry)) :
    document.linked.quality? h =
      some ⟨document.scope.linkFormula entry.formula, entry.root⟩ := by
  rw [Model.quality?, element?_of_declared hd]
  rfl

theorem condition?_of_condition {entry : ConditionEntry}
    (hd : document.declarations[h.index]? = some (.condition entry)) :
    document.linked.condition? h = some (document.scope.linkFormula entry.formula) := by
  rw [Model.condition?, element?_of_declared hd]
  rfl

/-! ## Every element is listed -/

theorem effectsOf_actors : List.Forall₂ (fun actor entry =>
    List.Forall₂ (fun t (task : TaskEntry) =>
      document.linked.effectsOf t = Handle.range (t.index + 1) task.effects.length)
      actor.tasks entry.tasks)
    (ActorEntry.placeAll 0 document.actors) document.actors :=
  document.actors_stand.imp fun _ _ hactor =>
    hactor.tasks.imp fun _ _ htask => effectsOf_of_task htask.self

theorem listing_linked :
    document.linked.listing = Handle.range 0 document.linked.elements.length := by
  rw [length_elements_linked]
  exact ActorEntry.listed_placeAll effectsOf_actors

theorem listsRoles_linked {actor : Actor} {entry : ActorEntry}
    (hactor : ActorEntry.Stands document.declarations actor entry) :
    document.linked.ListsRoles actor := by
  have hrole {α : Type} {f : α → Declaration} {role : Role} {hs : List Handle} {xs : List α}
      (hall : List.Forall₂ (fun h x => document.declarations[h.index]? = some (f x)) hs xs)
      (hf : ∀ x, (f x).role = role) : ∀ h ∈ hs, document.linked.role? h = some role := by
    intro h hh
    obtain ⟨x, _, hx⟩ := exists_of_mem_left hall hh
    rw [role?_linked, hx, Option.map_some, hf]
  exact {
    predicates := hrole hactor.predicates fun _ => rfl
    stateVariables := hrole hactor.stateVariables fun _ => rfl
    goals := hrole hactor.goals fun _ => rfl
    tasks := hrole (hactor.tasks.imp fun _ _ h => h.self) fun _ => rfl
    effects := fun t ht => by
      obtain ⟨task, _, htask⟩ := exists_of_mem_left hactor.tasks ht
      rw [effectsOf_of_task htask.self]
      exact hrole htask.effects fun _ => rfl
    qualities := hrole hactor.qualities fun _ => rfl
    conditions := hrole hactor.conditions fun _ => rfl }

theorem linked_listed (document : Document) : document.linked.Listed where
  listing := listing_linked
  roles := fun _ hactor => by
    obtain ⟨_, _, hstands⟩ := exists_of_mem_left document.actors_stand hactor
    exact listsRoles_linked hstands

/-- A declared task is followed by its effects. -/
theorem stands_of_task {entry : TaskEntry}
    (hd : document.declarations[t.index]? = some (.task entry)) :
    TaskEntry.Stands document.declarations t entry := by
  have hrole : document.linked.role? t = some .task := by
    rw [role?_linked, hd]
    rfl
  obtain ⟨actor, hactor, ht⟩ := document.linked_listed.exists_mem_list hrole
  obtain ⟨_, _, hstands⟩ := exists_of_mem_left document.actors_stand hactor
  obtain ⟨task, _, htask⟩ := exists_of_mem_left hstands.tasks ht
  have : task = entry := by simpa [hd] using htask.self.symm
  exact this ▸ htask

theorem mem_effectsOf_linked :
    e ∈ document.linked.effectsOf t ↔ (document.linked.effect? e).map (·.task) = some t := by
  have hforward {t : Handle} (he : e ∈ document.linked.effectsOf t) :
      (document.linked.effect? e).map (·.task) = some t := by
    obtain ⟨_, htask, _⟩ := Model.task?_of_mem_effectsOf he
    obtain ⟨entry, hd⟩ := declared_of_task (Model.role?_of_task? htask)
    rw [effectsOf_of_task hd] at he
    obtain ⟨_, _, heffect⟩ := exists_of_mem_left (stands_of_task hd).effects he
    rw [effect?_of_effect heffect]
    rfl
  refine ⟨hforward, fun h => ?_⟩
  -- an effect is listed below some task, which must be the one that it names
  obtain ⟨_, heffect, _⟩ := Option.map_eq_some_iff.mp h
  obtain ⟨_, _, he⟩ := document.linked_listed.exists_mem_list (Model.role?_of_effect? heffect)
  obtain ⟨t', _, he⟩ := List.mem_flatMap.mp he
  rw [hforward he] at h
  exact Option.some.inj h ▸ he

/-! ## The links of a well-formed document -/

theorem declared_of_accepted? {requirement : Requirement} {name : String}
    (ha : document.scope.accepted? requirement name = some h) :
    ∃ d, document.declarations[h.index]? = some d ∧ d.name = name ∧
      requirement.accepts d.role := by
  obtain ⟨role, hs, hrole⟩ := Scope.declared_of_accepted? ha
  obtain ⟨d, hd, hname, rfl⟩ := declared_of_scope hs
  exact ⟨d, hd, hname, hrole⟩

section WellFormed
variable (hwf : document.WellFormed)
include hwf

theorem linkActors_errors : document.linkActors.2 = [] := by
  have h := linkErrors_eq_nil.mpr hwf
  simp only [linkErrors, List.append_eq_nil_iff] at h
  exact h.1.1.1.1.2

theorem claims_eq :
    document.linkActors.1 = Claims.requested document.scope document.numberedGoals :=
  linkActors_claims (linkActors_errors hwf)

theorem nodup_claims : (document.linkActors.1.map Prod.fst).Nodup := by
  rw [claims_eq hwf]
  exact (linkActors_errors_eq_nil.mp (linkActors_errors hwf)).2.1

theorem goal_of_mem_claims (hc : (c, g) ∈ document.linkActors.1) :
    ∃ entry, document.declarations[g.index]? = some (.goal entry) := by
  rw [claims_eq hwf, Claims.mem_requested] at hc
  obtain ⟨entry, hg, _⟩ := hc
  exact ⟨entry, mem_numberedGoals.mp hg⟩

theorem node_of_mem_claims (hc : (c, g) ∈ document.linkActors.1) :
    document.linked.role? c = some .goal ∨ document.linked.role? c = some .task := by
  rw [claims_eq hwf, Claims.mem_requested] at hc
  obtain ⟨_, _, name, _, hname⟩ := hc
  obtain ⟨d, hd, _, hrole⟩ := declared_of_accepted? hname
  simpa [role?_linked, hd, Requirement.accepts] using hrole

theorem mem_children_linked :
    c ∈ document.linked.children g ↔ (c, g) ∈ document.linkActors.1 := by
  constructor
  · intro hc
    obtain ⟨node, hnode, hc⟩ := Model.exists_of_mem_children hc
    rcases Model.role?_of_decomposition? hnode with hr | hr
    · obtain ⟨_, hd⟩ := declared_of_goal hr
      rw [decomposition?_of_goal hd, Option.some.injEq] at hnode
      subst hnode
      exact Claims.mem_children.mp hc
    · obtain ⟨_, hd⟩ := declared_of_task hr
      rw [decomposition?_of_task hd, Option.some.injEq] at hnode
      subst hnode
      cases hc
  · intro hc
    obtain ⟨_, hd⟩ := goal_of_mem_claims hwf hc
    rw [Model.children, decomposition?_of_goal hd]
    exact Claims.mem_children.mpr hc

theorem parent?_linked :
    document.linked.parent? c = some g ↔ (c, g) ∈ document.linkActors.1 := by
  rw [← Claims.parent?_eq_some_iff (nodup_claims hwf)]
  constructor
  · intro hp
    obtain ⟨node, hnode, hp⟩ := Model.exists_of_parent? hp
    rcases Model.role?_of_decomposition? hnode with hr | hr
    · obtain ⟨_, hd⟩ := declared_of_goal hr
      rw [decomposition?_of_goal hd, Option.some.injEq] at hnode
      subst hnode
      exact hp
    · obtain ⟨_, hd⟩ := declared_of_task hr
      rw [decomposition?_of_task hd, Option.some.injEq] at hnode
      subst hnode
      exact hp
  · intro hp
    have hc := (Claims.parent?_eq_some_iff (nodup_claims hwf)).mp hp
    rcases node_of_mem_claims hwf hc with hr | hr
    · obtain ⟨_, hd⟩ := declared_of_goal hr
      rw [Model.parent?, decomposition?_of_goal hd]
      exact hp
    · obtain ⟨_, hd⟩ := declared_of_task hr
      rw [Model.parent?, decomposition?_of_task hd]
      exact hp

/-- A goal has the children that its entry names, in its order. -/
theorem children_of_goal {entry : GoalEntry}
    (hd : document.declarations[g.index]? = some (.goal entry)) :
    document.linked.children g = entry.children.filterMap (document.scope.accepted? .node) := by
  rw [Model.children, decomposition?_of_goal hd]
  change document.linkActors.1.children g = _
  rw [claims_eq hwf]
  exact Claims.children_requested nodup_numberedGoals (mem_numberedGoals.mpr hd)

end WellFormed

end Document

end GoalModel
