import GoalModel.Linking.Declaration
import Mathlib.Data.List.Forall2

/-! # Where declarations stand

The handles that `ActorEntry.place` gives to an actor are the positions of its declarations.
`ActorEntry.Stands` says so for one list of declarations, entry by entry;
`ActorEntry.placeAll_stand` proves it for consecutive actors, and `Document.actors_stand` for
a document. Listed actor by actor, each task followed by its effects, the handles are consecutive
(`ActorEntry.listed_placeAll`). -/

namespace GoalModel

/-! ## Lists entry by entry -/

theorem exists_of_mem_left {α β : Type} {R : α → β → Prop} {as : List α} {bs : List β} {a : α}
    (h : List.Forall₂ R as bs) (ha : a ∈ as) : ∃ b ∈ bs, R a b := by
  induction h with
  | nil => cases ha
  | cons hab _ ih =>
    rcases List.mem_cons.mp ha with rfl | ha
    · exact ⟨_, List.mem_cons_self, hab⟩
    · obtain ⟨b, hb, hR⟩ := ih ha
      exact ⟨b, List.mem_cons_of_mem _ hb, hR⟩

theorem map_eq_of_forall₂ {α β : Type} {R : α → β → Prop} {f : α → β} {as : List α}
    {bs : List β} (h : List.Forall₂ R as bs) (hf : ∀ a, ∀ b ∈ bs, R a b → f a = b) :
    as.map f = bs := by
  induction h with
  | nil => rfl
  | cons hab _ ih =>
    rw [List.map_cons, hf _ _ List.mem_cons_self hab,
      ih fun a b hb => hf a b (List.mem_cons_of_mem _ hb)]

/-! ## Consecutive handles -/

namespace Handle

theorem range_succ (base count : Nat) :
    range base (count + 1) = ⟨base⟩ :: range (base + 1) count := by
  simp only [range, List.range_succ_eq_map, List.map_cons, List.map_map, Nat.add_zero]
  congr 1
  refine List.map_congr_left fun i _ => ?_
  simp only [Function.comp_apply, Handle.mk.injEq]
  omega

theorem range_append (base m n : Nat) :
    range base m ++ range (base + m) n = range base (m + n) := by
  induction m generalizing base with
  | zero =>
    rw [Nat.zero_add]
    rfl
  | succ m ih =>
    rw [Nat.succ_add, range_succ, range_succ, List.cons_append, ← ih, Nat.add_right_comm base 1 m,
      Nat.add_assoc base m 1]

theorem mem_range {base count : Nat} {h : Handle} :
    h ∈ range base count ↔ base ≤ h.index ∧ h.index < base + count := by
  simp only [range, List.mem_map, List.mem_range]
  constructor
  · rintro ⟨i, hi, rfl⟩
    exact ⟨Nat.le_add_right _ _, Nat.add_lt_add_left hi base⟩
  · rintro ⟨hle, hlt⟩
    refine ⟨h.index - base, by omega, ?_⟩
    rw [Nat.add_sub_cancel' hle]

@[simp] theorem length_range (base count : Nat) : (range base count).length = count := by
  simp [range]

end Handle

/-! ## Lists inside a list of declarations -/

section Segments
variable {α : Type} {declared : List Declaration} {base : Nat}

theorem drop_of_prefix_append {xs ys : List Declaration} (h : xs ++ ys <+: declared.drop base) :
    ys <+: declared.drop (base + xs.length) := by
  obtain ⟨rest, hrest⟩ := h
  refine ⟨rest, ?_⟩
  rw [← List.drop_drop, ← hrest, List.append_assoc, List.drop_left]

theorem drop_of_prefix_cons {d : Declaration} {ys : List Declaration}
    (h : d :: ys <+: declared.drop base) : ys <+: declared.drop (base + 1) :=
  drop_of_prefix_append (show [d] ++ ys <+: declared.drop base from h)

theorem getElem?_of_prefix_cons {d : Declaration} {xs : List Declaration}
    (h : d :: xs <+: declared.drop base) : declared[base]? = some d := by
  obtain ⟨rest, hrest⟩ := h
  have := congrArg (·[0]?) hrest
  simpa using this.symm

/-- The declarations made from a list stand at consecutive handles. -/
theorem forall₂_range {f : α → Declaration} {xs : List α}
    (h : xs.map f <+: declared.drop base) :
    List.Forall₂ (fun h x => declared[h.index]? = some (f x))
      (Handle.range base xs.length) xs := by
  induction xs generalizing base with
  | nil => exact .nil
  | cons x xs ih =>
    rw [List.length_cons, Handle.range_succ]
    exact .cons (getElem?_of_prefix_cons h) (ih (drop_of_prefix_cons h))

end Segments

/-! ## Tasks -/

namespace TaskEntry

variable {declared : List Declaration}

/-- A task stands at a handle, and its effects right behind it. -/
structure Stands (declared : List Declaration) (h : Handle) (task : TaskEntry) : Prop where
  self : declared[h.index]? = some (.task task)
  effects : List.Forall₂ (fun e entry => declared[e.index]? = some (.effect h entry))
    (Handle.range (h.index + 1) task.effects.length) task.effects

theorem length_declarations_cons (base : Nat) (task : TaskEntry) (rest : List TaskEntry) :
    (TaskEntry.declarations base (task :: rest)).length =
      task.effects.length + 1 +
        (TaskEntry.declarations (base + task.effects.length + 1) rest).length := by
  simp [TaskEntry.declarations]
  omega

/-- How many elements tasks declare does not depend on where they begin. -/
theorem length_declarations (base base' : Nat) (tasks : List TaskEntry) :
    (TaskEntry.declarations base tasks).length =
      (TaskEntry.declarations base' tasks).length := by
  induction tasks generalizing base base' with
  | nil => rfl
  | cons task rest ih =>
    rw [length_declarations_cons, length_declarations_cons,
      ih _ (base' + task.effects.length + 1)]

theorem handles_stand {tasks : List TaskEntry} {base : Nat}
    (h : TaskEntry.declarations base tasks <+: declared.drop base) :
    List.Forall₂ (Stands declared) (TaskEntry.handles base tasks) tasks := by
  induction tasks generalizing base with
  | nil => exact .nil
  | cons task rest ih =>
    have heffects := drop_of_prefix_cons h
    refine .cons ⟨getElem?_of_prefix_cons h, ?_⟩ (ih ?_)
    · exact forall₂_range ((List.prefix_append _ _).trans heffects)
    · have := drop_of_prefix_append heffects
      simpa [Nat.add_assoc, Nat.add_comm 1] using this

/-- Tasks and their effects have consecutive handles, if the effects of a task are looked up
where they stand. -/
theorem flatMap_handles {effectsOf : Handle → List Handle} {tasks : List TaskEntry} {base : Nat}
    (h : List.Forall₂ (fun t task => effectsOf t = Handle.range (t.index + 1) task.effects.length)
      (TaskEntry.handles base tasks) tasks) :
    (TaskEntry.handles base tasks).flatMap (fun t => t :: effectsOf t) =
      Handle.range base (TaskEntry.declarations base tasks).length := by
  induction tasks generalizing base with
  | nil => rfl
  | cons task rest ih =>
    obtain ⟨hself, hrest⟩ := List.forall₂_cons.mp h
    rw [length_declarations_cons, ← Handle.range_append, Handle.range_succ]
    simp only [TaskEntry.handles, List.flatMap_cons]
    rw [hself, ih hrest, Nat.add_assoc]

end TaskEntry

/-! ## Actors -/

/-- The handles of an actor in the order of declaration, each task followed by its effects. -/
def Actor.listed (effectsOf : Handle → List Handle) (actor : Actor) : List Handle :=
  actor.predicates ++ actor.stateVariables ++ actor.goals ++
  (actor.tasks.flatMap fun task => task :: effectsOf task) ++
  actor.qualities ++ actor.conditions

namespace ActorEntry

variable {declared : List Declaration}

/-- The handles of an actor are the positions of the declarations of its entry. -/
structure Stands (declared : List Declaration) (actor : Actor) (entry : ActorEntry) : Prop where
  name : actor.name = entry.name
  predicates : List.Forall₂ (fun h name => declared[h.index]? = some (.predicate name))
    actor.predicates entry.predicates
  stateVariables : List.Forall₂ (fun h name => declared[h.index]? = some (.stateVariable name))
    actor.stateVariables entry.stateVariables
  goals : List.Forall₂ (fun h goal => declared[h.index]? = some (.goal goal))
    actor.goals entry.goals
  tasks : List.Forall₂ (TaskEntry.Stands declared) actor.tasks entry.tasks
  qualities : List.Forall₂ (fun h quality => declared[h.index]? = some (.quality quality))
    actor.qualities entry.qualities
  conditions : List.Forall₂ (fun h condition => declared[h.index]? = some (.condition condition))
    actor.conditions entry.conditions

theorem length_declarations (base base' : Nat) (entry : ActorEntry) :
    (entry.declarations base).length = (entry.declarations base').length := by
  simp [declarations, TaskEntry.length_declarations (entry.taskBase base) (entry.taskBase base')]

theorem place_stands {entry : ActorEntry} {base : Nat}
    (h : entry.declarations base <+: declared.drop base) :
    Stands declared (entry.place base) entry := by
  unfold declarations at h
  simp only [List.append_assoc] at h
  have hvariables := drop_of_prefix_append h
  have hgoals := drop_of_prefix_append hvariables
  have htasks := drop_of_prefix_append hgoals
  have hqualities := drop_of_prefix_append htasks
  have hconditions := drop_of_prefix_append hqualities
  simp only [List.length_map] at hvariables hgoals htasks hqualities hconditions
  rw [TaskEntry.length_declarations _ 0] at hqualities hconditions
  exact {
    name := rfl
    predicates := forall₂_range ((List.prefix_append _ _).trans h)
    stateVariables := forall₂_range ((List.prefix_append _ _).trans hvariables)
    goals := forall₂_range ((List.prefix_append _ _).trans hgoals)
    tasks := TaskEntry.handles_stand ((List.prefix_append _ _).trans htasks)
    qualities := forall₂_range ((List.prefix_append _ _).trans hqualities)
    conditions := forall₂_range hconditions }

theorem listed_place {effectsOf : Handle → List Handle} {entry : ActorEntry} {base : Nat}
    (h : List.Forall₂ (fun t task => effectsOf t = Handle.range (t.index + 1) task.effects.length)
      (entry.place base).tasks entry.tasks) :
    (entry.place base).listed effectsOf = Handle.range base entry.size := by
  have htasks := TaskEntry.flatMap_handles h
  rw [TaskEntry.length_declarations _ 0] at htasks
  have hsize : entry.size = entry.predicates.length + (entry.stateVariables.length +
      (entry.goals.length + ((TaskEntry.declarations 0 entry.tasks).length +
        (entry.qualities.length + entry.conditions.length)))) := by
    simp [size, declarations, TaskEntry.length_declarations _ 0]
  simp only [Actor.listed, place] at htasks ⊢
  rw [htasks, hsize]
  simp only [qualityBase, taskBase, goalBase, Handle.range_append, Nat.add_assoc]

theorem listed_placeAll {effectsOf : Handle → List Handle} {entries : List ActorEntry}
    {base : Nat}
    (h : List.Forall₂ (fun actor entry => List.Forall₂ (fun t task =>
        effectsOf t = Handle.range (t.index + 1) task.effects.length) actor.tasks entry.tasks)
      (placeAll base entries) entries) :
    (placeAll base entries).flatMap (Actor.listed effectsOf) =
      Handle.range base (allDeclarations base entries).length := by
  induction entries generalizing base with
  | nil => rfl
  | cons entry rest ih =>
    obtain ⟨hentry, hrest⟩ := List.forall₂_cons.mp h
    simp only [placeAll, allDeclarations, List.flatMap_cons, List.length_append]
    rw [listed_place hentry, ih hrest, length_declarations base 0]
    exact Handle.range_append ..

theorem placeAll_stand {actors : List ActorEntry} {base : Nat}
    (h : allDeclarations base actors <+: declared.drop base) :
    List.Forall₂ (Stands declared) (placeAll base actors) actors := by
  induction actors generalizing base with
  | nil => exact .nil
  | cons entry rest ih =>
    have hrest := drop_of_prefix_append h
    rw [length_declarations base 0] at hrest
    exact .cons (place_stands ((List.prefix_append _ _).trans h)) (ih hrest)

end ActorEntry

theorem Document.actors_stand (document : Document) :
    List.Forall₂ (ActorEntry.Stands document.declarations)
      (ActorEntry.placeAll 0 document.actors) document.actors :=
  ActorEntry.placeAll_stand List.prefix_rfl

end GoalModel
