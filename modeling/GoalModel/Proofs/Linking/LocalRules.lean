import GoalModel.Proofs.Linking.WellFormed

/-! # Local rules

Some rules of linking concern one value of a document at a time: the shape of a declared name, the
bounds of a probability, that a goal is refined in one way only, and that an effect names no
predicate twice (`ActorEntry.KeepsLocalRules`). In a document that keeps them, all that linking
can report is what takes several values to see (`LinkError.NonLocal`): each step of linking adds
such errors only, whatever has gone wrong before (`Document.nonLocal_of_link`). -/

namespace GoalModel

/-- The errors that it takes more than one value of a document to see. -/
inductive LinkError.NonLocal : LinkError → Prop
  | duplicateName (name : String) : NonLocal (.duplicateName name)
  | unresolved (referrer : Referrer) (name : String) : NonLocal (.unresolved referrer name)
  | wrongRole (referrer : Referrer) (name : String) (role : Role) (requirement : Requirement) :
    NonLocal (.wrongRole referrer name role requirement)
  | repeatedChild (goal name : String) : NonLocal (.repeatedChild goal name)
  | severalParents (name first second : String) : NonLocal (.severalParents name first second)
  | severalRootQualities (names : List String) : NonLocal (.severalRootQualities names)
  | repeatedCrossRun (name : String) : NonLocal (.repeatedCrossRun name)
  | invertedBounds (name : String) (min max : Number) : NonLocal (.invertedBounds name min max)

structure GoalEntry.KeepsLocalRules (goal : GoalEntry) : Prop where
  declarable : Identifier.Declarable goal.name
  oneWay : goal.and = [] ∨ goal.or = []

structure EffectEntry.KeepsLocalRules (effect : EffectEntry) : Prop where
  declarable : Identifier.Declarable effect.name
  probability : isProbability effect.probability
  distinct : effect.turnsTrue.Nodup

structure TaskEntry.KeepsLocalRules (task : TaskEntry) : Prop where
  declarable : Identifier.Declarable task.name
  effects : ∀ effect ∈ task.effects, effect.KeepsLocalRules

structure ActorEntry.KeepsLocalRules (actor : ActorEntry) : Prop where
  predicates : ∀ name ∈ actor.predicates, Identifier.Declarable name
  stateVariables : ∀ name ∈ actor.stateVariables, Identifier.Declarable name
  goals : ∀ goal ∈ actor.goals, goal.KeepsLocalRules
  tasks : ∀ task ∈ actor.tasks, task.KeepsLocalRules
  qualities : ∀ quality ∈ actor.qualities, Identifier.Declarable quality.name
  conditions : ∀ condition ∈ actor.conditions, Identifier.Declarable condition.name

/-! ## References -/

section References

variable {scope : Scope} {referrer : Referrer} {requirement : Requirement} {name : String}
  {e : LinkError}

theorem Scope.nonLocal_of_resolveAs (h : scope.resolveAs referrer requirement name = .error e) :
    e.NonLocal := by
  unfold resolveAs at h
  split at h
  · cases h
    exact .unresolved _ _
  · split at h
    · cases h
      exact .unresolved _ _
    · split at h <;> cases h
      exact .wrongRole _ _ _ _

theorem Scope.nonLocal_of_formulaErrors {formula : Formula String}
    (h : e ∈ scope.formulaErrors referrer formula) : e.NonLocal := by
  obtain ⟨name, _, rfl⟩ := List.mem_map.mp h
  exact .unresolved _ _

section Distinct

variable {resolve : String → Except LinkError Handle} {repeated : String → LinkError}
  {seen : List Handle} {names : List String}

theorem mem_distinctHandles_errors (h : e ∈ (distinctHandles resolve repeated seen names).2) :
    (∃ name, resolve name = .error e) ∨ ∃ name, e = repeated name := by
  fun_induction distinctHandles resolve repeated seen names with
  | case1 => cases h
  | case2 seen name rest error hname tail errors htail ih =>
    rcases List.mem_cons.mp h with rfl | h
    · exact .inl ⟨name, hname⟩
    · exact ih (htail ▸ h)
  | case3 seen name rest handle hname hseen tail errors htail ih =>
    rcases List.mem_cons.mp h with rfl | h
    · exact .inr ⟨name, rfl⟩
    · exact ih (htail ▸ h)
  | case4 seen name rest handle hname hseen tail errors htail ih => exact ih (htail ▸ h)

/-- Distinct names that mean distinct handles, none of them seen before, are not repeated. -/
theorem mem_distinctHandles_errors_of_nodup (hnd : names.Nodup)
    (hinj : ∀ a b g, resolve a = .ok g → resolve b = .ok g → a = b)
    (hfresh : ∀ a ∈ names, ∀ g ∈ seen, resolve a ≠ .ok g)
    (h : e ∈ (distinctHandles resolve repeated seen names).2) :
    ∃ name, resolve name = .error e := by
  fun_induction distinctHandles resolve repeated seen names with
  | case1 => cases h
  | case2 seen name rest error hname tail errors htail ih =>
    rcases List.mem_cons.mp h with rfl | h
    · exact ⟨name, hname⟩
    · exact ih hnd.of_cons (fun a ha => hfresh a (.tail _ ha)) (htail ▸ h)
  | case3 seen name rest handle hname hseen tail errors htail ih =>
    exact absurd hname (hfresh name (.head _) handle hseen)
  | case4 seen name rest handle hname hseen tail errors htail ih =>
    refine ih hnd.of_cons (fun a ha g hg hag => ?_) (htail ▸ h)
    rcases List.mem_cons.mp hg with rfl | hg
    · obtain rfl := hinj _ _ _ hag hname
      exact (List.nodup_cons.mp hnd).1 ha
    · exact hfresh a (.tail _ ha) g hg hag

end Distinct

theorem EffectEntry.nonLocal_of_linkTurnsTrue {effect : EffectEntry} (hnd : effect.turnsTrue.Nodup)
    (h : e ∈ (effect.linkTurnsTrue scope).2) : e.NonLocal := by
  obtain ⟨name, hname⟩ := mem_distinctHandles_errors_of_nodup hnd (fun a b g ha hb =>
    Scope.eq_of_accepted? (Scope.resolveAs_eq_ok.mp ha) (Scope.resolveAs_eq_ok.mp hb))
    (fun _ _ => List.forall_mem_nil _) h
  exact Scope.nonLocal_of_resolveAs hname

end References

/-! ## Goals -/

namespace Claims

variable {scope : Scope} {claims : Claims} {goal : Handle} {e : LinkError}

theorem nonLocal_of_candidate {name : String}
    (h : claims.candidate scope goal name = .error e) : e.NonLocal := by
  dsimp only [candidate] at h
  cases hchild : scope.resolveAs (.goal (scope.nameOf goal)) .node name with
  | error error =>
    rw [hchild] at h
    cases h
    exact Scope.nonLocal_of_resolveAs hchild
  | ok child =>
    rw [hchild] at h
    dsimp only [bind, Except.bind] at h
    split at h
    · cases h
    · split at h <;> cases h
      · exact .repeatedChild _ _
      · exact .severalParents _ _ _

theorem nonLocal_of_addAll {names : List String}
    (h : e ∈ (addAll scope goal claims names).2) : e.NonLocal := by
  fun_induction addAll scope goal claims names with
  | case1 => cases h
  | case2 claims name rest child _ ih => exact ih h
  | case3 claims name rest error herror tail errors htail ih =>
    rcases List.mem_cons.mp h with rfl | h
    · exact nonLocal_of_candidate herror
    · exact ih (htail ▸ h)

theorem nonLocal_of_addGoal {entry : GoalEntry} (hway : entry.and = [] ∨ entry.or = [])
    (h : e ∈ (addGoal scope claims goal entry).2) : e.NonLocal := by
  have hsingle : ¬ (!entry.and.isEmpty && !entry.or.isEmpty) = true := by
    rcases hway with hnil | hnil <;> simp [hnil]
  rw [addGoal, if_neg hsingle] at h
  exact nonLocal_of_addAll h

theorem nonLocal_of_addGoals {base : Nat} {entries : List GoalEntry}
    (hentries : ∀ entry ∈ entries, entry.KeepsLocalRules)
    (h : e ∈ (addGoals scope base claims entries).2) : e.NonLocal := by
  induction entries generalizing base claims with
  | nil => cases h
  | cons entry rest ih =>
    obtain ⟨hentry, hrest⟩ := List.forall_mem_cons.mp hentries
    rcases List.mem_append.mp h with h | h
    · exact nonLocal_of_addGoal hentry.oneWay h
    · exact ih hrest h

end Claims

/-! ## Actors -/

namespace ActorEntry

variable {scope : Scope} {actor : ActorEntry} {e : LinkError}

theorem KeepsLocalRules.of_mem_effects (hactor : actor.KeepsLocalRules) {effect : EffectEntry}
    (h : effect ∈ actor.effects) : effect.KeepsLocalRules := by
  obtain ⟨task, htask, heffect⟩ := List.mem_flatMap.mp h
  exact (hactor.tasks task htask).effects effect heffect

theorem KeepsLocalRules.declarable_of_mem_declared (hactor : actor.KeepsLocalRules)
    {entry : String × Role} (h : entry ∈ actor.declared) : Identifier.Declarable entry.1 := by
  simp only [declared, List.mem_append, List.mem_map, List.mem_flatMap, List.mem_cons] at h
  rcases h with ((((⟨name, hname, rfl⟩ | ⟨name, hname, rfl⟩) | ⟨goal, hgoal, rfl⟩) |
    ⟨task, htask, rfl | ⟨effect, heffect, rfl⟩⟩) | ⟨quality, hquality, rfl⟩) |
    ⟨condition, hcondition, rfl⟩
  · exact hactor.predicates name hname
  · exact hactor.stateVariables name hname
  · exact (hactor.goals goal hgoal).declarable
  · exact (hactor.tasks task htask).declarable
  · exact ((hactor.tasks task htask).effects effect heffect).declarable
  · exact hactor.qualities quality hquality
  · exact hactor.conditions condition hcondition

theorem nonLocal_of_referenceErrors (hactor : actor.KeepsLocalRules)
    (h : e ∈ actor.referenceErrors scope) : e.NonLocal := by
  simp only [referenceErrors, List.mem_append, List.mem_flatMap] at h
  rcases h with (⟨effect, heffect, h⟩ | ⟨quality, _, h⟩) | ⟨condition, _, h⟩
  · have hrules := hactor.of_mem_effects (List.mem_flatMap.mpr heffect)
    exact effect.nonLocal_of_linkTurnsTrue hrules.distinct h
  · exact Scope.nonLocal_of_formulaErrors h
  · exact Scope.nonLocal_of_formulaErrors h

theorem nonLocal_of_linkAll {base : Nat} {claims : Claims} {actors : List ActorEntry}
    (hactors : ∀ actor ∈ actors, actor.KeepsLocalRules)
    (h : e ∈ (linkAll scope base claims actors).2) : e.NonLocal := by
  induction actors generalizing base claims with
  | nil => cases h
  | cons actor rest ih =>
    obtain ⟨hactor, hrest⟩ := List.forall_mem_cons.mp hactors
    simp only [linkAll, List.mem_append] at h
    rcases h with (h | h) | h
    · exact Claims.nonLocal_of_addGoals hactor.goals h
    · exact nonLocal_of_referenceErrors hactor h
    · exact ih hrest h

end ActorEntry

/-! ## Declarations -/

theorem nonLocal_of_errors {seen : List String} {d : Declaration} {e : LinkError}
    (hname : Identifier.Declarable d.name)
    (hprobability : ∀ effect ∈ d.effect?, isProbability effect.probability)
    (h : e ∈ d.errors seen) : e.NonLocal := by
  obtain ⟨hvalid, hreserved⟩ := Identifier.declarable_iff.mp hname
  rcases List.mem_append.mp h with h | h
  · split at h
    · rw [if_pos (hprobability _ rfl)] at h
      cases h
    · cases h
  · rw [nameErrors, if_pos hvalid, hreserved, List.nil_append, List.nil_append,
      List.mem_ite_nil_right, List.mem_singleton] at h
    rw [h.2]
    exact .duplicateName _

theorem nonLocal_of_declarationErrors {seen : List String} {ds : List Declaration} {e : LinkError}
    (hnames : ∀ name ∈ ds.map (·.name), Identifier.Declarable name)
    (hprobabilities : ∀ effect ∈ ds.filterMap Declaration.effect?,
      isProbability effect.probability)
    (h : e ∈ declarationErrors seen ds) : e.NonLocal := by
  induction ds generalizing seen with
  | nil => cases h
  | cons d rest ih =>
    obtain ⟨hname, hrest⟩ := List.forall_mem_cons.mp hnames
    rcases List.mem_append.mp h with h | h
    · exact nonLocal_of_errors hname
        (fun effect he => hprobabilities effect (List.mem_filterMap.mpr ⟨d, .head _, he⟩)) h
    · refine ih hrest (fun effect heffect => hprobabilities effect ?_) h
      exact (List.sublist_cons_self d rest).filterMap _ |>.subset heffect

/-! ## What leaves and enters a run -/

section Entries

variable {scope : Scope} {e : LinkError}

theorem ExportEntry.nonLocal_of_linkErrors (entry : ExportEntry) (h : e ∈ entry.linkErrors scope) :
    e.NonLocal := by
  unfold linkErrors at h
  split at h
  · next hresolve =>
    rw [List.mem_singleton.mp h]
    exact Scope.nonLocal_of_resolveAs hresolve
  · split at h
    · obtain ⟨_, h⟩ := List.mem_ite_nil_right.mp h
      rw [List.mem_singleton.mp h]
      exact .invertedBounds _ _ _
    · cases h

theorem InitialEntry.nonLocal_of_linkErrors (entry : InitialEntry)
    (h : e ∈ entry.linkErrors scope) : e.NonLocal := by
  unfold linkErrors at h
  split at h
  · next hresolve =>
    rw [List.mem_singleton.mp h]
    exact Scope.nonLocal_of_resolveAs hresolve
  · cases h

end Entries

/-! ## Documents -/

namespace Document

variable {document : Document} {e : LinkError}

theorem nonLocal_of_linkErrors (hrules : ∀ actor ∈ document.actors, actor.KeepsLocalRules)
    (h : e ∈ document.linkErrors) : e.NonLocal := by
  simp only [linkErrors, List.mem_append, List.mem_flatMap] at h
  rcases h with ((((h | h) | h) | h) | ⟨entry, _, h⟩) | ⟨entry, _, h⟩
  · refine nonLocal_of_declarationErrors ?_ ?_ h
    · rw [map_name_declarations]
      refine List.forall_mem_map.mpr fun entry hentry => ?_
      obtain ⟨actor, hactor, hentry⟩ := List.mem_flatMap.mp hentry
      exact (hrules actor hactor).declarable_of_mem_declared hentry
    · rw [filterMap_effect?]
      intro effect heffect
      obtain ⟨actor, hactor, heffect⟩ := List.mem_flatMap.mp heffect
      exact ((hrules actor hactor).of_mem_effects heffect).probability
  · exact ActorEntry.nonLocal_of_linkAll hrules h
  · obtain ⟨_, h⟩ := List.mem_ite_nil_right.mp h
    rw [List.mem_singleton.mp h]
    exact .severalRootQualities _
  · rcases mem_distinctHandles_errors h with ⟨name, hname⟩ | ⟨name, rfl⟩
    · exact Scope.nonLocal_of_resolveAs hname
    · exact .repeatedCrossRun _
  · exact entry.nonLocal_of_linkErrors h
  · exact entry.nonLocal_of_linkErrors h

theorem nonLocal_of_link {errors : List LinkError}
    (hrules : ∀ actor ∈ document.actors, actor.KeepsLocalRules)
    (h : document.link = .error errors) : ∀ e ∈ errors, e.NonLocal := by
  dsimp only [link] at h
  split at h <;> cases h
  exact fun e he => nonLocal_of_linkErrors hrules he

end Document

end GoalModel
