import GoalModel.Proofs.Golog.Runs
import GoalModel.Proofs.Loading
import GoalModel.Proofs.Model.Climb

/-! # Satisfaction over time

The clauses for satisfaction and attempt know no negation, so that they prove no less where more
predicates hold (`Derives.mono`), and predicates stay true once an effect has turned them true. Both
families of clauses go down the same tree: whoever is satisfied has been attempted
(`attempted_of_satisfied`), and whoever is satisfied before the run is satisfied where no effect has
occurred yet (`derives_preRun_iff`). Either is shown for a goal from its children, along
`Model.Valid.wellFounded_parent?`. -/

namespace GoalModel.Golog

variable {m : Model} {root g h t : Handle} {d d' : Derived} {world world' : World}
  {init : Handle → Prop} {run further : List Handle}

/-! ## More predicates prove more -/

/-- What is proved in a world is proved in every world in which at least as much holds. -/
theorem Derives.mono {clauses : List Clause} {goal : Term} (h : Derives m clauses world goal)
    (hworld : ∀ s p, world s p → world' s p) : Derives m clauses world' goal := by
  induction h with
  | word htext => exact .word htext
  | fluent hp hholds => exact .fluent hp (hworld _ _ hholds)
  | clause hmem _ ih => exact .clause hmem ih
  | both hop hjoins _ _ ihl ihr => exact .both hop hjoins ihl ihr
  | first hop hjoins _ ih => exact .first hop hjoins ih
  | second hop hjoins _ ih => exact .second hop hjoins ih
  | group _ ih => exact .group ih

theorem worldAfter_append {s : Situation} {p : Handle} (hp : worldAfter m init run s p) :
    worldAfter m init (run ++ further) s p := by
  cases s with
  | initial => exact hp
  | current =>
    refine hp.imp_right ?_
    rintro ⟨e, he, hturns⟩
    exact ⟨e, List.mem_append_left _ he, hturns⟩

/-- What is proved after a run is proved whatever effects follow. -/
theorem ProvedAfter.append {t : Translation} {goal : Term} (h : ProvedAfter m t init run goal) :
    ProvedAfter m t init (run ++ further) goal :=
  h.mono fun _ _ => worldAfter_append

/-! ## From children to goals -/

theorem Derived.operator_eq (d : Derived) (kind : Refinement) :
    d.operator kind = .disjunction ∨ d.operator kind = .conjunction := by
  cases d <;> cases kind <;> simp [Derived.operator]

theorem Derived.counts_attempted {effect : Effect} (h : d.counts effect) :
    Derived.attempted.counts effect := by
  simp only [Derived.counts, Bool.and_eq_true] at h ⊢
  exact ⟨rfl, h.2⟩

section Valid
variable (hv : m.Valid)
include hv

theorem not_derives_childless (hg : m.role? g = some .goal) (hchildless : m.children g = []) :
    ¬Derives m (satisfactionClauses m root) world
      (holdsIn (ended (m.nameOf g) d.ending) .current) := by
  obtain ⟨node, hkind, hnode⟩ := Model.kind_of_goal hg
  have hbody : derivedBody m d g = .word "fail" := by
    rw [Model.children_eq hnode] at hchildless
    rw [derivedBody, hkind]
    simp only [hchildless, List.map_nil, Term.chain]
  rw [derives_derived_iff hv (.inl hg), hbody]
  exact not_derives_fail

/-- A goal is derived from some child of it, however it combines them. -/
theorem exists_child_of_derives (hg : m.role? g = some .goal)
    (h : Derives m (satisfactionClauses m root) world
      (holdsIn (ended (m.nameOf g) d.ending) .current)) :
    ∃ c ∈ m.children g, Derives m (satisfactionClauses m root) world
      (holdsIn (ended (m.nameOf c) d.ending) .current) := by
  rcases d.operator_eq (m.refinement g) with hop | hop
  · exact (derives_goal_iff hv hg hop).mp h
  · have hne : m.children g ≠ [] := fun hchildless => not_derives_childless hv hg hchildless h
    obtain ⟨c, hc⟩ := List.exists_mem_of_ne_nil _ hne
    exact ⟨c, hc, (derives_goal_all_iff hv hg hne hop).mp h c hc⟩

/-- What combines the same answers of its children in the same way has the same answer. -/
theorem derives_goal_congr (hg : m.role? g = some .goal)
    (hop : d.operator (m.refinement g) = d'.operator (m.refinement g))
    (hchildren : ∀ c ∈ m.children g,
      (Derives m (satisfactionClauses m root) world
        (holdsIn (ended (m.nameOf c) d.ending) .current) ↔
      Derives m (satisfactionClauses m root) world'
        (holdsIn (ended (m.nameOf c) d'.ending) .current))) :
    Derives m (satisfactionClauses m root) world
        (holdsIn (ended (m.nameOf g) d.ending) .current) ↔
      Derives m (satisfactionClauses m root) world'
        (holdsIn (ended (m.nameOf g) d'.ending) .current) := by
  rcases d.operator_eq (m.refinement g) with hkind | hkind
  · rw [derives_goal_iff hv hg hkind, derives_goal_iff hv hg (hop ▸ hkind)]
    exact exists_congr fun c => and_congr_right (hchildren c)
  · by_cases hne : m.children g = []
    · exact iff_of_false (not_derives_childless hv hg hne) (not_derives_childless hv hg hne)
    · rw [derives_goal_all_iff hv hg hne hkind, derives_goal_all_iff hv hg hne (hop ▸ hkind)]
      exact forall₂_congr hchildren

/-! ## Satisfied and attempted -/

/-- Whoever is satisfied has been attempted. -/
theorem attempted_of_satisfied (hh : m.role? h = some .goal ∨ m.role? h = some .task)
    (hsatisfied : Derives m (satisfactionClauses m root) world
      (holdsIn (ended (m.nameOf h) .satisfied) .current)) :
    Derives m (satisfactionClauses m root) world
      (holdsIn (ended (m.nameOf h) .attempted) .current) := by
  induction h using hv.wellFounded_parent?.induction with
  | _ h ih =>
    rcases hh with hg | ht
    · obtain ⟨c, hc, hchild⟩ := exists_child_of_derives (d := .satisfied) hv hg hsatisfied
      exact (derives_goal_iff (d := .attempted) hv hg rfl).mpr
        ⟨c, hc, ih c ((hv.children h c).mp hc) (hv.role?_of_mem_children hc) hchild⟩
    · obtain ⟨task, ht⟩ := Model.exists_task? ht
      obtain ⟨e, he, effect, hf, hcounts, hholds⟩ :=
        (derives_task_iff (d := .satisfied) hv ht).mp hsatisfied
      exact (derives_task_iff (d := .attempted) hv ht).mpr
        ⟨e, he, effect, hf, Derived.counts_attempted hcounts, hholds⟩

/-! ## Before the run -/

/-- Satisfied before the run is what satisfied is where the same predicates hold now. -/
theorem derives_preRun_iff (hworld : ∀ p, world .initial p ↔ world' .current p)
    (hh : m.role? h = some .goal ∨ m.role? h = some .task) :
    Derives m (satisfactionClauses m root) world
        (holdsIn (ended (m.nameOf h) .preRun) .current) ↔
      Derives m (satisfactionClauses m root) world'
        (holdsIn (ended (m.nameOf h) .satisfied) .current) := by
  induction h using hv.wellFounded_parent?.induction with
  | _ h ih =>
    rcases hh with hg | ht
    · have hop : Derived.preRun.operator (m.refinement h) =
          Derived.satisfied.operator (m.refinement h) := by
        cases m.refinement h <;> rfl
      exact derives_goal_congr hv hg hop fun c hc =>
        ih c ((hv.children h c).mp hc) (hv.role?_of_mem_children hc)
    · obtain ⟨task, ht⟩ := Model.exists_task? ht
      -- Both clauses count the same effects; they differ in the situation only.
      refine (derives_task_iff (d := .preRun) hv ht).trans
        (Iff.trans ?_ (derives_task_iff (d := .satisfied) hv ht).symm)
      refine exists_congr fun e => and_congr_right fun _ => exists_congr fun effect => ?_
      exact and_congr_right fun _ => and_congr_right fun _ => forall₂_congr fun p _ => hworld p

end Valid

/-- In every situation a satisfied goal or task is attempted, and whatever effects follow, what has
been satisfied or attempted stays so. -/
theorem satisfaction_persists {text : String} {withSchema : Bool} {m : Model}
    (h : parseModel text withSchema = .ok m) :
    ∃ t, assemble m = .ok t ∧
      ∀ x, (m.role? x = some .goal ∨ m.role? x = some .task) →
        ∀ (init : Handle → Prop) (run : List Handle),
          (ProvedAfter m t init run (holdsIn (ended (m.nameOf x) .satisfied) .current) →
            ProvedAfter m t init run (holdsIn (ended (m.nameOf x) .attempted) .current)) ∧
          ∀ (d : Derived) (further : List Handle),
            ProvedAfter m t init run (holdsIn (ended (m.nameOf x) d.ending) .current) →
              ProvedAfter m t init (run ++ further)
                (holdsIn (ended (m.nameOf x) d.ending) .current) := by
  have hv := valid_of_parseModel h
  obtain ⟨root, hroot⟩ := hv.exists_rootGoals
  refine ⟨translateFrom m root, assemble_eq_ok hroot, fun x hx init run => ⟨?_, ?_⟩⟩
  · rw [provedAfter_eq]
    exact attempted_of_satisfied hv hx
  · exact fun d further hproved => hproved.append

/-- Where the door is opened, "Open" is satisfied. -/
theorem satisfied_door {init : Handle → Prop} {run : List Handle}
    (hopened : worldAfter Document.door.linked init run .current ⟨0⟩) :
    ProvedAfter Document.door.linked (translateFrom Document.door.linked ⟨3⟩) init run
      (holdsIn "Open_Sat" .current) := by
  have hv := valid_of_parseModel parseModel_doorText
  rw [provedAfter_eq]
  refine (derives_goal_iff (g := ⟨4⟩) (d := .satisfied) hv rfl rfl).mpr ⟨⟨5⟩, by decide, ?_⟩
  exact (derives_task_iff (t := ⟨5⟩) (d := .satisfied) hv rfl).mpr
    ⟨⟨6⟩, by decide, _, rfl, by decide, List.forall_mem_singleton.mpr hopened⟩

theorem door_persists : ∃ t, assemble Document.door.linked = .ok t ∧
    ProvedAfter Document.door.linked t (fun _ => False) [⟨6⟩] (holdsIn "Open_Att" .current) ∧
    ProvedAfter Document.door.linked t (fun _ => False) [⟨6⟩, ⟨7⟩, ⟨11⟩]
      (holdsIn "Open_Sat" .current) := by
  have hroot : Document.door.linked.rootGoals = [⟨3⟩] := by decide
  obtain ⟨t, ht, hpersists⟩ := satisfaction_persists parseModel_doorText
  obtain rfl := Except.ok.inj ((assemble_eq_ok hroot).symm.trans ht)
  obtain ⟨hattempted, hstays⟩ := hpersists ⟨4⟩ (by decide) (fun _ => False) [⟨6⟩]
  have hopened : worldAfter Document.door.linked (fun _ => False) [⟨6⟩] .current ⟨0⟩ :=
    .inr ⟨⟨6⟩, by decide, by decide⟩
  have hsatisfied := satisfied_door hopened
  exact ⟨_, ht, hattempted hsatisfied, hstays .satisfied [⟨7⟩, ⟨11⟩] hsatisfied⟩

/-- After any run a goal or task is said to be satisfied before the run exactly if it is satisfied
where no effect has occurred. -/
theorem preRun_iff_satisfied {text : String} {withSchema : Bool} {m : Model}
    (h : parseModel text withSchema = .ok m) :
    ∃ t, assemble m = .ok t ∧
      ∀ x, (m.role? x = some .goal ∨ m.role? x = some .task) →
        ∀ (init : Handle → Prop) (run : List Handle),
          ProvedAfter m t init run (holdsIn (ended (m.nameOf x) .preRun) .current) ↔
            ProvedAfter m t init [] (holdsIn (ended (m.nameOf x) .satisfied) .current) := by
  have hv := valid_of_parseModel h
  obtain ⟨root, hroot⟩ := hv.exists_rootGoals
  refine ⟨translateFrom m root, assemble_eq_ok hroot, fun x hx init run => ?_⟩
  simp only [provedAfter_eq]
  refine derives_preRun_iff hv (fun p => ?_) hx
  simp [worldAfter]

/-- The door was open before, and it is still known after a walk; nobody was inside. -/
theorem door_preRun : ∃ t, assemble Document.door.linked = .ok t ∧
    ProvedAfter Document.door.linked t (· = ⟨0⟩) [⟨11⟩] (holdsIn "Open_Pre" .current) ∧
    ¬ProvedAfter Document.door.linked t (· = ⟨0⟩) [⟨11⟩] (holdsIn "Walk_Pre" .current) := by
  have hv := valid_of_parseModel parseModel_doorText
  have hroot : Document.door.linked.rootGoals = [⟨3⟩] := by decide
  obtain ⟨t, ht, hpreRun⟩ := preRun_iff_satisfied parseModel_doorText
  obtain rfl := Except.ok.inj ((assemble_eq_ok hroot).symm.trans ht)
  refine ⟨_, ht, (hpreRun ⟨4⟩ (by decide) _ _).mpr ?_, (hpreRun ⟨10⟩ (by decide) _ _).not.mpr ?_⟩
  · exact satisfied_door (.inl rfl)
  · rw [provedAfter_eq]
    refine (derives_task_iff (t := ⟨10⟩) (d := .satisfied) hv rfl).not.mpr ?_
    rintro ⟨e, he, effect, hf, -, hholds⟩
    obtain rfl : e = ⟨11⟩ := List.mem_singleton.mp he
    obtain rfl := Option.some.inj hf
    have hinside : worldAfter Document.door.linked (· = ⟨0⟩) [] .current ⟨1⟩ :=
      hholds ⟨1⟩ (by decide)
    simp [worldAfter] at hinside

end GoalModel.Golog
