import GoalModel.Golog.Precondition
import GoalModel.Proofs.Loading
import GoalModel.Proofs.Model.Alternatives

/-! # Guards

The guard of a task's effects asks about the task and what competes with it. Of two tasks below a
common goal each is guarded against a branch with the other exactly if the lowest goal above both
is or-refined (`Model.Valid.exists_mem_guards_iff`): there they part into alternatives, while
anywhere else they part into branches that are done together. -/

namespace GoalModel.Golog

variable {m : Model} {t u a : Handle}

theorem mem_guards {x : Handle} : x ∈ guards m t ↔ x = t ∨ x ∈ m.competingAlternatives t :=
  List.mem_cons

section Valid
variable (hv : m.Valid)
include hv

/-- Nothing lies below a task. -/
theorem not_below_task (ht : m.role? t = some .task) : ¬ m.Below u t := by
  intro hbelow
  obtain ⟨c, _, hc⟩ := Model.below_iff_exists.mp hbelow
  have hgoal := hv.role?_of_parent? hc
  rw [ht] at hgoal
  cases hgoal

theorem not_atOrBelow_task (ht : m.role? t = some .task) (hne : t ≠ u) : ¬ m.AtOrBelow u t :=
  fun hbelow => not_below_task hv ht ((Model.atOrBelow_iff.mp hbelow).resolve_left hne)

/-- A branch with the other task that a task is guarded against hangs from the lowest goal above
both. -/
theorem parent?_of_mem_guards {x : Handle} (ht : m.role? t = some .task) (hne : t ≠ u)
    (hlowest : m.LowestCommon t u a) (hx : x ∈ guards m t) (hux : m.AtOrBelow u x) :
    m.parent? x = some a ∧ m.refinement a = .or := by
  rcases mem_guards.mp hx with rfl | hx
  · exact absurd hux (not_atOrBelow_task hv ht hne)
  obtain ⟨_, hnot, g, hg, htg, hor⟩ := (hv.mem_competingAlternatives_iff (.inr ht)).mp hx
  have hug : m.Below u g := Model.below_iff_exists.mpr ⟨x, hux, hg⟩
  have hag : m.AtOrBelow a g := hlowest.lowest g htg hug
  -- the goal cannot lie above the branch, for the task does not
  have hxa : m.Below x a := by
    have hnotabove : ¬ m.AtOrBelow a x := fun hax => hnot (hlowest.left.trans_left hax)
    have htotal := Model.atOrBelow_total hux hlowest.right.to_reflTransGen
    refine (Model.atOrBelow_iff.mp (htotal.resolve_right hnotabove)).resolve_left ?_
    rintro rfl
    exact hnotabove .refl
  obtain rfl := hv.atOrBelow_antisymm hag ((Model.below_iff_of_parent? hg).mp hxa)
  exact ⟨hg, hor⟩

theorem exists_mem_guards_iff (ht : m.role? t = some .task) (hu : m.role? u = some .task)
    (hne : t ≠ u) (hlowest : m.LowestCommon t u a) :
    (∃ x ∈ guards m t, m.AtOrBelow u x) ↔ m.refinement a = .or := by
  constructor
  · rintro ⟨x, hx, hux⟩
    exact (parent?_of_mem_guards hv ht hne hlowest hx hux).2
  · intro hor
    obtain ⟨c, huc, hc⟩ := Model.below_iff_exists.mp hlowest.right
    refine ⟨c, mem_guards.mpr (.inr ?_), huc⟩
    refine (hv.mem_competingAlternatives_iff (.inr ht)).mpr ⟨?_, ?_, a, hc, hlowest.left, hor⟩
    · rintro rfl
      exact not_atOrBelow_task hv ht hne huc
    · intro htc
      rcases Model.atOrBelow_iff.mp huc with rfl | huc
      · exact not_below_task hv hu htc
      · have hac := hlowest.lowest c htc huc
        exact hv.not_below_self (Model.below_iff_exists.mpr ⟨c, hac, hc⟩)

end Valid

/-- **What competes with a goal or task is exact.** It is what hangs from an or-refined goal above
the goal or task without lying above it or being it, listed once, from the nearest goal to the
farthest and in the order of each goal's children. Hence each of two tasks that have a common
goal above them is guarded against a branch with the other exactly if their lowest common goal is
or-refined. -/
theorem competingAlternatives_exact {text : String} {withSchema : Bool}
    (h : parseModel text withSchema = .ok m) :
    (∀ k, m.IsNode k →
      (∀ x, x ∈ m.competingAlternatives k ↔ x ≠ k ∧ ¬ m.Below k x ∧
        ∃ g, m.parent? x = some g ∧ m.Below k g ∧ m.refinement g = .or) ∧
      (m.competingAlternatives k).Nodup ∧ k ∉ m.competingAlternatives k ∧
      (m.competingAlternatives k).Pairwise m.Precedes) ∧
    ∀ t u, m.role? t = some .task → m.role? u = some .task → t ≠ u →
      (∃ a, m.Below t a ∧ m.Below u a) →
      (∃! a, m.LowestCommon t u a) ∧ ∀ a, m.LowestCommon t u a →
        ((∃ x ∈ guards m t, m.AtOrBelow u x) ↔ m.refinement a = .or) ∧
        ((∃ x ∈ guards m u, m.AtOrBelow t x) ↔ m.refinement a = .or) := by
  have hv := valid_of_parseModel h
  constructor
  · intro k hk
    refine ⟨fun x => hv.mem_competingAlternatives_iff hk, hv.nodup_competingAlternatives hk, ?_,
      hv.pairwise_precedes hk⟩
    intro hself
    exact ((hv.mem_competingAlternatives_iff hk).mp hself).1 rfl
  · rintro t u ht hu hne ⟨a, hta, hua⟩
    refine ⟨hv.existsUnique_lowestCommon hta hua, fun a hlowest => ?_⟩
    exact ⟨exists_mem_guards_iff hv ht hu hne hlowest,
      exists_mem_guards_iff hv hu ht hne.symm hlowest.symm⟩

/-- Pushing and pulling the door exclude each other, pushing it and walking do not. -/
theorem door_guards : parseModel doorText true = .ok Document.door.linked ∧
    (∃ x ∈ guards Document.door.linked ⟨5⟩, Document.door.linked.AtOrBelow ⟨8⟩ x) ∧
    ¬ ∃ x ∈ guards Document.door.linked ⟨5⟩, Document.door.linked.AtOrBelow ⟨10⟩ x := by
  have hopen : Document.door.linked.LowestCommon ⟨5⟩ ⟨8⟩ ⟨4⟩ :=
    ⟨.single rfl, .single rfl, fun b hb _ => (Model.below_iff_of_parent? rfl).mp hb⟩
  have henter : Document.door.linked.LowestCommon ⟨5⟩ ⟨10⟩ ⟨3⟩ :=
    ⟨.tail (.single rfl) rfl, .single rfl, fun b _ hb => (Model.below_iff_of_parent? rfl).mp hb⟩
  have hexact := (competingAlternatives_exact parseModel_doorText).2
  refine ⟨parseModel_doorText, ?_, ?_⟩
  · have hiff := (hexact ⟨5⟩ ⟨8⟩ rfl rfl (by decide) ⟨_, hopen.left, hopen.right⟩).2 _ hopen
    exact hiff.1.mpr rfl
  · have hiff := (hexact ⟨5⟩ ⟨10⟩ rfl rfl (by decide) ⟨_, henter.left, henter.right⟩).2 _ henter
    exact fun hguard => absurd (hiff.1.mp hguard) (by decide)

end GoalModel.Golog
