import GoalModel.Proofs.Model.Climb

/-! # What the invariants say

`Model.invariantViolations` looks at the links of each listed goal and task one by one and cuts
every way up off after as many links as there are elements, and one. `Model.InOrder` says what is
wanted of a goal or task in any model, linked or edited, whatever its handles lead to. The cut
takes nothing away: a way up that ends visits nothing twice, and all that it visits but the last
are elements (`Model.steps_le`), so that what does not end within the bound never ends
(`Model.hasCycleAbove_iff`). With that the invariants hold exactly if one listed goal is a root
and every listed goal and task is in order (`Model.invariantViolations_exact`). -/

namespace GoalModel.Model

/-- An element of the decomposition tree: a goal or a task. -/
def IsNode (m : Model) (h : Handle) : Prop := m.role? h = some .goal ∨ m.role? h = some .task

/-- The parent links above an element lead to one that has no parent. -/
def Ends (m : Model) (h : Handle) : Prop := ∃ n r, m.ancestor? n h = some r ∧ m.parent? r = none

/-- The links of a goal or task are what a decomposition tree asks for. -/
structure InOrder (m : Model) (h : Handle) : Prop where
  parent : ∀ up, m.parent? h = some up → m.IsNode up ∧ h ∈ m.children up
  children : ∀ c ∈ m.children h, m.IsNode c ∧ m.parent? c = some h
  leaf : m.refinement h = .leaf ↔ m.children h = []
  ends : m.Ends h

variable {m : Model} {h c up r : Handle} {n : Nat}

/-! ## Nodes -/

theorem isNode_iff : m.IsNode h ↔ ∃ node, m.decomposition? h = some node :=
  ⟨exists_decomposition?, fun ⟨_, hnode⟩ => role?_of_decomposition? hnode⟩

theorem isNode_of_parent? (hup : m.parent? h = some up) : m.IsNode h := by
  obtain ⟨node, hnode, _⟩ := exists_of_parent? hup
  exact isNode_iff.mpr ⟨node, hnode⟩

theorem isNode_of_mem_children (hc : c ∈ m.children h) : m.IsNode h := by
  obtain ⟨node, hnode, _⟩ := exists_of_mem_children hc
  exact isNode_iff.mpr ⟨node, hnode⟩

/-! ## Cycles -/

/-- A way up that ends has no more links than there are elements. Its last element need not
exist, but the others have a parent. -/
theorem steps_le (hr : m.ancestor? n h = some r) (hnone : m.parent? r = none) :
    n ≤ m.elements.length := by
  refine visited_le (Nat.le_succ n) (fun i hi a ha => ?_) hr hnone
  have hrest : (m.ancestor? i h).bind (m.ancestor? (n - i)) = some r := by
    rw [← ancestor?_add, Nat.add_sub_cancel' (Nat.le_of_lt hi)]
    exact hr
  obtain ⟨k, hk⟩ := Nat.exists_eq_add_one.mpr (Nat.sub_pos_of_lt hi)
  rw [ha, Option.bind_some, hk] at hrest
  obtain ⟨up, hup, _⟩ := Option.bind_eq_some_iff.mp hrest
  exact m.index_lt_of_node (isNode_of_parent? hup)

theorem hasCycleAbove_iff : m.hasCycleAbove h = true ↔ ¬ m.Ends h := by
  rw [hasCycleAbove, Bool.not_eq_true', ← Bool.not_eq_true, not_iff_not]
  constructor
  · intro hends
    obtain ⟨n, r, _, hr, hnone⟩ := exists_of_endsWithin hends
    exact ⟨n, r, hr, hnone⟩
  · rintro ⟨n, r, hr, hnone⟩
    exact endsWithin_of_ancestor? hr hnone (Nat.lt_succ_of_le (steps_le hr hnone))

/-! ## The violations at a node -/

theorem nodeViolations_of_not_isNode (hh : ¬ m.IsNode h) : m.nodeViolations h = [] := by
  rw [isNode_iff, not_exists] at hh
  rw [nodeViolations, Option.eq_none_iff_forall_ne_some.mpr hh]

/-- What is reported at a goal or task, and when. -/
theorem mem_nodeViolations_iff (hh : m.IsNode h) {v : InvariantViolation} :
    v ∈ m.nodeViolations h ↔
      (∃ up, m.parent? h = some up ∧ h ∉ m.children up ∧
        v = .notAChild (m.nameOf h) (m.nameOf up)) ∨
      (∃ c ∈ m.children h, m.parent? c ≠ some h ∧
        v = .notAParent (m.nameOf h) (m.nameOf c)) ∨
      (¬ (m.refinement h = .leaf ↔ m.children h = []) ∧
        v = .refinementMismatch (m.nameOf h) (m.refinement h) (m.children h).length) ∨
      (¬ m.Ends h ∧ v = .cycle (m.nameOf h)) := by
  obtain ⟨node, hnode⟩ := isNode_iff.mp hh
  simp only [nodeViolations, hnode, List.mem_append, List.mem_map, List.mem_filter,
    List.mem_ite_nil_left, List.mem_singleton, hasCycleAbove_iff, or_assoc, and_assoc,
    decide_eq_true_eq, @eq_comm _ _ v, parent?_eq hnode, children_eq hnode, refinement_eq hnode]
  refine or_congr ?_ (or_congr Iff.rfl (or_congr Iff.rfl ?_))
  · cases node.parent with
    | none => simp
    | some up => by_cases hup : h ∈ m.children up <;> simp [hup]
  · by_cases hends : m.Ends h <;> simp [hends, hasCycleAbove_iff]

theorem nodeViolations_eq_nil_iff (hh : m.IsNode h) : m.nodeViolations h = [] ↔ m.InOrder h := by
  rw [List.eq_nil_iff_forall_not_mem]
  simp only [mem_nodeViolations_iff hh]
  constructor
  · intro hnone
    refine ⟨fun up hup => ?_, fun c hc => ?_, ?_, ?_⟩
    · have hlisted : h ∈ m.children up := by
        by_contra hnot
        exact hnone _ (.inl ⟨up, hup, hnot, rfl⟩)
      exact ⟨isNode_of_mem_children hlisted, hlisted⟩
    · have hback : m.parent? c = some h := by
        by_contra hnot
        exact hnone _ (.inr (.inl ⟨c, hc, hnot, rfl⟩))
      exact ⟨isNode_of_parent? hback, hback⟩
    · by_contra hnot
      exact hnone _ (.inr (.inr (.inl ⟨hnot, rfl⟩)))
    · by_contra hnot
      exact hnone _ (.inr (.inr (.inr ⟨hnot, rfl⟩)))
  · rintro horder v (⟨up, hup, hnot, -⟩ | ⟨c, hc, hnot, -⟩ | ⟨hnot, -⟩ | ⟨hnot, -⟩)
    · exact hnot (horder.parent up hup).2
    · exact hnot (horder.children c hc).2
    · exact hnot horder.leaf
    · exact hnot horder.ends

theorem cycle_mem_nodeViolations_iff {name : String} :
    .cycle name ∈ m.nodeViolations h ↔ m.IsNode h ∧ m.nameOf h = name ∧ ¬ m.Ends h := by
  by_cases hh : m.IsNode h
  · simp [mem_nodeViolations_iff hh, hh, and_comm, @eq_comm _ name]
  · simp [nodeViolations_of_not_isNode hh, hh]

/-! ## The violations of a model -/

theorem cycle_not_mem_rootViolations {name : String} : .cycle name ∉ m.rootViolations := by
  unfold rootViolations
  split <;> simp

/-- One entry of a list passes a filter exactly if there is one place that has such an entry. -/
theorem exists_filter_eq_singleton_iff {α : Type} {p : α → Bool} {l : List α} :
    (∃ a, l.filter p = [a]) ↔ ∃! i : Nat, ∃ a, l[i]? = some a ∧ p a := by
  constructor
  · rintro ⟨a, hfilter⟩
    obtain ⟨before, after, rfl, hbefore, ha, hafter⟩ := List.filter_eq_cons_iff.mp hfilter
    refine ⟨before.length, ⟨a, by simp, ha⟩, ?_⟩
    rintro i ⟨b, hb, hpb⟩
    rcases Nat.lt_trichotomy i before.length with hlt | heq | hgt
    · rw [List.getElem?_append_left hlt] at hb
      exact absurd hpb (hbefore b (List.mem_of_getElem? hb))
    · exact heq
    · rw [List.getElem?_append_right hgt.le] at hb
      obtain ⟨k, hk⟩ := Nat.exists_eq_add_one.mpr (Nat.sub_pos_of_lt hgt)
      rw [hk, List.getElem?_cons_succ] at hb
      exact absurd hpb (List.filter_eq_nil_iff.mp hafter b (List.mem_of_getElem? hb))
  · rintro ⟨i, ⟨a, hi, ha⟩, hunique⟩
    obtain ⟨hlt, rfl⟩ := List.getElem?_eq_some_iff.mp hi
    refine ⟨l[i], List.filter_eq_cons_iff.mpr ⟨l.take i, l.drop (i + 1), ?_, ?_, ha, ?_⟩⟩
    · rw [List.getElem_cons_drop, List.take_append_drop]
    · intro b hb hpb
      obtain ⟨j, hj, hlj⟩ := List.mem_take_iff_getElem.mp hb
      have hplace := hunique j ⟨b, List.getElem?_eq_some_iff.mpr ⟨by omega, hlj⟩, hpb⟩
      omega
    · refine List.filter_eq_nil_iff.mpr fun b hb hpb => ?_
      obtain ⟨j, hj, hlj⟩ := List.mem_drop_iff_getElem.mp hb
      have hplace := hunique (i + 1 + j) ⟨b, List.getElem?_eq_some_iff.mpr ⟨_, hlj⟩, hpb⟩
      omega

theorem rootViolations_eq_nil_iff_existsUnique : m.rootViolations = [] ↔
    ∃! i : Nat, ∃ h, m.goals[i]? = some h ∧ m.IsNode h ∧ m.parent? h = none := by
  have hroot (h : Handle) : (m.decomposition? h).any (·.parent.isNone) = true ↔
      m.IsNode h ∧ m.parent? h = none := by
    rw [isNode_iff]
    cases hnode : m.decomposition? h with
    | none => simp
    | some node => simp [parent?_eq hnode]
  rw [rootViolations_eq_nil, rootGoals, exists_filter_eq_singleton_iff]
  simp only [hroot]

/-- **Checking the invariants is exact.** Nothing is reported exactly if one entry of the lists of
goals is a goal or task without a parent and every listed goal or task is in order. A cycle is
reported at a goal or task exactly if its parent links never reach an element without a parent;
an element that is neither goal nor task has none. -/
theorem invariantViolations_exact (m : Model) :
    (m.invariantViolations = [] ↔
      (∃! i : Nat, ∃ h, m.goals[i]? = some h ∧ m.IsNode h ∧ m.parent? h = none) ∧
      ∀ h ∈ m.goals ++ m.tasks, m.IsNode h → m.InOrder h) ∧
    (∀ h, m.IsNode h → (.cycle (m.nameOf h) ∈ m.nodeViolations h ↔ ¬ m.Ends h)) ∧
    ∀ name, .cycle name ∈ m.invariantViolations ↔
      ∃ h ∈ m.goals ++ m.tasks, m.IsNode h ∧ m.nameOf h = name ∧ ¬ m.Ends h := by
  refine ⟨?_, fun h hh => ?_, fun name => ?_⟩
  · rw [invariantViolations, List.append_eq_nil_iff, rootViolations_eq_nil_iff_existsUnique,
      List.flatMap_eq_nil_iff]
    refine and_congr_right fun _ => forall₂_congr fun h _ => ?_
    by_cases hh : m.IsNode h
    · simp [hh, nodeViolations_eq_nil_iff]
    · simp [hh, nodeViolations_of_not_isNode]
  · simp [cycle_mem_nodeViolations_iff, hh]
  · rw [invariantViolations, List.mem_append, or_iff_right cycle_not_mem_rootViolations,
      List.mem_flatMap]
    simp only [cycle_mem_nodeViolations_iff]

end GoalModel.Model
