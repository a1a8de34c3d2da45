import GoalModel.Proofs.Linking.WellFormed
import GoalModel.Proofs.Model.Sound

/-! # Valid models

`Model.Named` is what linking leaves behind: names that are distinct and can be declared, so
that they tell elements apart (`Model.Named.nameOf_inj`). `Model.Valid` is what all checks of a
text leave behind: a sound model with such names, with a single root goal and without cycles, so
that every way up from a goal or task ends (`Model.Valid.endsWithin`). -/

namespace GoalModel.Model

/-- The names of the elements are distinct and can be declared. -/
structure Named (m : Model) : Prop where
  declarable : ∀ element ∈ m.elements, Identifier.Declarable element.name
  distinct : (m.elements.map (·.name)).Nodup

/-- What holds of a model that has passed every check. -/
structure Valid (m : Model) : Prop extends m.Sound where
  declarable : ∀ element ∈ m.elements, Identifier.Declarable element.name
  distinct : (m.elements.map (·.name)).Nodup
  invariants : m.invariantViolations = []

variable {m : Model} {h g : Handle}

theorem rootViolations_eq_nil : m.rootViolations = [] ↔ ∃ root, m.rootGoals = [root] := by
  unfold rootViolations
  split <;> simp_all

theorem nameOf_eq_getElem (hh : h.index < m.elements.length) :
    m.nameOf h = m.elements[h.index].name := by
  rw [nameOf, element?, List.getElem?_eq_getElem hh, Option.map_some, Option.getD_some]

namespace Named

theorem nameOf_inj (hn : m.Named) (hh : h.index < m.elements.length)
    (hg : g.index < m.elements.length) (hname : m.nameOf h = m.nameOf g) : h = g := by
  have heq : h.index = g.index := by
    refine (List.getElem?_inj (by simpa using hh) hn.distinct).mp ?_
    simpa [nameOf, element?, hh, hg] using hname
  exact Handle.mk.injEq .. ▸ heq

theorem declarable_nameOf (hn : m.Named) (hh : h.index < m.elements.length) :
    Identifier.Declarable (m.nameOf h) := by
  rw [nameOf_eq_getElem hh]
  exact hn.declarable _ (List.getElem_mem hh)

/-- Searching a name finds the element that has it. -/
theorem find?_nameOf (hn : m.Named) (hh : h.index < m.elements.length) :
    m.find? (m.nameOf h) = some h := by
  cases hfind : m.elements.findIdx? fun element => element.name == m.nameOf h with
  | none =>
    have hall := List.findIdx?_eq_none_iff.mp hfind _ (List.getElem_mem hh)
    rw [nameOf_eq_getElem hh, beq_self_eq_true] at hall
    cases hall
  | some i =>
    obtain ⟨hi, hsame, _⟩ := List.findIdx?_eq_some_iff_getElem.mp hfind
    have hname := (nameOf_eq_getElem hi).trans (beq_iff_eq.mp hsame)
    rw [find?, hfind, Option.map_some, hn.nameOf_inj hi hh hname]

end Named

namespace Valid

theorem named (hv : m.Valid) : m.Named := ⟨hv.declarable, hv.distinct⟩

theorem nameOf_inj (hv : m.Valid) (hh : h.index < m.elements.length)
    (hg : g.index < m.elements.length) (hname : m.nameOf h = m.nameOf g) : h = g :=
  hv.named.nameOf_inj hh hg hname

theorem exists_rootGoals (hv : m.Valid) : ∃ root, m.rootGoals = [root] :=
  rootViolations_eq_nil.mp (List.append_eq_nil_iff.mp hv.invariants).1

/-- The way up from a goal or task ends. -/
theorem endsWithin (hv : m.Valid) (hh : m.role? h = some .goal ∨ m.role? h = some .task) :
    m.endsWithin (m.elements.length + 1) h := by
  have hlisted : h ∈ m.goals ++ m.tasks :=
    List.mem_append.mpr (hh.imp hv.mem_goals_iff.mpr hv.mem_tasks_iff.mpr)
  have hnode := List.flatMap_eq_nil_iff.mp (List.append_eq_nil_iff.mp hv.invariants).2 h hlisted
  by_contra hcycle
  obtain ⟨node, hdecomposition⟩ := exists_decomposition? hh
  simp [nodeViolations, hdecomposition, hasCycleAbove, hcycle] at hnode

end Valid

end GoalModel.Model
