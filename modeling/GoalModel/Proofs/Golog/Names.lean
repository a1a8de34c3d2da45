import GoalModel.Golog.Naming
import GoalModel.Proofs.Model.Valid

/-! # Names in the program tell elements apart

The reserved endings do what they are for. No name of an element ends in one, so that a derived
name comes from one name with one ending only (`ended_inj`), the state names of a model are
those of different elements (`stateName_inj`), and a variable that is bound to a value belongs
to one state name in one situation (`bindingVariable_inj`). All of them are identifiers. -/

namespace GoalModel

namespace Identifier

theorem isPart_of_isStart {c : Char} (hc : isStart c) : isPart c := by simp [isPart, hc]

theorem forall_isPart {name : String} (h : isValid name) : ∀ c ∈ name.toList, isPart c := by
  unfold isValid at h
  cases htext : name.toList with
  | nil => simp
  | cons c cs =>
    simp only [htext, Bool.and_eq_true, List.all_eq_true] at h
    exact List.forall_mem_cons.mpr ⟨isPart_of_isStart h.1, h.2⟩

/-- What follows an identifier without a blank belongs to it. -/
theorem isValid_append {name other : String} (h : isValid name)
    (hother : ∀ c ∈ other.toList, isPart c) : isValid (name ++ other) := by
  unfold isValid at h ⊢
  rw [String.toList_append]
  cases htext : name.toList with
  | nil => simp [htext] at h
  | cons c cs =>
    simp only [htext, Bool.and_eq_true, List.all_eq_true] at h
    simpa [h.1, or_imp, forall_and] using ⟨h.2, hother⟩

theorem Ending.forall_isPart (ending : Ending) : ∀ c ∈ ending.text.toList, isPart c := by
  cases ending <;> exact List.all_eq_true.mp (by decide)

end Identifier

namespace Golog

open Identifier

theorem isValid_ended {name : String} (h : isValid name) (ending : Ending) :
    isValid (ended name ending) := isValid_append h ending.forall_isPart

/-- A name with an ending tells both. -/
theorem ended_inj {name name' : String} {ending ending' : Ending}
    (h : ended name ending = ended name' ending') : name = name' ∧ ending = ending' := by
  have hlists := congrArg (fun text => text.toList.reverse) h
  -- no ending is the end of another one
  have hending : ending = ending' := by
    cases ending <;> cases ending' <;> simp [ended, Ending.text] at hlists ⊢
  subst hending
  simp only [ended, String.toList_append, List.reverse_append] at hlists
  exact ⟨String.toList_injective (List.reverse_injective (List.append_cancel_left hlists)), rfl⟩

/-- Not the name of an element, and no state name either. -/
theorem ended_ne_of_declarable {name name' : String} {ending : Ending} (h : Declarable name) :
    name ≠ ended name' ending := h.unreserved ending name'

theorem bound_inj {a b : String} (h : "R_" ++ a = "R_" ++ b) : a = b := by
  have hlists := congrArg String.toList h
  rw [String.toList_append, String.toList_append] at hlists
  exact String.toList_injective (List.append_cancel_left hlists)

theorem bound_ended (a : String) : ended ("R_" ++ a) .initial = "R_" ++ ended a .initial :=
  String.append_assoc

/-- Variables for values start with a mark of their own. -/
theorem bindingVariable_ne {state other : String} (s : Situation)
    (hother : ¬['R', '_'] <+: other.toList) : bindingVariable state s ≠ other := by
  rintro rfl
  refine hother ?_
  cases s with
  | current => exact ⟨state.toList, by simp [bindingVariable]⟩
  | initial => exact ⟨(ended state .initial).toList, by simp [bindingVariable, ended]⟩

section
variable {m : Model} {g h : Handle}

/-- The ending of a state name. -/
def stateEnding? : Role → Option Ending
  | .predicate => some .fluent
  | .goal => some .satisfied
  | .task => some .satisfied
  | _ => none

theorem stateName_of_role {role : Role} (hrole : m.role? h = some role) :
    stateName m h =
      match stateEnding? role with
      | some ending => ended (m.nameOf h) ending
      | none => m.nameOf h := by
  cases role <;> simp [stateName, hrole, stateEnding?]

theorem exists_role? (hh : h.index < m.elements.length) : ∃ role, m.role? h = some role := by
  simp [Model.role?, Model.element?, hh]

variable (hn : m.Named)
include hn

theorem isValid_nameOf (hh : h.index < m.elements.length) : isValid (m.nameOf h) :=
  isValid_iff.mpr (hn.declarable_nameOf hh).shape

theorem isValid_stateName (hh : h.index < m.elements.length) : isValid (stateName m h) := by
  obtain ⟨role, hrole⟩ := exists_role? hh
  have hname := isValid_nameOf hn hh
  rw [stateName_of_role hrole]
  split
  · exact isValid_ended hname _
  · exact hname

/-- The state name of an element is that of no other element. -/
theorem stateName_inj (hg : g.index < m.elements.length) (hh : h.index < m.elements.length)
    (hname : stateName m g = stateName m h) : g = h := by
  obtain ⟨role, hrole⟩ := exists_role? hg
  obtain ⟨role', hrole'⟩ := exists_role? hh
  rw [stateName_of_role hrole, stateName_of_role hrole'] at hname
  refine hn.nameOf_inj hg hh ?_
  split at hname <;> split at hname
  · exact (ended_inj hname).1
  · exact absurd hname.symm (ended_ne_of_declarable (hn.declarable_nameOf hh))
  · exact absurd hname (ended_ne_of_declarable (hn.declarable_nameOf hg))
  · exact hname

theorem stateName_ne_initial (hh : h.index < m.elements.length) (name : String) :
    stateName m h ≠ ended name .initial := by
  obtain ⟨role, hrole⟩ := exists_role? hh
  rw [stateName_of_role hrole]
  split
  · next ending hending =>
    intro hname
    obtain ⟨-, rfl⟩ := ended_inj hname
    cases role <;> cases hending
  · exact ended_ne_of_declarable (hn.declarable_nameOf hh)

/-- Different values are bound to different variables. -/
theorem bindingVariable_inj {s s' : Situation} (hg : g.index < m.elements.length)
    (hh : h.index < m.elements.length)
    (hname : bindingVariable (stateName m g) s = bindingVariable (stateName m h) s') :
    g = h ∧ s = s' := by
  cases s <;> cases s'
  · exact ⟨stateName_inj hn hg hh (bound_inj hname), rfl⟩
  · exact absurd (bound_inj (hname.trans (bound_ended _))) (stateName_ne_initial hn hg _)
  · exact absurd (bound_inj (hname.symm.trans (bound_ended _))) (stateName_ne_initial hn hh _)
  · exact ⟨stateName_inj hn hg hh (bound_inj (ended_inj hname).1), rfl⟩

theorem isValid_bindingVariable (hh : h.index < m.elements.length) (s : Situation) :
    isValid (bindingVariable (stateName m h) s) := by
  have hbound : isValid ("R_" ++ stateName m h) :=
    isValid_append (by decide) (forall_isPart (isValid_stateName hn hh))
  cases s with
  | current => exact hbound
  | initial => exact isValid_ended hbound .initial

end

end Golog

end GoalModel
