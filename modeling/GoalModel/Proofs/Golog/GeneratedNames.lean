import GoalModel.Proofs.Golog.Satisfaction
import GoalModel.Proofs.Loading
import Mathlib.Data.List.Nodup

/-! # Generated names

In the program an element has the name of its fluent, the names of its three derived terms, or
its own name, as its role says (`generatedNames`). Linking keeps all of these apart, those of one
element and those of different ones, and so the variables that values are bound to
(`Document.generatedNames_distinct`). Whatever a name is found on, it leads back to a single
element (`eq_of_mem_generatedNames`). -/

namespace GoalModel

theorem Handle.nodup_range (base count : Nat) : (range base count).Nodup := by
  refine List.Nodup.map (fun i j hij => ?_) List.nodup_range
  simpa using hij

namespace Golog

open Identifier

/-- The names that an element has in the program. -/
def generatedNames (m : Model) (h : Handle) : List String :=
  match m.role? h with
  | some .predicate => [ended (m.nameOf h) .fluent]
  | some .goal => Derived.all.map fun d => ended (m.nameOf h) d.ending
  | some .task => Derived.all.map fun d => ended (m.nameOf h) d.ending
  | _ => [m.nameOf h]

variable {m : Model} {g h : Handle} {x : String}

theorem generatedNames_of_node (hh : m.role? h = some .goal ∨ m.role? h = some .task) :
    generatedNames m h = Derived.all.map fun d => ended (m.nameOf h) d.ending := by
  rcases hh with hh | hh <;> simp only [generatedNames, hh]

theorem generatedNames_of_bare {role : Role} (hh : m.role? h = some role)
    (hbare : stateEnding? role = none) : generatedNames m h = [m.nameOf h] := by
  cases role with
  | predicate | goal | task => cases hbare
  | _ => simp only [generatedNames, hh]

theorem exists_ended_of_mem_generatedNames {role : Role} (hh : m.role? h = some role)
    (hends : (stateEnding? role).isSome) (hx : x ∈ generatedNames m h) :
    ∃ ending, x = ended (m.nameOf h) ending := by
  cases role with
  | predicate =>
    simp only [generatedNames, hh, List.mem_singleton] at hx
    exact ⟨_, hx⟩
  | goal | task =>
    simp only [generatedNames, hh, List.mem_map] at hx
    obtain ⟨d, _, rfl⟩ := hx
    exact ⟨_, rfl⟩
  | _ => cases hends

theorem stateName_mem_generatedNames (m : Model) (h : Handle) :
    stateName m h ∈ generatedNames m h := by
  unfold stateName generatedNames
  cases m.role? h with
  | none => exact List.mem_singleton_self _
  | some role => cases role <;> exact List.mem_cons_self

/-- A generated name is the name of the element, with an ending or without. -/
theorem eq_or_ended_of_mem_generatedNames (hx : x ∈ generatedNames m h) :
    x = m.nameOf h ∨ ∃ ending, x = ended (m.nameOf h) ending := by
  cases hh : m.role? h with
  | none =>
    simp only [generatedNames, hh, List.mem_singleton] at hx
    exact .inl hx
  | some role =>
    cases hends : stateEnding? role with
    | none =>
      rw [generatedNames_of_bare hh hends] at hx
      exact .inl (List.mem_singleton.mp hx)
    | some ending =>
      exact .inr (exists_ended_of_mem_generatedNames hh (by rw [hends]; rfl) hx)

theorem nodup_generatedNames (m : Model) (h : Handle) : (generatedNames m h).Nodup := by
  have hderived : (Derived.all.map fun d => ended (m.nameOf h) d.ending).Nodup := by
    refine List.Nodup.map (fun d d' hname => ?_) (by decide)
    exact Derived.ending_inj (ended_inj hname).2
  unfold generatedNames
  split
  · exact List.nodup_singleton _
  · exact hderived
  · exact hderived
  · exact List.nodup_singleton _

section Named
variable (hn : m.Named)
include hn

/-- A generated name belongs to one element. -/
theorem eq_of_mem_generatedNames (hg : g.index < m.elements.length)
    (hh : h.index < m.elements.length) (hxg : x ∈ generatedNames m g)
    (hxh : x ∈ generatedNames m h) : g = h := by
  refine hn.nameOf_inj hg hh ?_
  rcases eq_or_ended_of_mem_generatedNames hxg with rfl | ⟨ending, rfl⟩ <;>
    rcases eq_or_ended_of_mem_generatedNames hxh with hname | ⟨ending', hname⟩
  · exact hname
  · exact absurd hname (ended_ne_of_declarable (hn.declarable_nameOf hg))
  · exact absurd hname.symm (ended_ne_of_declarable (hn.declarable_nameOf hh))
  · exact (ended_inj hname).1

theorem nodup_flatMap_generatedNames :
    ((Handle.range 0 m.elements.length).flatMap (generatedNames m)).Nodup := by
  refine List.nodup_flatMap.mpr ⟨fun h _ => nodup_generatedNames m h, ?_⟩
  refine (Handle.nodup_range _ _).pairwise_of_forall_ne fun g hg h hh hne x hxg hxh => ?_
  have hg : g.index < m.elements.length := by simpa using (Handle.mem_range.mp hg).2
  have hh : h.index < m.elements.length := by simpa using (Handle.mem_range.mp hh).2
  exact hne (eq_of_mem_generatedNames hn hg hh hxg hxh)

end Named

end Golog

open Golog

namespace Document

/-- In a linked model no two names that elements have in the program are the same, whether of one
element or of two, and different elements or situations never share a variable. -/
theorem generatedNames_distinct {document : Document} {m : Model}
    (hlink : document.link = .ok m) :
    ((Handle.range 0 m.elements.length).flatMap (generatedNames m)).Nodup ∧
      ∀ g h : Handle, g.index < m.elements.length → h.index < m.elements.length →
        ∀ s s' : Situation,
          bindingVariable (stateName m g) s = bindingVariable (stateName m h) s' →
            g = h ∧ s = s' := by
  have hn := named_of_link hlink
  refine ⟨nodup_flatMap_generatedNames hn, fun g h hg hh s s' hname => ?_⟩
  exact bindingVariable_inj hn hg hh hname

theorem door_generatedNames : door.link = .ok door.linked ∧
    ((Handle.range 0 door.linked.elements.length).flatMap (generatedNames door.linked)).Nodup ∧
    ∀ s s', bindingVariable (stateName door.linked ⟨0⟩) s =
      bindingVariable (stateName door.linked ⟨12⟩) s' → (⟨0⟩ : Handle) = ⟨12⟩ ∧ s = s' := by
  have hlink : door.link = .ok door.linked := rfl
  obtain ⟨hnodup, hvariables⟩ := generatedNames_distinct hlink
  exact ⟨hlink, hnodup, hvariables ⟨0⟩ ⟨12⟩ (by decide) (by decide)⟩

end Document

end GoalModel
