import GoalModel.Proofs.Golog.Runs
import GoalModel.Proofs.Loading
import GoalModel.Proofs.Model.Alternatives

/-! # Alternatives exclude each other

No legal run mixes two effects of a task, or two branches of an or-refined goal, once the first
of them has turned something true (`compatible_of_legal`). One step is `compatible_of_possible`:
the first effect has attempted what the guard of the second one asks about. -/

namespace GoalModel

/-- Two tasks are not the same, and not in different branches of an or-refined goal. -/
structure Model.Compatible (m : Model) (t₁ t₂ : Handle) : Prop where
  ne : t₁ ≠ t₂
  branches : ∀ g, m.refinement g = .or → ∀ c₁ ∈ m.children g, ∀ c₂ ∈ m.children g, c₁ ≠ c₂ →
    ¬(m.AtOrBelow t₁ c₁ ∧ m.AtOrBelow t₂ c₂)

namespace Golog

variable {m : Model} {root : Handle} {init : Handle → Prop} {run : List Handle}
  {t₁ t₂ e₁ e₂ : Handle}

/-- What an effect has attempted rules the competing effects out. -/
theorem compatible_of_possible (hv : m.Valid) (he₁ : e₁ ∈ m.effectsOf t₁) (hrun : e₁ ∈ run)
    (hne : m.turnsTrue e₁ ≠ []) (he₂ : e₂ ∈ m.effectsOf t₂)
    (hpossible : Possible m (translateFrom m root) init run e₂) : m.Compatible t₁ t₂ := by
  have hguard := (possible_iff hv he₂).mp hpossible
  have hattempted {c : Handle} (hbelow : m.AtOrBelow t₁ c) :
      ProvedAfter m (translateFrom m root) init run
        (holdsIn (ended (m.nameOf c) .attempted) .current) :=
    provedAfter_attempted hv he₁ hrun hne hbelow
  constructor
  · rintro rfl
    exact hguard t₁ List.mem_cons_self (hattempted .refl)
  · rintro g hor c₁ hc₁ c₂ hc₂ hne ⟨hbelow₁, hbelow₂⟩
    obtain ⟨task, ht, _⟩ := Model.task?_of_mem_effectsOf he₂
    have hcompetes : c₁ ∈ m.competingAlternatives t₂ :=
      (hv.collects (.inr (Model.role?_of_task? ht))).mem_iff.mpr
        ⟨c₂, g, hbelow₂, (hv.children g c₂).mp hc₂, hor, hc₁, hne⟩
    exact hguard c₁ (List.mem_cons_of_mem _ hcompetes) (hattempted hbelow₁)

theorem compatible_of_legal (hv : m.Valid) (hlegal : Legal m (translateFrom m root) init run)
    (hbefore : [e₁, e₂].Sublist run) (he₁ : e₁ ∈ m.effectsOf t₁) (hne : m.turnsTrue e₁ ≠ [])
    (he₂ : e₂ ∈ m.effectsOf t₂) : m.Compatible t₁ t₂ := by
  induction hlegal with
  | nil => cases hbefore
  | @snoc run e _ hpossible ih =>
    obtain ⟨first, last, heq, hfirst, hlast⟩ := List.sublist_append_iff.mp hbefore
    rcases List.sublist_singleton.mp hlast with rfl | rfl
    · rw [List.append_nil] at heq
      exact ih (heq ▸ hfirst)
    · obtain ⟨rfl, hsame⟩ := List.append_inj' (show [e₁] ++ [e₂] = first ++ [e] from heq) rfl
      obtain rfl := List.singleton_inj.mp hsame
      exact compatible_of_possible hv he₁ (List.singleton_sublist.mp hfirst) hne he₂ hpossible

/-- In a legal run of a program, after an effect that turns something true there is no other
effect of its task, and none of a task in another branch of an or-refined goal. -/
theorem alternatives_exclude {text : String} {withSchema : Bool} {m : Model}
    (h : parseModel text withSchema = .ok m) :
    ∃ t, assemble m = .ok t ∧ ∀ (init : Handle → Prop) (run : List Handle),
      Legal m t init run → ∀ e₁ e₂, [e₁, e₂].Sublist run → m.turnsTrue e₁ ≠ [] →
        ∀ t₁ t₂, e₁ ∈ m.effectsOf t₁ → e₂ ∈ m.effectsOf t₂ → m.Compatible t₁ t₂ := by
  have hv := valid_of_parseModel h
  obtain ⟨root, hroot⟩ := hv.exists_rootGoals
  refine ⟨translateFrom m root, assemble_eq_ok hroot, ?_⟩
  intro init run hlegal e₁ e₂ hbefore hne t₁ t₂ he₁ he₂
  exact compatible_of_legal hv hlegal hbefore he₁ hne he₂

/-- Pushing the door and walking through it is a legal run. -/
theorem legal_door : Legal Document.door.linked (translateFrom Document.door.linked ⟨3⟩)
    (fun _ => False) [⟨6⟩, ⟨11⟩] := by
  have hv := valid_of_parseModel parseModel_doorText
  have hstep (run : List Handle) (e t : Handle) (he : e ∈ Document.door.linked.effectsOf t)
      (hguards : ∀ h ∈ guards Document.door.linked t,
        Document.door.linked.role? h = some .task ∧
          ¬∃ e ∈ Document.door.linked.effectsOf h, Document.door.linked.turnsTrue e ≠ [] ∧
            ∀ p ∈ Document.door.linked.turnsTrue e, False ∨
              ∃ e' ∈ run, p ∈ Document.door.linked.turnsTrue e') :
      Possible Document.door.linked (translateFrom Document.door.linked ⟨3⟩) (fun _ => False)
        run e :=
    (possible_iff hv he).mpr fun h hh =>
      (provedAfter_task_iff hv (hguards h hh).1).not.mpr (hguards h hh).2
  exact .snoc (.snoc .nil (hstep [] ⟨6⟩ ⟨5⟩ (by decide) (by decide)))
    (hstep [⟨6⟩] ⟨11⟩ ⟨10⟩ (by decide) (by decide))

theorem door_compatible : ∃ t, assemble Document.door.linked = .ok t ∧
    Legal Document.door.linked t (fun _ => False) [⟨6⟩, ⟨11⟩] ∧
      Document.door.linked.Compatible ⟨5⟩ ⟨10⟩ := by
  have hroot : Document.door.linked.rootGoals = [⟨3⟩] := by decide
  obtain ⟨t, ht, hexclude⟩ := alternatives_exclude parseModel_doorText
  have heq := ht
  rw [assemble_eq_ok hroot] at heq
  obtain rfl := Except.ok.inj heq
  exact ⟨_, ht, legal_door, hexclude _ _ legal_door ⟨6⟩ ⟨11⟩ (.refl _) (by decide) ⟨5⟩ ⟨10⟩
    (by decide) (by decide)⟩

end Golog

end GoalModel
