import GoalModel.Model.Tree
import Mathlib.Logic.Relation
import Mathlib.Logic.Relator

/-! # The order of the decomposition tree

`Model.Below` is what parent links lead from and to, `Model.AtOrBelow` is its reflexive form. As
an element has at most one parent, what lies above it is a chain (`Model.atOrBelow_total`). -/

namespace GoalModel.Model

/-- An element lies at another one or below it. -/
def AtOrBelow (m : Model) : Handle → Handle → Prop :=
  Relation.ReflTransGen fun h up => m.parent? h = some up

/-- An element lies strictly below another one. -/
def Below (m : Model) : Handle → Handle → Prop :=
  Relation.TransGen fun h up => m.parent? h = some up

variable {m : Model} {h a b g : Handle}

theorem atOrBelow_iff : m.AtOrBelow h a ↔ a = h ∨ m.Below h a :=
  Relation.reflTransGen_iff_eq_or_transGen

theorem below_iff_of_parent? (hg : m.parent? h = some g) : m.Below h a ↔ m.AtOrBelow g a := by
  rw [Below, Relation.TransGen.head'_iff]
  constructor
  · rintro ⟨up, hup, habove⟩
    obtain rfl := Option.some.inj (hg.symm.trans hup)
    exact habove
  · exact fun habove => ⟨g, hg, habove⟩

/-- The last link of a way up. -/
theorem below_iff_exists : m.Below h g ↔ ∃ c, m.AtOrBelow h c ∧ m.parent? c = some g :=
  Relation.TransGen.tail'_iff

/-- Of two elements above a third one, one lies at or below the other. -/
theorem atOrBelow_total (ha : m.AtOrBelow h a) (hb : m.AtOrBelow h b) :
    m.AtOrBelow a b ∨ m.AtOrBelow b a :=
  Relation.ReflTransGen.total_of_right_unique
    (fun _ _ _ hup hup' => Option.some.inj (hup.symm.trans hup')) ha hb

end GoalModel.Model
