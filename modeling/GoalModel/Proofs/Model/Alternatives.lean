import GoalModel.Proofs.Model.Invariants
import GoalModel.Proofs.Model.Tree

/-! # Competing alternatives

What competes with an element hangs from an or-refined goal above it, in another branch. In a
valid model the tree has no cycles, so that an element is neither above itself
(`Model.Valid.not_below_self`) nor in two branches, and `Model.competingAlternatives` lists exactly
these elements (`Model.Valid.mem_competingAlternatives_iff`), the nearer ones before the farther
ones and the children of one goal as it lists them (`Model.Valid.pairwise_precedes`). Two elements
with a common goal above them have a lowest one (`Model.Valid.existsUnique_lowestCommon`). -/

namespace GoalModel.Model

/-- The lowest element that two elements lie below. -/
structure LowestCommon (m : Model) (h k a : Handle) : Prop where
  left : m.Below h a
  right : m.Below k a
  lowest : ∀ b, m.Below h b → m.Below k b → m.AtOrBelow a b

theorem LowestCommon.symm {m : Model} {h k a : Handle} (hlowest : m.LowestCommon h k a) :
    m.LowestCommon k h a :=
  ⟨hlowest.right, hlowest.left, fun b hk hh => hlowest.lowest b hh hk⟩

/-- An element hangs from a lower goal than another one, or before it from the same goal. -/
def Precedes (m : Model) (x y : Handle) : Prop :=
  ∃ g k, m.parent? x = some g ∧ m.parent? y = some k ∧
    (m.Below g k ∨ g = k ∧ [x, y].Sublist (m.children g))

variable {m : Model} {h k a b c g x y : Handle} {alternatives : List Handle}

/-! ## Cycles -/

theorem exists_ancestor?_of_below (hbelow : m.Below h a) :
    ∃ n, m.ancestor? (n + 1) h = some a := by
  induction hbelow with
  | single hup => exact ⟨0, by rw [ancestor?, hup]; rfl⟩
  | tail _ hup ih =>
    obtain ⟨n, hn⟩ := ih
    refine ⟨n + 1, ?_⟩
    rw [ancestor?_add, hn, Option.bind_some, ancestor?, hup]
    rfl

/-- Where the way up ends, it does not lead back. -/
theorem Ends.not_below_self (hends : m.Ends h) : ¬ m.Below h h := by
  intro hbelow
  obtain ⟨n, hn⟩ := exists_ancestor?_of_below hbelow
  obtain ⟨k, r, hr, hnone⟩ := hends
  have hagain : m.ancestor? (n + 1 + k) h = some r := by
    rw [ancestor?_add, hn]
    exact hr
  have := steps_unique hr hnone hagain hnone
  omega

/-! ## What is collected on a way up -/

theorem mem_siblings (hg : m.parent? c = some g) :
    x ∈ m.siblings c ↔ x ∈ m.children g ∧ x ≠ c := by
  simp [siblings, hg]

theorem Collects.mem_iff (hc : m.Collects h alternatives) :
    x ∈ alternatives ↔ ∃ c g, m.AtOrBelow h c ∧ m.parent? c = some g ∧ m.refinement g = .or ∧
      x ∈ m.children g ∧ x ≠ c := by
  induction hc with
  | @stop h hnone =>
    simp only [List.not_mem_nil, false_iff]
    rintro ⟨c, g, hbelow, hg, -⟩
    rcases hbelow.cases_head with rfl | ⟨up, hup, -⟩
    · cases hnone.symm.trans hg
    · cases hnone.symm.trans hup
  | @climb h up rest hup _ ih =>
    rw [List.mem_append, ih]
    constructor
    · rintro (hx | ⟨c, g, hbelow, hrest⟩)
      · split at hx
        · next hor => exact ⟨h, up, .refl, hup, hor, (mem_siblings hup).mp hx⟩
        · cases hx
      · exact ⟨c, g, hbelow.head hup, hrest⟩
    · rintro ⟨c, g, hbelow, hg, hor, hx⟩
      rcases hbelow.cases_head with rfl | ⟨up', hup', habove⟩
      · obtain rfl := Option.some.inj (hup.symm.trans hg)
        rw [if_pos hor]
        exact .inl ((mem_siblings hup).mpr hx)
      · obtain rfl := Option.some.inj (hup.symm.trans hup')
        exact .inr ⟨c, g, habove, hg, hor, hx⟩

theorem Sound.pairwise_precedes (hs : m.Sound) (hc : m.Collects h alternatives) :
    alternatives.Pairwise m.Precedes := by
  induction hc with
  | stop => exact .nil
  | @climb h up rest hup hrest ih =>
    have hsibling {x : Handle}
        (hx : x ∈ if m.refinement up = .or then m.siblings h else []) : m.parent? x = some up := by
      split at hx
      · exact (hs.children up x).mp ((mem_siblings hup).mp hx).1
      · cases hx
    refine List.pairwise_append.mpr ⟨?_, ih, fun x hx y hy => ?_⟩
    · refine List.pairwise_iff_forall_sublist.mpr fun {x y} hxy => ?_
      refine ⟨up, up, hsibling (hxy.subset (by simp)), hsibling (hxy.subset (by simp)),
        .inr ⟨rfl, hxy.trans ?_⟩⟩
      split
      · simp only [siblings, hup, List.filter_sublist]
      · exact List.nil_sublist _
    · obtain ⟨c, g, hbelow, hg, -, hchild, -⟩ := hrest.mem_iff.mp hy
      exact ⟨up, g, hsibling hx, (hs.children g y).mp hchild,
        .inl (below_iff_exists.mpr ⟨c, hbelow, hg⟩)⟩

/-! ## Valid models -/

namespace Valid

variable (hv : m.Valid)
include hv

theorem ends (h : Handle) : m.Ends h := by
  cases hup : m.parent? h with
  | none => exact ⟨0, h, rfl, hup⟩
  | some up =>
    obtain ⟨n, r, -, hr, hnone⟩ := hv.exists_ancestor? (isNode_of_parent? hup)
    exact ⟨n, r, hr, hnone⟩

theorem not_below_self : ¬ m.Below h h := (hv.ends h).not_below_self

theorem atOrBelow_antisymm (hab : m.AtOrBelow a b) (hba : m.AtOrBelow b a) : a = b := by
  rcases atOrBelow_iff.mp hab with rfl | hbelow
  · rfl
  · exact absurd (hbelow.trans_left hba) hv.not_below_self

/-- Two children of one goal lie in different branches. -/
theorem not_atOrBelow_of_siblings (hc : m.parent? c = some g) (hx : m.parent? x = some g)
    (hne : x ≠ c) (hbelow : m.AtOrBelow h c) : ¬ m.AtOrBelow h x := by
  have hbranch {y z : Handle} (hy : m.parent? y = some g) (hz : m.parent? z = some g)
      (hyz : y ≠ z) : ¬ m.AtOrBelow y z := by
    intro habove
    have hgz := (below_iff_of_parent? hy).mp ((atOrBelow_iff.mp habove).resolve_left hyz.symm)
    exact hv.not_below_self (below_iff_exists.mpr ⟨z, hgz, hz⟩)
  intro habove
  rcases atOrBelow_total hbelow habove with hcx | hxc
  · exact hbranch hc hx hne.symm hcx
  · exact hbranch hx hc hne hxc

/-- What competes with an element is in another branch below an or-refined goal. -/
theorem mem_competingAlternatives_iff (hh : m.IsNode h) : x ∈ m.competingAlternatives h ↔
    x ≠ h ∧ ¬ m.Below h x ∧
      ∃ g, m.parent? x = some g ∧ m.Below h g ∧ m.refinement g = .or := by
  rw [(hv.collects hh).mem_iff, ← and_assoc, ← not_or, ← atOrBelow_iff]
  constructor
  · rintro ⟨c, g, hbelow, hg, hor, hchild, hne⟩
    have hx := (hv.children g x).mp hchild
    exact ⟨hv.not_atOrBelow_of_siblings hg hx hne hbelow, g, hx,
      below_iff_exists.mpr ⟨c, hbelow, hg⟩, hor⟩
  · rintro ⟨hnot, g, hx, hbelow, hor⟩
    obtain ⟨c, hc, hg⟩ := below_iff_exists.mp hbelow
    refine ⟨c, g, hc, hg, hor, (hv.children g x).mpr hx, ?_⟩
    rintro rfl
    exact hnot hc

theorem pairwise_precedes (hh : m.IsNode h) : (m.competingAlternatives h).Pairwise m.Precedes :=
  hv.toSound.pairwise_precedes (hv.collects hh)

theorem not_precedes_self : ¬ m.Precedes x x := by
  rintro ⟨g, k, hg, hk, hbelow | ⟨-, htwice⟩⟩
  · obtain rfl := Option.some.inj (hg.symm.trans hk)
    exact hv.not_below_self hbelow
  · have := (hv.nodup_children g).sublist htwice
    simp at this

theorem nodup_competingAlternatives (hh : m.IsNode h) : (m.competingAlternatives h).Nodup :=
  (hv.pairwise_precedes hh).imp fun {x y} hxy => by
    rintro rfl
    exact hv.not_precedes_self hxy

/-! ## Lowest common elements -/

omit hv in
/-- On a way up that meets something above `k`, there is a first such element. -/
theorem exists_first (habove : m.AtOrBelow h a) (hk : m.Below k a) :
    ∃ b, m.AtOrBelow h b ∧ m.Below k b ∧
      ∀ b', m.AtOrBelow h b' → m.Below k b' → m.AtOrBelow b b' := by
  induction habove using Relation.ReflTransGen.head_induction_on with
  | refl => exact ⟨a, .refl, hk, fun b' hb' _ => hb'⟩
  | @head h up hup _ ih =>
    by_cases hhere : m.Below k h
    · exact ⟨h, .refl, hhere, fun b' hb' _ => hb'⟩
    · obtain ⟨b, hb, hkb, hfirst⟩ := ih
      refine ⟨b, hb.head hup, hkb, fun b' hb' hkb' => ?_⟩
      rcases hb'.cases_head with rfl | ⟨up', hup', hrest⟩
      · exact absurd hkb' hhere
      · obtain rfl := Option.some.inj (hup.symm.trans hup')
        exact hfirst b' hrest hkb'

theorem existsUnique_lowestCommon (hh : m.Below h a) (hk : m.Below k a) :
    ∃! b, m.LowestCommon h k b := by
  obtain ⟨up, hup, habove⟩ := Relation.TransGen.head'_iff.mp hh
  obtain ⟨b, hb, hkb, hfirst⟩ := exists_first habove hk
  have hbelow (b' : Handle) : m.Below h b' ↔ m.AtOrBelow up b' := below_iff_of_parent? hup
  refine ⟨b, ⟨(hbelow b).mpr hb, hkb, fun b' hb' => hfirst b' ((hbelow b').mp hb')⟩, ?_⟩
  intro b' hb'
  exact hv.atOrBelow_antisymm (hb'.lowest b ((hbelow b).mpr hb) hkb)
    (hfirst b' ((hbelow b').mp hb'.left) hb'.right)

end Valid

end GoalModel.Model
