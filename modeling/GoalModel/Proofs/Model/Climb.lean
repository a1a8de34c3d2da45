import GoalModel.Proofs.Model.Valid
import Mathlib.Data.Fintype.Card

/-! # Ways up

`Model.ancestor?` follows parent links and `Model.Collects` is the walk that collects
alternatives, neither with a bound on its length. A way up that ends never meets an element
twice, so it has fewer links than there are elements (`Model.Sound.steps_lt`). Hence the walk
ends exactly where no cycle lies above, and then with what `Model.competingAlternatives` finds
within its bound (`Model.Sound.collects_iff`). In a valid model every way up from a goal ends at
the one root (`Model.Valid.rooted`), and what is passed on from all children to their parent holds
everywhere (`Model.Valid.wellFounded_parent?`). -/

namespace GoalModel.Model

/-- What the given number of parent links leads to. -/
def ancestor? (m : Model) : (steps : Nat) → Handle → Option Handle
  | 0, h => some h
  | steps + 1, h => (m.parent? h).bind (m.ancestor? steps)

/-- The walk upwards that collects alternatives. It has a result only if it reaches an element
without a parent. -/
inductive Collects (m : Model) : Handle → List Handle → Prop
  | stop {h : Handle} : m.parent? h = none → Collects m h []
  | climb {h up : Handle} {rest : List Handle} : m.parent? h = some up → Collects m up rest →
    Collects m h ((if m.refinement up = .or then m.siblings h else []) ++ rest)

variable {m : Model} {h a r r' : Handle} {i n n' steps : Nat}

/-! ## Following parent links -/

theorem ancestor?_add : m.ancestor? (i + n) h = (m.ancestor? i h).bind (m.ancestor? n) := by
  induction i generalizing h with
  | zero => rw [Nat.zero_add]; rfl
  | succ i ih =>
    rw [Nat.succ_add]
    simp only [ancestor?]
    cases m.parent? h with
    | none => rfl
    | some up => exact ih

/-- The number of links to an element without a parent is determined. -/
theorem steps_unique (hr : m.ancestor? n h = some r) (hnone : m.parent? r = none)
    (hr' : m.ancestor? n' h = some r') (hnone' : m.parent? r' = none) : n = n' := by
  induction n generalizing n' h with
  | zero =>
    obtain rfl : h = r := Option.some.inj hr
    cases n' with
    | zero => rfl
    | succ n' =>
      rw [ancestor?, hnone] at hr'
      cases hr'
  | succ n ih =>
    obtain ⟨up, hup, hr⟩ := Option.bind_eq_some_iff.mp hr
    cases n' with
    | zero =>
      obtain rfl : h = r' := Option.some.inj hr'
      rw [hnone'] at hup
      cases hup
    | succ n' =>
      rw [ancestor?, hup] at hr'
      exact congrArg (· + 1) (ih hr hr')

/-- A way up that ends visits nothing twice: if the first `k` that it visits are elements of the
model, the model has at least `k` elements. -/
theorem visited_le {k : Nat} (hk : k ≤ n + 1)
    (hvisits : ∀ i < k, ∀ a, m.ancestor? i h = some a → a.index < m.elements.length)
    (hr : m.ancestor? n h = some r) (hnone : m.parent? r = none) : k ≤ m.elements.length := by
  have hvisited (i : Fin k) : ∃ a, m.ancestor? i h = some a ∧ m.ancestor? (n - i) a = some r := by
    have hsplit : i.val + (n - i) = n := by omega
    rw [← hsplit, ancestor?_add] at hr
    exact Option.bind_eq_some_iff.mp hr
  choose visited hreached hrest using hvisited
  let place (i : Fin k) : Fin m.elements.length :=
    ⟨(visited i).index, hvisits i i.isLt _ (hreached i)⟩
  have hinj : Function.Injective place := by
    intro i j hij
    have hindex : (visited i).index = (visited j).index := congrArg Fin.val hij
    have hsame : visited i = visited j := congrArg Handle.mk hindex
    have hlast := hrest j
    rw [← hsame] at hlast
    have hsteps : n - i.val = n - j.val := steps_unique (hrest i) hnone hlast hnone
    have := i.isLt
    have := j.isLt
    exact Fin.ext (by omega)
  have hcard := Fintype.card_le_of_injective place hinj
  rw [Fintype.card_fin, Fintype.card_fin] at hcard
  exact hcard

theorem exists_of_endsWithin (hends : m.endsWithin steps h) :
    ∃ n r, n < steps ∧ m.ancestor? n h = some r ∧ m.parent? r = none := by
  induction steps generalizing h with
  | zero => cases hends
  | succ steps ih =>
    rw [endsWithin] at hends
    cases hp : m.parent? h with
    | none => exact ⟨0, h, Nat.zero_lt_succ _, rfl, hp⟩
    | some up =>
      rw [hp] at hends
      obtain ⟨n, r, hlt, hr, hnone⟩ := ih hends
      refine ⟨n + 1, r, Nat.succ_lt_succ hlt, ?_, hnone⟩
      rw [ancestor?, hp]
      exact hr

theorem endsWithin_of_ancestor? (hr : m.ancestor? n h = some r) (hnone : m.parent? r = none)
    (hlt : n < steps) : m.endsWithin steps h := by
  induction n generalizing h steps with
  | zero =>
    obtain rfl : h = r := Option.some.inj hr
    obtain ⟨steps, rfl⟩ := Nat.exists_eq_add_one.mpr hlt
    rw [endsWithin, hnone]
  | succ n ih =>
    obtain ⟨up, hup, hr⟩ := Option.bind_eq_some_iff.mp hr
    obtain ⟨steps, rfl⟩ := Nat.exists_eq_add_one.mpr (Nat.zero_lt_of_lt hlt)
    rw [endsWithin, hup]
    exact ih hr (Nat.lt_of_succ_lt_succ hlt)

/-! ## Collecting on the way -/

theorem Collects.unique {alternatives other : List Handle} (hc : m.Collects h alternatives)
    (hother : m.Collects h other) : alternatives = other := by
  induction hc generalizing other with
  | stop hnone =>
    cases hother with
    | stop => rfl
    | climb hup _ =>
      rw [hnone] at hup
      cases hup
  | climb hup _ ih =>
    cases hother with
    | stop hnone =>
      rw [hnone] at hup
      cases hup
    | climb hup' hrest =>
      obtain rfl := Option.some.inj (hup.symm.trans hup')
      rw [ih hrest]

theorem Collects.exists_ancestor? {alternatives : List Handle}
    (hc : m.Collects h alternatives) : ∃ n r, m.ancestor? n h = some r ∧ m.parent? r = none := by
  induction hc with
  | @stop h hnone => exact ⟨0, h, rfl, hnone⟩
  | climb hup _ ih =>
    obtain ⟨n, r, hr, hnone⟩ := ih
    refine ⟨n + 1, r, ?_, hnone⟩
    rw [ancestor?, hup]
    exact hr

theorem collects_of_endsWithin (hends : m.endsWithin steps h) :
    m.Collects h ((m.upwardLinks steps h).flatMap fun (node, up) =>
      if m.refinement up = .or then m.siblings node else []) := by
  induction steps generalizing h with
  | zero => cases hends
  | succ steps ih =>
    rw [endsWithin] at hends
    rw [upwardLinks]
    cases hp : m.parent? h with
    | none => exact .stop hp
    | some up =>
      rw [hp] at hends
      exact .climb hp (ih hends)

/-! ## Sound models -/

namespace Sound

variable (hs : m.Sound)
include hs

theorem role?_of_ancestor? (ha : m.ancestor? (n + 1) h = some a) : m.role? a = some .goal := by
  induction n generalizing h with
  | zero =>
    obtain ⟨up, hup, ha⟩ := Option.bind_eq_some_iff.mp ha
    obtain rfl : up = a := Option.some.inj ha
    exact hs.role?_of_parent? hup
  | succ n ih =>
    obtain ⟨up, _, ha⟩ := Option.bind_eq_some_iff.mp ha
    exact ih ha

theorem index_lt_of_ancestor? (hh : h.index < m.elements.length)
    (ha : m.ancestor? n h = some a) : a.index < m.elements.length := by
  cases n with
  | zero =>
    obtain rfl : h = a := Option.some.inj ha
    exact hh
  | succ n => exact m.index_lt_of_role? (hs.role?_of_ancestor? ha)

/-- A way up that ends visits an element per link and one more, and none of them twice. -/
theorem steps_lt (hh : h.index < m.elements.length) (hr : m.ancestor? n h = some r)
    (hnone : m.parent? r = none) : n < m.elements.length :=
  visited_le le_rfl (fun _ _ _ ha => hs.index_lt_of_ancestor? hh ha) hr hnone

theorem mem_rootGoals_iff : h ∈ m.rootGoals ↔ m.role? h = some .goal ∧ m.parent? h = none := by
  rw [rootGoals, List.mem_filter, hs.mem_goals_iff]
  refine and_congr_right fun hgoal => ?_
  obtain ⟨node, hnode⟩ := exists_decomposition? (.inl hgoal)
  rw [parent?_eq hnode, hnode, Option.any_some, Option.isNone_iff_eq_none]

/-- The walk ends exactly if no cycle lies above, and then with what is found within the
bound. -/
theorem collects_iff (hh : h.index < m.elements.length) {alternatives : List Handle} :
    m.Collects h alternatives ↔
      m.hasCycleAbove h = false ∧ alternatives = m.competingAlternatives h := by
  have hfound (hends : m.endsWithin (m.elements.length + 1) h) :
      m.Collects h (m.competingAlternatives h) := collects_of_endsWithin hends
  simp only [hasCycleAbove, Bool.not_eq_false']
  constructor
  · intro hc
    obtain ⟨n, r, hr, hnone⟩ := hc.exists_ancestor?
    have hlt := hs.steps_lt hh hr hnone
    have hends := endsWithin_of_ancestor? hr hnone (Nat.lt_succ_of_lt hlt)
    exact ⟨hends, hc.unique (hfound hends)⟩
  · rintro ⟨hends, rfl⟩
    exact hfound hends

end Sound

/-! ## Valid models -/

/-- The decomposition tree hangs from one goal, beside tasks that belong to no goal. -/
structure Rooted (m : Model) (root : Handle) : Prop where
  root_iff : ∀ g, m.role? g = some .goal ∧ m.parent? g = none ↔ g = root
  goals : ∀ g, m.role? g = some .goal →
    ∃ n < m.elements.length, m.ancestor? n g = some root
  tasks : ∀ t, m.role? t = some .task →
    m.parent? t = none ∨ ∃ n < m.elements.length, m.ancestor? n t = some root

namespace Valid

variable (hv : m.Valid)
include hv

/-- From a goal or task the way up ends, after fewer links than there are elements. -/
theorem exists_ancestor? (hh : m.role? h = some .goal ∨ m.role? h = some .task) :
    ∃ n r, n < m.elements.length ∧ m.ancestor? n h = some r ∧ m.parent? r = none := by
  obtain ⟨n, r, _, hr, hnone⟩ := exists_of_endsWithin (hv.endsWithin hh)
  exact ⟨n, r, hv.steps_lt (m.index_lt_of_node hh) hr hnone, hr, hnone⟩

/-- From the children to the parent is a way of induction: going down, the tree ends somewhere. -/
theorem wellFounded_parent? : WellFounded fun c g => m.parent? c = some g := by
  -- What is `n` links below its root has fewer than `length - n` levels below it.
  have hacc (k : Nat) : ∀ n h r, m.ancestor? n h = some r → m.parent? r = none →
      m.elements.length ≤ n + k → Acc (fun c g => m.parent? c = some g) h := by
    induction k with
    | zero =>
      refine fun n h r hr hnone hle => .intro h fun c hc => ?_
      have hlt := hv.steps_lt (n := n + 1) (h := c) ?_ (by rw [ancestor?, hc]; exact hr) hnone
      · omega
      · exact m.index_lt_of_node (hv.role?_of_mem_children ((hv.children h c).mpr hc))
    | succ k ih =>
      refine fun n h r hr hnone hle => .intro h fun c hc => ih (n + 1) c r ?_ hnone (by omega)
      rw [ancestor?, hc]
      exact hr
  refine ⟨fun h => ?_⟩
  cases hup : m.parent? h with
  | none => exact hacc m.elements.length 0 h h rfl hup (Nat.le_add_left _ _)
  | some up =>
    have hnode := hv.role?_of_mem_children ((hv.children up h).mpr hup)
    obtain ⟨n, r, _, hr, hnone⟩ := hv.exists_ancestor? hnode
    exact hacc m.elements.length n h r hr hnone (Nat.le_add_left _ _)

theorem rooted {root : Handle} (hroot : m.rootGoals = [root]) : m.Rooted root := by
  have root_iff (g : Handle) : m.role? g = some .goal ∧ m.parent? g = none ↔ g = root := by
    rw [← hv.mem_rootGoals_iff, hroot, List.mem_singleton]
  refine ⟨root_iff, fun g hg => ?_, fun t ht => ?_⟩
  · obtain ⟨n, r, hlt, hr, hnone⟩ := hv.exists_ancestor? (.inl hg)
    refine ⟨n, hlt, ?_⟩
    cases n with
    | zero =>
      obtain rfl : g = r := Option.some.inj hr
      rwa [← (root_iff g).mp ⟨hg, hnone⟩]
    | succ n => rwa [← (root_iff r).mp ⟨hv.role?_of_ancestor? hr, hnone⟩]
  · obtain ⟨n, r, hlt, hr, hnone⟩ := hv.exists_ancestor? (.inr ht)
    cases n with
    | zero =>
      obtain rfl : t = r := Option.some.inj hr
      exact .inl hnone
    | succ n =>
      refine .inr ⟨n + 1, hlt, ?_⟩
      rwa [← (root_iff r).mp ⟨hv.role?_of_ancestor? hr, hnone⟩]

theorem collects (hh : m.role? h = some .goal ∨ m.role? h = some .task) :
    m.Collects h (m.competingAlternatives h) := by
  refine (hv.collects_iff (m.index_lt_of_node hh)).mpr ⟨?_, rfl⟩
  simpa [hasCycleAbove] using hv.endsWithin hh

end Valid

end GoalModel.Model
