import GoalModel.Linking.Basic
import Mathlib.Data.List.Forall2

/-! # What names mean

A name that is declared once means that declaration (`Scope.resolve?_eq_some_iff`), and a
reference leads to it if its role is accepted (`Scope.accepted?_eq_some_iff`). Different names
never mean the same handle, so lists of names without repetition become lists of handles without
repetition (`distinctHandles_eq_iff`, `nodup_of_map_accepted?`). -/

namespace GoalModel

theorem lastIndex?_eq_none {α : Type} {p : α → Bool} {l : List α} :
    lastIndex? p l = none ↔ ∀ a ∈ l, p a = false := by
  induction l with
  | nil => simp [lastIndex?]
  | cons a rest ih =>
    cases hrest : lastIndex? p rest with
    | none =>
      have hall := ih.mp hrest
      cases ha : p a <;> simp [lastIndex?, hrest, ha]
      exact hall
    | some i =>
      have : ¬∀ a ∈ rest, p a = false := fun h => by simp [ih.mpr h] at hrest
      simp only [lastIndex?, hrest, List.forall_mem_cons]
      simp [this]

theorem getElem?_of_lastIndex? {α : Type} {p : α → Bool} {l : List α} {i : Nat}
    (h : lastIndex? p l = some i) : ∃ a, l[i]? = some a ∧ p a = true := by
  induction l generalizing i with
  | nil => simp [lastIndex?] at h
  | cons a rest ih =>
    cases hrest : lastIndex? p rest with
    | none =>
      simp only [lastIndex?, hrest] at h
      split at h
      · next ha => cases h; exact ⟨a, rfl, ha⟩
      · cases h
    | some j =>
      simp only [lastIndex?, hrest, Option.some.injEq] at h
      subst h
      exact ih hrest

namespace Scope

variable {scope : Scope} {requirement : Requirement} {name : String} {h : Handle}

/-- What a name means where an element of some kind is required. -/
def accepted? (scope : Scope) (requirement : Requirement) (name : String) : Option Handle :=
  (scope.resolve? name).filter fun h => (scope.role? h).any requirement.accepts

theorem resolveAs_eq_ok {referrer : Referrer} :
    scope.resolveAs referrer requirement name = .ok h ↔
      scope.accepted? requirement name = some h := by
  unfold resolveAs accepted?
  cases scope.resolve? name with
  | none => simp
  | some g =>
    cases hr : scope.role? g with
    | none => simp [Option.filter, hr]
    | some role =>
      by_cases ha : requirement.accepts role = true <;> simp [Option.filter, hr, ha]

theorem toOption_resolveAs (referrer : Referrer) :
    (scope.resolveAs referrer requirement name).toOption = scope.accepted? requirement name := by
  cases hr : scope.resolveAs referrer requirement name with
  | ok h => exact (resolveAs_eq_ok.mp hr).symm
  | error e =>
    refine (Option.eq_none_iff_forall_ne_some.mpr fun h ha => ?_).symm
    rw [resolveAs_eq_ok.mpr ha] at hr
    cases hr

theorem declared_of_resolve? (hr : scope.resolve? name = some h) :
    ∃ role, scope.declared[h.index]? = some (name, role) := by
  obtain ⟨i, hi, rfl⟩ := Option.map_eq_some_iff.mp hr
  obtain ⟨⟨n, role⟩, hget, heq⟩ := getElem?_of_lastIndex? hi
  have : n = name := beq_iff_eq.mp heq
  exact ⟨role, this ▸ hget⟩

theorem resolve?_isSome : (scope.resolve? name).isSome ↔ name ∈ scope.declared.map Prod.fst := by
  rw [← not_iff_not]
  simp only [resolve?, Option.isSome_map, Option.not_isSome_iff_eq_none, lastIndex?_eq_none,
    beq_eq_false_iff_ne, List.mem_map, not_exists, not_and]

theorem declared_of_accepted? (ha : scope.accepted? requirement name = some h) :
    ∃ role, scope.declared[h.index]? = some (name, role) ∧ requirement.accepts role := by
  obtain ⟨hr, hrole⟩ := Option.filter_eq_some_iff.mp ha
  obtain ⟨role, hget⟩ := declared_of_resolve? hr
  refine ⟨role, hget, ?_⟩
  simpa [role?, hget] using hrole

theorem eq_of_accepted? {other : String} (ha : scope.accepted? requirement name = some h)
    (hb : scope.accepted? requirement other = some h) : name = other := by
  obtain ⟨_, h1, _⟩ := declared_of_accepted? ha
  obtain ⟨_, h2, _⟩ := declared_of_accepted? hb
  rw [h1] at h2
  simpa using congrArg (Option.map Prod.fst) h2

section Distinct
variable (hnd : (scope.declared.map Prod.fst).Nodup)
include hnd

theorem resolve?_eq_some_iff :
    scope.resolve? name = some h ↔ ∃ role, scope.declared[h.index]? = some (name, role) := by
  refine ⟨declared_of_resolve?, fun ⟨role, hget⟩ => ?_⟩
  have hmem : name ∈ scope.declared.map Prod.fst :=
    List.mem_map.mpr ⟨_, List.mem_of_getElem? hget, rfl⟩
  obtain ⟨g, hg⟩ := Option.isSome_iff_exists.mp (resolve?_isSome.mpr hmem)
  obtain ⟨role', hget'⟩ := declared_of_resolve? hg
  -- both positions carry the name, and it stands only once
  have heq : g.index = h.index := by
    obtain ⟨hlt, _⟩ := List.getElem?_eq_some_iff.mp hget'
    refine (List.getElem?_inj (by simpa using hlt) hnd).mp ?_
    simp [hget, hget']
  rw [hg]
  exact congrArg some (Handle.mk.injEq .. ▸ heq)

theorem accepted?_eq_some_iff :
    scope.accepted? requirement name = some h ↔
      ∃ role, scope.declared[h.index]? = some (name, role) ∧ requirement.accepts role := by
  refine ⟨declared_of_accepted?, fun ⟨role, hget, hrole⟩ => ?_⟩
  refine Option.filter_eq_some_iff.mpr ⟨(resolve?_eq_some_iff hnd).mpr ⟨role, hget⟩, ?_⟩
  simpa [role?, hget] using hrole

theorem exists_accepted? :
    (∃ h, scope.accepted? requirement name = some h) ↔
      ∃ role, (name, role) ∈ scope.declared ∧ requirement.accepts role := by
  constructor
  · rintro ⟨h, ha⟩
    obtain ⟨role, hget, hrole⟩ := declared_of_accepted? ha
    exact ⟨role, List.mem_of_getElem? hget, hrole⟩
  · rintro ⟨role, hmem, hrole⟩
    obtain ⟨i, hi⟩ := List.mem_iff_getElem?.mp hmem
    exact ⟨⟨i⟩, (accepted?_eq_some_iff hnd).mpr ⟨role, hi, hrole⟩⟩

end Distinct

/-! ## Lists of names -/

/-- Names and the handles that they mean repeat together. -/
theorem nodup_of_map_accepted? {names : List String} {handles : List Handle}
    (hmap : names.map (scope.accepted? requirement) = handles.map some) :
    handles.Nodup ↔ names.Nodup := by
  induction names generalizing handles with
  | nil => cases handles <;> simp at hmap ⊢
  | cons name names ih =>
    cases handles with
    | nil => simp at hmap
    | cons h handles =>
      simp only [List.map_cons, List.cons.injEq] at hmap
      obtain ⟨hhead, htail⟩ := hmap
      have hmem : h ∈ handles ↔ name ∈ names := by
        constructor
        · intro hh
          have : some h ∈ names.map (scope.accepted? requirement) :=
            htail ▸ List.mem_map_of_mem hh
          obtain ⟨other, hother, heq⟩ := List.mem_map.mp this
          exact eq_of_accepted? hhead heq ▸ hother
        · intro hn
          have : some h ∈ handles.map some := htail ▸ hhead ▸ List.mem_map_of_mem hn
          simpa using this
      rw [List.nodup_cons, List.nodup_cons, hmem, ih htail]

end Scope

/-- Distinct names link without errors exactly if each of them resolves and no handle occurs
twice; the result is then their handles in order. -/
theorem distinctHandles_eq_iff {resolve : String → Except LinkError Handle}
    {repeated : String → LinkError} {seen : List Handle} {names : List String}
    {handles : List Handle} :
    distinctHandles resolve repeated seen names = (handles, []) ↔
      names.map resolve = handles.map .ok ∧ handles.Nodup ∧ ∀ h ∈ handles, h ∉ seen := by
  fun_induction distinctHandles resolve repeated seen names generalizing handles with
  | case1 seen => cases handles <;> simp
  | case2 seen name rest e hname tail errors _ ih =>
    cases handles <;> simp [hname]
  | case3 seen name rest h hname hseen tail errors _ ih =>
    cases handles with
    | nil => simp
    | cons g handles =>
      simp only [Prod.mk.injEq, reduceCtorEq, and_false, List.map_cons, List.cons.injEq, hname,
        Except.ok.injEq, List.forall_mem_cons, false_iff]
      rintro ⟨⟨rfl, _⟩, _, hg, _⟩
      exact hg hseen
  | case4 seen name rest h hname hseen tail errors htail ih =>
    cases handles with
    | nil => simp
    | cons g handles =>
      simp only [htail, Prod.mk.injEq, List.mem_cons, not_or] at ih
      simp only [Prod.mk.injEq, List.map_cons, List.cons.injEq, hname, Except.ok.injEq,
        List.forall_mem_cons, List.nodup_cons, and_assoc, ih]
      constructor
      · rintro ⟨rfl, hmap, hnd, hnot⟩
        exact ⟨rfl, hmap, fun hh => (hnot h hh).1 rfl, hnd, hseen, fun x hx => (hnot x hx).2⟩
      · rintro ⟨rfl, hmap, hh, hnd, _, hnot⟩
        exact ⟨rfl, hmap, hnd, fun x hx => ⟨fun he => hh (he ▸ hx), hnot x hx⟩⟩

namespace Scope

variable {scope : Scope} {requirement : Requirement} {referrer : Referrer}
  {repeated : String → LinkError} {names : List String}

theorem map_resolveAs_eq_iff {handles : List Handle} :
    names.map (scope.resolveAs referrer requirement) = handles.map .ok ↔
      names.map (scope.accepted? requirement) = handles.map some := by
  induction names generalizing handles with
  | nil => cases handles <;> simp
  | cons name names ih => cases handles <;> simp [resolveAs_eq_ok, ih]

theorem map_accepted?_eq_map_some
    (hall : ∀ name ∈ names, (scope.accepted? requirement name).isSome) :
    names.map (scope.accepted? requirement) =
      (names.filterMap (scope.accepted? requirement)).map some := by
  rw [List.map_filterMap_some_eq_filter_map_isSome, List.filter_eq_self.mpr]
  simpa using hall

/-- A list of references links without errors if each leads to what is required and none is
repeated. -/
theorem distinctHandles_errors_eq_nil :
    (distinctHandles (scope.resolveAs referrer requirement) repeated [] names).2 = [] ↔
      (∀ name ∈ names, (scope.accepted? requirement name).isSome) ∧ names.Nodup := by
  have hiff (handles : List Handle) :=
    @distinctHandles_eq_iff (scope.resolveAs referrer requirement) repeated [] names handles
  simp only [Prod.ext_iff, map_resolveAs_eq_iff, List.not_mem_nil, not_false_eq_true,
    implies_true, and_true] at hiff
  constructor
  · intro h
    obtain ⟨hmap, hnd⟩ := (hiff _).mp ⟨rfl, h⟩
    refine ⟨fun name hname => ?_, (nodup_of_map_accepted? hmap).mp hnd⟩
    obtain ⟨g, _, hg⟩ := List.mem_map.mp (hmap ▸ List.mem_map_of_mem hname)
    exact hg ▸ rfl
  · rintro ⟨hall, hnd⟩
    have hmap := map_accepted?_eq_map_some hall
    exact ((hiff _).mpr ⟨hmap, (nodup_of_map_accepted? hmap).mpr hnd⟩).2

theorem map_distinctHandles
    (h : (distinctHandles (scope.resolveAs referrer requirement) repeated [] names).2 = []) :
    names.map (scope.accepted? requirement) =
      (distinctHandles (scope.resolveAs referrer requirement) repeated [] names).1.map some :=
  map_resolveAs_eq_iff.mp (distinctHandles_eq_iff.mp (Prod.ext rfl h)).1

theorem nodup_distinctHandles
    (h : (distinctHandles (scope.resolveAs referrer requirement) repeated [] names).2 = []) :
    (distinctHandles (scope.resolveAs referrer requirement) repeated [] names).1.Nodup :=
  (distinctHandles_eq_iff.mp (Prod.ext rfl h)).2.1

theorem formulaErrors_eq_nil {formula : Formula String} :
    scope.formulaErrors referrer formula = [] ↔
      ∀ name ∈ formula.atoms, (scope.resolve? name).isSome := by
  simp [formulaErrors, List.filter_eq_nil_iff, Option.isSome_iff_ne_none]

end Scope

/-! ## What leaves and enters a run -/

theorem ExportEntry.link?_eq {scope : Scope} {entry : ExportEntry} : entry.link? scope =
    (scope.accepted? .stateful entry.name).map (⟨·, entry.domain, entry.min, entry.max⟩) := by
  rw [link?, ← Scope.toOption_resolveAs .exported]
  cases scope.resolveAs .exported .stateful entry.name <;> rfl

theorem InitialEntry.link?_eq {scope : Scope} {entry : InitialEntry} :
    entry.link? scope = (scope.accepted? .stateful entry.name).map (⟨·, entry.value⟩) := by
  rw [link?, ← Scope.toOption_resolveAs .initializations]
  cases scope.resolveAs .initializations .stateful entry.name <;> rfl

end GoalModel
