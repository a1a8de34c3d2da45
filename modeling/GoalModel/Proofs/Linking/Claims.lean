import GoalModel.Proofs.Linking.Layout
import GoalModel.Proofs.Linking.Names

/-! # What the goals of a document claim

`Claims.addNumbered` adds the claims of goals one goal after the other, which is what linking all
actors amounts to (`ActorEntry.linkAll_claims`, `ActorEntry.linkAll_errors_eq_nil`). It meets no
error exactly if every goal refines well and no element is claimed twice, and then the claims
are the ones that the goals ask for, `Claims.requested` (`Claims.addNumbered_eq_iff`). -/

namespace GoalModel

/-- The names of the children of a goal. -/
def GoalEntry.children (entry : GoalEntry) : List String := entry.and ++ entry.or

/-- A goal is refined in one way only, into goals and tasks of the scope. -/
structure GoalEntry.Refines (scope : Scope) (entry : GoalEntry) : Prop where
  oneWay : entry.and = [] ∨ entry.or = []
  children : ∀ name ∈ entry.children, (scope.accepted? .node name).isSome

namespace Claims

variable {scope : Scope} {claims : Claims} {goal child : Handle}

theorem parent?_eq_none : claims.parent? child = none ↔ child ∉ claims.map Prod.fst := by
  simp only [parent?, List.lookup_eq_none_iff, bne_iff_ne, List.mem_map, not_exists, not_and]
  exact forall₂_congr fun p _ => ne_comm

theorem parent?_eq_some_iff (hnd : (claims.map Prod.fst).Nodup) :
    claims.parent? child = some goal ↔ (child, goal) ∈ claims := by
  rw [parent?, List.lookup_eq_some_iff]
  constructor
  · rintro ⟨before, after, rfl, _⟩
    simp
  · intro hmem
    obtain ⟨before, after, rfl⟩ := List.append_of_mem hmem
    refine ⟨before, after, rfl, fun p hp => ?_⟩
    rw [List.map_append, List.nodup_append] at hnd
    exact bne_iff_ne.mpr (hnd.2.2 p.1 (List.mem_map_of_mem hp) child (by simp)).symm

theorem mem_children : child ∈ claims.children goal ↔ (child, goal) ∈ claims := by
  simp [children]

theorem candidate_eq_ok {name : String} :
    claims.candidate scope goal name = .ok child ↔
      scope.accepted? .node name = some child ∧ child ∉ claims.map Prod.fst := by
  cases hr : scope.resolveAs (.goal (scope.nameOf goal)) .node name with
  | error e =>
    have : ¬scope.accepted? .node name = some child := fun h => by
      simp [Scope.resolveAs_eq_ok.mpr h] at hr
    simp [candidate, hr, bind, Except.bind, this]
  | ok c =>
    rw [Scope.resolveAs_eq_ok.mp hr, Option.some.injEq, ← parent?_eq_none]
    cases hp : claims.parent? c with
    | none =>
      simp only [candidate, hr, hp, bind, Except.bind, pure, Except.pure, Except.ok.injEq]
      exact ⟨fun h => ⟨h, h ▸ hp⟩, fun h => h.1⟩
    | some owner =>
      have : ¬(c = child ∧ claims.parent? child = none) := by
        rintro ⟨rfl, hnone⟩
        rw [hp] at hnone
        cases hnone
      simp only [candidate, hr, hp, bind, Except.bind, this, iff_false]
      by_cases ho : owner = goal <;> simp [ho, throw, throwThe, MonadExceptOf.throw]

/-- The claims that goals make, as far as their names lead to goals and tasks. -/
def requested (scope : Scope) (goals : List (Handle × GoalEntry)) : Claims :=
  goals.flatMap fun (goal, entry) =>
    (entry.children.filterMap (scope.accepted? .node)).map (·, goal)

theorem map_fst_requested {goals : List (Handle × GoalEntry)} :
    (requested scope goals).map Prod.fst =
      (goals.flatMap (·.2.children)).filterMap (scope.accepted? .node) := by
  simp only [requested, List.map_flatMap, List.map_map, Function.comp_def, List.map_id',
    List.filterMap_flatMap]

theorem mem_requested {goals : List (Handle × GoalEntry)} :
    (child, goal) ∈ requested scope goals ↔
      ∃ entry, (goal, entry) ∈ goals ∧
        ∃ name ∈ entry.children, scope.accepted? .node name = some child := by
  simp only [requested, List.mem_flatMap, List.mem_map, List.mem_filterMap, Prod.mk.injEq,
    Prod.exists]
  constructor
  · rintro ⟨g, entry, hg, c, hc, rfl, rfl⟩
    exact ⟨entry, hg, hc⟩
  · rintro ⟨entry, hg, hc⟩
    exact ⟨goal, entry, hg, child, hc, rfl, rfl⟩

/-- A goal gets the children that it asks for, in its own order. -/
theorem children_requested {goals : List (Handle × GoalEntry)} {entry : GoalEntry}
    (hnd : (goals.map Prod.fst).Nodup) (hmem : (goal, entry) ∈ goals) :
    (requested scope goals).children goal = entry.children.filterMap (scope.accepted? .node) := by
  have hown (g : Handle) (cs : List Handle) :
      ((cs.map (·, g)).filter fun claim => claim.2 = goal).map (·.1) =
        if g = goal then cs else [] := by
    split <;> simp_all [List.filter_map, Function.comp_def]
  induction goals with
  | nil => cases hmem
  | cons first rest ih =>
    obtain ⟨hfresh, hrest⟩ := List.nodup_cons.mp hnd
    have hsplit : (requested scope (first :: rest)).children goal =
        (if first.1 = goal then first.2.children.filterMap (scope.accepted? .node) else []) ++
          (requested scope rest).children goal := by
      simp only [children, requested, List.flatMap_cons, List.filter_append, List.map_append]
      rw [hown]
    rw [hsplit]
    rcases List.mem_cons.mp hmem with rfl | hm
    · have hnil : (requested scope rest).children goal = [] := by
        refine List.eq_nil_iff_forall_not_mem.mpr fun c hc => ?_
        obtain ⟨entry', hg, _⟩ := mem_requested.mp (mem_children.mp hc)
        exact hfresh (List.mem_map.mpr ⟨_, hg, rfl⟩)
      rw [if_pos rfl, hnil, List.append_nil]
    · have hne : first.1 ≠ goal := fun he => hfresh (he ▸ List.mem_map_of_mem hm)
      rw [if_neg hne, List.nil_append, ih hrest hm]

theorem addAll_eq_iff {names : List String} {claims' : Claims}
    (hnd : (claims.map Prod.fst).Nodup) :
    addAll scope goal claims names = (claims', []) ↔
      (∀ name ∈ names, (scope.accepted? .node name).isSome) ∧ (claims'.map Prod.fst).Nodup ∧
        claims' = claims ++ (names.filterMap (scope.accepted? .node)).map (·, goal) := by
  fun_induction addAll scope goal claims names with
  | case1 claims =>
    simp only [Prod.mk.injEq, and_true, List.not_mem_nil, false_implies, implies_true,
      List.filterMap_nil, List.map_nil, List.append_nil, true_and]
    exact ⟨fun h => h ▸ ⟨hnd, rfl⟩, fun h => h.2.symm⟩
  | case2 claims name rest child hok ih =>
    obtain ⟨hacc, hfree⟩ := candidate_eq_ok.mp hok
    have hnd₁ : ((claims ++ [(child, goal)]).map Prod.fst).Nodup := by
      simp only [List.map_append, List.map_cons, List.map_nil]
      refine List.nodup_append.mpr ⟨hnd, by simp, fun x hx y hy hxy => ?_⟩
      rw [hxy, List.mem_singleton.mp hy] at hx
      exact hfree hx
    rw [ih hnd₁]
    simp [hacc]
  | case3 claims name rest e herr claims₁ errors _ ih =>
    simp only [Prod.mk.injEq, reduceCtorEq, and_false, List.forall_mem_cons, false_iff]
    rintro ⟨⟨hsome, _⟩, hnd', rfl⟩
    obtain ⟨c, hc⟩ := Option.isSome_iff_exists.mp hsome
    -- the only other reason for an error is that the child is taken
    have htaken : c ∈ claims.map Prod.fst := by
      by_contra hfree
      rw [candidate_eq_ok.mpr ⟨hc, hfree⟩] at herr
      cases herr
    rw [List.map_append, List.nodup_append] at hnd'
    exact hnd'.2.2 c htaken c (by simp [hc]) rfl

theorem addGoal_eq_iff {entry : GoalEntry} {claims' : Claims}
    (hnd : (claims.map Prod.fst).Nodup) :
    addGoal scope claims goal entry = (claims', []) ↔
      entry.Refines scope ∧ (claims'.map Prod.fst).Nodup ∧
        claims' = claims ++ requested scope [(goal, entry)] := by
  have hway : (!entry.and.isEmpty && !entry.or.isEmpty) = true ↔
      ¬(entry.and = [] ∨ entry.or = []) := by simp
  by_cases h : entry.and = [] ∨ entry.or = []
  · rw [addGoal, if_neg (by rw [hway]; exact not_not_intro h), addAll_eq_iff hnd]
    simp only [requested, List.flatMap_singleton]
    exact and_congr_left fun _ => ⟨fun hc => ⟨h, hc⟩, fun hr => hr.children⟩
  · rw [addGoal, if_pos (hway.mpr h)]
    simp only [Prod.mk.injEq, List.cons_ne_self, and_false, false_iff]
    exact fun hr => h hr.1.oneWay

/-- Adds the claims of goals, one after the other. -/
def addNumbered (scope : Scope) : Claims → List (Handle × GoalEntry) → Claims × List LinkError
  | claims, [] => (claims, [])
  | claims, (goal, entry) :: rest =>
    let (claims, errors) := claims.addGoal scope goal entry
    let (claims, further) := addNumbered scope claims rest
    (claims, errors ++ further)

theorem addNumbered_eq_iff {goals : List (Handle × GoalEntry)} {claims' : Claims}
    (hnd : (claims.map Prod.fst).Nodup) :
    addNumbered scope claims goals = (claims', []) ↔
      (∀ g ∈ goals, g.2.Refines scope) ∧ (claims'.map Prod.fst).Nodup ∧
        claims' = claims ++ requested scope goals := by
  induction goals generalizing claims with
  | nil =>
    simp only [addNumbered, Prod.mk.injEq, and_true, List.not_mem_nil, false_implies,
      implies_true, requested, List.flatMap_nil, List.append_nil, true_and]
    exact ⟨fun h => h ▸ ⟨hnd, rfl⟩, fun h => h.2.symm⟩
  | cons g rest ih =>
    obtain ⟨goal, entry⟩ := g
    have hsplit : requested scope ((goal, entry) :: rest) =
        requested scope [(goal, entry)] ++ requested scope rest := by
      simp [requested]
    simp only [addNumbered, Prod.mk.injEq, List.append_eq_nil_iff, List.forall_mem_cons, hsplit]
    constructor
    · rintro ⟨hfst, hfirst, hrest⟩
      obtain ⟨href, hnd₁, heq⟩ := (addGoal_eq_iff hnd).mp (Prod.ext rfl hfirst)
      obtain ⟨hall, hnd₂, heq₂⟩ := (ih hnd₁).mp (Prod.ext hfst hrest)
      exact ⟨⟨href, hall⟩, hnd₂, by rw [heq₂, heq, List.append_assoc]⟩
    · rintro ⟨⟨href, hall⟩, hnd', heq⟩
      rw [← List.append_assoc] at heq
      have hnd₁ : ((claims ++ requested scope [(goal, entry)]).map Prod.fst).Nodup := by
        rw [heq, List.map_append] at hnd'
        exact (List.nodup_append.mp hnd').1
      rw [(addGoal_eq_iff hnd).mpr ⟨href, hnd₁, rfl⟩, (ih hnd₁).mpr ⟨hall, hnd', heq⟩]
      exact ⟨rfl, rfl, rfl⟩

theorem addNumbered_append {goals others : List (Handle × GoalEntry)} :
    addNumbered scope claims (goals ++ others) =
      (((claims.addNumbered scope goals).1.addNumbered scope others).1,
        (claims.addNumbered scope goals).2 ++
          ((claims.addNumbered scope goals).1.addNumbered scope others).2) := by
  induction goals generalizing claims with
  | nil => rfl
  | cons g goals ih => simp only [List.cons_append, addNumbered, ih, List.append_assoc]

theorem addGoals_eq {entries : List GoalEntry} {base : Nat} :
    addGoals scope base claims entries =
      claims.addNumbered scope ((Handle.range base entries.length).zip entries) := by
  induction entries generalizing base claims with
  | nil => rfl
  | cons entry rest ih =>
    simp only [List.length_cons, Handle.range_succ, List.zip_cons_cons, addGoals, addNumbered, ih]

end Claims

/-! ## The goals of a document -/

/-- The goal that a declaration declares. -/
def Declaration.goal? : Declaration → Option GoalEntry
  | .goal entry => some entry
  | _ => none

/-- The goals among declarations, each with its handle; the first declaration stands at `base`. -/
def numberedGoals (base : Nat) (declarations : List Declaration) : List (Handle × GoalEntry) :=
  (declarations.zipIdx base).filterMap fun (d, i) => d.goal?.map (Prod.mk ⟨i⟩)

theorem numberedGoals_append {base : Nat} {ds es : List Declaration} :
    numberedGoals base (ds ++ es) =
      numberedGoals base ds ++ numberedGoals (base + ds.length) es := by
  simp [numberedGoals, List.zipIdx_append]

theorem numberedGoals_eq_nil {base : Nat} {ds : List Declaration}
    (h : ∀ d ∈ ds, d.goal? = none) : numberedGoals base ds = [] := by
  refine List.filterMap_eq_nil_iff.mpr fun p hp => ?_
  simp [h p.1 (List.fst_mem_of_mem_zipIdx hp)]

theorem numberedGoals_map_goal {base : Nat} {entries : List GoalEntry} :
    numberedGoals base (entries.map .goal) =
      (Handle.range base entries.length).zip entries := by
  induction entries generalizing base with
  | nil => rfl
  | cons entry rest ih =>
    rw [List.length_cons, Handle.range_succ, List.zip_cons_cons, ← ih]
    rfl

theorem TaskEntry.goal?_of_mem_declarations {tasks : List TaskEntry} {base : Nat}
    {d : Declaration} (h : d ∈ TaskEntry.declarations base tasks) : d.goal? = none := by
  induction tasks generalizing base with
  | nil => cases h
  | cons task rest ih =>
    simp only [TaskEntry.declarations, List.cons_append, List.mem_cons, List.mem_append,
      List.mem_map] at h
    rcases h with rfl | ⟨effect, _, rfl⟩ | h
    · rfl
    · rfl
    · exact ih h

theorem ActorEntry.numberedGoals_declarations {base : Nat} {entry : ActorEntry} :
    numberedGoals base (entry.declarations base) =
      (Handle.range (entry.goalBase base) entry.goals.length).zip entry.goals := by
  have hnone {α : Type} {f : α → Declaration} {xs : List α} (hf : ∀ x, (f x).goal? = none)
      (b : Nat) : numberedGoals b (xs.map f) = [] :=
    numberedGoals_eq_nil fun d hd => by
      obtain ⟨x, _, rfl⟩ := List.mem_map.mp hd
      exact hf x
  have htasks (b : Nat) : numberedGoals b (TaskEntry.declarations (entry.taskBase base)
      entry.tasks) = [] :=
    numberedGoals_eq_nil fun _ => TaskEntry.goal?_of_mem_declarations
  simp only [declarations, numberedGoals_append, htasks, numberedGoals_map_goal]
  rw [hnone fun _ => rfl, hnone fun _ => rfl, hnone fun _ => rfl, hnone fun _ => rfl]
  simp [goalBase, Nat.add_assoc]

theorem mem_numberedGoals {declarations : List Declaration} {h : Handle} {entry : GoalEntry} :
    (h, entry) ∈ numberedGoals 0 declarations ↔
      declarations[h.index]? = some (.goal entry) := by
  simp only [numberedGoals, List.mem_filterMap, Option.map_eq_some_iff, Prod.mk.injEq,
    Prod.exists, List.mem_zipIdx_iff_getElem?]
  constructor
  · rintro ⟨d, i, hd, e, hgoal, rfl, rfl⟩
    cases d <;> simp [Declaration.goal?] at hgoal
    exact hgoal ▸ hd
  · exact fun hd => ⟨_, _, hd, entry, rfl, rfl, rfl⟩

theorem nodup_numberedGoals {base : Nat} {declarations : List Declaration} :
    ((numberedGoals base declarations).map Prod.fst).Nodup := by
  have hpositions : ((declarations.zipIdx base).map Prod.snd).Nodup := by
    rw [List.zipIdx_map_snd]
    exact List.nodup_range' _
  rw [List.Nodup, List.pairwise_map] at hpositions ⊢
  refine hpositions.filterMap _ fun p q hpq a ha b hb hab => hpq ?_
  obtain ⟨_, _, rfl⟩ := Option.map_eq_some_iff.mp ha
  obtain ⟨_, _, rfl⟩ := Option.map_eq_some_iff.mp hb
  exact congrArg Handle.index hab

namespace ActorEntry

variable {scope : Scope} {claims : Claims} {base : Nat} {actors : List ActorEntry}

theorem linkAll_claims :
    (linkAll scope base claims actors).1 =
      (claims.addNumbered scope (numberedGoals base (allDeclarations base actors))).1 := by
  induction actors generalizing base claims with
  | nil => rfl
  | cons actor rest ih =>
    simp only [linkAll, allDeclarations, numberedGoals_append, numberedGoals_declarations,
      Claims.addNumbered_append, Claims.addGoals_eq, ih]
    rw [size, length_declarations 0 base]

/-- The errors of consecutive actors are those of their goals and those of each actor. -/
theorem mem_linkAll_errors_iff {e : LinkError} :
    e ∈ (linkAll scope base claims actors).2 ↔
      e ∈ (claims.addNumbered scope (numberedGoals base (allDeclarations base actors))).2 ∨
        ∃ actor ∈ actors, e ∈ actor.referenceErrors scope := by
  induction actors generalizing base claims with
  | nil => simp [linkAll, allDeclarations, numberedGoals, Claims.addNumbered]
  | cons actor rest ih =>
    have hlen : (actor.declarations base).length = actor.size := length_declarations base 0 actor
    simp only [linkAll, allDeclarations, numberedGoals_append, numberedGoals_declarations, hlen,
      Claims.addNumbered_append, Claims.addGoals_eq, List.mem_append, ih,
      List.exists_mem_cons_iff]
    tauto

theorem linkAll_errors_eq_nil :
    (linkAll scope base claims actors).2 = [] ↔
      (claims.addNumbered scope (numberedGoals base (allDeclarations base actors))).2 = [] ∧
        ∀ actor ∈ actors, actor.referenceErrors scope = [] := by
  simp only [List.eq_nil_iff_forall_not_mem, mem_linkAll_errors_iff, not_or, not_exists, not_and,
    forall_and]
  exact and_congr_right fun _ =>
    ⟨fun h actor hactor e => h e actor hactor, fun h e actor hactor => h actor hactor e⟩

end ActorEntry

namespace Document

variable {document : Document}

/-- The goals of a document with their handles. -/
def numberedGoals (document : Document) : List (Handle × GoalEntry) :=
  GoalModel.numberedGoals 0 document.declarations

/-- The references inside actors are free of errors exactly if every goal refines well, no
element is claimed twice, and no effect or formula has an error. -/
theorem linkActors_errors_eq_nil :
    document.linkActors.2 = [] ↔
      (∀ g ∈ document.numberedGoals, g.2.Refines document.scope) ∧
        ((Claims.requested document.scope document.numberedGoals).map Prod.fst).Nodup ∧
          ∀ actor ∈ document.actors, actor.referenceErrors document.scope = [] := by
  have hiff (claims : Claims) := @Claims.addNumbered_eq_iff document.scope []
    document.numberedGoals claims List.nodup_nil
  simp only [Prod.ext_iff, List.nil_append] at hiff
  rw [linkActors, ActorEntry.linkAll_errors_eq_nil, ← and_assoc]
  refine and_congr_left fun _ => ⟨fun h => ?_, fun h => ?_⟩
  · obtain ⟨href, hnd, heq⟩ := (hiff _).mp ⟨rfl, h⟩
    exact ⟨href, heq ▸ hnd⟩
  · exact ((hiff _).mpr ⟨h.1, h.2, rfl⟩).2

theorem linkActors_claims (h : document.linkActors.2 = []) :
    document.linkActors.1 = Claims.requested document.scope document.numberedGoals := by
  have herr := (ActorEntry.linkAll_errors_eq_nil.mp h).1
  rw [linkActors, ActorEntry.linkAll_claims]
  have hnd : (([] : Claims).map Prod.fst).Nodup := List.nodup_nil
  exact ((Claims.addNumbered_eq_iff hnd).mp (Prod.ext rfl herr)).2.2

end Document

end GoalModel
