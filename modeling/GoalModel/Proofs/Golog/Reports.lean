import GoalModel.Proofs.Golog.Definitions

/-! # What a translation reports

Qualities and conditions are rendered one by one, and each of them first tells the sink whose
rendering begins. So what one of them adds to the sink does not depend on what the sink holds
(`Render.Adds`), and the diagnostics of a translation are those of its qualities and then those of
its conditions, each rendered alone (`diagnostics_translateFrom`). Nor does what is rendered depend
on the sink (`Render.OnlyAdds`), so that reports never change the program
(`diagnostics_attributed`). -/

namespace GoalModel.Golog

/-- To every sink a rendering adds the same entries. -/
def Render.Adds {α : Type} (render : Render α) (entries : List Diagnostic) : Prop :=
  ∀ sink, (render.run sink).2.entries = sink.entries ++ entries

namespace Render.Adds

variable {α β : Type} {x : Render α} {f : α → Render β} {entries entries' : List Diagnostic}

theorem of_pure (a : α) : Adds (pure a : Render α) [] := fun _ => (List.append_nil _).symm

theorem bind (hx : x.Adds entries) (hf : ∀ a, (f a).Adds entries') :
    (x >>= f).Adds (entries ++ entries') := by
  intro sink
  have hrun : (x >>= f).run sink = (f (x.run sink).1).run (x.run sink).2 := rfl
  rw [hrun, hf, hx, List.append_assoc]

theorem map (hx : x.Adds entries) (g : α → β) : Adds (do return g (← x)) entries := by
  have h := hx.bind fun a => of_pure (g a)
  rwa [List.append_nil] at h

theorem mapM {added : α → List Diagnostic} (hf : ∀ a, (f a).Adds (added a)) (as : List α) :
    (as.mapM f).Adds (as.flatMap added) := by
  induction as with
  | nil => exact of_pure []
  | cons a rest ih =>
    rw [List.mapM_cons, List.flatMap_cons]
    exact (hf a).bind fun b => ih.map (b :: ·)

/-- Entries are added in the name of the element whose rendering has begun. -/
theorem of_yields {a : α} {ds : List Degradation} (hx : x.Yields a ds) (element : String) :
    Adds (do enter element; x) (ds.map fun d => ⟨element, d.message⟩) := by
  intro sink
  have hrun : (do enter element; x : Render α).run sink = x.run (sink.enter element) := rfl
  rw [hrun, hx, Diagnostics.entries_foldl_add]
  rfl

theorem eq_alone {element : String} (hx : (do enter element; x : Render α).Adds entries) :
    entries = (x.alone element).2 := (hx .empty).symm

end Render.Adds

/-- A rendering that reports nothing of its own returns what it should. -/
theorem Render.Ensures.of_alone {α : Type} {x : Render α} {P : α → Prop} (hx : x.Ensures P)
    {element : String} (hsilent : (x.alone element).2 = []) (sink : Diagnostics) :
    P (x.run sink).1 := by
  obtain ⟨a, ds, hyields, ha⟩ := hx
  have hnone := (Render.Adds.of_yields hyields element).eq_alone.trans hsilent
  rw [hyields.eq_fst]
  exact ha (List.map_eq_nil_iff.mp hnone)

variable {m : Model} {root : Handle}

/-! ## Elements -/

/-- The clauses of a quality report what its formula reports. -/
theorem alone_qualityClauses {q : Handle} {data : Quality} (hq : m.quality? q = some data)
    (element : String) : ((qualityClauses m q).alone element).2 =
      ((renderQuantity m data.formula).alone element).2 := by
  have hrun := run_qualityClauses hq (Diagnostics.empty.enter element)
  exact congrArg (fun result => result.2.entries) hrun

theorem alone_conditionClauses {c : Handle} {formula : Formula Handle}
    (hc : m.condition? c = some formula) (element : String) :
    ((conditionClauses m c).alone element).2 =
      ((renderCondition m formula).alone (m.nameOf c)).2 := by
  have hrun := run_conditionClauses hc (Diagnostics.empty.enter element)
  exact congrArg (fun result => result.2.entries) hrun

theorem adds_qualityClauses (m : Model) (q : Handle) :
    (do enter (m.nameOf q); qualityClauses m q : Render (List Clause)).Adds
      ((qualityClauses m q).alone (m.nameOf q)).2 := by
  cases hq : m.quality? q with
  | none =>
    have hclauses : qualityClauses m q = pure [] := by simp only [qualityClauses, hq]
    rw [hclauses]
    exact .of_yields (.of_pure []) (m.nameOf q)
  | some data =>
    obtain ⟨_, ds, hyields, _⟩ := renderQuantity_ensures m data.formula
    have hadds := Render.Adds.of_yields hyields (m.nameOf q)
    rw [alone_qualityClauses hq, ← hadds.eq_alone]
    intro sink
    have hrun := run_qualityClauses hq (sink.enter (m.nameOf q))
    exact (congrArg (fun result => result.2.entries) hrun).trans (hadds sink)

theorem adds_conditionClauses (m : Model) (c : Handle) :
    (conditionClauses m c).Adds ((conditionClauses m c).alone (m.nameOf c)).2 := by
  cases hc : m.condition? c with
  | none =>
    have hclauses (sink : Diagnostics) :
        ((conditionClauses m c).run sink).2 = sink.enter (m.nameOf c) := by
      simp only [conditionClauses, hc]
      rfl
    intro sink
    have halone : ((conditionClauses m c).alone (m.nameOf c)).2 = [] :=
      congrArg Diagnostics.entries (hclauses _)
    rw [halone, hclauses, List.append_nil]
    rfl
  | some formula =>
    obtain ⟨_, ds, hyields, _⟩ := renderCondition_ensures m formula
    have hadds := Render.Adds.of_yields hyields (m.nameOf c)
    rw [alone_conditionClauses hc, ← hadds.eq_alone]
    intro sink
    exact (congrArg (fun result => result.2.entries) (run_conditionClauses hc sink)).trans
      (hadds sink)

/-! ## Sections -/

/-- What the rendering of a section adds to the diagnostics. -/
def sectionReports (m : Model) : SectionKind → List Diagnostic
  | .rewards => m.qualities.flatMap fun q => ((qualityClauses m q).alone (m.nameOf q)).2
  | .conditions => m.conditions.flatMap fun c => ((conditionClauses m c).alone (m.nameOf c)).2
  | _ => []

theorem adds_sectionClauses (m : Model) (root : Handle) (kind : SectionKind) :
    (sectionClauses m root kind).Adds (sectionReports m kind) := by
  cases kind with
  | rewards =>
    exact (Render.Adds.mapM (adds_qualityClauses m) m.qualities).map
      fun clauses => clauses.flatten ++ [rewardClause m]
  | conditions => exact (Render.Adds.mapM (adds_conditionClauses m) m.conditions).map List.flatten
  | _ => exact .of_pure _

/-- The diagnostics are those of the qualities and then those of the conditions. -/
theorem diagnostics_translateFrom (m : Model) (root : Handle) :
    (translateFrom m root).diagnostics =
      (m.qualities.flatMap fun q => ((qualityClauses m q).alone (m.nameOf q)).2) ++
        m.conditions.flatMap fun c => ((conditionClauses m c).alone (m.nameOf c)).2 := by
  have hsection (kind : SectionKind) :
      (do return ⟨kind, ← sectionClauses m root kind⟩ : Render (Section Clause)).Adds
        (sectionReports m kind) :=
    (adds_sectionClauses m root kind).map (Section.mk kind)
  have hall : (translateFrom m root).diagnostics = SectionKind.all.flatMap (sectionReports m) :=
    Render.Adds.mapM hsection SectionKind.all .empty
  rw [hall]
  simp [SectionKind.all, sectionReports]

/-- A translation without diagnostics has none for any formula. -/
theorem alone_eq_nil_of_diagnostics_eq_nil (hv : m.Valid)
    (hsilent : (translateFrom m root).diagnostics = []) :
    (∀ q data, m.quality? q = some data →
      ((renderQuantity m data.formula).alone (m.nameOf q)).2 = []) ∧
    ∀ c formula, m.condition? c = some formula →
      ((renderCondition m formula).alone (m.nameOf c)).2 = [] := by
  rw [diagnostics_translateFrom, List.append_eq_nil_iff] at hsilent
  obtain ⟨hqualities, hconditions⟩ := hsilent
  constructor
  · intro q data hq
    have hmem := hv.mem_qualities_iff.mpr (Model.role?_of_quality? hq)
    rw [← alone_qualityClauses hq]
    exact List.flatMap_eq_nil_iff.mp hqualities q hmem
  · intro c formula hc
    have hmem := hv.mem_conditions_iff.mpr (Model.role?_of_condition? hc)
    rw [← alone_conditionClauses hc (m.nameOf c)]
    exact List.flatMap_eq_nil_iff.mp hconditions c hmem

/-! ## Attribution -/

/-- A rendering does not read its sink: it returns what it returns with a new one, and adds to the
entries that are there what a new sink in the same context would get, all in the name of the
element whose rendering has begun. -/
structure Render.OnlyAdds {α : Type} (render : Render α) : Prop where
  value : ∀ sink element, (render.run sink).1 = (render.alone element).1
  entries : ∀ sink, (render.run sink).2 =
    { sink with entries := sink.entries ++ (render.alone sink.context).2 }
  attributed : ∀ element, ∀ d ∈ (render.alone element).2, d.element = element

theorem Render.Yields.alone_eq {α : Type} {x : Render α} {a : α} {ds : List Degradation}
    (hx : x.Yields a ds) (element : String) :
    x.alone element = (a, ds.map fun d => ⟨element, d.message⟩) := by
  rw [Render.alone, hx, Diagnostics.foldl_add]
  rfl

theorem Render.Ensures.onlyAdds {α : Type} {x : Render α} {P : α → Prop} (hx : x.Ensures P) :
    x.OnlyAdds := by
  obtain ⟨a, ds, hyields, _⟩ := hx
  constructor
  · intro sink element
    rw [hyields.eq_fst, hyields.alone_eq]
  · intro sink
    rw [hyields sink, hyields.alone_eq, Diagnostics.foldl_add]
  · intro element d hd
    rw [hyields.alone_eq] at hd
    obtain ⟨_, _, rfl⟩ := List.mem_map.mp hd
    rfl

/-- What a quality reports when it is rendered alone, in its own name. -/
def qualityReports (m : Model) (q : Handle) : List Diagnostic :=
  match m.quality? q with
  | none => []
  | some data => ((renderQuantity m data.formula).alone (m.nameOf q)).2

/-- What a condition reports when it is rendered alone, in its own name. -/
def conditionReports (m : Model) (c : Handle) : List Diagnostic :=
  match m.condition? c with
  | none => []
  | some formula => ((renderCondition m formula).alone (m.nameOf c)).2

theorem alone_qualityClauses_eq (m : Model) (q : Handle) :
    ((qualityClauses m q).alone (m.nameOf q)).2 = qualityReports m q := by
  unfold qualityReports
  cases hq : m.quality? q with
  | none =>
    simp only [Render.alone, qualityClauses, hq]
    rfl
  | some data => exact alone_qualityClauses hq _

theorem alone_conditionClauses_eq (m : Model) (c : Handle) :
    ((conditionClauses m c).alone (m.nameOf c)).2 = conditionReports m c := by
  unfold conditionReports
  cases hc : m.condition? c with
  | none =>
    simp only [Render.alone, conditionClauses, hc]
    rfl
  | some formula => exact alone_conditionClauses hc _

theorem exists_root_of_assemble {t : Translation} (ht : assemble m = .ok t) :
    ∃ root, m.rootGoals = [root] ∧ t = translateFrom m root := by
  unfold assemble at ht
  split at ht
  · cases ht
  · next root hroot => exact ⟨root, hroot, (Except.ok.inj ht).symm⟩
  · cases ht

/-- The diagnostics of a translation are those that its qualities and then its conditions bring when
they are rendered alone, each in its own name. No section depends on what has been reported before,
and neither does any formula: it only adds to the sink, whatever the sink holds. -/
theorem diagnostics_attributed (m : Model) :
    (∀ t, assemble m = .ok t →
      t.diagnostics = m.qualities.flatMap (qualityReports m) ++
        m.conditions.flatMap (conditionReports m) ∧
      ∃ root, m.rootGoals = [root] ∧
        ∀ kind sink, t.clauses kind = ((sectionClauses m root kind).run sink).1) ∧
    ∀ f, (renderCondition m f).OnlyAdds ∧ (renderQuantity m f).OnlyAdds := by
  constructor
  · intro t ht
    obtain ⟨root, hroot, rfl⟩ := exists_root_of_assemble ht
    refine ⟨?_, root, hroot, fun kind sink => ?_⟩
    · rw [diagnostics_translateFrom]
      simp only [alone_qualityClauses_eq, alone_conditionClauses_eq]
    · rw [clauses_eq_ownedClauses, run_sectionClauses]
  · exact fun f => ⟨(renderCondition_ensures m f).onlyAdds, (renderQuantity_ensures m f).onlyAdds⟩

/-- A quality that is no number, and a condition that is one. -/
def smudge : Document where
  name := "Smudge"
  actors := [{
    name := "Robot"
    predicates := []
    stateVariables := []
    goals := [⟨"rest", [], []⟩]
    tasks := []
    qualities := [⟨"cost", false, .unary .not (.atom "rest")⟩]
    conditions := [⟨"paid", .number .one⟩] }]
  crossRun := []
  exported := []
  initializations := []

theorem smudge_attributed : ∃ t, assemble smudge.linked = .ok t ∧ t.diagnostics =
    [⟨"cost", "boolean operator 'not' in a quantity expression"⟩,
      ⟨"paid", "number 1 used as a condition"⟩] := by
  have hroot : smudge.linked.rootGoals = [⟨0⟩] := by decide
  have ht := assemble_eq_ok hroot
  obtain ⟨hdiagnostics, _⟩ := (diagnostics_attributed smudge.linked).1 _ ht
  exact ⟨_, ht, hdiagnostics.trans (by decide +kernel)⟩

end GoalModel.Golog
