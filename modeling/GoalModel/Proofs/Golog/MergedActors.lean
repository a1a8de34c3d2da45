import GoalModel.Proofs.Golog.Renumbering
import GoalModel.Proofs.Golog.Sections
import GoalModel.Proofs.Linking.Counterpart
import GoalModel.Proofs.Loading

/-! # Actor boundaries

A document with all its actors merged into one (`Document.merged`) is as well-formed as before
(`Document.WellFormed.merged`), but linking gives nearly every element another number. The models
are renumberings of each other, because the lists of all actors together read the same
(`Document.readsSame_linked`), and so the document and the merged one have the same program with
the same diagnostics (`Document.assemble_merged`). -/

namespace GoalModel

/-- Behind a list like those of some actors together, a further one goes actor by actor. -/
theorem perm_flatMap_append {α β : Type} {as : List α} {bs : List β} {f g : α → List β}
    (h : bs.Perm (as.flatMap f)) : (bs ++ as.flatMap g).Perm (as.flatMap fun a => f a ++ g a) :=
  (h.append_right _).trans (List.flatMap_append_perm as f g)

namespace Document

/-- One actor in the place of all: each of its lists is those of the actors, one after the
other. -/
def pooled (document : Document) (name : String) : ActorEntry where
  name := name
  predicates := document.actors.flatMap (·.predicates)
  stateVariables := document.actors.flatMap (·.stateVariables)
  goals := document.actors.flatMap (·.goals)
  tasks := document.actors.flatMap (·.tasks)
  qualities := document.actors.flatMap (·.qualities)
  conditions := document.actors.flatMap (·.conditions)

/-- The document with all actors merged into one of the given name. -/
def merged (document : Document) (name : String) : Document :=
  { document with actors := [document.pooled name] }

variable {document : Document} {name : String}

/-! ## Merged documents are well-formed -/

theorem effects_pooled : (document.pooled name).effects = document.effects :=
  List.flatMap_assoc

theorem declared_pooled : (document.pooled name).declared.Perm document.declared := by
  simp only [ActorEntry.declared, pooled, List.map_flatMap, List.flatMap_assoc, declared]
  exact perm_flatMap_append (perm_flatMap_append (perm_flatMap_append (perm_flatMap_append
    (perm_flatMap_append .rfl))))

theorem formulas_pooled : (document.pooled name).formulas.Perm document.formulas := by
  simp only [ActorEntry.formulas, pooled, List.map_flatMap, formulas]
  exact perm_flatMap_append .rfl

theorem WellFormed.merged (hwf : document.WellFormed) (name : String) :
    (document.merged name).WellFormed := by
  have hdeclared : (document.merged name).declared.Perm document.declared := by
    simpa [Document.merged, Document.declared] using declared_pooled
  have hnames : (document.merged name).declaredNames.Perm document.declaredNames := hdeclared.map _
  have hgoals : (document.merged name).goals = document.goals := by
    simp [Document.merged, goals, pooled]
  have heffects : (document.merged name).effects = document.effects := by
    simpa [Document.merged, Document.effects] using effects_pooled
  have hqualities : (document.merged name).qualities = document.qualities := by
    simp [Document.merged, qualities, pooled]
  have hformulas : (document.merged name).formulas.Perm document.formulas := by
    simpa [Document.merged, Document.formulas] using formulas_pooled
  have hstateful {other : String} (h : document.Stateful other) :
      (document.merged name).Stateful other := by
    obtain ⟨role, hrole, hne⟩ := h
    exact ⟨role, hdeclared.mem_iff.mpr hrole, hne⟩
  exact {
    declarable := fun other h => hwf.declarable other (hnames.mem_iff.mp h)
    distinct := hnames.nodup_iff.mpr hwf.distinct
    probabilities := heffects ▸ hwf.probabilities
    oneWay := hgoals ▸ hwf.oneWay
    children := fun other h => by
      rw [childNames, hgoals] at h
      rw [hdeclared.mem_iff, hdeclared.mem_iff]
      exact hwf.children other h
    oneParent := by
      rw [childNames, hgoals]
      exact hwf.oneParent
    turnsTrue := fun effect h => by
      obtain ⟨hnodup, hpredicates⟩ := hwf.turnsTrue effect (heffects ▸ h)
      exact ⟨hnodup, fun other h => hdeclared.mem_iff.mpr (hpredicates other h)⟩
    atoms := fun formula h other hatom =>
      hnames.mem_iff.mpr (hwf.atoms formula (hformulas.mem_iff.mp h) other hatom)
    oneRoot := hqualities ▸ hwf.oneRoot
    crossRun := ⟨hwf.crossRun.1, fun other h => hstateful (hwf.crossRun.2 other h)⟩
    exported := fun entry h => ⟨hstateful (hwf.exported entry h).1, (hwf.exported entry h).2⟩
    initializations := fun entry h => hstateful (hwf.initializations entry h) }

/-! ## Merged documents read the same -/

theorem pooled_merged (name' : String) :
    (document.merged name).pooled name' = document.pooled name' := by
  simp [merged, pooled]

/-- The lists of all actors together, as a model reads. -/
theorem pooled_toDocument (m : Model) : m.toDocument.pooled name =
    ⟨name, m.predicates.map m.nameOf, (m.actors.flatMap (·.stateVariables)).map m.nameOf,
      m.goals.filterMap m.goalEntry?, m.tasks.filterMap m.taskEntry?,
      m.qualities.filterMap m.qualityEntry?, m.conditions.filterMap m.conditionEntry?⟩ := by
  simp only [pooled, Model.toDocument, Model.actorEntry, List.flatMap_map, Model.predicates,
    Model.goals, Model.tasks, Model.qualities, Model.conditions, List.map_flatMap,
    List.filterMap_flatMap]

theorem readsSame_linked {document' : Document} {m m' : Model} (hlink : document.link = .ok m)
    (hlink' : document'.link = .ok m') (hpooled : document'.pooled name = document.pooled name)
    (hcrossRun : document'.crossRun = document.crossRun)
    (hexported : document'.exported = document.exported)
    (hinitializations : document'.initializations = document.initializations) :
    m.ReadsSame m' := by
  obtain ⟨hwf, hm⟩ := link_eq_ok_iff.mp hlink
  obtain ⟨hwf', hm'⟩ := link_eq_ok_iff.mp hlink'
  have hread : m.toDocument = document := hm ▸ toDocument_linked hwf
  have hread' : m'.toDocument = document' := hm' ▸ toDocument_linked hwf'
  rw [← hread, ← hread', pooled_toDocument, pooled_toDocument, ActorEntry.mk.injEq] at hpooled
  obtain ⟨-, hpredicates, hstateVariables, hgoals, htasks, hqualities, hconditions⟩ := hpooled
  rw [← hread, ← hread'] at hcrossRun hexported hinitializations
  exact {
    sound := hm ▸ linked_sound hwf
    sound' := hm' ▸ linked_sound hwf'
    named := named_of_link hlink
    named' := named_of_link hlink'
    predicates := hpredicates
    stateVariables := hstateVariables
    goals := hgoals
    tasks := htasks
    qualities := hqualities
    conditions := hconditions
    crossRun := hcrossRun
    exported := hexported
    initializations := hinitializations }

/-- A document and the one with all its actors merged describe models that keep the invariants and
have the same translation, its program and its diagnostics. -/
theorem assemble_merged {m : Model} (hlink : document.link = .ok m)
    (hinvariants : m.invariantViolations = []) (name : String) :
    ∃ m' t, (document.merged name).link = .ok m' ∧ m'.invariantViolations = [] ∧
      Golog.assemble m = .ok t ∧ Golog.assemble m' = .ok t := by
  obtain ⟨hwf, _⟩ := link_eq_ok_iff.mp hlink
  have hlink' : (document.merged name).link = .ok (document.merged name).linked :=
    link_eq_ok_iff.mpr ⟨hwf.merged name, rfl⟩
  have hreads := readsSame_linked hlink hlink' (pooled_merged name) rfl rfl rfl
  obtain ⟨root, hroot⟩ := (valid_of_link hlink hinvariants).exists_rootGoals
  have ht := Golog.assemble_eq_ok hroot
  refine ⟨_, _, hlink', ?_, ht, ?_⟩
  · rw [hreads.renumbers.invariantViolations, hinvariants]
  · rw [hreads.renumbers.assemble, ht]

/-- A doorman opens, by pushing or by pulling, so that a guest can walk in. -/
def welcome : Document where
  name := "Welcome"
  actors := [
    { name := "Guest"
      predicates := ["Inside"]
      stateVariables := []
      goals := [⟨"Visit", ["Open", "Walk"], []⟩]
      tasks := [⟨"Walk", [⟨"Walked", .one, true, ["Inside"]⟩]⟩]
      qualities := [⟨"Ease", true, .binary .minus (.number .one) (.atom "Force")⟩]
      conditions := [] },
    { name := "Doorman"
      predicates := ["Opened"]
      stateVariables := ["Force"]
      goals := [⟨"Open", [], ["Push", "Pull"]⟩]
      tasks := [
        ⟨"Push", [⟨"Pushed", .one, true, ["Opened"]⟩, ⟨"Stuck", .one, false, []⟩]⟩,
        ⟨"Pull", [⟨"Pulled", .one, true, ["Opened"]⟩]⟩]
      qualities := []
      conditions := [⟨"Done", .atom "Visit"⟩] }]
  crossRun := ["Opened"]
  exported := [⟨"Force", .continuous, some .zero, some .one⟩]
  initializations := [⟨"Opened", .bool false⟩]

theorem welcome_merged : welcome.link = .ok welcome.linked ∧
    welcome.linked.invariantViolations = [] ∧
    (welcome.merged "House").linked.elements ≠ welcome.linked.elements ∧
    ∃ m' t, (welcome.merged "House").link = .ok m' ∧ m'.invariantViolations = [] ∧
      Golog.assemble welcome.linked = .ok t ∧ Golog.assemble m' = .ok t := by
  have hlink : welcome.link = .ok welcome.linked := rfl
  have hinvariants : welcome.linked.invariantViolations = [] := by decide
  exact ⟨hlink, hinvariants, by decide, assemble_merged hlink hinvariants "House"⟩

end Document

end GoalModel
