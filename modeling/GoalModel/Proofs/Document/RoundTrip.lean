import GoalModel.Proofs.Document.Reading

/-! # Documents read back

The JSON value that a document is written as is read as this document
(`Document.ofJson_toJson`). Member by member the reader finds what the writer wrote, and the
members that are left out are those whose default is meant. -/

namespace GoalModel

/-! ## Lists and plain values -/

theorem Json.asList_map {α : Type} {read : Json → Except ReadError α} {write : α → Json}
    {xs : List α} (h : ∀ x, read (write x) = .ok x) :
    Json.asList read (.array (xs.map write)) = .ok xs := by
  change (xs.map write).mapM read = .ok xs
  induction xs with
  | nil => rfl
  | cons x rest ih =>
    rw [List.map_cons, List.mapM_cons, h, ih]
    rfl

theorem Json.asList_ofNames (names : List String) :
    Json.asList Json.asString (.ofNames names) = .ok names :=
  asList_map fun _ => rfl

theorem Formula.ofJson_toJson (f : Formula String) : Formula.ofJson f.toJson = .ok f :=
  f.form_toJson.ofJson

theorem InitialValue.ofJson_toJson (value : InitialValue) :
    InitialValue.ofJson value.toJson = .ok value := by
  cases value <;> rfl

theorem Domain.ofJson_toJson (domain : Domain) : Domain.ofJson domain.toJson = .ok domain := by
  cases domain <;> rfl

/-! ## Records -/

theorem GoalEntry.ofJson_toJson (goal : GoalEntry) : GoalEntry.ofJson goal.toJson = .ok goal := by
  obtain ⟨name, and, or⟩ := goal
  unfold GoalEntry.ofJson toJson
  dsimp only [Fields.ofJson, bind, Except.bind]
  cases and <;> cases or <;>
    simp only [Fields.field, List.isEmpty_nil, List.isEmpty_cons, if_true, Bool.false_eq_true,
      if_false, List.append_nil, List.cons_append, List.nil_append, List.lookup_cons,
      String.reduceBEq, Json.asList_ofNames]
  all_goals rfl

theorem EffectEntry.ofJson_toJson (effect : EffectEntry) :
    EffectEntry.ofJson effect.toJson = .ok effect := by
  unfold EffectEntry.ofJson toJson
  dsimp only [Fields.ofJson, bind, Except.bind]
  simp only [Fields.field, List.lookup_cons, String.reduceBEq, Json.asList_ofNames]
  rfl

theorem TaskEntry.ofJson_toJson (task : TaskEntry) : TaskEntry.ofJson task.toJson = .ok task := by
  unfold TaskEntry.ofJson toJson
  dsimp only [Fields.ofJson, bind, Except.bind]
  simp only [Fields.field, List.lookup_cons, String.reduceBEq,
    Json.asList_map EffectEntry.ofJson_toJson]
  rfl

theorem QualityEntry.ofJson_toJson (quality : QualityEntry) :
    QualityEntry.ofJson quality.toJson = .ok quality := by
  unfold QualityEntry.ofJson toJson
  dsimp only [Fields.ofJson, bind, Except.bind]
  simp only [Fields.field, List.lookup_cons, String.reduceBEq, Formula.ofJson_toJson]
  rfl

theorem ConditionEntry.ofJson_toJson (condition : ConditionEntry) :
    ConditionEntry.ofJson condition.toJson = .ok condition := by
  unfold ConditionEntry.ofJson toJson
  dsimp only [Fields.ofJson, bind, Except.bind]
  simp only [Fields.field, List.lookup_cons, String.reduceBEq, Formula.ofJson_toJson]
  rfl

theorem ActorEntry.ofJson_toJson (actor : ActorEntry) :
    ActorEntry.ofJson actor.toJson = .ok actor := by
  unfold ActorEntry.ofJson toJson
  dsimp only [Fields.ofJson, bind, Except.bind]
  simp only [Fields.field, List.lookup_cons, String.reduceBEq, Json.asList_ofNames,
    Json.asList_map GoalEntry.ofJson_toJson, Json.asList_map TaskEntry.ofJson_toJson,
    Json.asList_map QualityEntry.ofJson_toJson, Json.asList_map ConditionEntry.ofJson_toJson]
  rfl

theorem ExportEntry.ofJson_toJson (entry : ExportEntry) :
    ExportEntry.ofJson entry.toJson = .ok entry := by
  obtain ⟨name, domain, min, max⟩ := entry
  unfold ExportEntry.ofJson toJson
  dsimp only [Fields.ofJson, bind, Except.bind]
  cases min <;> cases max <;>
    simp only [Fields.field, boundMember, List.append_nil, List.cons_append, List.nil_append,
      List.lookup_cons, String.reduceBEq, Domain.ofJson_toJson]
  all_goals rfl

theorem InitialEntry.ofJson_toJson (entry : InitialEntry) :
    InitialEntry.ofJson entry.toJson = .ok entry := by
  unfold InitialEntry.ofJson toJson
  dsimp only [Fields.ofJson, bind, Except.bind]
  simp only [Fields.field, List.lookup_cons, String.reduceBEq, InitialValue.ofJson_toJson]
  rfl

/-- A document that is written and read is the same document. -/
theorem Document.ofJson_toJson (document : Document) :
    Document.ofJson document.toJson = .ok document := by
  unfold Document.ofJson toJson
  dsimp only [Fields.ofJson, bind, Except.bind]
  simp only [Fields.field, List.lookup_cons, String.reduceBEq, Json.asList_ofNames,
    Json.asList_map ActorEntry.ofJson_toJson, Json.asList_map ExportEntry.ofJson_toJson,
    Json.asList_map InitialEntry.ofJson_toJson]
  rfl

end GoalModel
