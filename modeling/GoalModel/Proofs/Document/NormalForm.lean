import GoalModel.Proofs.Document.Canonical
import GoalModel.Proofs.Schema.Written

/-! # Normal forms

In memory, the value that a document is written as is read as this document again, and so it is
for formulas, as long as all numbers are finite (`Document.numbers`, `Formula.numbers`). Of a value
that a text can hold nothing but finite numbers is read, so that writing what was read gives a
normal form (`canonical_toJson_normalForm`): it is read as the same again, whatever form it was read
from. -/

namespace GoalModel

/-! ## Numbers -/

/-- The numbers in a formula, from left to right. -/
def Formula.numbers {α : Type} : Formula α → List Number
  | .atom _ => []
  | .number value => [value]
  | .bool _ => []
  | .binary _ left right => left.numbers ++ right.numbers
  | .unary _ operand => operand.numbers

def InitialValue.numbers : InitialValue → List Number
  | .number value => [value]
  | _ => []

def ActorEntry.numbers (actor : ActorEntry) : List Number :=
  actor.tasks.flatMap (fun task => task.effects.map (·.probability)) ++
  actor.qualities.flatMap (·.formula.numbers) ++
  actor.conditions.flatMap (·.formula.numbers)

def ExportEntry.numbers (entry : ExportEntry) : List Number := entry.min.toList ++ entry.max.toList

/-- Every number in a document. -/
def Document.numbers (document : Document) : List Number :=
  document.actors.flatMap ActorEntry.numbers ++
  document.exported.flatMap ExportEntry.numbers ++
  document.initializations.flatMap (·.value.numbers)

/-! ## Written numbers -/

theorem Formula.wellFormed_toJson_iff {f : Formula String} :
    f.toJson.WellFormed ↔ ∀ x ∈ f.numbers, x.isFinite = true := by
  induction f with
  | binary op left right ihl ihr => simp [toJson, numbers, ihl, ihr, or_imp, forall_and]
  | unary op operand ih => simp [toJson, numbers, ih]
  | _ => simp [toJson, numbers]

theorem InitialValue.wellFormed_toJson_iff {value : InitialValue} :
    value.toJson.WellFormed ↔ ∀ x ∈ value.numbers, x.isFinite = true := by
  cases value <;> simp [toJson, numbers]

theorem ActorEntry.wellFormed_toJson_iff {actor : ActorEntry} :
    actor.toJson.WellFormed ↔ ∀ x ∈ actor.numbers, x.isFinite = true := by
  simp only [numbers, List.forall_mem_append, List.forall_mem_flatMap, List.forall_mem_map,
    ← Formula.wellFormed_toJson_iff, and_assoc]
  simp [toJson, TaskEntry.toJson, EffectEntry.toJson, QualityEntry.toJson, ConditionEntry.toJson,
    GoalEntry.wellFormed_toJson, Json.wellFormed_ofNames]

theorem ExportEntry.wellFormed_toJson_iff {entry : ExportEntry} :
    entry.toJson.WellFormed ↔ ∀ x ∈ entry.numbers, x.isFinite = true := by
  obtain ⟨name, domain, min, max⟩ := entry
  cases min <;> cases max <;> simp [toJson, numbers, boundMember, Domain.toJson]

theorem Document.wellFormed_toJson_iff {document : Document} :
    document.toJson.WellFormed ↔ ∀ x ∈ document.numbers, x.isFinite = true := by
  simp only [numbers, List.forall_mem_append, List.forall_mem_flatMap, and_assoc,
    ← ActorEntry.wellFormed_toJson_iff, ← ExportEntry.wellFormed_toJson_iff,
    ← InitialValue.wellFormed_toJson_iff]
  simp [toJson, InitialEntry.toJson, Json.wellFormed_ofNames]

/-! ## Values read again -/

theorem Document.ofJson_canonical_toJson {document : Document}
    (h : document.toJson.WellFormed) : Document.ofJson document.toJson.canonical = .ok document :=
  (readsMemory_document _ h).trans document.ofJson_toJson

theorem Formula.ofJson_canonical_toJson {f : Formula String} (h : f.toJson.WellFormed) :
    Formula.ofJson f.toJson.canonical = .ok f :=
  (readsMemory_formula _ h).trans f.ofJson_toJson

/-- A document or a formula whose numbers are finite is written as a value that is read as the
same again. What was read from a value has only finite numbers, so that its written form is a
normal form of that value. -/
theorem canonical_toJson_normalForm :
    (∀ d : Document, (∀ x ∈ d.numbers, x.isFinite = true) →
      d.toJson.canonical.WellFormed ∧ Document.ofJson d.toJson.canonical = .ok d) ∧
    (∀ f : Formula String, (∀ x ∈ f.numbers, x.isFinite = true) →
      f.toJson.canonical.WellFormed ∧ Formula.ofJson f.toJson.canonical = .ok f) ∧
    (∀ (v : Json) (d : Document), v.WellFormed → Document.ofJson v = .ok d →
      (∀ x ∈ d.numbers, x.isFinite = true) ∧ Document.ofJson d.toJson.canonical = .ok d) ∧
    (∀ (v : Json) (f : Formula String), v.WellFormed → Formula.ofJson v = .ok f →
      (∀ x ∈ f.numbers, x.isFinite = true) ∧ Formula.ofJson f.toJson.canonical = .ok f) := by
  refine ⟨fun d hfinite => ?_, fun f hfinite => ?_, fun v d hv hread => ?_, fun v f hv hread => ?_⟩
  · have hwf := Document.wellFormed_toJson_iff.mpr hfinite
    exact ⟨hwf.canonical, Document.ofJson_canonical_toJson hwf⟩
  · have hwf := Formula.wellFormed_toJson_iff.mpr hfinite
    exact ⟨hwf.canonical, Formula.ofJson_canonical_toJson hwf⟩
  · have hwf := readsOnly_document v d hv hread
    exact ⟨Document.wellFormed_toJson_iff.mp hwf, Document.ofJson_canonical_toJson hwf⟩
  · have hwf := readsOnly_formula v f hv hread
    exact ⟨Formula.wellFormed_toJson_iff.mp hwf, Formula.ofJson_canonical_toJson hwf⟩

/-- What was written as a list with an integer is read from an object with a number. -/
theorem terse_normalForm : Json.terse.WellFormed ∧ Document.ofJson Json.terse = .ok Document.terse ∧
    Document.terse.toJson.canonical ≠ Json.terse ∧
    Document.ofJson Document.terse.toJson.canonical = .ok Document.terse := by
  have hv : Json.terse.WellFormed := by
    simp [Json.terse, Json.fitsInteger]
  have hread : Document.ofJson Json.terse = .ok Document.terse :=
    eq_ok_of_toOption (by decide +kernel)
  obtain ⟨_, _, hdocument, _⟩ := canonical_toJson_normalForm
  have hversion : (Document.terse.toJson.canonical.member? "version").isSome ≠
      (Json.terse.member? "version").isSome := by decide +kernel
  exact ⟨hv, hread, fun h => hversion (h ▸ rfl), (hdocument _ _ hv hread).2⟩

example : Formula.ofJson (Formula.number .nan).toJson.canonical =
    .error (.invalidType .null .number) := by
  rfl

end GoalModel
