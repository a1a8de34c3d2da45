import GoalModel.Loading
import GoalModel.Proofs.Linking.Sound
import GoalModel.Proofs.Model.Valid

/-! # Loaded models are valid

Every model that `parseModel` returns was linked from a document and keeps the invariants
(`exists_link_of_parseModel`), so that it is valid (`valid_of_parseModel`). -/

namespace GoalModel

theorem Document.map_name_elements {document : Document} :
    document.linked.elements.map (·.name) = document.declaredNames := by
  rw [← map_name_declarations]
  refine List.ext_getElem? fun i => ?_
  simp [linked, elements, Declaration.element, Function.comp_def]

/-- Linking leaves names that tell elements apart. -/
theorem Document.named_of_link {document : Document} {m : Model} (h : document.link = .ok m) :
    m.Named := by
  obtain ⟨hwf, rfl⟩ := link_eq_ok_iff.mp h
  exact {
    declarable := fun element helement =>
      hwf.declarable _ (map_name_elements ▸ List.mem_map_of_mem helement)
    distinct := map_name_elements ▸ hwf.distinct }

theorem Document.valid_of_link {document : Document} {m : Model} (h : document.link = .ok m)
    (hinvariants : m.invariantViolations = []) : m.Valid := by
  obtain ⟨hdeclarable, hdistinct⟩ := named_of_link h
  obtain ⟨hwf, rfl⟩ := link_eq_ok_iff.mp h
  exact {
    toSound := linked_sound hwf
    declarable := hdeclarable
    distinct := hdistinct
    invariants := hinvariants }

theorem exists_of_bind_eq_ok {ε α β : Type} {x : Except ε α} {f : α → Except ε β} {b : β}
    (h : (x >>= f) = .ok b) : ∃ a, x = .ok a ∧ f a = .ok b := by
  cases x with
  | error => cases h
  | ok a => exact ⟨a, rfl, h⟩

theorem exists_of_map_eq_ok {ε α β : Type} {x : Except ε α} {f : α → β} {b : β}
    (h : x.map f = .ok b) : ∃ a, x = .ok a ∧ f a = b := by
  cases x with
  | error => cases h
  | ok a => exact ⟨a, rfl, Except.ok.inj h⟩

theorem Document.validModel_eq_ok {document : Document} {m : Model} :
    document.validModel = .ok m ↔ document.link = .ok m ∧ m.invariantViolations = [] := by
  unfold validModel
  constructor
  · intro h
    split at h
    · cases h
    · next hlink =>
      split at h
      · next hinvariants =>
        cases h
        exact ⟨hlink, hinvariants⟩
      · cases h
  · rintro ⟨hlink, hinvariants⟩
    simp only [hlink, hinvariants]

/-- The checks that a model has passed. -/
theorem exists_of_parseModel {text : String} {withSchema : Bool} {m : Model}
    (h : parseModel text withSchema = .ok m) :
    ∃ v document, Json.read? text = some v ∧ (withSchema = true → checkSchema v = .ok ()) ∧
      readDocument v = .ok document ∧ document.link = .ok m ∧ m.invariantViolations = [] := by
  unfold parseModel at h
  split at h
  · cases h
  · next v hread =>
    have hchecked : (withSchema = true → checkSchema v = .ok ()) ∧
        (readDocument v >>= Document.validModel) = .ok m := by
      cases withSchema with
      | false => exact ⟨fun h => absurd h Bool.false_ne_true, h⟩
      | true =>
        obtain ⟨_, hschema, hvalid⟩ := exists_of_bind_eq_ok h
        exact ⟨fun _ => hschema, hvalid⟩
    obtain ⟨hschema, hvalid⟩ := hchecked
    obtain ⟨document, hdocument, hvalid⟩ := exists_of_bind_eq_ok hvalid
    exact ⟨v, document, hread, hschema, hdocument, Document.validModel_eq_ok.mp hvalid⟩

theorem exists_link_of_parseModel {text : String} {withSchema : Bool} {m : Model}
    (h : parseModel text withSchema = .ok m) :
    ∃ document : Document, document.link = .ok m ∧ m.invariantViolations = [] := by
  obtain ⟨_, document, _, _, _, hlinked⟩ := exists_of_parseModel h
  exact ⟨document, hlinked⟩

theorem valid_of_parseModel {text : String} {withSchema : Bool} {m : Model}
    (h : parseModel text withSchema = .ok m) : m.Valid := by
  obtain ⟨_, hlink, hinvariants⟩ := exists_link_of_parseModel h
  exact Document.valid_of_link hlink hinvariants

/-! ## A text -/

theorem Json.read?_ofList {cs : List Char} : Json.read? (String.ofList cs) =
    (readValue (2 * cs.length + 1) maxDepth cs).bind fun (value, rest) =>
      if (skipBlanks rest).isEmpty then some value else none := by
  rw [read?, readWithin?, String.toList_ofList]
  dsimp only
  cases readValue (2 * cs.length + 1) maxDepth cs <;> rfl

/-- The text of `Document.door`. -/
def doorText : String := r#"{
  "name": "Door",
  "actors": [{
    "name": "Robot",
    "predicates": ["Opened", "Inside"],
    "variables": ["Force"],
    "goals": [
      {"name": "Enter", "and": ["Open", "Walk"]},
      {"name": "Open", "or": ["Push", "Pull"]}],
    "tasks": [
      {"name": "Push", "effects": [
        {"name": "Pushed", "probability": 1, "satisfying": true, "turnsTrue": ["Opened"]},
        {"name": "Stuck", "probability": 1}]},
      {"name": "Pull", "effects": [
        {"name": "Pulled", "probability": 1, "satisfying": true, "turnsTrue": ["Opened"]}]},
      {"name": "Walk", "effects": [
        {"name": "Walked", "probability": 1, "satisfying": true, "turnsTrue": ["Inside"]}]}],
    "qualities": [
      {"name": "Ease", "root": true, "formula": {"minus": [{"number": 1}, {"atom": "Force"}]}}],
    "conditions": [{"name": "Done", "formula": {"atom": "Enter"}}]}],
  "crossRun": ["Opened"],
  "exported": [{"name": "Force", "domain": "continuous", "min": 0, "max": 1}],
  "initializations": [{"name": "Opened", "value": false}]}"#

theorem eq_ok_of_toOption {ε α : Type} {x : Except ε α} {a : α} (h : x.toOption = some a) :
    x = .ok a := by
  cases x with
  | error => cases h
  | ok => exact congrArg _ (Option.some.inj h)

set_option maxRecDepth 10000 in
theorem parseModel_doorText : parseModel doorText true = .ok Document.door.linked := by
  have htext : doorText = String.ofList _ := rfl
  refine eq_ok_of_toOption ?_
  rw [htext, parseModel, Json.read?_ofList]
  decide +kernel

end GoalModel
