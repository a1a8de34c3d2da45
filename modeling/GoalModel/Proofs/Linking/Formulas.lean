import GoalModel.Proofs.Linking.ReadBack

/-! # Linking formulas one after the other

Formulas are linked against a model one by one, and the errors of all of them are kept. A formula
keeps its shape (`Formula.Links`): an atom becomes a handle of its name, or false if there is none,
and nothing else changes. So what was linked reads back as it was written, unless there were
errors (`Resolution.linkFormulas_faithful`). -/

namespace GoalModel

/-- The names of the elements. -/
def Model.names (m : Model) : List String := m.elements.map (·.name)

namespace Formula

/-- A formula over handles that has the shape of a formula over names, with every name replaced by
a handle of an element that has it, or by false if no element has. -/
inductive Links (m : Model) : Formula String → Formula Handle → Prop
  | known {h : Handle} {element : Element} : m.element? h = some element →
    Links m (.atom element.name) (.atom h)
  | unknown {name : String} : name ∉ m.names → Links m (.atom name) (.bool false)
  | number (x : Number) : Links m (.number x) (.number x)
  | bool (value : Bool) : Links m (.bool value) (.bool value)
  | binary (op : BinaryOperator) {left right : Formula String} {left' right' : Formula Handle} :
    Links m left left' → Links m right right' →
    Links m (.binary op left right) (.binary op left' right')
  | unary (op : UnaryOperator) {operand : Formula String} {operand' : Formula Handle} :
    Links m operand operand' → Links m (.unary op operand) (.unary op operand')

/-- The names in a formula that no element has, from left to right and with repetitions. -/
def unknownNames (m : Model) (formula : Formula String) : List String :=
  formula.atoms.filter (· ∉ m.names)

end Formula

variable {m : Model} {formula : Formula String} {linked : Formula Handle} {name : String}
  {h : Handle}

/-! ## One formula -/

namespace Scope

theorem names_ofModel : (ofModel m).declared.map Prod.fst = m.names := by
  rw [ofModel, List.map_map]
  rfl

theorem resolve?_ofModel_isNone : ((ofModel m).resolve? name).isNone ↔ name ∉ m.names := by
  rw [← names_ofModel, ← resolve?_isSome, Option.isNone_iff_eq_none, Option.not_isSome_iff_eq_none]

theorem exists_element_of_resolve? (hr : (ofModel m).resolve? name = some h) :
    ∃ element, m.element? h = some element ∧ element.name = name := by
  obtain ⟨role, hget⟩ := declared_of_resolve? hr
  rw [ofModel, List.getElem?_map] at hget
  obtain ⟨element, helement, hpair⟩ := Option.map_eq_some_iff.mp hget
  exact ⟨element, helement, congrArg Prod.fst hpair⟩

theorem links_linkFormula (m : Model) (formula : Formula String) :
    formula.Links m ((ofModel m).linkFormula formula) := by
  induction formula with
  | atom name =>
    cases hr : (ofModel m).resolve? name with
    | none =>
      have hunknown := resolve?_ofModel_isNone.mp (Option.isNone_iff_eq_none.mpr hr)
      simpa only [linkFormula, Formula.bind, hr] using .unknown hunknown
    | some h =>
      obtain ⟨element, helement, rfl⟩ := exists_element_of_resolve? hr
      simpa only [linkFormula, Formula.bind, hr] using .known helement
  | number x => exact .number x
  | bool value => exact .bool value
  | binary op left right ihl ihr => exact .binary op ihl ihr
  | unary op operand ih => exact .unary op ih

theorem formulaErrors_ofModel (m : Model) (referrer : Referrer) (formula : Formula String) :
    (ofModel m).formulaErrors referrer formula =
      (formula.unknownNames m).map (.unresolved referrer) := by
  refine congrArg _ (List.filter_congr fun name _ => ?_)
  rw [Bool.eq_iff_iff, decide_eq_true_iff, resolve?_ofModel_isNone]

end Scope

namespace Formula.Links

/-- A formula reads back as it was written exactly if all of its names were known. -/
theorem nameAtoms_eq_iff (hlinks : formula.Links m linked) :
    m.nameAtoms linked = formula ↔ formula.unknownNames m = [] := by
  induction hlinks with
  | @known h element helement =>
    have hname : m.nameOf h = element.name := by rw [Model.nameOf, helement]; rfl
    have hknown : element.name ∈ m.names := List.mem_map_of_mem (List.mem_of_getElem? helement)
    simp [Model.nameAtoms, bind, unknownNames, atoms, hname, hknown]
  | @unknown name hunknown =>
    simp [Model.nameAtoms, bind, unknownNames, atoms, hunknown]
  | number | bool => exact iff_of_true rfl rfl
  | binary op _ _ ihl ihr =>
    rw [unknownNames, atoms, List.filter_append, List.append_eq_nil_iff]
    refine Iff.trans ?_ (and_congr ihl ihr)
    simp [Model.nameAtoms, bind]
  | unary op _ ih =>
    refine Iff.trans ?_ ih
    simp [Model.nameAtoms, bind]

theorem map_nameAtoms_eq_iff {formulas : List (Formula String)} {others : List (Formula Handle)}
    (hlinks : List.Forall₂ (Links m) formulas others) :
    others.map m.nameAtoms = formulas ↔ ∀ formula ∈ formulas, formula.unknownNames m = [] := by
  induction hlinks with
  | nil => exact iff_of_true rfl (List.forall_mem_nil _)
  | cons hhead _ ih =>
    rw [List.map_cons, List.cons_eq_cons, List.forall_mem_cons, hhead.nameAtoms_eq_iff, ih]

end Formula.Links

/-! ## Formulas one after the other -/

namespace Resolution

/-- Links one formula after the other. -/
def linkFormulas (r : Resolution) :
    List (Formula String × Referrer) → List (Formula Handle) × Resolution
  | [] => ([], r)
  | (formula, referrer) :: rest =>
    let (linked, r) := r.linkFormula formula referrer
    let (others, r) := r.linkFormulas rest
    (linked :: others, r)

/-- Errors never change what is linked later, since the scope stays. -/
theorem links_linkFormulas {r : Resolution} (hscope : r.scope = .ofModel m)
    (calls : List (Formula String × Referrer)) :
    List.Forall₂ (Formula.Links m) (calls.map Prod.fst) (r.linkFormulas calls).1 := by
  induction calls generalizing r with
  | nil => exact .nil
  | cons call rest ih =>
    have hhead : call.1.Links m (r.scope.linkFormula call.1) :=
      hscope ▸ Scope.links_linkFormula m call.1
    exact .cons hhead (ih hscope)

theorem errors_linkFormulas {r : Resolution} (hscope : r.scope = .ofModel m)
    (calls : List (Formula String × Referrer)) :
    (r.linkFormulas calls).2.errors = r.errors ++
      calls.flatMap fun call => (call.1.unknownNames m).map (.unresolved call.2) := by
  induction calls generalizing r with
  | nil => exact (List.append_nil _).symm
  | cons call rest ih =>
    have hhead : (r.linkFormula call.1 call.2).2.errors =
        r.errors ++ (call.1.unknownNames m).map (.unresolved call.2) := by
      rw [← Scope.formulaErrors_ofModel, ← hscope]
      rfl
    rw [List.flatMap_cons, ← List.append_assoc, ← hhead]
    exact ih hscope

section OfModel
variable (m : Model) (calls : List (Formula String × Referrer))

theorem errors_linkFormulas_ofModel : ((ofModel m).linkFormulas calls).2.errors =
    calls.flatMap fun call => (call.1.unknownNames m).map (.unresolved call.2) :=
  (errors_linkFormulas rfl calls).trans (List.nil_append _)

theorem messages_linkFormulas : ((ofModel m).linkFormulas calls).2.errors.map (·.message) =
    calls.flatMap fun call => (call.1.unknownNames m).map fun name =>
      call.2.text ++ ": unresolved reference '" ++ name ++ "'" := by
  rw [errors_linkFormulas_ofModel, List.map_flatMap]
  simp only [List.map_map]
  rfl

theorem result_linkFormulas {α : Type} (value : α) :
    ((ofModel m).linkFormulas calls).2.result value =
      if ∀ call ∈ calls, call.1.unknownNames m = [] then .ok value
      else .error ((ofModel m).linkFormulas calls).2.errors := by
  have hnil : ((ofModel m).linkFormulas calls).2.errors.isEmpty = true ↔
      ∀ call ∈ calls, call.1.unknownNames m = [] := by
    rw [List.isEmpty_iff, errors_linkFormulas_ofModel, List.flatMap_eq_nil_iff]
    simp only [List.map_eq_nil_iff]
  rw [result, if_congr hnil rfl rfl]

end OfModel

/-- Linking any number of formulas against a model keeps their shapes, replaces known names by
handles and unknown ones by false, and reports one error for each unknown name, formula by formula
and from left to right. Without unknown names, and only then, there is a result, and the formulas
read back as they were written. -/
theorem linkFormulas_faithful (m : Model) (calls : List (Formula String × Referrer)) :
    let linked := ((ofModel m).linkFormulas calls).1
    let r := ((ofModel m).linkFormulas calls).2
    List.Forall₂ (Formula.Links m) (calls.map Prod.fst) linked ∧
      r.errors.map (·.message) = calls.flatMap (fun call =>
        (call.1.unknownNames m).map fun name =>
          call.2.text ++ ": unresolved reference '" ++ name ++ "'") ∧
      (∀ {α : Type} (value : α), r.result value =
        if ∀ call ∈ calls, call.1.unknownNames m = [] then .ok value else .error r.errors) ∧
      (linked.map m.nameAtoms = calls.map Prod.fst ↔
        ∀ call ∈ calls, call.1.unknownNames m = []) := by
  intro linked r
  have hlinks := links_linkFormulas (r := ofModel m) rfl calls
  refine ⟨hlinks, messages_linkFormulas m calls, result_linkFormulas m calls, ?_⟩
  rw [Formula.Links.map_nameAtoms_eq_iff hlinks, List.forall_mem_map]

/-- Of two formulas over the names of `Document.door`, the second one has a name too many. -/
example : (ofModel Document.door.linked).linkFormulas
    [(.unary .not (.atom "Opened"), .formula),
      (.binary .gt (.atom "Force") (.atom "Width"), .other "reward")] =
    ([.unary .not (.atom ⟨0⟩), .binary .gt (.atom ⟨2⟩) (.bool false)],
      ⟨.ofModel Document.door.linked, [.unresolved (.other "reward") "Width"]⟩) := rfl

end Resolution

end GoalModel
