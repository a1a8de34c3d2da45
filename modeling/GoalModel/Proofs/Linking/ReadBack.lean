import GoalModel.Proofs.Linking.Sound

/-! # Linking loses nothing

`Model.toDocument` writes a model down again: every handle becomes the name of its element. For
a model that was linked from a document this is the document itself, and the name of an element
leads to the one handle that stands for it, whether it is searched or was resolved
(`Document.toDocument_of_link`).

The proof goes down the document: a list of resolved names reads back as the names
(`Document.map_nameOf_linked`), so do formulas, and then entries, tasks and actors. -/

namespace GoalModel

theorem filterMap_eq_of_forall₂ {α β : Type} {R : α → β → Prop} {f : α → Option β}
    {as : List α} {bs : List β} (h : List.Forall₂ R as bs)
    (hf : ∀ a, ∀ b ∈ bs, R a b → f a = some b) : as.filterMap f = bs := by
  induction h with
  | nil => rfl
  | cons hab _ ih =>
    rw [List.filterMap_cons_some (hf _ _ List.mem_cons_self hab),
      ih fun a b hb => hf a b (List.mem_cons_of_mem _ hb)]

namespace Model

variable (m : Model)

/-- A formula over the names of the elements. -/
def nameAtoms (formula : Formula Handle) : Formula String :=
  formula.bind fun h => .atom (m.nameOf h)

def goalEntry? (h : Handle) : Option GoalEntry :=
  (m.decomposition? h).map fun node =>
    let names := node.children.map m.nameOf
    ⟨m.nameOf h, if node.kind = .and then names else [], if node.kind = .or then names else []⟩

def effectEntry? (h : Handle) : Option EffectEntry :=
  (m.effect? h).map fun effect =>
    ⟨m.nameOf h, effect.probability, effect.satisfying, effect.turnsTrue.map m.nameOf⟩

def taskEntry? (h : Handle) : Option TaskEntry :=
  (m.task? h).map fun task => ⟨m.nameOf h, task.effects.filterMap m.effectEntry?⟩

def qualityEntry? (h : Handle) : Option QualityEntry :=
  (m.quality? h).map fun quality => ⟨m.nameOf h, quality.root, m.nameAtoms quality.formula⟩

def conditionEntry? (h : Handle) : Option ConditionEntry :=
  (m.condition? h).map fun formula => ⟨m.nameOf h, m.nameAtoms formula⟩

def actorEntry (actor : Actor) : ActorEntry where
  name := actor.name
  predicates := actor.predicates.map m.nameOf
  stateVariables := actor.stateVariables.map m.nameOf
  goals := actor.goals.filterMap m.goalEntry?
  tasks := actor.tasks.filterMap m.taskEntry?
  qualities := actor.qualities.filterMap m.qualityEntry?
  conditions := actor.conditions.filterMap m.conditionEntry?

/-- The document that a model reads as. -/
def toDocument : Document where
  name := m.name
  actors := m.actors.map m.actorEntry
  crossRun := m.crossRun.map m.nameOf
  exported := m.exported.map fun x => ⟨m.nameOf x.element, x.domain, x.min, x.max⟩
  initializations := m.initializations.map fun x => ⟨m.nameOf x.element, x.value⟩

end Model

namespace Document

variable {document : Document} {h e t : Handle}

/-! ## Names -/

theorem nameOf_of_resolve? {name : String} (hr : document.scope.resolve? name = some h) :
    document.linked.nameOf h = name := by
  obtain ⟨_, hs⟩ := Scope.declared_of_resolve? hr
  obtain ⟨_, hd, rfl, _⟩ := declared_of_scope hs
  exact nameOf_linked hd

theorem nameOf_of_accepted? {requirement : Requirement} {name : String}
    (ha : document.scope.accepted? requirement name = some h) :
    document.linked.nameOf h = name :=
  nameOf_of_resolve? (Option.filter_eq_some_iff.mp ha).1

theorem map_nameOf_linked {requirement : Requirement} {names : List String}
    {handles : List Handle}
    (hmap : names.map (document.scope.accepted? requirement) = handles.map some) :
    handles.map document.linked.nameOf = names := by
  induction names generalizing handles with
  | nil => cases handles <;> simp at hmap ⊢
  | cons name names ih =>
    cases handles with
    | nil => simp at hmap
    | cons g handles =>
      obtain ⟨hhead, htail⟩ := List.cons.inj hmap
      rw [List.map_cons, nameOf_of_accepted? hhead, ih htail]

theorem nameAtoms_linkFormula {formula : Formula String}
    (hall : ∀ name ∈ formula.atoms, (document.scope.resolve? name).isSome) :
    document.linked.nameAtoms (document.scope.linkFormula formula) = formula := by
  induction formula with
  | atom name =>
    obtain ⟨g, hg⟩ := Option.isSome_iff_exists.mp (hall name (List.mem_singleton_self _))
    simp only [Scope.linkFormula, Formula.bind, hg, Model.nameAtoms, nameOf_of_resolve? hg]
  | number | bool => rfl
  | binary op left right ihl ihr =>
    have hl := ihl fun name hname => hall name (List.mem_append_left _ hname)
    have hr := ihr fun name hname => hall name (List.mem_append_right _ hname)
    exact congrArg₂ (Formula.binary op) hl hr
  | unary op operand ih => exact congrArg (Formula.unary op) (ih hall)

section WellFormed
variable (hwf : document.WellFormed)
include hwf

/-! ## Entries -/

theorem effectEntry?_linked {entry : EffectEntry}
    (hd : document.declarations[e.index]? = some (.effect t entry)) :
    document.linked.effectEntry? e = some entry := by
  have hnames := map_nameOf_linked (Scope.map_distinctHandles (linkTurnsTrue_errors hwf hd))
  rw [Model.effectEntry?, effect?_of_effect hd, nameOf_linked hd]
  exact congrArg (fun names => some (EffectEntry.mk _ _ _ names)) hnames

theorem goalEntry?_linked {entry : GoalEntry}
    (hd : document.declarations[h.index]? = some (.goal entry)) :
    document.linked.goalEntry? h = some entry := by
  have hmem : (h, entry) ∈ document.numberedGoals := mem_numberedGoals.mpr hd
  obtain ⟨hway, hall⟩ := (linkActors_errors_eq_nil.mp (linkActors_errors hwf)).1 _ hmem
  have hnames := map_nameOf_linked (Scope.map_accepted?_eq_map_some hall)
  rw [← children_of_goal hwf hd] at hnames
  have hempty : (document.linked.children h).isEmpty = entry.children.isEmpty := by
    rw [← hnames, List.isEmpty_map]
  rw [Model.children, decomposition?_of_goal hd] at hnames hempty
  rw [Model.goalEntry?, decomposition?_of_goal hd, nameOf_linked hd]
  simp only [Option.map_some, Option.getD_some, Claims.decomposition] at hnames hempty ⊢
  rw [hnames, hempty]
  obtain ⟨name, and, or⟩ := entry
  rcases hway with rfl | rfl
  · cases or <;> rfl
  · cases and <;> simp [GoalEntry.children, Declaration.name]

theorem taskEntry?_linked {entry : TaskEntry}
    (hd : document.declarations[h.index]? = some (.task entry)) :
    document.linked.taskEntry? h = some entry := by
  have heffects := filterMap_eq_of_forall₂ (stands_of_task hd).effects
    fun e _ _ => effectEntry?_linked hwf
  rw [Model.taskEntry?, task?_of_task hd, nameOf_linked hd]
  exact congrArg (fun effects => some (TaskEntry.mk _ effects)) heffects

theorem nameAtoms_of_mem {formula : Formula String} (hf : formula ∈ document.formulas) :
    document.linked.nameAtoms (document.scope.linkFormula formula) = formula :=
  nameAtoms_linkFormula fun name hname => resolve?_isSome.mpr (hwf.atoms formula hf name hname)

theorem actorEntry_linked {actor : Actor} {entry : ActorEntry} (hentry : entry ∈ document.actors)
    (hactor : ActorEntry.Stands document.declarations actor entry) :
    document.linked.actorEntry actor = entry := by
  have hformula {formula : Formula String} (hf : formula ∈ entry.formulas) :=
    nameAtoms_of_mem hwf (List.mem_flatMap.mpr ⟨entry, hentry, hf⟩)
  have hqualities : actor.qualities.filterMap document.linked.qualityEntry? = entry.qualities :=
    filterMap_eq_of_forall₂ hactor.qualities fun h quality hmem hd => by
      rw [Model.qualityEntry?, quality?_of_quality hd, nameOf_linked hd, Option.map_some,
        hformula (List.mem_append_left _ (List.mem_map_of_mem hmem))]
      rfl
  have hconditions :
      actor.conditions.filterMap document.linked.conditionEntry? = entry.conditions :=
    filterMap_eq_of_forall₂ hactor.conditions fun h condition hmem hd => by
      rw [Model.conditionEntry?, condition?_of_condition hd, nameOf_linked hd, Option.map_some,
        hformula (List.mem_append_right _ (List.mem_map_of_mem hmem))]
      rfl
  rw [Model.actorEntry, hactor.name,
    map_eq_of_forall₂ hactor.predicates fun _ _ _ hd => nameOf_linked hd,
    map_eq_of_forall₂ hactor.stateVariables fun _ _ _ hd => nameOf_linked hd,
    filterMap_eq_of_forall₂ hactor.goals fun _ _ _ hd => goalEntry?_linked hwf hd,
    filterMap_eq_of_forall₂ hactor.tasks fun _ _ _ ht => taskEntry?_linked hwf ht.self,
    hqualities, hconditions]

/-! ## The whole document -/

theorem exists_accepted?_of_stateful {name : String} (hs : document.Stateful name) :
    ∃ g, document.scope.accepted? .stateful name = some g :=
  Option.isSome_iff_exists.mp ((accepted?_stateful_isSome hwf.distinct).mpr hs)

theorem exported_linked : document.linked.toDocument.exported = document.exported := by
  change (document.exported.filterMap _).map _ = _
  rw [List.map_filterMap, List.filterMap_congr, List.filterMap_some]
  intro entry hentry
  obtain ⟨g, hg⟩ := exists_accepted?_of_stateful hwf (hwf.exported entry hentry).1
  rw [ExportEntry.link?_eq, hg, Option.map_some, Option.map_some, nameOf_of_accepted? hg]

theorem initializations_linked :
    document.linked.toDocument.initializations = document.initializations := by
  change (document.initializations.filterMap _).map _ = _
  rw [List.map_filterMap, List.filterMap_congr, List.filterMap_some]
  intro entry hentry
  obtain ⟨g, hg⟩ := exists_accepted?_of_stateful hwf (hwf.initializations entry hentry)
  rw [InitialEntry.link?_eq, hg, Option.map_some, Option.map_some, nameOf_of_accepted? hg]

theorem toDocument_linked : document.linked.toDocument = document := by
  have hactors : document.linked.toDocument.actors = document.actors :=
    map_eq_of_forall₂ document.actors_stand fun _ _ => actorEntry_linked hwf
  have hcross : document.linked.toDocument.crossRun = document.crossRun :=
    map_nameOf_linked (Scope.map_distinctHandles (linkCrossRun_errors hwf))
  calc document.linked.toDocument
    _ = ⟨document.name, document.linked.toDocument.actors, document.linked.toDocument.crossRun,
          document.linked.toDocument.exported, document.linked.toDocument.initializations⟩ := rfl
    _ = document := by
      rw [hactors, hcross, exported_linked hwf, initializations_linked hwf]

/-! ## Searching a name -/

/-- Only one element carries a name, so that the first one is the one that the name means. -/
theorem find?_linked {name : String} (hr : document.scope.resolve? name = some h) :
    document.linked.find? name = some h := by
  have hmeans {i : Nat} {element : Element} (hi : document.linked.elements[i]? = some element)
      (hname : element.name = name) : (⟨i⟩ : Handle) = h := by
    have hi : document.linked.element? ⟨i⟩ = some element := hi
    obtain ⟨d, hd, rfl⟩ := declared_of_element? hi
    have hs : document.scope.resolve? d.name = some ⟨i⟩ :=
      (Scope.resolve?_eq_some_iff (nodup_scope hwf.distinct)).mpr ⟨d.role, scope_declared hd⟩
    rw [show d.name = name from hname, hr] at hs
    exact (Option.some.inj hs).symm
  obtain ⟨_, hs⟩ := Scope.declared_of_resolve? hr
  obtain ⟨d, hd, rfl, _⟩ := declared_of_scope hs
  cases hfind : document.linked.elements.findIdx? fun element => element.name == d.name with
  | none =>
    have hall := List.findIdx?_eq_none_iff.mp hfind _
      (List.mem_of_getElem? (element?_of_declared hd))
    simp [Declaration.element] at hall
  | some i =>
    obtain ⟨hlt, hname, _⟩ := List.findIdx?_eq_some_iff_getElem.mp hfind
    rw [Model.find?, hfind, Option.map_some,
      hmeans (List.getElem?_eq_getElem hlt) (beq_iff_eq.mp hname)]

theorem resolve?_of_mem_references (hh : h ∈ document.linked.references) :
    document.scope.resolve? (document.linked.nameOf h) = some h := by
  have hlt := inRange_linked hwf hh
  rw [length_elements_linked] at hlt
  have hd := List.getElem?_eq_getElem hlt
  rw [nameOf_linked hd]
  exact (Scope.resolve?_eq_some_iff (nodup_scope hwf.distinct)).mpr ⟨_, scope_declared hd⟩

end WellFormed

/-- A linked model reads as the document that it was linked from, and searching a declared name
finds the element that every reference with this name leads to. -/
theorem toDocument_of_link {m : Model} (h : document.link = .ok m) :
    m.toDocument = document ∧ ∀ name ∈ document.declaredNames, ∃ g,
      m.find? name = some g ∧ document.scope.resolve? name = some g ∧
        ∀ r ∈ m.references, m.nameOf r = name → r = g := by
  obtain ⟨hwf, rfl⟩ := link_eq_ok_iff.mp h
  refine ⟨toDocument_linked hwf, fun name hname => ?_⟩
  obtain ⟨g, hg⟩ := Option.isSome_iff_exists.mp (resolve?_isSome.mpr hname)
  refine ⟨g, find?_linked hwf hg, hg, fun r hr hrname => ?_⟩
  have hmeans := resolve?_of_mem_references hwf hr
  rw [hrname, hg] at hmeans
  exact (Option.some.inj hmeans).symm

theorem door_toDocument : door.link = .ok door.linked ∧ door.linked.toDocument = door ∧
    "Push" ∈ door.declaredNames ∧ ∃ g, door.linked.find? "Push" = some g ∧
      door.scope.resolve? "Push" = some g ∧
        ∀ r ∈ door.linked.references, door.linked.nameOf r = "Push" → r = g := by
  have h : door.link = .ok door.linked := rfl
  have hname : "Push" ∈ door.declaredNames := by decide
  obtain ⟨hdocument, hnames⟩ := toDocument_of_link h
  exact ⟨h, hdocument, hname, hnames "Push" hname⟩

end Document

end GoalModel
