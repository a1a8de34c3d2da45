import GoalModel.Proofs.Golog.InLine
import GoalModel.Proofs.Prolog.Tokens

/-! # The lines of a program

A program is written line by line, comments with the titles of the sections between the clauses.
The text gives everything back: its lines that are neither empty nor comments are the clauses, and
cut at the titles they are the sections (`Translation.OneClausePerLine`). This takes clauses that
are written in one line each, and so it holds unless there is a line feed in an initial value
(`oneClausePerLine_iff`). Initial values are written as they are, and the shortest text with a line
feed in one has a clause that goes on in a second line (`idle_broken`). -/

namespace GoalModel

/-! ## Texts -/

/-- The lines of a text; the last of them is what no line feed ends. -/
def lines (text : String) : List String := (text.toList.splitOn '\n').map String.ofList

theorem lines_of_inLine {text : String} (h : InLine text) : lines text = [text] := by
  rw [lines, List.splitOn_eq_singleton h, List.map_singleton, String.ofList_toList]

theorem lines_append (text other : String) :
    lines (text ++ "\n" ++ other) = lines text ++ lines other := by
  have htext : (text ++ "\n" ++ other).toList = text.toList ++ '\n' :: other.toList := by simp
  rw [lines, htext, List.splitOn_append_cons_self, List.map_append]
  rfl

theorem notMem_of_mem_splitOn {c : Char} {cs part : List Char} (h : part ∈ cs.splitOn c) :
    c ∉ part := by
  induction cs generalizing part with
  | nil =>
    rw [List.mem_singleton.mp h]
    exact List.not_mem_nil
  | cons d cs ih =>
    rw [List.splitOn_cons_eq_if_modifyHead] at h
    split at h
    · rcases List.mem_cons.mp h with rfl | h
      · exact List.not_mem_nil
      · exact ih h
    · -- the character joins the first part, the others stay
      next hne =>
      cases hsplit : cs.splitOn c with
      | nil => exact absurd hsplit (List.splitOn_ne_nil c cs)
      | cons first others =>
        rw [hsplit, List.modifyHead_cons] at h
        rcases List.mem_cons.mp h with rfl | h
        · have hfirst := ih (hsplit ▸ List.mem_cons_self)
          exact List.not_mem_cons_of_ne_of_not_mem (fun heq => hne (beq_iff_eq.mpr heq.symm)) hfirst
        · exact ih (hsplit ▸ List.mem_cons_of_mem _ h)

theorem inLine_of_mem_lines {text line : String} (h : line ∈ lines text) : InLine line := by
  obtain ⟨part, hpart, rfl⟩ := List.mem_map.mp h
  exact inLine_ofList.mpr (notMem_of_mem_splitOn hpart)

theorem flatMap_lines {texts : List String} (h : ∀ text ∈ texts, InLine text) :
    texts.flatMap lines = texts := by
  rw [List.flatMap_congr fun text htext => lines_of_inLine (h text htext),
    List.flatMap_singleton']

/-- Texts that are written one below the other. -/
theorem lines_join (texts : List String) :
    lines (String.join (texts.map (· ++ "\n"))) = texts.flatMap lines ++ [""] := by
  induction texts with
  | nil => rfl
  | cons text rest ih =>
    rw [List.map_cons, String.join_cons, lines_append, ih, List.flatMap_cons, List.append_assoc]

namespace Golog

/-- A line that is neither empty nor a comment. -/
def isClauseLine (line : String) : Bool := line.toList.head?.any (· != '%')

/-- The section that a line is the title of. -/
def SectionKind.ofHeader? (line : String) : Option SectionKind :=
  all.find? fun kind => line == "% " ++ kind.title

/-- The clause lines before the first title, and the sections from there on. -/
def Listing.ofLines : List String → List String × Listing String
  | [] => ([], [])
  | line :: rest =>
    let (own, listing) := ofLines rest
    match SectionKind.ofHeader? line with
    | some kind => ([], ⟨kind, own⟩ :: listing)
    | none => (if isClauseLine line then line :: own else own, listing)

/-- The text of a program gives its clauses back, one in each line, and its sections. -/
structure Translation.OneClausePerLine (t : Translation) : Prop where
  stops : ∀ line ∈ lines t.text, isClauseLine line → line.toList.getLast? = some '.'
  clauses : (lines t.text).filter isClauseLine = t.listing.flatMap (·.lines)
  sections : Listing.ofLines (lines t.text) = ([], t.listing)

/-! ## Listings -/

theorem SectionKind.ofHeader?_title (kind : SectionKind) :
    ofHeader? ("% " ++ kind.title) = some kind := by
  cases kind <;> decide

theorem SectionKind.not_isClauseLine_header (kind : SectionKind) :
    ¬isClauseLine ("% " ++ kind.title) := by
  simp [isClauseLine]

theorem SectionKind.ofHeader?_of_isClauseLine {line : String} (h : isClauseLine line) :
    ofHeader? line = none := by
  refine List.find?_eq_none.mpr fun kind _ heq => kind.not_isClauseLine_header ?_
  exact beq_iff_eq.mp heq ▸ h

theorem SectionKind.inLine_title (kind : SectionKind) : InLine kind.title := by
  cases kind <;> decide

namespace Listing

variable {listing : Listing String} {s : Section String} {clauses rest : List String}

theorem lines_text (listing : Listing String) :
    lines listing.text = (listing.flatMap sectionLines).flatMap lines ++ [""] :=
  lines_join _

theorem inLine_of_mem_sectionLines (h : ∀ line ∈ s.lines, InLine line) :
    ∀ line ∈ sectionLines s, InLine line := by
  have hframe : InLine "%" ∧ InLine "% " ∧ InLine "" := by decide
  simpa [sectionLines, hframe, s.kind.inLine_title, or_imp, forall_and] using h

theorem filter_sectionLines (h : ∀ line ∈ s.lines, isClauseLine line) :
    (sectionLines s).filter isClauseLine = s.lines := by
  have hframe : isClauseLine "%" = false ∧ isClauseLine "" = false := by decide
  have htitle : isClauseLine ("% " ++ s.kind.title) = false :=
    Bool.eq_false_of_not_eq_true s.kind.not_isClauseLine_header
  simp only [sectionLines, List.filter_append, List.filter_cons, htitle, hframe]
  simpa using h

theorem ofLines_append (h : ∀ line ∈ clauses, isClauseLine line) :
    ofLines (clauses ++ rest) = (clauses ++ (ofLines rest).1, (ofLines rest).2) := by
  induction clauses with
  | nil => rfl
  | cons line clauses ih =>
    obtain ⟨hline, hclauses⟩ := List.forall_mem_cons.mp h
    rw [List.cons_append, ofLines, ih hclauses, SectionKind.ofHeader?_of_isClauseLine hline]
    simp [hline]

theorem ofLines_frame {line : String} (hheader : SectionKind.ofHeader? line = none)
    (hclause : isClauseLine line = false) : ofLines (line :: rest) = ofLines rest := by
  simp [ofLines, hheader, hclause]

theorem ofLines_sectionLines (h : ∀ line ∈ s.lines, isClauseLine line) :
    ofLines (sectionLines s ++ rest) =
      ([], ⟨s.kind, s.lines ++ (ofLines rest).1⟩ :: (ofLines rest).2) := by
  have hmark (rest : List String) : ofLines ("%" :: rest) = ofLines rest :=
    ofLines_frame (by decide) (by decide)
  have hblank : ofLines ("" :: rest) = ofLines rest := ofLines_frame (by decide) (by decide)
  have hlines : sectionLines s ++ rest =
      "%" :: ("% " ++ s.kind.title) :: "%" :: (s.lines ++ "" :: rest) := by simp [sectionLines]
  rw [hlines, hmark, ofLines, hmark, ofLines_append h, hblank, s.kind.ofHeader?_title]

theorem ofLines_flatMap (h : ∀ s ∈ listing, ∀ line ∈ s.lines, isClauseLine line) :
    ofLines (listing.flatMap sectionLines ++ [""]) = ([], listing) := by
  induction listing with
  | nil => exact ofLines_frame (by decide) (by decide)
  | cons s listing ih =>
    obtain ⟨hs, hlisting⟩ := List.forall_mem_cons.mp h
    rw [List.flatMap_cons, List.append_assoc, ofLines_sectionLines hs, ih hlisting,
      List.append_nil]

/-- A listing whose lines are all in line is written line by line. -/
theorem lines_text_of_inLine (h : ∀ s ∈ listing, ∀ line ∈ s.lines, InLine line) :
    lines listing.text = listing.flatMap sectionLines ++ [""] := by
  rw [lines_text, flatMap_lines]
  intro line hline
  obtain ⟨s, hs, hline⟩ := List.mem_flatMap.mp hline
  exact inLine_of_mem_sectionLines (h s hs) line hline

end Listing

/-- If every line of a program reads as a clause and stands in one line, the text gives the
program back. -/
theorem Translation.oneClausePerLine {t : Translation}
    (hclauses : ∀ s ∈ t.listing, ∀ line ∈ s.lines,
      isClauseLine line ∧ line.toList.getLast? = some '.')
    (hlines : ∀ s ∈ t.listing, ∀ line ∈ s.lines, InLine line) : t.OneClausePerLine := by
  have hstart (s : Section String) (hs : s ∈ t.listing) (line : String) (hline : line ∈ s.lines) :=
    (hclauses s hs line hline).1
  have htext : lines t.text = t.listing.flatMap Listing.sectionLines ++ [""] :=
    Listing.lines_text_of_inLine hlines
  have hfilter : (lines t.text).filter isClauseLine = t.listing.flatMap (·.lines) := by
    rw [htext, List.filter_append, List.filter_flatMap,
      List.flatMap_congr fun s hs => Listing.filter_sectionLines (hstart s hs)]
    exact List.append_nil _
  refine ⟨fun line hline hclause => ?_, hfilter, ?_⟩
  · have hmem := List.mem_filter.mpr ⟨hline, hclause⟩
    rw [hfilter] at hmem
    obtain ⟨s, hs, hline⟩ := List.mem_flatMap.mp hmem
    exact (hclauses s hs line hline).2
  · rw [htext]
    exact Listing.ofLines_flatMap hstart

/-! ## Programs -/

theorem Clause.getLast?_text (clause : Clause) : clause.text.toList.getLast? = some '.' := by
  unfold text
  split <;>
    · rw [String.toList_append]
      exact List.getLast?_concat

/-- A clause begins with the name that it defines. -/
theorem Clause.isClauseLine_text {clause : Clause} {functor : String} {n : Nat}
    (hi : clause.indicator? = some (functor, n)) (hfunctor : Identifier.isValid functor) :
    isClauseLine clause.text := by
  obtain ⟨c, cs, hchars, hstart, _⟩ := Prolog.exists_toList_eq hfunctor
  have hc : c ≠ '%' := by
    rintro rfl
    exact absurd hstart (by decide)
  have hhead : clause.head.text.toList.head? = some c := by
    unfold indicator? Term.indicator? at hi
    split at hi
    · next heq =>
      cases hi
      simp [heq, Term.text, hchars]
    · cases hi
  have htext : clause.text.toList.head? = some c := by
    unfold text
    split <;> simp [hhead]
  simp [isClauseLine, htext, hc]

section
variable {m : Model} {root : Handle} {kind : SectionKind} {clause : Clause}

/-- What a program defines has the name of an identifier. -/
theorem exists_isValid_of_mem_clauses (hv : m.Valid)
    (hclause : clause ∈ (translateFrom m root).clauses kind) :
    ∃ functor n, clause.indicator? = some (functor, n) ∧ Identifier.isValid functor := by
  rw [clauses_eq_ownedClauses] at hclause
  obtain ⟨⟨owner, _⟩, hmem, rfl⟩ := List.mem_map.mp hclause
  cases owner with
  | vocabulary =>
    have hvocabulary : ∀ i ∈ vocabulary, Identifier.isValid i.1 := by decide
    obtain ⟨i, hi, hclause⟩ := inVocabulary_of_mem hmem
    exact ⟨_, _, hclause, hvocabulary i hi⟩
  | element h =>
    obtain ⟨n, hn, x, hx, hclause⟩ := ((mem_ownedClauses_iff hv).mp hmem).indicator?
    obtain ⟨role, hrole, _⟩ := Option.bind_eq_some_iff.mp hn
    have hname := isValid_nameOf hv.named (m.index_lt_of_role? hrole)
    refine ⟨x, n, hclause, ?_⟩
    rcases eq_or_ended_of_mem_generatedNames hx with rfl | ⟨ending, rfl⟩
    · exact hname
    · exact isValid_ended hname ending

theorem listing_translateFrom (m : Model) (root : Handle) : (translateFrom m root).listing =
    SectionKind.all.map fun kind =>
      ⟨kind, ((translateFrom m root).clauses kind).map (·.text)⟩ := by
  rw [Translation.listing, Listing.mapLines, program_translateFrom, List.map_map]
  refine List.map_congr_left fun kind _ => ?_
  rw [clauses_eq_ownedClauses]
  rfl

theorem exists_of_mem_listing {s : Section String} {line : String}
    (hs : s ∈ (translateFrom m root).listing) (hline : line ∈ s.lines) :
    ∃ kind, ∃ clause ∈ (translateFrom m root).clauses kind, clause.text = line := by
  rw [listing_translateFrom] at hs
  obtain ⟨kind, _, rfl⟩ := List.mem_map.mp hs
  exact ⟨kind, List.mem_map.mp hline⟩

theorem text_mem_listing (hclause : clause ∈ (translateFrom m root).clauses kind) :
    clause.text ∈ (translateFrom m root).listing.flatMap (·.lines) := by
  rw [listing_translateFrom]
  refine List.mem_flatMap.mpr ⟨_, List.mem_map_of_mem kind.mem_all, ?_⟩
  exact List.mem_map_of_mem hclause

theorem oneClausePerLine_translateFrom_iff (hv : m.Valid) (root : Handle) :
    (translateFrom m root).OneClausePerLine ↔
      ∀ entry ∈ m.initializations, ∀ text, entry.value = .text text → InLine text := by
  rw [← forall_inLine_iff hv root]
  constructor
  · -- a clause that is found among the lines is itself a line
    intro h kind clause hclause
    have hmem := text_mem_listing hclause
    rw [← h.clauses] at hmem
    exact inLine_of_mem_lines (List.mem_filter.mp hmem).1
  · intro hall
    refine Translation.oneClausePerLine (fun s hs line hline => ?_) fun s hs line hline => ?_
    · obtain ⟨kind, clause, hclause, rfl⟩ := exists_of_mem_listing hs hline
      obtain ⟨functor, n, hi, hfunctor⟩ := exists_isValid_of_mem_clauses hv hclause
      exact ⟨clause.isClauseLine_text hi hfunctor, clause.getLast?_text⟩
    · obtain ⟨kind, clause, hclause, rfl⟩ := exists_of_mem_listing hs hline
      exact hall kind clause hclause

end

/-- The text of a program has its clauses in one line each, and gives its sections back, exactly if
no initial value is a text with a line feed. -/
theorem oneClausePerLine_iff {text : String} {withSchema : Bool} {m : Model}
    (h : parseModel text withSchema = .ok m) :
    ∃ t, assemble m = .ok t ∧ (t.OneClausePerLine ↔
      ∀ entry ∈ m.initializations, ∀ text, entry.value = .text text → InLine text) := by
  have hv := valid_of_parseModel h
  obtain ⟨root, hroot⟩ := hv.exists_rootGoals
  exact ⟨_, assemble_eq_ok hroot, oneClausePerLine_translateFrom_iff hv root⟩

/-- The program of the door can be cut into its sections again. -/
theorem door_oneClausePerLine : ∃ t, assemble Document.door.linked = .ok t ∧
    (lines t.text).filter isClauseLine = t.listing.flatMap (·.lines) ∧
    Listing.ofLines (lines t.text) = ([], t.listing) := by
  obtain ⟨t, ht, hiff⟩ := oneClausePerLine_iff parseModel_doorText
  have hvalues : ∀ entry ∈ Document.door.linked.initializations, ∀ text,
      entry.value = .text text → InLine text := by
    intro entry hentry text htext
    rw [List.mem_singleton.mp hentry] at htext
    cases htext
  exact ⟨t, ht, (hiff.mpr hvalues).clauses, (hiff.mpr hvalues).sections⟩

end Golog

/-! ## A value in two lines -/

/-- A goal, and a variable whose initial value has a line feed. -/
def Document.idle : Document where
  name := "Idle"
  actors := [{
    name := "Robot"
    predicates := []
    stateVariables := ["mode"]
    goals := [⟨"rest", [], []⟩]
    tasks := []
    qualities := []
    conditions := [] }]
  crossRun := []
  exported := []
  initializations := [⟨"mode", .text "idle\nnow"⟩]

/-- The text of `Document.idle`. -/
def idleText : String := r#"{
  "name": "Idle",
  "actors": [{
    "name": "Robot",
    "variables": ["mode"],
    "goals": [{"name": "rest"}]}],
  "initializations": [{"name": "mode", "value": "idle\nnow"}]}"#

set_option maxRecDepth 10000 in
theorem parseModel_idleText : parseModel idleText true = .ok Document.idle.linked := by
  have htext : idleText = String.ofList _ := rfl
  refine eq_ok_of_toOption ?_
  rw [htext, parseModel, Json.read?_ofList]
  decide +kernel

open Golog

/-- A line of the program stops in the middle of a clause. -/
theorem idle_broken : parseModel idleText true = .ok Document.idle.linked ∧
    ∃ t, assemble Document.idle.linked = .ok t ∧
      ∃ line ∈ lines t.text, isClauseLine line ∧ line.toList.getLast? ≠ some '.' := by
  have hroot : Document.idle.linked.rootGoals = [⟨1⟩] := by decide
  have hclause : Clause.listFact "init" [.apply "mode" [.word "idle\nnow"]] ∈
      (translateFrom Document.idle.linked ⟨1⟩).clauses .initialValues := by
    rw [clauses_translateFrom rfl]
    exact List.mem_singleton_self _
  obtain ⟨s, hs, hline⟩ := List.mem_flatMap.mp (text_mem_listing hclause)
  have hfirst : "init([mode(idle" ∈
      lines (Clause.listFact "init" [.apply "mode" [.word "idle\nnow"]]).text := by decide
  refine ⟨parseModel_idleText, _, assemble_eq_ok hroot, "init([mode(idle", ?_, by decide,
    by decide⟩
  rw [Translation.text, Listing.lines_text]
  refine List.mem_append_left _ (List.mem_flatMap.mpr ⟨_, ?_, hfirst⟩)
  exact List.mem_flatMap.mpr ⟨s, hs, List.mem_append_left _ (List.mem_append_right _ hline)⟩

end GoalModel
