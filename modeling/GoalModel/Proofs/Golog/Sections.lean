import GoalModel.Golog.Program

/-! # The sections of a program

A model with a single root goal is translated (`assemble_eq_ok`), and a section of its program
has the clauses that `sectionClauses` renders (`exists_clauses_translateFrom`); where nothing is
reported, whatever the sections before it report (`clauses_translateFrom`). -/

namespace GoalModel.Golog

variable {m : Model} {root : Handle} {kind : SectionKind} {lines : List Clause}

/-- The clauses in the section of a kind. -/
def Translation.clauses (t : Translation) (kind : SectionKind) : List Clause :=
  ((t.program.ofKind? kind).map (·.lines)).getD []

theorem SectionKind.mem_all (kind : SectionKind) : kind ∈ SectionKind.all := by
  cases kind <;> decide

/-- A section is rendered into the sink that the sections before it leave. -/
theorem exists_ofKind?_mapM {f : SectionKind → Render (List Clause)} {kinds : List SectionKind}
    (sink : Diagnostics) (hmem : kind ∈ kinds) : ∃ before,
    Listing.ofKind?
      ((kinds.mapM fun k => do return ⟨k, ← f k⟩ : Render (Listing Clause)).run sink).1 kind =
        some ⟨kind, ((f kind).run before).1⟩ := by
  induction kinds generalizing sink with
  | nil => cases hmem
  | cons k rest ih =>
    have hrun : (((k :: rest).mapM fun k => do return ⟨k, ← f k⟩ : Render (Listing Clause)).run
        sink).1 = ⟨k, ((f k).run sink).1⟩ ::
          ((rest.mapM fun k => do return ⟨k, ← f k⟩ : Render (Listing Clause)).run
            ((f k).run sink).2).1 := by
      rw [List.mapM_cons]
      rfl
    rw [hrun, Listing.ofKind?, List.find?_cons]
    by_cases hk : k = kind
    · subst hk
      refine ⟨sink, ?_⟩
      simp only [decide_true]
    · simp only [hk, decide_false]
      exact ih _ ((List.mem_cons.mp hmem).resolve_left (Ne.symm hk))

theorem exists_clauses_translateFrom (m : Model) (root : Handle) (kind : SectionKind) :
    ∃ before, (translateFrom m root).clauses kind =
      ((sectionClauses m root kind).run before).1 := by
  obtain ⟨before, h⟩ := exists_ofKind?_mapM (f := sectionClauses m root) .empty kind.mem_all
  exact ⟨before, congrArg (fun s => (Option.map Section.lines s).getD []) h⟩

theorem clauses_translateFrom (h : sectionClauses m root kind = pure lines) :
    (translateFrom m root).clauses kind = lines := by
  obtain ⟨before, hclauses⟩ := exists_clauses_translateFrom m root kind
  rw [hclauses, h]
  rfl

theorem assemble_eq_ok (h : m.rootGoals = [root]) :
    assemble m = .ok (translateFrom m root) := by
  rw [assemble, h]

end GoalModel.Golog
