import GoalModel.Proofs.Files.Path

/-! # Extensions of paths

A file name is its stem, or its stem and its extension with a dot between them
(`Path.split_cases`). Another extension is put behind the same stem in the same directory
(`Path.withExtension_parts`), unless only a pair of dots is left when the old one is cut off
(`Path.LosesName`). -/

namespace GoalModel.Path

variable {p : Path} {extension : String} {last old stem before cs : List Char} {c : Char}

/-! ## Trailing characters -/

theorem trimReversed_cons (hslash : c ≠ '/') (hdot : c ≠ '.') :
    trimReversed (c :: cs) = c :: cs := by
  rw [trimReversed] <;> simp_all

theorem trimReversed_dot (hslash : c ≠ '/') :
    trimReversed ('.' :: c :: cs) = '.' :: c :: cs := by
  rw [trimReversed] <;> simp_all

theorem trimReversed_suffix (cs : List Char) : trimReversed cs <:+ cs := by
  fun_induction trimReversed cs with
  | case1 => exact List.suffix_refl _
  | case2 rest _ ih => exact ih.trans (List.suffix_cons _ _)
  | case3 rest ih => exact ih.trans (List.suffix_cons _ _)
  | case4 => exact List.suffix_refl _

/-- What is passed over may also be cut off in part. -/
theorem trimReversed_drop {n : Nat} (h : n + (trimReversed cs).length ≤ cs.length) :
    trimReversed (cs.drop n) = trimReversed cs := by
  fun_induction trimReversed cs generalizing n with
  | case1 =>
    obtain rfl : n = 0 := by simpa using h
    rfl
  | case2 rest hrest ih =>
    cases n with
    | zero => rw [List.drop_zero, trimReversed]; exact hrest
    | succ n =>
      rw [List.drop_succ_cons]
      exact ih (by simp at h; omega)
  | case3 rest ih =>
    cases n with
    | zero => rfl
    | succ n =>
      rw [List.drop_succ_cons]
      exact ih (by simp at h ⊢; omega)
  | case4 cs h1 h2 h3 =>
    obtain rfl : n = 0 := by omega
    rw [List.drop_zero, trimReversed] <;> assumption

theorem reversed_ofReversed (cs : List Char) : (ofReversed cs).reversed = trimReversed cs := by
  rw [reversed, ofReversed, String.toList_ofList, List.reverse_reverse]

/-- The last component is what stands before the first slash. -/
theorem last_eq_of_reversed (h : p.reversed = last ++ before) (hlast : '/' ∉ last)
    (hbefore : before = [] ∨ ∃ rest, before = '/' :: rest) :
    p.lastReversed = last ∧ p.beforeLast = before := by
  have hall : ∀ c ∈ last, decide (c ≠ '/') = true := fun c hc => by
    simpa using ne_of_mem_of_not_mem hc hlast
  rw [lastReversed, beforeLast, h, List.takeWhile_append_of_pos hall,
    List.dropWhile_append_of_pos hall]
  rcases hbefore with rfl | ⟨rest, rfl⟩ <;> simp

/-! ## Stems and extensions -/

/-- An extension and a stem that make up a file name, the last character first. -/
structure SplitName (old stem : List Char) : Prop where
  noDot : '.' ∉ old
  noSlash : '/' ∉ old
  stemNonempty : stem ≠ []
  stemNoSlash : '/' ∉ stem
  notDots : old = [] → stem ≠ ['.']

theorem fileName?_isSome_iff : p.fileName?.isSome ↔
    p.lastReversed ≠ [] ∧ p.lastReversed ≠ ['.'] ∧ p.lastReversed ≠ ['.', '.'] := by
  rw [fileName?]
  split
  · next h => simpa [imp_iff_not_or, or_assoc] using h
  · next h => simpa using h

namespace SplitName

variable (h : SplitName old stem)
include h

theorem split_eq : splitReversed (old ++ '.' :: stem) = (some old, stem) := by
  have hall : ∀ c ∈ old, decide (c ≠ '.') = true := fun c hc => by
    simpa using ne_of_mem_of_not_mem hc h.noDot
  rw [splitReversed, List.dropWhile_append_of_pos hall, List.takeWhile_append_of_pos hall]
  simp [h.stemNonempty]

/-- Nothing at the end of a name is passed over. -/
theorem trimReversed_eq (before : List Char) :
    trimReversed ((old ++ '.' :: stem) ++ before) = (old ++ '.' :: stem) ++ before := by
  cases old with
  | nil =>
    obtain ⟨c, others, rfl⟩ := List.exists_cons_of_ne_nil h.stemNonempty
    exact trimReversed_dot (ne_of_mem_of_not_mem List.mem_cons_self h.stemNoSlash)
  | cons c others =>
    exact trimReversed_cons (ne_of_mem_of_not_mem List.mem_cons_self h.noSlash)
      (ne_of_mem_of_not_mem List.mem_cons_self h.noDot)

theorem parts_of_reversed (hp : p.reversed = (old ++ '.' :: stem) ++ before)
    (hbefore : before = [] ∨ ∃ rest, before = '/' :: rest) :
    p.fileName?.isSome ∧ splitReversed p.lastReversed = (some old, stem) ∧
      p.beforeLast = before := by
  obtain ⟨hlast, hbefore⟩ := last_eq_of_reversed hp (by simp [h.noSlash, h.stemNoSlash]) hbefore
  rw [fileName?_isSome_iff, hlast]
  refine ⟨⟨by simp, by simp [List.append_eq_cons_iff, h.stemNonempty], fun hdots => ?_⟩,
    h.split_eq, hbefore⟩
  cases old with
  | nil => exact h.notDots rfl (List.cons.inj hdots).2
  | cons c others => exact h.noDot ((List.cons.inj hdots).1 ▸ List.mem_cons_self)

end SplitName

section

variable (hname : p.fileName?.isSome)
include hname

/-- A file name is its stem, or its stem and its extension. -/
theorem split_cases : splitReversed p.lastReversed = (none, p.lastReversed) ∨
    ∃ old stem, SplitName old stem ∧ p.lastReversed = old ++ '.' :: stem ∧
      splitReversed p.lastReversed = (some old, stem) := by
  obtain ⟨-, -, hdots⟩ := fileName?_isSome_iff.mp hname
  have hslash := p.slash_notMem_lastReversed
  have hsplit := List.takeWhile_append_dropWhile (p := (· ≠ '.')) (l := p.lastReversed)
  rw [splitReversed]
  split
  · next stem hstem =>
    rw [hstem] at hsplit
    split
    · exact .inl rfl
    · next hne =>
      refine .inr ⟨_, stem, ⟨?_, ?_, by simpa using hne, ?_, fun hold hstem => hdots ?_⟩,
        hsplit.symm, rfl⟩
      · exact fun hmem => by simpa using List.mem_takeWhile_imp hmem
      · exact fun hmem => hslash (hsplit ▸ List.mem_append_left _ hmem)
      · exact fun hmem => hslash (hsplit ▸ List.mem_append_right _ (List.mem_cons_of_mem _ hmem))
      · rw [← hsplit, hold, hstem]
        rfl
  · exact .inl rfl

/-- The stem of a file name is no empty part of it. -/
theorem stem_of_fileName? :
    (splitReversed p.lastReversed).2 ≠ [] ∧ '/' ∉ (splitReversed p.lastReversed).2 := by
  obtain hsplit | ⟨old, stem, hparts, -, hsplit⟩ := split_cases hname <;> rw [hsplit]
  · exact ⟨(fileName?_isSome_iff.mp hname).1, p.slash_notMem_lastReversed⟩
  · exact ⟨hparts.stemNonempty, hparts.stemNoSlash⟩

theorem fileStem?_eq :
    p.fileStem? = some (String.ofList (splitReversed p.lastReversed).2.reverse) := by
  obtain ⟨name, hname⟩ := Option.isSome_iff_exists.mp hname
  rw [fileStem?, hname]
  rfl

theorem extension?_eq :
    p.extension? = (splitReversed p.lastReversed).1.map fun cs => String.ofList cs.reverse := by
  obtain ⟨name, hname⟩ := Option.isSome_iff_exists.mp hname
  rw [extension?, hname]
  cases (splitReversed p.lastReversed).1 <;> rfl

theorem parent?_eq : p.parent? = some (ofReversed (trimReversed p.beforeLast)) := by
  obtain ⟨name, hname⟩ := Option.isSome_iff_exists.mp hname
  exact exists_parent? hname

theorem exists_fileStem? : ∃ stem, p.fileStem? = some stem ∧ stem ≠ "" := by
  refine ⟨_, fileStem?_eq hname, fun hnothing => (stem_of_fileName? hname).1 ?_⟩
  simpa using hnothing

end

/-- The name of a file is its stem and its extension. -/
theorem fileName?_of_parts {stem : String} (hstem : p.fileStem? = some stem)
    (hextension : p.extension? = some extension) :
    p.fileName? = some (stem ++ "." ++ extension) := by
  obtain ⟨name, hname, -⟩ := Option.bind_eq_some_iff.mp hstem
  have hsome := Option.isSome_of_eq_some hname
  rw [fileStem?_eq hsome] at hstem
  rw [extension?_eq hsome] at hextension
  obtain hsplit | ⟨old, stem', -, hlast, hsplit⟩ := split_cases hsome
  · rw [hsplit] at hextension
    cases hextension
  · rw [hsplit] at hstem hextension
    obtain rfl := Option.some.inj hstem
    obtain rfl := Option.some.inj hextension
    have hreversed := (fileName?_eq_some_iff.mp hname).1
    rw [hlast, eq_comm, List.reverse_eq_iff] at hreversed
    rw [hname, Option.some.injEq, ← String.toList_inj]
    simpa using hreversed

/-! ## Another extension -/

/-- What can be put behind a stem as its extension. -/
structure NamesExtension (extension : String) : Prop where
  nonempty : extension ≠ ""
  noSlash : '/' ∉ extension.toList
  noDot : '.' ∉ extension.toList

theorem NamesExtension.splitName (h : NamesExtension extension) (hstem : stem ≠ [])
    (hslash : '/' ∉ stem) : SplitName extension.toList.reverse stem where
  noDot := by simpa using h.noDot
  noSlash := by simpa using h.noSlash
  stemNonempty := hstem
  stemNoSlash := hslash
  notDots := fun hnothing => absurd (by simpa using hnothing) h.nonempty

theorem parts_of_fileName? {stem : String} (hname : p.fileName? = some (stem ++ "." ++ extension))
    (hstem : stem ≠ "") (hextension : NamesExtension extension) :
    p.fileStem? = some stem ∧ p.extension? = some extension := by
  have hsome := Option.isSome_of_eq_some hname
  obtain ⟨hlast, hnames⟩ := fileName?_eq_some_iff.mp hname
  have hslash : '/' ∉ stem.toList.reverse := fun hmem => hnames.noSlash (by simp_all)
  have hparts := hextension.splitName (by simpa using hstem) hslash
  have hreversed : (stem ++ "." ++ extension).toList.reverse =
      extension.toList.reverse ++ '.' :: stem.toList.reverse := by simp
  rw [fileStem?_eq hsome, extension?_eq hsome, hlast, hreversed, hparts.split_eq]
  simp

/-- Without its extension, the path would end in a pair of dots. -/
def LosesName (p : Path) : Prop :=
  p.fileStem? = some "." ∧ p.reversed = p.text.toList.reverse

theorem setExtension_reversed (hname : p.fileName?.isSome) (hextension : NamesExtension extension) :
    (p.setExtension extension).reversed =
      (extension.toList.reverse ++ '.' :: (splitReversed p.lastReversed).2) ++ p.beforeLast := by
  obtain ⟨hstem, hslash⟩ := stem_of_fileName? hname
  obtain ⟨name, hname⟩ := Option.isSome_iff_exists.mp hname
  have hempty : extension.isEmpty = false := by simpa using hextension.nonempty
  rw [setExtension, hname, reversed, ← (hextension.splitName hstem hslash).trimReversed_eq]
  simp [hempty, ofReversed]

/-- Cutting off the extension, with as many characters as it has, leaves stem and directory. -/
theorem cut_extension {old : String} (hname : p.fileName?.isSome) (hold : p.extension? = some old)
    (hkept : ¬p.LosesName) {cut : Path}
    (hcut : cut = ofReversed (p.text.toList.reverse.drop old.length)) :
    cut.fileName?.isSome ∧
      (splitReversed cut.lastReversed).2 = (splitReversed p.lastReversed).2 ∧
      cut.beforeLast = p.beforeLast := by
  obtain hsplit | ⟨cs, stem, hparts, hlast, hsplit⟩ := split_cases hname
  · rw [extension?_eq hname, hsplit] at hold
    cases hold
  obtain rfl : String.ofList cs.reverse = old := by
    rw [extension?_eq hname, hsplit] at hold
    exact Option.some.inj hold
  have hreversed : cut.reversed = trimReversed (p.text.toList.reverse.drop cs.length) := by
    rw [hcut, reversed_ofReversed]
    simp
  obtain ⟨trail, htrail⟩ := trimReversed_suffix p.text.toList.reverse
  rw [← reversed] at htrail
  by_cases hlength : cs.length ≤ trail.length
  · -- All that is cut off would have been passed over.
    have hsame : cut.reversed = p.reversed := by
      rw [hreversed, trimReversed_drop, ← reversed]
      rw [← reversed, ← htrail, List.length_append]
      omega
    have hlastSame : cut.lastReversed = p.lastReversed := by rw [lastReversed, hsame, lastReversed]
    refine ⟨?_, by rw [hlastSame], by rw [beforeLast, hsame, beforeLast]⟩
    rw [fileName?_isSome_iff, hlastSame]
    exact fileName?_isSome_iff.mp hname
  · -- The dot and the stem are left, behind what is left of the extension.
    have hrest : SplitName (cs.drop (cs.length - trail.length)) stem := {
      noDot := fun hmem => hparts.noDot (List.mem_of_mem_drop hmem)
      noSlash := fun hmem => hparts.noSlash (List.mem_of_mem_drop hmem)
      stemNonempty := hparts.stemNonempty
      stemNoSlash := hparts.stemNoSlash
      notDots := fun hnothing hdot => hkept <| by
        have hall := List.drop_eq_nil_iff.mp hnothing
        obtain rfl : trail = [] := List.length_eq_zero_iff.mp (by omega)
        exact ⟨by rw [fileStem?_eq hname, hsplit, hdot]; rfl, htrail⟩ }
    have hdrop : p.text.toList.reverse.drop cs.length =
        (cs.drop (cs.length - trail.length) ++ '.' :: stem) ++ p.beforeLast := by
      rw [← htrail, List.drop_append, List.drop_eq_nil_of_le (by omega), p.reversed_eq, hlast,
        List.append_assoc, List.drop_append_of_le_length (by omega), List.nil_append,
        List.append_assoc]
    obtain ⟨hsome, hcutSplit, hcutBefore⟩ := hrest.parts_of_reversed
      (by rw [hreversed, hdrop, hrest.trimReversed_eq]) p.beforeLast_eq
    exact ⟨hsome, by rw [hcutSplit, hsplit], hcutBefore⟩

theorem withExtension_reversed (hname : p.fileName?.isSome) (hkept : ¬p.LosesName)
    (hextension : NamesExtension extension) :
    (p.withExtension extension).reversed =
      (extension.toList.reverse ++ '.' :: (splitReversed p.lastReversed).2) ++ p.beforeLast := by
  rw [withExtension]
  split
  · exact setExtension_reversed hname hextension
  · next old hold =>
    obtain ⟨hcut, hstem, hbefore⟩ := cut_extension hname hold hkept rfl
    rw [setExtension_reversed hcut hextension, hstem, hbefore]

/-- The path with another extension lies in the same directory and has the same stem. -/
theorem withExtension_parts (hname : p.fileName?.isSome) (hkept : ¬p.LosesName)
    (hextension : NamesExtension extension) :
    (p.withExtension extension).parent? = p.parent? ∧
      (p.withExtension extension).fileStem? = p.fileStem? ∧
      (p.withExtension extension).extension? = some extension := by
  obtain ⟨hstem, hslash⟩ := stem_of_fileName? hname
  obtain ⟨hsome, hsplit, hbefore⟩ := (hextension.splitName hstem hslash).parts_of_reversed
    (withExtension_reversed hname hkept hextension) p.beforeLast_eq
  refine ⟨?_, ?_, ?_⟩
  · rw [parent?_eq hsome, parent?_eq hname, hbefore]
  · rw [fileStem?_eq hsome, fileStem?_eq hname, hsplit]
  · rw [extension?_eq hsome, hsplit]
    simp

/-- A name whose stem is a single dot loses it with its extension. -/
theorem withExtension_of_losesName (hname : p.fileName?.isSome) (h : p.LosesName) :
    (p.withExtension extension).fileName? = none := by
  obtain ⟨hstem, htext⟩ := h
  rw [fileStem?_eq hname] at hstem
  have hstem : (splitReversed p.lastReversed).2 = ['.'] := by
    simpa [List.reverse_eq_iff] using congrArg String.toList (Option.some.inj hstem)
  obtain hsplit | ⟨cs, stem, -, hlast, hsplit⟩ := split_cases hname
  · rw [hsplit] at hstem
    exact absurd hstem (fileName?_isSome_iff.mp hname).2.1
  · rw [hsplit] at hstem
    obtain rfl : stem = ['.'] := hstem
    have hdrop : p.text.toList.reverse.drop cs.length = ['.', '.'] ++ p.beforeLast := by
      rw [← htext, p.reversed_eq, hlast, List.append_assoc, List.drop_left]
    have hreversed : (ofReversed (p.text.toList.reverse.drop cs.length)).reversed =
        ['.', '.'] ++ p.beforeLast := by
      rw [reversed_ofReversed, hdrop]
      exact trimReversed_dot (by decide)
    have hcut : (ofReversed (p.text.toList.reverse.drop cs.length)).fileName? = none := by
      rw [fileName?, (last_eq_of_reversed hreversed (by decide) p.beforeLast_eq).1]
      rfl
    rw [withExtension, extension?_eq hname, hsplit]
    simp [setExtension, hcut]

end GoalModel.Path
