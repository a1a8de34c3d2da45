import GoalModel.Files.Disk
import Mathlib.Data.List.TakeWhile

/-! # Components of paths

A path leads through the components that name something (`Path.named`), whatever stands between
and behind them. So a path with a file name takes the steps of its directory and then the name
(`Path.route_of_fileName?`), and joining a name to a path adds a step (`Path.route_join`). -/

namespace GoalModel.Path

variable {p parent : Path} {name : String} {cs rest : List Char}

/-! ## Components that name something -/

theorem splitSlashes_ne_nil (cs : List Char) : splitSlashes cs ≠ [] := by
  cases cs with
  | nil => exact List.cons_ne_nil _ _
  | cons c cs =>
    rw [splitSlashes]
    split
    · exact List.cons_ne_nil _ _
    · split <;> exact List.cons_ne_nil _ _

theorem splitSlashes_append (cs rest : List Char) :
    splitSlashes (cs ++ '/' :: rest) = splitSlashes cs ++ splitSlashes rest := by
  induction cs with
  | nil => simp [splitSlashes]
  | cons c cs ih =>
    rw [List.cons_append, splitSlashes, splitSlashes, ih]
    split
    · rfl
    · obtain ⟨first, others, hsplit⟩ := List.exists_cons_of_ne_nil (splitSlashes_ne_nil cs)
      rw [hsplit]
      rfl

theorem splitSlashes_of_notMem (hcs : '/' ∉ cs) : splitSlashes cs = [cs] := by
  induction cs with
  | nil => rfl
  | cons c cs ih =>
    obtain ⟨hc, hcs⟩ := not_or.mp (List.mem_cons.not.mp hcs)
    rw [splitSlashes, if_neg (Ne.symm hc), ih hcs]

/-- The components that are neither empty nor a single dot. -/
def named (cs : List Char) : List (List Char) :=
  ((splitSlashes cs).filter fun part => !part.isEmpty).filter (· ≠ ['.'])

theorem named_nil : named [] = [] := rfl

theorem named_append (cs rest : List Char) :
    named (cs ++ '/' :: rest) = named cs ++ named rest := by
  rw [named, splitSlashes_append, List.filter_append, List.filter_append]
  rfl

theorem named_of_notMem (hcs : '/' ∉ cs) (hne : cs ≠ []) (hdot : cs ≠ ['.']) :
    named cs = [cs] := by
  simp [named, splitSlashes_of_notMem hcs, hne, hdot]

/-- What is passed over at the end of a path names nothing. -/
theorem named_trimReversed (cs : List Char) :
    named (trimReversed cs).reverse = named cs.reverse := by
  have hslash (rest : List Char) : named ('/' :: rest).reverse = named rest.reverse := by
    rw [List.reverse_cons, named_append]
    exact List.append_nil _
  fun_induction trimReversed cs with
  | case1 => rfl
  | case2 rest _ ih => rw [ih, hslash]
  | case3 rest ih =>
    have hdot : ('.' :: '/' :: rest).reverse = rest.reverse ++ '/' :: ['.'] := by simp
    rw [ih, hslash, hdot, named_append]
    exact (List.append_nil _).symm
  | case4 => rfl

/-- Nor does it tell where the path starts. -/
theorem getLast?_trimReversed (cs : List Char) :
    (trimReversed cs).getLast? = cs.getLast? := by
  fun_induction trimReversed cs with
  | case1 => rfl
  | case2 rest hrest ih =>
    rw [ih]
    cases rest with
    | nil => exact absurd rfl hrest
    | cons => rfl
  | case3 rest ih => exact ih
  | case4 => rfl

/-! ## The last component -/

theorem reversed_eq (p : Path) : p.reversed = p.lastReversed ++ p.beforeLast :=
  (List.takeWhile_append_dropWhile ..).symm

theorem slash_notMem_lastReversed (p : Path) : '/' ∉ p.lastReversed := by
  intro hmem
  simpa using List.mem_takeWhile_imp hmem

/-- What stands before the last component ends in a slash. -/
theorem beforeLast_eq (p : Path) : p.beforeLast = [] ∨ ∃ rest, p.beforeLast = '/' :: rest := by
  have hhead := List.head?_dropWhile_not (· ≠ '/') p.reversed
  rw [← beforeLast] at hhead
  cases hbefore : p.beforeLast with
  | nil => exact .inl rfl
  | cons c rest =>
    rw [hbefore] at hhead
    exact .inr ⟨rest, congrArg (· :: rest) (by simpa using hhead)⟩

/-- A name that a file can have. -/
structure NamesFile (name : String) : Prop where
  noSlash : '/' ∉ name.toList
  nonempty : name.toList ≠ []
  notDot : name.toList ≠ ['.']
  notDots : name.toList ≠ ['.', '.']

theorem fileName?_eq_some_iff :
    p.fileName? = some name ↔ p.lastReversed = name.toList.reverse ∧ NamesFile name := by
  rw [fileName?]
  constructor
  · intro h
    split at h
    · cases h
    · next hnone =>
      simp only [not_or] at hnone
      obtain rfl := Option.some.inj h
      refine ⟨by simp, ⟨?_, ?_, ?_, ?_⟩⟩
      · simpa using p.slash_notMem_lastReversed
      · simpa using hnone.1
      · simpa [List.reverse_eq_iff] using hnone.2.1
      · simpa [List.reverse_eq_iff] using hnone.2.2
  · rintro ⟨hlast, hname⟩
    have hsome : ¬(name.toList.reverse = [] ∨ name.toList.reverse = ['.'] ∨
        name.toList.reverse = ['.', '.']) := by
      simp [List.reverse_eq_iff, hname.nonempty, hname.notDot, hname.notDots]
    rw [hlast, if_neg hsome, List.reverse_reverse, String.ofList_toList]

/-- A path with a file name lies in a directory. -/
theorem exists_parent? (hname : p.fileName? = some name) :
    p.parent? = some (ofReversed (trimReversed p.beforeLast)) := by
  obtain ⟨hlast, hname⟩ := fileName?_eq_some_iff.mp hname
  obtain ⟨c, cs, hcs⟩ := List.exists_cons_of_ne_nil (List.reverse_eq_nil_iff.not.mpr hname.nonempty)
  have hc : c ≠ '/' := by
    rintro rfl
    exact hname.noSlash (List.mem_reverse.mp (hcs ▸ List.mem_cons_self))
  rw [parent?, if_neg]
  simp [reversed_eq, hlast, hcs, hc]

/-! ## Routes -/

theorem route_steps (p : Path) : p.route.steps = (named p.text.toList).map String.ofList := rfl

theorem route_absolute (p : Path) :
    p.route.absolute = (p.text.toList.head? == some '/') := rfl

theorem named_text (p : Path) : named p.text.toList = named p.reversed.reverse := by
  rw [reversed, named_trimReversed, List.reverse_reverse]

theorem head?_text (p : Path) : p.text.toList.head? = p.reversed.reverse.head? := by
  rw [List.head?_reverse, reversed, getLast?_trimReversed, List.getLast?_reverse]

section
variable (hname : NamesFile name)
include hname

theorem NamesFile.named_eq : named name.toList = [name.toList] :=
  named_of_notMem hname.noSlash hname.nonempty hname.notDot

/-- With an ending behind it, it still is a name. -/
theorem NamesFile.append {ending : String} (hslash : '/' ∉ ending.toList)
    (hending : 1 < ending.toList.length) : NamesFile (name ++ ending) := by
  have hlength : 0 < name.toList.length := List.length_pos_iff.mpr hname.nonempty
  have hlong : 2 < (name ++ ending).toList.length := by
    rw [String.toList_append, List.length_append]
    omega
  refine ⟨?_, ?_, ?_, ?_⟩
  · simp [hname.noSlash, hslash]
  all_goals
    intro heq
    simp [heq] at hlong

theorem NamesFile.head?_ne : ¬name.toList.head? = some '/' :=
  fun hhead => hname.noSlash (List.mem_of_mem_head? hhead)

/-- A name behind a slash is a component of its own. -/
theorem NamesFile.named_append (cs : List Char) :
    named (cs ++ '/' :: name.toList) = named cs ++ [name.toList] := by
  rw [Path.named_append, hname.named_eq]

end

/-- A path with a file name leads to its directory first. -/
theorem route_of_fileName? (hname : p.fileName? = some name) (hparent : p.parent? = some parent) :
    p.route.steps = parent.route.steps ++ [name] ∧ p.route.absolute = parent.route.absolute := by
  obtain rfl := Option.some.inj ((exists_parent? hname).symm.trans hparent)
  obtain ⟨hlast, hname⟩ := fileName?_eq_some_iff.mp hname
  have hdirectory : named (ofReversed (trimReversed p.beforeLast)).text.toList =
      named p.beforeLast.reverse := by
    rw [ofReversed, String.toList_ofList, named_trimReversed]
  have hstart : (ofReversed (trimReversed p.beforeLast)).text.toList.head? =
      p.beforeLast.getLast? := by
    rw [ofReversed, String.toList_ofList, List.head?_reverse, getLast?_trimReversed]
  have htext : p.reversed.reverse = p.beforeLast.reverse ++ name.toList := by
    rw [reversed_eq, hlast, List.reverse_append, List.reverse_reverse]
  rw [route_steps, route_steps, route_absolute, route_absolute, named_text, head?_text, htext,
    hdirectory, hstart]
  rcases p.beforeLast_eq with hbefore | ⟨rest, hbefore⟩ <;> rw [hbefore]
  · simp [hname.named_eq, hname.head?_ne, named_nil]
  · have hslash : ('/' :: rest).reverse ++ name.toList = rest.reverse ++ '/' :: name.toList := by
      simp
    rw [hslash, hname.named_append, List.reverse_cons, Path.named_append, named_nil]
    simp [List.head?_append, List.getLast?_cons]

/-- Joining a name to a path adds a step. -/
theorem route_join (hname : NamesFile name) :
    (p.join name).route.steps = p.route.steps ++ [name] ∧
      (p.join name).route.absolute = p.route.absolute := by
  rw [route_steps, route_steps, route_absolute, route_absolute, join]
  split
  · next hempty =>
    obtain rfl : p = ⟨""⟩ := congrArg Path.mk (by simpa using hempty)
    simp [hname.named_eq, hname.head?_ne, named_nil]
  · next hne =>
    split
    · next hroot =>
      have htext : ("/" ++ name).toList = [] ++ '/' :: name.toList := by simp
      have hnothing : named "/".toList = [] := rfl
      rw [htext, hname.named_append, hroot, hnothing]
      simp [named_nil]
    · obtain ⟨c, cs, hcs⟩ := List.exists_cons_of_ne_nil (l := p.text.toList) (by simpa using hne)
      have htext : (p.text ++ "/" ++ name).toList = p.text.toList ++ '/' :: name.toList := by simp
      rw [htext, hname.named_append, hcs]
      simp

/-- Another name in the same directory. -/
theorem route_withFileName {other : String} (hname : p.fileName? = some name)
    (hparent : p.parent? = some parent) (hother : NamesFile other) :
    (p.withFileName other).route.steps = parent.route.steps ++ [other] ∧
      (p.withFileName other).route.absolute = parent.route.absolute := by
  have hjoin : p.withFileName other = parent.join other := by
    rw [withFileName, hname, hparent]
    rfl
  rw [hjoin]
  exact route_join hother

end GoalModel.Path
