import TalOutline.Proofs.Text.Split
import TalOutline.Settings.File

/-!
What stands beside a path. The directory of a path is found in its text, and a name is joined to it as
text; what counts are the steps that the text stands for. Those of the path beside are the same but for the
last one, which goes to the name.
-/
namespace TalOutline.Path

/-- The steps of a path that lead somewhere else. -/
def moves (path : List Char) : List Step :=
  ((parts path).map Step.ofPart).filter (· ≠ .stay)

def IsAbsolute (path : List Char) : Prop :=
  path.head? = some '/'

theorem parts_eq_splitOn (path : List Char) : parts path = path.splitOn '/' := by
  apply Text.eq_splitOn_of_cons
  · rfl
  · intro rest
    rfl
  · intro c rest part more hc hrest
    rw [parts, if_neg hc, hrest]

theorem moves_append_slash (path rest : List Char) :
    moves (path ++ '/' :: rest) = moves path ++ moves rest := by
  simp only [moves, parts_eq_splitOn, List.splitOn_append_cons_self, List.map_append,
    List.filter_append]

@[simp] theorem moves_nil : moves [] = [] :=
  rfl

@[simp] theorem moves_point : moves ['.'] = [] := by
  decide

@[simp] theorem moves_slash_cons (rest : List Char) : moves ('/' :: rest) = moves rest :=
  moves_append_slash [] rest

theorem moves_append_slash_end (path : List Char) : moves (path ++ ['/']) = moves path := by
  rw [moves_append_slash, moves_nil, List.append_nil]

theorem moves_part {part : List Char} (h : '/' ∉ part) (hstep : Step.ofPart part ≠ .stay) :
    moves part = [Step.ofPart part] := by
  rw [moves, parts_eq_splitOn, List.splitOn_eq_singleton h]
  simp [hstep]

/-! Trimming the end of a path leads nowhere else, and leaves a part at the end that does. -/

theorem moves_trimReversed (path : List Char) :
    moves (trimReversed path).reverse = moves path.reverse := by
  fun_induction trimReversed path with
  | case1 rest ih => rw [ih, List.reverse_cons, moves_append_slash_end]
  | case2 => rfl
  | case3 rest ih =>
    have hreverse : ('.' :: '/' :: rest).reverse = rest.reverse ++ '/' :: ['.'] := by simp
    rw [ih, hreverse, moves_append_slash, moves_point, List.append_nil]
  | case4 path => rfl

theorem trimReversed_suffix (path : List Char) : trimReversed path <:+ path := by
  fun_induction trimReversed path with
  | case1 rest ih => exact ih.trans (List.suffix_cons _ _)
  | case2 => exact List.nil_suffix
  | case3 rest ih => exact ih.trans ((List.suffix_cons _ _).trans (List.suffix_cons _ _))
  | case4 path => exact List.suffix_rfl

/-- What is left of a path without the part at its end stands at its front. -/
theorem trimReversed_dropWhile_prefix (path : List Char) :
    (trimReversed ((trimReversed path.reverse).dropWhile (· != '/'))).reverse <+: path := by
  rw [← List.reverse_suffix, List.reverse_reverse]
  exact (trimReversed_suffix _).trans ((List.dropWhile_suffix _).trans (trimReversed_suffix _))

theorem ofPart_eq_stay_iff {part : List Char} : Step.ofPart part = .stay ↔ part = [] ∨ part = ['.'] := by
  unfold Step.ofPart
  split
  · next h => simpa using h
  · next h =>
    have hpart : ¬(part = [] ∨ part = ['.']) := by simpa using h
    constructor
    · split <;> exact nofun
    · exact fun hnot => absurd hnot hpart

/-- A path that is trimmed and not empty ends in a part that leads somewhere else. -/
theorem ofPart_trimReversed {path : List Char} (h : trimReversed path ≠ []) :
    Step.ofPart ((trimReversed path).takeWhile (· != '/')).reverse ≠ .stay := by
  fun_induction trimReversed path with
  | case1 rest ih => exact ih h
  | case2 => exact absurd rfl h
  | case3 rest ih => exact ih h
  | case4 path hslash hpoint hpointSlash =>
    cases path with
    | nil => exact absurd rfl h
    | cons c rest =>
      have hc : (c != '/') = true := bne_iff_ne.2 fun hc => hslash rest (by rw [hc])
      rw [List.takeWhile_cons, hc, if_pos rfl, Ne, ofPart_eq_stay_iff, not_or]
      refine ⟨by simp, ?_⟩
      intro hreverse
      have hpart : c :: rest.takeWhile (· != '/') = ['.'] := List.reverse_inj.1 hreverse
      obtain ⟨rfl, hnil⟩ := List.cons.inj hpart
      cases rest with
      | nil => exact hpoint rfl
      | cons d rest =>
        have hd : d = '/' := by simpa using hnil
        exact hpointSlash rest (by rw [hd])

/-- Without the part at its end a trimmed path makes one step less. -/
theorem moves_trimReversed_eq {path : List Char} (h : trimReversed path ≠ []) :
    moves path.reverse =
      moves ((trimReversed path).dropWhile (· != '/')).reverse ++
        [Step.ofPart ((trimReversed path).takeWhile (· != '/')).reverse] := by
  have hstep := ofPart_trimReversed h
  rw [← moves_trimReversed]
  generalize trimReversed path = body at hstep
  have hpart : '/' ∉ (body.takeWhile (· != '/')).reverse := by
    intro hmem
    have hne := List.mem_takeWhile_imp (List.mem_reverse.1 hmem)
    exact absurd rfl (bne_iff_ne.1 hne)
  have hsplit : body.reverse =
      (body.dropWhile (· != '/')).reverse ++ (body.takeWhile (· != '/')).reverse := by
    rw [← List.reverse_append, List.takeWhile_append_dropWhile]
  rw [hsplit]
  cases hbehind : body.dropWhile (· != '/') with
  | nil => rw [List.reverse_nil, List.nil_append, moves_nil, List.nil_append, moves_part hpart hstep]
  | cons c rest =>
    have hnot := List.head?_dropWhile_not (· != '/') body
    rw [hbehind] at hnot
    have hc : c = '/' := by simpa using hnot
    rw [hc, List.reverse_cons, moves_append_slash_end, List.append_assoc, List.singleton_append,
      moves_append_slash, moves_part hpart hstep]

/-! A `/` or a point at the front of a path stays in front of its directory. -/

theorem moves_drop_front (path : List Char) : moves (path.drop (frontLength path)) = moves path := by
  unfold frontLength
  split
  · rw [List.drop_one, List.tail_cons, moves_slash_cons]
  · rfl
  · next rest =>
    have hpoint : '.' :: '/' :: rest = ['.'] ++ '/' :: rest := rfl
    rw [List.drop_one, List.tail_cons, hpoint, moves_append_slash, moves_point, moves_slash_cons,
      List.nil_append]
  · rw [List.drop_zero]

theorem moves_front_append {path rest : List Char} (h : rest <+: path.drop (frontLength path)) :
    moves (path.take (frontLength path) ++ rest) = moves rest := by
  unfold frontLength at h ⊢
  split at h
  · exact moves_slash_cons rest
  · rw [List.drop_one, List.tail_cons, List.prefix_nil] at h
    rw [h]
    rfl
  · cases rest with
    | nil => rfl
    | cons c rest =>
      obtain ⟨rfl, -⟩ := List.cons_prefix_cons.1 h
      exact (moves_append_slash ['.'] rest).trans (by rw [moves_point, moves_slash_cons]; rfl)
  · rfl

theorem isAbsolute_front_append {path rest : List Char} (h : rest <+: path.drop (frontLength path)) :
    IsAbsolute (path.take (frontLength path) ++ rest) ↔ IsAbsolute path := by
  unfold frontLength at h ⊢
  split at h
  · exact Iff.rfl
  · exact Iff.rfl
  · exact Iff.rfl
  · next hslash _ _ =>
    have hpath : ¬IsAbsolute path := by
      intro hhead
      obtain ⟨tail, htail⟩ := List.head?_eq_some_iff.1 hhead
      exact hslash tail htail
    refine iff_of_false ?_ hpath
    intro hrest
    obtain ⟨tail, rfl⟩ := List.head?_eq_some_iff.1 hrest
    obtain ⟨behind, hbehind⟩ := h
    exact hslash (tail ++ behind) hbehind.symm

/-- A path with a step has a directory, to which the path leads with all its steps but the last. -/
theorem exists_parent? {path : String} {before : List Step} {last : Step}
    (h : moves path.toList = before ++ [last]) :
    ∃ dir, parent? path = some dir ∧ moves dir.toList = before ∧
      (IsAbsolute dir.toList ↔ IsAbsolute path.toList) := by
  rw [← moves_drop_front] at h
  have hbody : trimReversed (path.toList.drop (frontLength path.toList)).reverse ≠ [] := by
    intro hnil
    have hmoves := moves_trimReversed (path.toList.drop (frontLength path.toList)).reverse
    rw [hnil, List.reverse_reverse, h] at hmoves
    exact List.append_ne_nil_of_right_ne_nil before (List.cons_ne_nil last []) hmoves.symm
  have hsteps := moves_trimReversed_eq hbody
  rw [List.reverse_reverse, h] at hsteps
  obtain ⟨hbefore, -⟩ := List.append_inj' hsteps rfl
  have hprefix := trimReversed_dropWhile_prefix (path.toList.drop (frontLength path.toList))
  refine ⟨_, if_neg (by simpa using hbody), ?_⟩
  rw [String.toList_ofList, moves_front_append hprefix, moves_trimReversed]
  exact ⟨hbefore.symm, isAbsolute_front_append hprefix⟩

theorem moves_join (dir name : String) :
    moves (join dir name).toList = moves dir.toList ++ moves name.toList := by
  unfold join
  split
  · next hnone =>
    rw [List.getLast?_eq_none_iff.1 hnone, moves_nil, List.nil_append]
  · next c hlast =>
    obtain ⟨front, hfront⟩ := List.getLast?_eq_some_iff.1 hlast
    by_cases hc : c = '/'
    · rw [if_pos hc, String.toList_append, hfront, hc, moves_append_slash_end, List.append_assoc,
        List.singleton_append, moves_append_slash]
    · have hslash : "/".toList = ['/'] := rfl
      rw [if_neg hc, String.toList_append, String.toList_append, hslash, List.append_assoc,
        List.singleton_append, moves_append_slash]

theorem isAbsolute_join {dir name : String} (hname : ¬IsAbsolute name.toList) :
    IsAbsolute (join dir name).toList ↔ IsAbsolute dir.toList := by
  unfold join
  split
  · next hnone =>
    rw [List.getLast?_eq_none_iff.1 hnone]
    exact iff_of_false hname nofun
  · next c hlast =>
    obtain ⟨first, rest, hdir⟩ : ∃ first rest, dir.toList = first :: rest := by
      cases hdir : dir.toList with
      | nil => rw [hdir] at hlast; cases hlast
      | cons first rest => exact ⟨first, rest, rfl⟩
    split
    · rw [String.toList_append, hdir]
      exact Iff.rfl
    · rw [String.toList_append, String.toList_append, hdir]
      exact Iff.rfl

/-- The path of the settings beside an input. -/
def settingsBeside (input : String) : String :=
  join ((parent? input).getD ".") Settings.fileName

/-- The settings beside an input lie where the input does, under their own name. -/
theorem moves_settingsBeside {input : String} {before : List Step} {last : Step}
    (h : moves input.toList = before ++ [last]) :
    moves (settingsBeside input).toList = before ++ [.down Settings.fileName] ∧
      (IsAbsolute (settingsBeside input).toList ↔ IsAbsolute input.toList) := by
  obtain ⟨dir, hdir, hmoves, habsolute⟩ := exists_parent? h
  have hname : moves Settings.fileName.toList = [.down Settings.fileName] := by decide
  have hrelative : ¬IsAbsolute Settings.fileName.toList := by
    unfold IsAbsolute
    decide
  rw [settingsBeside, hdir, Option.getD_some, moves_join, hmoves, hname, isAbsolute_join hrelative]
  exact ⟨rfl, habsolute⟩

end TalOutline.Path
