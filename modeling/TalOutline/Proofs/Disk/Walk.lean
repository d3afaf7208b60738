import TalOutline.Disk.Tree

/-!
Where paths lead in directories that are the same but for the contents of one file. A walk along a path
takes the same way in both, so it makes a difference only if it ends at that file.
-/
namespace TalOutline

/-- The names that a path leads along from the start, unless it begins or goes above the start. -/
def Path.place? (path : String) : Option (List String) :=
  if path.toList.head? = some '/' then none else (steps path).foldlM Step.follow []

namespace Location

def walk (steps : List Path.Step) (start : Location) : Except ReadError Location :=
  steps.foldlM (fun place step => place.step step) start

def outcome : Except ReadError Location → Entry
  | .ok place => place.entry
  | .error .notDirectory => .notDirectory
  | .error _ => .missing

end Location

theorem FileNode.disk_eq_outcome (root : FileNode) {path : String} (hempty : path.isEmpty = false)
    (habsolute : path.toList.head? ≠ some '/') :
    root.disk path = Location.outcome (Location.walk (Path.steps path) (.inside root [])) := by
  simp only [disk, hempty, habsolute, if_false]
  rfl

namespace FileNode

/-- Directories that are the same, but for a file at a place which has other contents. -/
inductive DifferAt (a b : ByteArray) : List String → FileNode → FileNode → Prop
  | file : DifferAt a b [] (.file a) (.file b)
  | folder {name : String} {place : List String} {nodes nodes' : List (String × FileNode)}
      {node node' : FileNode} :
    nodes.lookup name = some node → nodes'.lookup name = some node' → DifferAt a b place node node' →
      (∀ other, other ≠ name → nodes.lookup other = nodes'.lookup other) →
      DifferAt a b (name :: place) (.folder nodes) (.folder nodes')

variable {a b : ByteArray} {place : List String}

/-- The nodes that two walks have reached at a place, with the folders above them, innermost first. -/
inductive Abreast (a b : ByteArray) (place : List String) :
    List String → List FileNode → List FileNode → Prop
  | start {root root' : FileNode} : DifferAt a b place root root' → Abreast a b place [] [root] [root']
  | off {here : List String} {name : String} {node : FileNode} {above above' : List FileNode} :
    Abreast a b place here above above' →
      Abreast a b place (here ++ [name]) (node :: above) (node :: above')
  | along {here onward : List String} {name : String} {node node' : FileNode}
      {above above' : List FileNode} :
    Abreast a b place here above above' → place = here ++ name :: onward →
      DifferAt a b onward node node' →
      Abreast a b place (here ++ [name]) (node :: above) (node' :: above')

/-- What two walks come to: the same, or nodes that they have reached abreast. -/
inductive Met (a b : ByteArray) (place : List String) :
    Option (List String) → Except ReadError Location → Except ReadError Location → Prop
  | same (here : Option (List String)) (result : Except ReadError Location) :
    Met a b place here result result
  | abreast {here : List String} {node node' : FileNode} {above above' : List FileNode} :
    Abreast a b place here (node :: above) (node' :: above') →
      Met a b place (some here) (.ok (.inside node above)) (.ok (.inside node' above'))

namespace Abreast

variable {here : List String} {node node' : FileNode} {above above' : List FileNode}

theorem same_or_differ (h : Abreast a b place here (node :: above) (node' :: above')) :
    node = node' ∨ ∃ onward, place = here ++ onward ∧ DifferAt a b onward node node' := by
  cases h with
  | start hdiffer => exact .inr ⟨place, rfl, hdiffer⟩
  | off => exact .inl rfl
  | along _ hplace hdiffer => exact .inr ⟨_, by rw [hplace, List.append_assoc]; rfl, hdiffer⟩

theorem exists_cons {nodes nodes' : List FileNode} (h : Abreast a b place here nodes nodes') :
    ∃ node above node' above', nodes = node :: above ∧ nodes' = node' :: above' := by
  cases h <;> exact ⟨_, _, _, _, rfl, rfl⟩

theorem above_cases (h : Abreast a b place here (node :: above) (node' :: above')) :
    (here = [] ∧ above = [] ∧ above' = []) ∨
      ∃ outer name, here = outer ++ [name] ∧ Abreast a b place outer above above' := by
  cases h with
  | start => exact .inl ⟨rfl, rfl, rfl⟩
  | off h => exact .inr ⟨_, _, rfl, h⟩
  | along h => exact .inr ⟨_, _, rfl, h⟩

theorem up {nodes nodes' : List (String × FileNode)}
    (h : Abreast a b place here (.folder nodes :: above) (.folder nodes' :: above')) :
    Met a b place (Path.Step.follow here .up) (Location.step .up (.inside (.folder nodes) above))
      (Location.step .up (.inside (.folder nodes') above')) := by
  rcases h.above_cases with ⟨-, rfl, rfl⟩ | ⟨outer, name, rfl, houter⟩
  · exact .same _ _
  · obtain ⟨_, _, _, _, rfl, rfl⟩ := houter.exists_cons
    have hfollow : Path.Step.follow (outer ++ [name]) .up = some outer := by simp [Path.Step.follow]
    rw [hfollow]
    exact .abreast houter

theorem down {nodes nodes' : List (String × FileNode)}
    (h : Abreast a b place here (.folder nodes :: above) (.folder nodes' :: above')) (name : String) :
    Met a b place (Path.Step.follow here (.down name))
      (Location.step (.down name) (.inside (.folder nodes) above))
      (Location.step (.down name) (.inside (.folder nodes') above')) := by
  have hoff (heq : nodes.lookup name = nodes'.lookup name) :
      Met a b place (Path.Step.follow here (.down name))
        (Location.step (.down name) (.inside (.folder nodes) above))
        (Location.step (.down name) (.inside (.folder nodes') above')) := by
    simp only [Location.step, ← heq]
    cases nodes.lookup name with
    | none => exact .same _ _
    | some node => exact .abreast h.off
  rcases h.same_or_differ with heq | ⟨onward, hplace, hdiffer⟩
  · rw [FileNode.folder.injEq] at heq
    exact hoff (by rw [heq])
  · cases hdiffer with
    | @folder next _ _ _ _ _ hnode hnode' hbelow hother =>
      by_cases hname : name = next
      · rw [hname]
        simp only [Location.step, hnode, hnode']
        exact .abreast (h.along hplace hbelow)
      · exact hoff (hother name hname)

theorem step (h : Abreast a b place here (node :: above) (node' :: above')) (s : Path.Step) :
    Met a b place (s.follow here) (Location.step s (.inside node above))
      (Location.step s (.inside node' above')) := by
  have hkinds : (∃ c c', node = .file c ∧ node' = .file c') ∨
      ∃ nodes nodes', node = .folder nodes ∧ node' = .folder nodes' := by
    rcases h.same_or_differ with rfl | ⟨_, -, hdiffer⟩
    · cases node with
      | file c => exact .inl ⟨c, c, rfl, rfl⟩
      | folder nodes => exact .inr ⟨nodes, nodes, rfl, rfl⟩
    · cases hdiffer with
      | file => exact .inl ⟨a, b, rfl, rfl⟩
      | folder => exact .inr ⟨_, _, rfl, rfl⟩
  rcases hkinds with ⟨c, c', rfl, rfl⟩ | ⟨nodes, nodes', rfl, rfl⟩
  · cases s <;> exact .same _ (.error .notDirectory)
  · cases s with
    | stay => exact .abreast h
    | up => exact h.up
    | down name => exact h.down name

end Abreast

/-- Two walks that have met so far meet again, however many steps they go on with. -/
theorem Met.walk {here : Option (List String)} {result result' : Except ReadError Location}
    (h : Met a b place here result result') (steps : List Path.Step) :
    Met a b place (here.bind (steps.foldlM Path.Step.follow ·)) (result.bind (Location.walk steps))
      (result'.bind (Location.walk steps)) := by
  induction steps generalizing here result result' with
  | nil =>
    cases h with
    | same => exact .same _ _
    | abreast h => exact .abreast h
  | cons s steps ih =>
    cases h with
    | same => exact .same _ _
    | abreast h => exact ih (h.step s)

theorem Met.outcome {here : Option (List String)} {result result' : Except ReadError Location}
    (h : Met a b place here result result') :
    Location.outcome result = Location.outcome result' ∨
      (here = some place ∧ Location.outcome result = .file a ∧ Location.outcome result' = .file b) := by
  cases h with
  | same => exact .inl rfl
  | @abreast _ node _ _ _ h =>
    rcases h.same_or_differ with rfl | ⟨onward, hplace, hdiffer⟩
    · cases node <;> exact .inl rfl
    · cases hdiffer with
      | file =>
        rw [List.append_nil] at hplace
        exact .inr ⟨by rw [hplace], rfl, rfl⟩
      | folder => exact .inl rfl

/-- A path leads to the file at a place, if it can be followed to there. -/
def LeadsTo (root : FileNode) (path : String) (place : List String) : Prop :=
  Path.place? path = some place ∧ (root.disk path).isFile

/-- A path leads to the same in both directories, unless it leads to the file that is different. -/
theorem disk_of_differAt {root root' : FileNode} (h : DifferAt a b place root root') (path : String) :
    root.disk path = root'.disk path ∨
      (root.LeadsTo path place ∧ root.disk path = .file a ∧ root'.disk path = .file b) := by
  by_cases hempty : path.isEmpty = true
  · exact .inl (by simp [disk, hempty])
  by_cases habsolute : path.toList.head? = some '/'
  · exact .inl (by simp [disk, habsolute])
  rw [Bool.not_eq_true] at hempty
  have hplace : Path.place? path = (Path.steps path).foldlM Path.Step.follow [] := if_neg habsolute
  have hend := ((Met.abreast (.start h)).walk (Path.steps path)).outcome
  rw [LeadsTo, hplace, disk_eq_outcome root hempty habsolute, disk_eq_outcome root' hempty habsolute]
  refine hend.imp_right ?_
  rintro ⟨hthere, hfile, hfile'⟩
  refine ⟨⟨hthere, ?_⟩, hfile, hfile'⟩
  exact congrArg Entry.isFile hfile

end FileNode

end TalOutline
