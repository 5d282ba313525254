import ModuleBundler.Text.Basic

/-!
Lexical paths with Unix component rules.

A path is a flag for a leading `/` and a list of steps, each `..` or a name. Reading a path
text drops empty components and `.`; a normal path has every `..` before its first name.

Main statements: `normalize` gives a normal path (`normalize_isNormal`) and leaves a normal
path alone (`normalize_of_isNormal`).
-/

namespace ModuleBundler

/-- One component of a path after its optional root: `..` or a name. -/
inductive Step where
  | up
  | down (name : String)
  deriving DecidableEq, Repr

namespace Step

/-- The component as written. -/
def text : Step → String
  | up => ".."
  | down name => name

end Step

/-- A path: whether it starts at the root, then its steps. -/
structure Path where
  rooted : Bool
  steps : List Step
  deriving DecidableEq, Repr

namespace Path

/-- The empty relative path. -/
def empty : Path := ⟨false, []⟩

/-- The step a component text stands for; empty components and `.` stand for none. -/
def stepOf (part : String) : Option Step :=
  if part = "" ∨ part = "." then none
  else if part = ".." then some .up
  else some (.down part)

/-- A component text stands for a name only when it is itself a proper name. -/
theorem stepOf_eq_down {part n : String} (h : stepOf part = some (.down n)) :
    n = part ∧ part ≠ "" ∧ part ≠ "." ∧ part ≠ ".." := by
  unfold stepOf at h
  split at h
  · cases h
  · rename_i h1
    split at h
    · cases h
    · rename_i h2
      simp only [Option.some.injEq, Step.down.injEq] at h
      exact ⟨h.symm, fun e => h1 (Or.inl e), fun e => h1 (Or.inr e), h2⟩

/-- Reads a path text: a leading `/` makes it rooted, and the pieces between slashes become
steps. -/
def ofString (s : String) : Path :=
  ⟨s.startsWith "/", (s.splitOn "/").filterMap stepOf⟩

/-- The components as written, the root as `/`. -/
def componentTexts (p : Path) : List String :=
  (if p.rooted then ["/"] else []) ++ p.steps.map Step.text

/-- Writes a path: the root, then the steps joined by `/`. -/
def toString (p : Path) : String :=
  (if p.rooted then "/" else "") ++ "/".intercalate (p.steps.map Step.text)

instance : ToString Path := ⟨Path.toString⟩

/-- Appends `q` to `p`; a rooted `q` replaces `p`. -/
def join (p q : Path) : Path :=
  if q.rooted then q else ⟨p.rooted, p.steps ++ q.steps⟩

/-- Pushes one step onto the reversed steps of a normal path: `..` cancels a name before it
and is kept otherwise. -/
def pushStep : List Step → Step → List Step
  | .down _ :: rest, .up => rest
  | acc, s => s :: acc

/-- Removes `..` steps against the names before them, lexically. -/
def normalize (p : Path) : Path :=
  ⟨p.rooted, (p.steps.foldl pushStep []).reverse⟩

/-- A normal path: some `..` steps, then names only. -/
def IsNormal (p : Path) : Prop :=
  ∃ (k : Nat) (names : List String), p.steps = List.replicate k Step.up ++ names.map Step.down

/-- A name is always pushed. -/
@[simp] theorem pushStep_down (acc : List Step) (n : String) :
    pushStep acc (.down n) = .down n :: acc := by
  cases acc with
  | nil => rfl
  | cons s rest => cases s <;> rfl

/-- A list of `..` steps stays as it is under further `..` steps. -/
theorem foldl_pushStep_ups (j k : Nat) :
    (List.replicate k Step.up).foldl pushStep (List.replicate j Step.up) =
      List.replicate (k + j) Step.up := by
  induction k generalizing j with
  | zero => simp
  | succ k ih =>
    rw [List.replicate_succ, List.foldl_cons]
    have h : pushStep (List.replicate j Step.up) Step.up = List.replicate (j + 1) Step.up := by
      cases j <;> rfl
    rw [h, ih]
    congr 1
    omega

/-- Names are pushed as they come. -/
theorem foldl_pushStep_downs (acc : List Step) (names : List String) :
    (names.map Step.down).foldl pushStep acc = (names.map Step.down).reverse ++ acc := by
  induction names generalizing acc with
  | nil => simp
  | cons n ns ih =>
    simp only [List.map_cons, List.foldl_cons, List.reverse_cons, List.append_assoc,
      List.singleton_append]
    rw [ih, pushStep_down]

/-- The reversed steps of a normal path: its names from last to first, then its `..` steps. -/
def Reduced (acc : List Step) : Prop :=
  ∃ (k : Nat) (names : List String),
    acc = (names.map Step.down).reverse ++ List.replicate k Step.up

/-- Pushing a step keeps the reversed steps of a normal path in that shape. -/
theorem reduced_pushStep {acc : List Step} (h : Reduced acc) (s : Step) :
    Reduced (pushStep acc s) := by
  obtain ⟨k, names, rfl⟩ := h
  cases s with
  | up =>
    rcases List.eq_nil_or_concat names with rfl | ⟨init, x, rfl⟩
    · refine ⟨k + 1, [], ?_⟩
      cases k <;> rfl
    · refine ⟨k, init, ?_⟩
      simp only [List.concat_eq_append, List.map_append, List.map_cons, List.map_nil,
        List.reverse_append, List.reverse_cons, List.reverse_nil, List.nil_append,
        List.cons_append]
      rfl
  | down n =>
    refine ⟨k, names ++ [n], ?_⟩
    simp only [pushStep_down, List.map_append, List.map_cons, List.map_nil, List.reverse_append,
      List.reverse_cons, List.reverse_nil, List.nil_append, List.cons_append]

/-- Pushing any steps keeps the shape. -/
theorem reduced_foldl {acc : List Step} (h : Reduced acc) (l : List Step) :
    Reduced (l.foldl pushStep acc) := by
  induction l generalizing acc with
  | nil => exact h
  | cons s rest ih => exact ih (reduced_pushStep h s)

/-- Every step that the pushes keep was there before or was pushed. -/
theorem mem_foldl_pushStep {acc l : List Step} {x : Step} (h : x ∈ l.foldl pushStep acc) :
    x ∈ acc ∨ x ∈ l := by
  induction l generalizing acc with
  | nil => exact Or.inl h
  | cons s rest ih =>
    rcases ih h with h' | h'
    · unfold pushStep at h'
      split at h'
      · exact Or.inl (List.mem_cons_of_mem _ h')
      · rcases List.mem_cons.mp h' with rfl | h''
        · exact Or.inr List.mem_cons_self
        · exact Or.inl h''
    · exact Or.inr (List.mem_cons_of_mem _ h')

/-- A normalised path is normal. -/
theorem normalize_isNormal (p : Path) : p.normalize.IsNormal := by
  obtain ⟨k, names, h⟩ := reduced_foldl (⟨0, [], rfl⟩ : Reduced []) p.steps
  refine ⟨k, names, ?_⟩
  simp only [normalize, h, List.reverse_append, List.reverse_reverse, List.reverse_replicate]

/-- Normalising leaves a normal path alone. -/
theorem normalize_of_isNormal {p : Path} (h : p.IsNormal) : p.normalize = p := by
  obtain ⟨k, names, hs⟩ := h
  have hf : p.steps.foldl pushStep [] = (names.map Step.down).reverse ++ List.replicate k Step.up := by
    rw [hs, List.foldl_append]
    have := foldl_pushStep_ups 0 k
    simp only [List.replicate_zero, Nat.add_zero] at this
    rw [this, foldl_pushStep_downs]
  cases p
  simp only [normalize, hf, List.reverse_append, List.reverse_reverse, List.reverse_replicate]
  exact congrArg _ hs.symm

/-- Normalising twice is normalising once. -/
theorem normalize_normalize (p : Path) : p.normalize.normalize = p.normalize :=
  normalize_of_isNormal (normalize_isNormal p)

/-- Normalising after a join may start from the normalised first path. -/
theorem normalize_join (a b : Path) : (a.join b).normalize = (a.normalize.join b).normalize := by
  unfold join
  split
  · rfl
  · have h := congrArg Path.steps (normalize_normalize a)
    simp only [normalize, List.reverse_inj] at h
    simp only [normalize, List.foldl_append, h]

/-- The path without its last step, when it has one. -/
def parent? (p : Path) : Option Path :=
  if p.steps.isEmpty then none else some ⟨p.rooted, p.steps.dropLast⟩

/-- The name of the last step, when it is a name. -/
def fileName? (p : Path) : Option String :=
  match p.steps.getLast? with
  | some (.down name) => some name
  | _ => none

/-- The position of the dot that starts the extension of a file name: the last dot, unless it
is the first character. -/
def extensionDot? (name : String) : Option Nat :=
  match (name.toList.zipIdx.filter (·.1 = '.')).getLast? with
  | some (_, 0) => none
  | some (_, i) => some i
  | none => none

/-- Whether the file name has an extension (possibly empty, as in `a.`). -/
def hasExtension (p : Path) : Bool :=
  match p.fileName? with
  | some name => (extensionDot? name).isSome
  | none => false

/-- The file name without its extension. -/
def fileStem? (p : Path) : Option String :=
  p.fileName?.map fun name =>
    match extensionDot? name with
    | some i => String.ofList (name.toList.take i)
    | none => name

/-- Appends `.ext` to the file name of a path without extension; a path with no file name is
left as it is. -/
def addExtension (p : Path) (ext : String) : Path :=
  match p.steps.getLast? with
  | some (.down name) => ⟨p.rooted, p.steps.dropLast ++ [.down (name ++ "." ++ ext)]⟩
  | _ => p

/-- The components of `p` after those of `base`, when `base` is a prefix of `p` component by
component. -/
def stripPrefix? (p base : Path) : Option (List String) :=
  let pc := p.componentTexts
  let bc := base.componentTexts
  if bc.isPrefixOf pc then some (pc.drop bc.length) else none

end Path

end ModuleBundler
