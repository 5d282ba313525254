import ModuleBundler.Service.Request
import ModuleBundler.Proofs.NormalPath
import Mathlib.Logic.Relation
import Mathlib.Data.List.Induction

/-!
Request paths stay inside the base directory.

A request path is read after its leading slashes, and normalising cancels each `..` step against
the nearest name before it that is still there. A `..` with no name left to cancel is kept, and
that happens exactly when some prefix of the steps holds more `..` steps than names
(`foldl_pushStep_cancel`). So a request is refused exactly then; otherwise the path it is
served from holds names only, is what the cancellations leave of the request's steps, and lies
below any base directory it is joined to (`requestPath_stays_inside`).
-/

namespace ModuleBundler

namespace Path

/-- Some prefix of the steps holds more `..` steps than names. -/
def ClimbsOut (steps : List Step) : Prop :=
  ∃ pre, pre <+: steps ∧ pre.length < 2 * pre.count .up

/-- A `..` step cancels the name right before it. -/
inductive Cancel : List Step → List Step → Prop
  | pair (x y : List Step) (n : String) : Cancel (x ++ .down n :: .up :: y) (x ++ y)

theorem Cancel.append_right {a b : List Step} (h : Cancel a b) (z : List Step) :
    Cancel (a ++ z) (b ++ z) := by
  cases h with
  | pair x y n => simpa using Cancel.pair x (y ++ z) n

theorem climbsOut_concat {l : List Step} {s : Step} :
    ClimbsOut (l ++ [s]) ↔ ClimbsOut l ∨ (l ++ [s]).length < 2 * (l ++ [s]).count .up := by
  constructor
  · rintro ⟨pre, hpre, hlt⟩
    rcases List.prefix_concat_iff.1 hpre with rfl | hpre
    · exact .inr hlt
    · exact .inl ⟨pre, hpre, hlt⟩
  · rintro (⟨pre, hpre, hlt⟩ | hlt)
    · exact ⟨pre, hpre.trans (List.prefix_append _ _), hlt⟩
    · exact ⟨_, List.prefix_refl _, hlt⟩

@[simp] theorem pushStep_down_up (n : String) (rest : List Step) :
    pushStep (.down n :: rest) .up = rest := rfl

@[simp] theorem count_up_concat_down (l : List Step) (n : String) :
    (l ++ [Step.down n]).count Step.up = l.count Step.up := by
  simp [List.count_append]

@[simp] theorem count_up_concat_up (l : List Step) : (l ++ [Step.up]).count Step.up = l.count Step.up + 1 := by
  simp [List.count_append]

/-- A list that does not climb out has at least as many names as `..` steps. -/
theorem count_up_le_of_not_climbsOut {l : List Step} (h : ¬ ClimbsOut l) :
    2 * l.count .up ≤ l.length :=
  Nat.le_of_not_lt fun hlt => h ⟨l, List.prefix_refl _, hlt⟩

/-- A step that, while no prefix has climbed out, leaves no more `..` steps than names keeps
whether some prefix climbs out. -/
theorem not_climbsOut_concat_iff {l : List Step} {s : Step} {k : Nat}
    (hk : k = 0 ↔ ¬ ClimbsOut l) (hs : k = 0 → 2 * (l ++ [s]).count .up ≤ (l ++ [s]).length) :
    k = 0 ↔ ¬ ClimbsOut (l ++ [s]) := by
  rw [climbsOut_concat]
  constructor
  · rintro h0 (hc | hlt)
    · exact hk.1 h0 hc
    · exact absurd (hs h0) (Nat.not_le.2 hlt)
  · intro hn
    exact hk.2 fun hc => hn (.inl hc)

/-- What normalising keeps of a list of steps, as its reversed stack: `k` `..` steps that found
no name, under the names left. No `..` is left over exactly when no prefix climbs out; the
counts balance; and the steps reduce to what is kept by cancelling names against `..` steps. -/
theorem foldl_pushStep_cancel (l : List Step) :
    ∃ (k : Nat) (names : List String),
      l.foldl pushStep [] = (names.map Step.down).reverse ++ List.replicate k .up ∧
      (k = 0 ↔ ¬ ClimbsOut l) ∧ names.length + 2 * l.count .up = l.length + k ∧
      Relation.ReflTransGen Cancel l (List.replicate k .up ++ names.map Step.down) := by
  induction l using List.reverseRecOn with
  | nil => exact ⟨0, [], rfl, by simp [ClimbsOut], by simp, .refl⟩
  | append_singleton l s ih =>
    obtain ⟨k, names, hf, hk, hlen, hc⟩ := ih
    -- the cancellations so far leave the new step at the end
    have hc' : Relation.ReflTransGen Cancel (l ++ [s])
        (List.replicate k .up ++ names.map Step.down ++ [s]) :=
      hc.lift (· ++ [s]) fun _ _ h => h.append_right [s]
    rw [List.foldl_append, hf, List.foldl_cons, List.foldl_nil]
    cases s with
    | down n =>
      refine ⟨k, names ++ [n], by simp, not_climbsOut_concat_iff hk fun h0 => ?_, ?_,
        by simpa using hc'⟩
      · have := count_up_le_of_not_climbsOut (hk.1 h0)
        simp only [List.length_append, List.length_singleton, count_up_concat_down]
        omega
      · simp only [List.length_append, List.length_singleton, count_up_concat_down]
        omega
    | up =>
      rcases List.eq_nil_or_concat names with rfl | ⟨init, n, rfl⟩
      · -- no name is left to cancel: the `..` is kept, and this prefix climbs out
        simp only [List.length_nil, Nat.zero_add] at hlen
        refine ⟨k + 1, [], ?_, ?_, ?_, ?_⟩
        · cases k <;> rfl
        · simp only [Nat.add_one_ne_zero, false_iff, not_not]
          refine climbsOut_concat.2 (.inr ?_)
          simp only [List.length_append, List.length_singleton, count_up_concat_up]
          omega
        · simp only [List.length_nil, List.length_append, List.length_singleton,
            count_up_concat_up]
          omega
        · simpa [List.replicate_succ'] using hc'
      · -- the `..` cancels the last name left
        rw [List.concat_eq_append] at hlen hc'
        simp only [List.length_append, List.length_singleton] at hlen
        refine ⟨k, init, by simp, not_climbsOut_concat_iff hk fun _ => ?_, ?_, ?_⟩
        · simp only [List.length_append, List.length_singleton, count_up_concat_up]
          omega
        · simp only [List.length_append, List.length_singleton, count_up_concat_up]
          omega
        · refine hc'.tail ?_
          have h := Cancel.pair (List.replicate k .up ++ init.map Step.down) [] n
          simp only [List.append_nil, List.append_assoc, List.map_append, List.map_cons,
            List.map_nil, List.cons_append, List.nil_append] at h ⊢
          exact h

/-- Joining names to a path and normalising puts the names below the normalised path. -/
theorem normalize_join_names (base : Path) (names : List String) :
    (base.join ⟨false, names.map Step.down⟩).normalize =
      ⟨base.rooted, base.normalize.steps ++ names.map Step.down⟩ := by
  simp only [join, normalize, Bool.false_eq_true, if_false, List.foldl_append,
    foldl_pushStep_downs, List.reverse_append, List.reverse_reverse]

end Path

namespace Service

/-- The path a request names: its text after the leading slashes, read as a path. -/
def requestedPath (path : String) : Path :=
  Path.ofString (String.ofList (path.toList.dropWhile (· = '/')))

theorem requestedPath_rooted (path : String) : (requestedPath path).rooted = false := by
  simp only [requestedPath, Path.ofString, String.startsWith_string_eq_false_iff,
    String.toList_ofList]
  intro h
  have hd := List.head?_dropWhile_not (· = '/') path.toList
  obtain ⟨t, ht⟩ := h
  rw [← ht] at hd
  simp at hd

/-- A request whose normalised path starts with `..` is refused. -/
theorem requestPath_eq_error {path : String} {rest : List Step}
    (h : (requestedPath path).normalize.steps = .up :: rest) :
    requestPath path = .error (.outsideBase (requestedPath path).normalize) := by
  unfold requestPath
  dsimp only
  split
  · rfl
  · rfl
  · rename_i hne
    exact absurd h (hne _)

/-- A request whose normalised path is relative and holds names only is served from it. -/
theorem requestPath_eq_ok {path : String} {names : List String}
    (h : (requestedPath path).normalize = ⟨false, names.map .down⟩) :
    requestPath path = .ok ⟨false, names.map .down⟩ := by
  unfold requestPath
  dsimp only
  split
  · rename_i hr
    have hr' : (requestedPath path).normalize.rooted = true := hr
    rw [h] at hr'
    cases hr'
  · rename_i tail hs _
    have hs' : (requestedPath path).normalize.steps = .up :: tail := hs
    rw [h] at hs'
    cases names <;> simp at hs'
  · exact congrArg Except.ok h

/-- A request is refused exactly when some prefix of its steps holds more `..` steps than names,
with the error for a path outside the base directory. Otherwise it is served from a relative
path of proper names only, which the request's steps reduce to by cancelling each `..` against
the name right before it, and which lies below any base directory it is joined to. -/
theorem requestPath_stays_inside (path : String) :
    ((∃ e, requestPath path = .error e) ↔ Path.ClimbsOut (requestedPath path).steps) ∧
    (∀ e, requestPath path = .error e → e = .outsideBase (requestedPath path).normalize) ∧
    (¬ Path.ClimbsOut (requestedPath path).steps → ∃ r, requestPath path = .ok r ∧
      r.rooted = false ∧ (∀ s ∈ r.steps, ∃ n, s = .down n ∧ n ≠ "" ∧ n ≠ "." ∧ n ≠ "..") ∧
      Relation.ReflTransGen Path.Cancel (requestedPath path).steps r.steps ∧
      ∀ base : Path, (base.join r).normalize = ⟨base.rooted, base.normalize.steps ++ r.steps⟩) := by
  obtain ⟨k, names, hf, hk, -, hc⟩ := Path.foldl_pushStep_cancel (requestedPath path).steps
  have hnorm : (requestedPath path).normalize =
      ⟨false, List.replicate k .up ++ names.map Step.down⟩ := by
    simp [Path.normalize, hf, requestedPath_rooted]
  cases k with
  | succ k =>
    -- a `..` is left over, so the normalised path starts with it
    have hclimb : Path.ClimbsOut (requestedPath path).steps :=
      Classical.not_not.1 (mt hk.2 (Nat.add_one_ne_zero k))
    have herr := requestPath_eq_error (congrArg Path.steps hnorm)
    refine ⟨⟨fun _ => hclimb, fun _ => ⟨_, herr⟩⟩, fun e he => ?_, fun hn => absurd hclimb hn⟩
    rw [herr] at he
    cases he
    rfl
  | zero =>
    have hn : ¬ Path.ClimbsOut (requestedPath path).steps := hk.1 rfl
    have hok := requestPath_eq_ok (by simpa using hnorm)
    have hnot : ∀ e, requestPath path ≠ .error e := by
      intro e he
      rw [hok] at he
      cases he
    refine ⟨⟨fun h => h.elim fun e he => absurd he (hnot e), fun h => absurd h hn⟩,
      fun e he => absurd he (hnot e), fun _ => ⟨_, hok, rfl, ?_, by simpa using hc,
      fun base => Path.normalize_join_names base names⟩⟩
    intro s hs
    obtain ⟨n, hn, rfl⟩ := List.mem_map.1 hs
    have hmem : Step.down n ∈ (requestedPath path).normalize.steps := by
      rw [hnorm]
      exact List.mem_append_right _ hs
    exact ⟨n, rfl, Path.names_ofString_normalize hmem⟩

end Service

end ModuleBundler
