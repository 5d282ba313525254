/-!
Import declarations of a module.

An import brings names of another module, given by its specifier, into scope: chosen members
(`import {a, b as c} from 's'`), the default member (`import d from 's'`), the whole module
as an object (`import * as ns from 's'`), or nothing (`import 's'`). Names are kept sorted and
without repeats, and aliases map a local name to the member it stands for.
-/

namespace ModuleBundler

/-- The form of an import. -/
inductive ImportKind where
  | named
  | defaultMember
  | namespaceObject
  | sideEffect
  deriving DecidableEq, Repr

namespace ImportKind

/-- The tag of the form in a module description. -/
def tag : ImportKind → String
  | named => "NAMED"
  | defaultMember => "DEFAULT"
  | namespaceObject => "NAMESPACE"
  | sideEffect => "SIDE_EFFECT"

end ImportKind

/-- One import declaration: its form, specifier, local names (sorted, distinct), aliases from a
local name to the member it stands for (sorted by local name), and the line it starts on. -/
structure Import where
  kind : ImportKind
  source : String
  names : List String
  aliases : List (String × String)
  line : Nat
  deriving DecidableEq, Repr

/-- Inserts a name into a sorted list of distinct names. -/
def insertSorted (x : String) : List String → List String
  | [] => [x]
  | y :: ys => if x = y then y :: ys else if x < y then x :: y :: ys else y :: insertSorted x ys

@[simp] theorem mem_insertSorted {x y : String} {ys : List String} :
    y ∈ insertSorted x ys ↔ y = x ∨ y ∈ ys := by
  induction ys with
  | nil => simp [insertSorted]
  | cons z zs ih =>
    unfold insertSorted
    split
    · subst x
      simp
    · split
      · simp
      · simp only [List.mem_cons, ih, or_left_comm]

theorem pairwise_insertSorted {x : String} {l : List String} (h : l.Pairwise (· < ·)) :
    (insertSorted x l).Pairwise (· < ·) := by
  induction l with
  | nil => simp [insertSorted]
  | cons y ys ih =>
    rw [List.pairwise_cons] at h
    unfold insertSorted
    split
    · exact List.pairwise_cons.2 h
    · split
      · rename_i hxy
        refine List.pairwise_cons.2 ⟨fun z hz => ?_, List.pairwise_cons.2 h⟩
        rcases List.mem_cons.1 hz with rfl | hz
        · exact hxy
        · exact String.lt_trans hxy (h.1 z hz)
      · -- `x` goes after `y`
        rename_i hne hnlt
        have hyx : y < x := String.not_le.1 fun hxy =>
          hne (String.le_antisymm hxy (String.not_lt.1 hnlt))
        refine List.pairwise_cons.2 ⟨fun z hz => ?_, ih h.2⟩
        rcases mem_insertSorted.1 hz with rfl | hz
        · exact hyx
        · exact h.1 z hz

/-- Sets the value of a key in a list of pairs sorted by key. -/
def insertEntry (k v : String) : List (String × String) → List (String × String)
  | [] => [(k, v)]
  | (k', v') :: rest =>
    if k = k' then (k, v) :: rest
    else if k < k' then (k, v) :: (k', v') :: rest
    else (k', v') :: insertEntry k v rest

/-- The name reserved for the default member of a module. -/
def defaultMemberName : String := "default"

namespace Import

/-- The member of the imported module that a local name stands for. -/
def memberFor (imp : Import) (localName : String) : String :=
  if imp.kind = .defaultMember then defaultMemberName
  else ((imp.aliases.find? (·.1 = localName)).map (·.2)).getD localName

end Import

end ModuleBundler
