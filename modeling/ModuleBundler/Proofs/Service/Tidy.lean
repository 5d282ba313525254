import ModuleBundler.Proofs.Brace.Lines
import ModuleBundler.Proofs.Import.Lexemes
import ModuleBundler.Service.Request
import Mathlib

/-!
Served bodies are tidy.

`postProcess` cuts a text into lines, drops the blanks at the end of each, joins the lines with
`\n` again, drops the blanks at the end of the whole and adds one `\n`. A text is `Tidy` when no
line of it ends with a blank and it is empty or ends with a character that is not blank. Every
served body is a tidy text and one `\n`, and a tidy text and one `\n` is served as it is, so the
bodies are exactly those texts and tidying twice is tidying once (`postProcess_idem_tidy`).

A carriage return is blank, so no line keeps one at its end; and since the text before the last
`\n` does not end with `\n`, a body ends with exactly one.
-/

namespace ModuleBundler

namespace Text

/-- Joining lists with one separator after a last list puts the separator and that list at the
end. -/
theorem intercalate_concat {α : Type} (sep : α) (x : List α) :
    ∀ {L : List (List α)}, L ≠ [] → [sep].intercalate (L ++ [x]) = [sep].intercalate L ++ sep :: x
  | [y], _ => by simp
  | y :: z :: L, _ => by
    rw [List.cons_append, List.cons_append, List.intercalate_cons_cons, ← List.cons_append,
      intercalate_concat sep x (List.cons_ne_nil z L), List.intercalate_cons_cons]
    simp

/-- No piece of a text cut at `\n` holds a `\n`. -/
theorem newline_not_mem_of_mem_splitOn : ∀ {cs p : List Char}, p ∈ cs.splitOn '\n' → '\n' ∉ p
  | [], p, h => by
    rw [List.splitOn_nil, List.mem_singleton] at h
    subst h
    simp
  | c :: cs, p, h => by
    rw [List.splitOn_cons_eq_if_modifyHead] at h
    obtain ⟨x, xs, hx⟩ := List.exists_cons_of_ne_nil (List.splitOn_ne_nil '\n' cs)
    split at h
    · rcases List.mem_cons.1 h with rfl | h
      · simp
      · exact newline_not_mem_of_mem_splitOn h
    · rename_i hc
      rw [hx, List.modifyHead_cons] at h
      rcases List.mem_cons.1 h with rfl | h
      · have hx' : '\n' ∉ x := newline_not_mem_of_mem_splitOn (hx ▸ List.mem_cons_self)
        simp only [beq_iff_eq] at hc
        simp [hx', Ne.symm hc]
      · exact newline_not_mem_of_mem_splitOn (hx ▸ List.mem_cons_of_mem x h)

/-- After its trailing blanks are dropped, a text ends with a character that is not blank, if
with any. -/
theorem getLast?_trimEnd (cs : List Char) : ∀ c ∈ (trimEnd cs).getLast?, isBlank c = false := by
  intro c hc
  rw [trimEnd, List.getLast?_reverse] at hc
  have h := List.head?_dropWhile_not isBlank cs.reverse
  rw [hc] at h
  exact h

theorem mem_of_mem_trimEnd {cs : List Char} {c : Char} (h : c ∈ trimEnd cs) : c ∈ cs := by
  obtain ⟨t, ht, -⟩ := Import.eq_trimEnd_append_blanks cs
  rw [ht]
  exact List.mem_append_left t h

/-- A line of a text holds no `\n`. -/
theorem newline_not_mem_of_mem_lines {cs l : List Char} (h : l ∈ lines cs) : '\n' ∉ l := by
  unfold lines at h
  rcases List.mem_append.1 h with h | h
  · -- a line ended by `\n`, with a carriage return perhaps dropped
    obtain ⟨p, hp, rfl⟩ := List.mem_map.1 h
    have hn := newline_not_mem_of_mem_splitOn (List.dropLast_subset _ hp)
    unfold dropFinalReturn
    split
    · exact fun hm => hn (List.dropLast_subset _ hm)
    · exact hn
  · -- the text after the last `\n`
    split at h
    · rename_i last hlast
      split at h
      · simp at h
      · rw [List.mem_singleton] at h
        subst h
        exact newline_not_mem_of_mem_splitOn (List.mem_of_getLast? hlast)
    · simp at h

/-- Dropping the trailing blanks of lines joined by `\n`, where each line is empty or ends with a
character that is not blank, drops the empty lines at the end and their `\n`. -/
theorem trimEnd_intercalate (L : List (List Char))
    (hL : ∀ x ∈ L, ∀ c ∈ x.getLast?, isBlank c = false) :
    ∃ L', L' <+: L ∧ trimEnd (['\n'].intercalate L) = ['\n'].intercalate L' := by
  induction L using List.reverseRecOn with
  | nil => exact ⟨[], List.nil_prefix, rfl⟩
  | append_singleton L x ih =>
    have hL' : ∀ y ∈ L, ∀ c ∈ y.getLast?, isBlank c = false :=
      fun y hy => hL y (List.mem_append_left _ hy)
    by_cases hx : x = []
    · -- an empty last line leaves only its `\n`, which is blank
      subst hx
      by_cases hLn : L = []
      · subst hLn
        exact ⟨[], List.nil_prefix, rfl⟩
      · obtain ⟨L', hpre, heq⟩ := ih hL'
        refine ⟨L', hpre.trans (List.prefix_append L [[]]), ?_⟩
        rw [intercalate_concat '\n' [] hLn, Import.trimEnd_append_blank (by decide), heq]
    · -- a last line that ends with a character that is not blank keeps everything
      refine ⟨L ++ [x], List.prefix_refl _, Import.trimEnd_of_getLast ?_⟩
      have hlast : (['\n'].intercalate (L ++ [x])).getLast? = x.getLast? := by
        by_cases hLn : L = []
        · subst hLn
          simp
        · rw [intercalate_concat '\n' x hLn, List.append_cons, List.getLast?_append_of_ne_nil _ hx]
      rw [hlast]
      exact hL x (List.mem_append_right L (List.mem_singleton_self x))

end Text

namespace Service

open Text Import

/-- A text as a served body holds it before its final newline: no line of it ends with a blank,
and it is empty or ends with a character that is not blank. -/
def Tidy (x : List Char) : Prop :=
  (∀ line ∈ x.splitOn '\n', ∀ c ∈ line.getLast?, isBlank c = false) ∧
    ∀ c ∈ x.getLast?, isBlank c = false

instance : DecidablePred Tidy := fun _ => inferInstanceAs (Decidable (_ ∧ _))

/-- Lines without their trailing blanks, joined by `\n` and then without the trailing blanks of
the whole, make a tidy text. -/
theorem tidy_trimEnd_intercalate {L : List (List Char)} (hn : ∀ x ∈ L, '\n' ∉ x)
    (hL : ∀ x ∈ L, ∀ c ∈ x.getLast?, isBlank c = false) :
    Tidy (trimEnd (['\n'].intercalate L)) := by
  refine ⟨?_, getLast?_trimEnd _⟩
  obtain ⟨L', hpre, heq⟩ := trimEnd_intercalate L hL
  rw [heq]
  by_cases hne : L' = []
  · subst hne
    simp
  · -- the pieces of the joined text are the lines that were joined
    rw [List.splitOn_intercalate '\n' (fun x hx => hn x (hpre.subset hx)) hne]
    exact fun x hx => hL x (hpre.subset hx)

/-- Every served body is a tidy text followed by one `\n`. -/
theorem postProcess_eq_tidy (s : String) :
    ∃ X, Tidy X ∧ postProcess s = String.ofList (X ++ ['\n']) := by
  refine ⟨_, tidy_trimEnd_intercalate (L := (lines s.toList).map trimEnd) ?_ ?_, rfl⟩
  · intro x hx
    obtain ⟨l, hl, rfl⟩ := List.mem_map.1 hx
    exact fun hm => newline_not_mem_of_mem_lines hl (mem_of_mem_trimEnd hm)
  · intro x hx
    obtain ⟨l, -, rfl⟩ := List.mem_map.1 hx
    exact getLast?_trimEnd l

/-- A tidy text followed by `\n` has the pieces of the text as its lines: none of them ends with
a carriage return, and nothing follows the last `\n`. -/
theorem lines_tidy {X : List Char} (hX : Tidy X) : lines (X ++ ['\n']) = X.splitOn '\n' := by
  have hsplit : (X ++ ['\n']).splitOn '\n' = X.splitOn '\n' ++ [[]] := splitOn_append_newline X []
  have hret : ∀ p ∈ X.splitOn '\n', dropFinalReturn p = p := by
    intro p hp
    unfold dropFinalReturn
    rw [if_neg]
    intro hr
    exact absurd (hX.1 p hp '\r' hr) (by decide)
  unfold lines
  dsimp only
  rw [hsplit, List.dropLast_concat, List.getLast?_concat, List.map_congr_left hret, List.map_id']
  simp

/-- A tidy text followed by `\n` is served as it is. -/
theorem postProcess_of_tidy {X : List Char} (hX : Tidy X) :
    postProcess (String.ofList (X ++ ['\n'])) = String.ofList (X ++ ['\n']) := by
  have hkeep : ∀ p ∈ X.splitOn '\n', trimEnd p = p := fun p hp => trimEnd_of_getLast (hX.1 p hp)
  unfold postProcess
  dsimp only
  rw [String.toList_ofList (l := X ++ ['\n']), lines_tidy hX, List.map_congr_left hkeep,
    List.map_id', show "\n".toList = ['\n'] from rfl, List.intercalate_splitOn,
    trimEnd_of_getLast hX.2]

/-- Tidying a served body again changes nothing, and the served bodies are exactly the tidy
texts followed by one `\n`: no line ends with a blank (a carriage return included), and the
body ends with exactly one `\n`. -/
theorem postProcess_idem_tidy :
    (∀ s, postProcess (postProcess s) = postProcess s) ∧
      Set.range postProcess = {t | ∃ X, Tidy X ∧ t = String.ofList (X ++ ['\n'])} := by
  refine ⟨fun s => ?_, Set.ext fun t => ⟨?_, ?_⟩⟩
  · obtain ⟨X, hX, heq⟩ := postProcess_eq_tidy s
    rw [heq, postProcess_of_tidy hX]
  · rintro ⟨s, rfl⟩
    exact postProcess_eq_tidy s
  · rintro ⟨X, hX, rfl⟩
    exact ⟨_, postProcess_of_tidy hX⟩

example : postProcess "a  \nb\t\n\n\n" = "a\nb\n" := by decide +kernel

end Service

end ModuleBundler
