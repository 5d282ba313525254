import ModuleBundler.Proofs.CallSite.Braces
import ModuleBundler.Proofs.Bundle.ExportValues
import Mathlib

/-!
What reading guarantees of a module's block in a bundle.

Reading ends a function's body where a brace closes the level its header opened, and ends a
statement group where the tracker is back in code at depth 0 (`Module.read_level`); redirecting
call sites into specifiers that hold no quote, brace, star, backslash or `//` reads the same to
the tracker (`Module.Level.redirectCalls`). A parsed module is then neutral once the pieces
reading does not look into are (`Module.parse_neutral`), and its block has the brace structure of
its scaffolding.
-/

namespace ModuleBundler

open Text Syntax Brace Brace.State

namespace Line

/-- Where a scan from depth 1 or more first closes a block at depth 0, the text before that
brace reads back to code at depth 1 without going below it. -/
theorem scan_take_close {s : State} (hs : 1 ≤ s.depth) {pos : Nat} {cs : List Char}
    {close : Event} (h : (s.scan none pos cs).2.find? closesBlock = some close) :
    (s.scan none pos (cs.take (close.offset - pos))).1 = code 1 ∧
      ∀ e ∈ (s.scan none pos (cs.take (close.offset - pos))).2, 1 ≤ e.depth := by
  obtain ⟨hclose, A, B, hsplit, hA⟩ := List.find?_eq_some_iff_append.1 h
  have hcount := (scan_counted s none pos cs).1
  rw [hsplit] at hcount
  rw [scan_events] at hsplit
  obtain ⟨R₁, R₂, hR, hR₁, hR₂⟩ := List.filterMap_eq_append_iff.1 hsplit
  obtain ⟨l₁, r, l₂, rfl, hl₁, hr, -⟩ := List.filterMap_eq_cons_iff.1 hR₂
  have ho : close.opens = false := by
    simp only [closesBlock, Bool.and_eq_true, Bool.not_eq_true', beq_iff_eq] at hclose
    exact hclose.1
  -- the brace that closes is read in code at the top, from depth 1
  have hr' : (r.state.step r.quote r.pos r.char r.next).event = some close := hr
  obtain ⟨hlayers, hcomment, -, hchar⟩ := step_event hr'
  have hdepth : close.depth = r.state.depth - 1 := by
    have := (step_counted r.state r.quote r.pos r.char r.next).1
    rw [hr'] at this
    simpa [Counted, Event.delta, ho, sub_eq_add_neg] using this.1
  have hstate : r.state = code 1 := by
    have h0 : close.depth = 0 := by
      simp only [closesBlock, Bool.and_eq_true, Bool.not_eq_true', beq_iff_eq] at hclose
      exact hclose.2
    rcases hrs : r.state with ⟨d, c, ls⟩
    rw [hrs] at hlayers hcomment hdepth
    simp only at hlayers hcomment hdepth
    subst hlayers hcomment
    simp only [code, State.mk.injEq, and_true]
    omega
  have hcut := scan_take_of_reads (r := r) (by rw [hchar, ho]; decide)
    (show s.reads none pos cs = (R₁ ++ l₁) ++ r :: l₂ by rw [hR]; simp)
  rw [offset_step hr', hcut, hstate]
  refine ⟨rfl, ?_⟩
  -- the events before the brace: counted from the depth before, none closing down to 0
  have hevs : (R₁ ++ l₁).filterMap (fun r => r.move.event) = A := by
    rw [List.filterMap_append, hR₁, List.filterMap_eq_nil_iff.2 hl₁, List.append_nil]
  rw [hevs]
  refine (Counted.append.1 hcount).1.one_le hs fun e he ho' => ?_
  have := hA e he
  simpa [closesBlock, ho'] using this

/-- A scan from depth 1 or more that closes no block at depth 0 stays at depth 1 or more. -/
theorem scan_no_close {s : State} (hs : 1 ≤ s.depth) (pos : Nat) (cs : List Char)
    (h : (s.scan none pos cs).2.find? closesBlock = none) :
    (∀ e ∈ (s.scan none pos cs).2, 1 ≤ e.depth) ∧ 1 ≤ (s.scan none pos cs).1.depth :=
  scan_one_le hs none pos cs fun e he ho => by
    have := List.find?_eq_none.1 h e he
    simpa [closesBlock, ho] using this

/-- Lines of a body read so far: fed from level 1 they come to the tracker's state `st`, at
level 1 or deeper, without going below level 1, and none holds a line break. -/
structure BodySoFar (st : State) (body : List Line) : Prop where
  state : ((code 1).feedLines (body.map text)).2 = st
  above : Above 1 ((code 1).feedLines (body.map text)).1
  depth : 1 ≤ st.depth
  unbroken : ∀ m ∈ body, '\n' ∉ m.text

/-- The lines of a body as read: fed from level 1 they come back to level 1 without going below
it, and none holds a line break. -/
def BodyRead (body : List Line) : Prop :=
  Span 1 1 (body.map text) ∧ ∀ m ∈ body, '\n' ∉ m.text

theorem BodySoFar.nil : BodySoFar (code 1) [] :=
  ⟨rfl, by simp [Above, feedLines], by simp [code], by simp⟩

/-- A line fed from `st` whose events all stay at depth 1 or more adds a line above level 1. -/
theorem BodySoFar.above_snoc {st : State} {body : List Line} (h : BodySoFar st body) {pos : Nat}
    {m : Line} (hevs : ∀ e ∈ (st.scan none pos m.text).2, 1 ≤ e.depth) (hm : '\n' ∉ m.text) :
    ((code 1).feedLines ((body ++ [m]).map text)).2 = (st.feed m.text).1 ∧
      Above 1 ((code 1).feedLines ((body ++ [m]).map text)).1 ∧
      ∀ x ∈ body ++ [m], '\n' ∉ x.text := by
  have hfeed : (code 1).feedLines ((body ++ [m]).map text) =
      (((code 1).feedLines (body.map text)).1 ++ [(m.text, (st.feed m.text).2)],
        (st.feed m.text).1) := by
    rw [List.map_append, feedLines_append, h.state]
    rfl
  refine ⟨by rw [hfeed], ?_, ?_⟩
  · rw [hfeed, above_append]
    refine ⟨h.above, fun p hp e he => ?_⟩
    rw [List.mem_singleton.1 hp] at he
    -- the events of a feed are those of the scan from any position, offsets apart
    have hmem : e.depth ∈ (st.feed m.text).2.map Event.depth := List.mem_map_of_mem he
    rw [feed, (alike_scan_pos st none 0 pos m.text).2] at hmem
    obtain ⟨e', he', heq⟩ := List.mem_map.1 hmem
    exact heq ▸ hevs e' he'
  · intro x hx
    rcases List.mem_append.1 hx with hx | hx
    · exact h.unbroken x hx
    · rw [List.mem_singleton.1 hx]
      exact hm

/-- A line where no block closes goes on with the body. -/
theorem BodySoFar.snoc {st : State} {body : List Line} (h : BodySoFar st body) (pos : Nat)
    {m : Line} (hc : (st.scan none pos m.text).2.find? closesBlock = none) (hm : '\n' ∉ m.text) :
    BodySoFar (st.feed m.text).1 (body ++ [m]) := by
  obtain ⟨hevs, hdepth⟩ := scan_no_close h.depth pos m.text hc
  obtain ⟨hend, habove, hunb⟩ := h.above_snoc hevs hm
  refine ⟨hend, habove, ?_, hunb⟩
  rw [feed, (alike_scan_pos st none 0 pos m.text).1]
  exact hdepth

/-- The piece before the brace that closes the body brings the body back to level 1. -/
theorem BodySoFar.close {st : State} {body : List Line} (h : BodySoFar st body) {pos : Nat}
    {cs : List Char} {close : Event} (hc : (st.scan none pos cs).2.find? closesBlock = some close)
    (hcs : '\n' ∉ cs) (number : Nat) :
    BodyRead (keepPiece body number (cs.take (close.offset - pos))) := by
  obtain ⟨hend, hevs⟩ := scan_take_close h.depth hc
  have hpiece : '\n' ∉ cs.take (close.offset - pos) := fun hn => hcs (List.mem_of_mem_take hn)
  unfold keepPiece
  split
  · -- a blank piece changes nothing, so the body was back at level 1 already
    rename_i hblank
    have hblank' : st.scan none pos (cs.take (close.offset - pos)) = (st, []) :=
      scan_blank (by simpa [IsBlankText] using hblank)
    rw [hblank'] at hend
    subst hend
    exact ⟨⟨h.state, by simpa using h.above⟩, h.unbroken⟩
  · obtain ⟨hend', habove, hunb⟩ :=
      h.above_snoc (m := ⟨number, cs.take (close.offset - pos)⟩) hevs hpiece
    refine ⟨⟨?_, by simpa using habove⟩, hunb⟩
    rw [hend', feed, (alike_scan_pos st none 0 pos _).1, hend]

theorem bodyRest_read {opener : Line} {b : Body} :
    ∀ {st : State} {body : List Line} {extra : Nat} {ms : List Line},
      BodySoFar st body → (∀ m ∈ ms, '\n' ∉ m.text) →
      bodyRest opener st body extra ms = .ok b → BodyRead b.lines
  | _, _, _, [], _, _, h => by simp [bodyRest] at h
  | st, body, extra, m :: ms, hb, hms, h => by
    unfold bodyRest at h
    dsimp only at h
    split at h
    · rename_i close hclose
      cases h
      simpa using hb.close (show (st.scan none 0 m.text).2.find? closesBlock = some close from hclose)
        (hms m List.mem_cons_self) m.number
    · rename_i hnone
      exact bodyRest_read (hb.snoc 0 hnone (hms m List.mem_cons_self))
        (fun x hx => hms x (List.mem_cons_of_mem _ hx)) h

/-- The lines of a body, opened by the `{` at position `pos` of `l`, fed from level 1, come back
to level 1 without going below it. -/
theorem body_read {l : Line} {pos : Nat} {later : List Line} {b : Body}
    (hl : l.text[pos]? = some '\x7b') (hls : ∀ m ∈ l :: later, '\n' ∉ m.text)
    (h : body l pos later = .ok b) : BodyRead b.lines := by
  obtain ⟨rest, hseg⟩ : ∃ rest, l.text.drop pos = '\x7b' :: rest := by
    obtain ⟨hlt, hget⟩ := List.getElem?_eq_some_iff.1 hl
    exact ⟨_, by rw [List.drop_eq_getElem_cons hlt, hget]⟩
  have hrest : '\n' ∉ rest := fun hn =>
    hls l List.mem_cons_self (List.mem_of_mem_drop (hseg ▸ List.mem_cons_of_mem _ hn))
  have hfeed : initial.feed ('\x7b' :: rest) =
      (((code 1).scan none 1 rest).1, ⟨0, true, 1⟩ :: ((code 1).scan none 1 rest).2) := by
    rw [feed, scan_cons]
    simp [step, openBrace, initial, code]
  unfold body at h
  rw [hseg] at h
  dsimp only at h
  rw [hfeed] at h
  dsimp only at h
  rw [List.find?_cons_of_neg (by decide)] at h
  split at h
  · rename_i close hclose
    cases h
    simpa using BodySoFar.nil.close hclose hrest l.number
  · rename_i hnone
    refine bodyRest_read ?_ (fun m hm => hls m (List.mem_cons_of_mem _ hm)) h
    unfold keepPiece
    split
    · rename_i hblank
      have hblank' : (code 1).scan none 1 rest = (code 1, []) :=
        scan_blank (by simpa [IsBlankText] using hblank)
      rw [hblank']
      exact BodySoFar.nil
    · have := BodySoFar.nil.snoc 1 (m := ⟨l.number, rest⟩) hnone hrest
      rw [feed, (alike_scan_pos (code 1) none 0 1 rest).1] at this
      simpa using this

theorem paramSpan_suffix : ∀ {joined : List Char} {extra start base : Nat} {cur : Line}
    {ms : List Line} {span : ParamSpan},
    paramSpan joined extra start base cur ms = some span → span.last :: span.more <:+ cur :: ms
  | _, _, _, _, _, [], _, h => by
    simp only [paramSpan, Option.map_eq_some_iff] at h
    obtain ⟨e, -, rfl⟩ := h
    exact List.suffix_refl _
  | _, _, _, _, _, m :: ms, _, h => by
    unfold paramSpan at h
    split at h
    · cases h
      exact List.suffix_refl _
    · exact (paramSpan_suffix h).trans (List.suffix_cons _ _)

end Line

namespace FunctionDecl

/-- A body that, fed from level 1, comes back to level 1 without going below it, in lines
without line breaks. -/
def BodyLevel (f : FunctionDecl) : Prop :=
  Span 1 1 (f.body.map String.toList) ∧ ∀ t ∈ f.body, '\n' ∉ t.toList

end FunctionDecl

namespace Line

/-- A function read on lines without line breaks has its body at its level. -/
theorem functionAt_level {l : Line} {later : List Line} {paren : Nat} {name : String}
    {exported isAsync : Bool} {f : FunctionDecl} {n : Nat}
    (hls : ∀ m ∈ l :: later, '\n' ∉ m.text)
    (h : functionAt l later paren name exported isAsync = .ok (f, n)) : f.BodyLevel := by
  unfold functionAt at h
  split at h
  · cases h
  · rename_i span hspan
    split at h
    · cases h
    · rename_i spot hspot
      split at h
      · cases h
      · rename_i b hb
        cases h
        -- the body's lines come from the lines after the parameter list
        have hsuf : spot.line :: spot.more <:+ l :: later :=
          (braceSpot_drop hspot ▸ List.drop_suffix _ _).trans (paramSpan_suffix hspan)
        obtain ⟨hspan', hunb⟩ :=
          body_read (braceSpot_brace hspot) (fun m hm => hls m (hsuf.subset hm)) hb
        refine ⟨by simpa [Function.comp_def] using hspan', fun t ht => ?_⟩
        obtain ⟨m, hm, rfl⟩ := List.mem_map.1 ht
        simpa using hunb m hm

end Line

namespace Module

theorem members_level {c c' : ClassDecl} {ls : List Line} (hls : ∀ m ∈ ls, '\n' ∉ m.text)
    (h : members c ls = .ok c') (hc : ∀ f ∈ c.ctor.toList ++ c.methods, f.BodyLevel) :
    ∀ f ∈ c'.ctor.toList ++ c'.methods, f.BodyLevel := by
  refine (members_invariant (fun c₁ ls₁ => (∀ f ∈ c₁.ctor.toList ++ c₁.methods, f.BodyLevel) ∧
    Line.Remains ls ls₁) (fun _ _ _ h => ⟨h.1, h.2.tail⟩)
    (fun _ _ _ _ hc h => ⟨h.1, h.2.leadingComment hc⟩) ?_ ?_
    (fun _ _ _ _ _ h => ⟨h.1, h.2.drop _⟩) h ⟨hc, Line.remains_self ls⟩).1
  · -- the constructor, where there was none
    rintro c₁ l later f n ⟨_, -, hf⟩ - hct h₁
    refine ⟨fun g hg => ?_, h₁.2.drop _⟩
    simp only [Option.toList_some, List.singleton_append, List.mem_cons] at hg
    rcases hg with rfl | hg
    · exact Line.functionAt_level (h₁.2.unbroken hls) hf
    · exact h₁.1 g (by simpa [hct] using hg)
  · rintro c₁ l later f n ⟨_, -, hf⟩ - h₁
    refine ⟨fun g hg => ?_, h₁.2.drop _⟩
    rw [← List.append_assoc, List.mem_append, List.mem_singleton] at hg
    rcases hg with hg | rfl
    · exact h₁.1 g hg
    · exact Line.functionAt_level (h₁.2.unbroken hls) hf

/-- Where a statement may end, outside braces, comments and template literals, a tracker at
depth 0 or more is in code at depth 0. -/
theorem eq_code_zero {st : State} (hst : ¬ (decide (st.depth > 0) || st.midToken) = true)
    (hd : 0 ≤ st.depth) : st = code 0 := by
  rcases st with ⟨d, c, ls⟩
  simp only [midToken, Bool.or_eq_true, decide_eq_true_eq, not_or, Bool.not_eq_true,
    Bool.not_eq_false', List.isEmpty_iff] at hst hd
  obtain ⟨hd', rfl, rfl⟩ := hst
  simp only [code, State.mk.injEq, and_true]
  omega

/-- A statement goes on, line after line, while the tracker is inside braces, a comment or a
template literal, and ends in code at depth 0: reading refuses a line that leaves the depth below
0. -/
theorem statementRest_level {first : Line} :
    ∀ {st : State} {stmts : List String} {extra : Nat} {ms : List Line} {stmts' : List String}
      {n : Nat}, ((code 0).feedLines (stmts.map String.toList)).2 = st → 0 ≤ st.depth →
      (∀ t ∈ stmts, '\n' ∉ t.toList) → (∀ m ∈ ms, '\n' ∉ m.text) →
      statementRest first st stmts extra ms = .ok (stmts', n) →
      ((code 0).feedLines (stmts'.map String.toList)).2 = code 0 ∧
        ∀ t ∈ stmts', '\n' ∉ t.toList := by
  intro st stmts extra ms
  induction ms generalizing st stmts extra with
  | nil =>
    intro stmts' n hst hd hs _ h
    unfold statementRest at h
    split at h
    · cases h
    · cases h
      exact ⟨hst.trans (eq_code_zero ‹_› hd), hs⟩
  | cons m ms ih =>
    intro stmts' n hst hd hs hms h
    unfold statementRest at h
    dsimp only at h
    split at h
    · split at h
      · cases h
      · rename_i hd'
        refine ih ?_ (by omega) ?_ (fun x hx => hms x (List.mem_cons_of_mem _ hx)) h
        · rw [List.map_append, feedLines_append, hst]
          simp [feedLines]
        · intro t ht
          rcases List.mem_append.1 ht with ht | ht
          · exact hs t ht
          · rw [List.mem_singleton.1 ht, String.toList_ofList]
            exact hms m List.mem_cons_self
    · cases h
      exact ⟨hst.trans (eq_code_zero ‹_› hd), hs⟩

/-- The pieces reading keeps level in a draft: its statements, fed line by line to a fresh
tracker, end in code at depth 0; the body of each function, the class's ones included, comes back
to its level; and no statement holds a line break. -/
structure Draft.Level (d : Draft) : Prop where
  statements : ((code 0).feedLines (d.statements.map String.toList)).2 = code 0
  statementLines : ∀ t ∈ d.statements, '\n' ∉ t.toList
  functions : ∀ f ∈ d.functions, f.BodyLevel
  classFunctions : ∀ c ∈ d.cls, ∀ f ∈ c.functions, f.BodyLevel

namespace Draft.Level

variable {d d' : Draft} {l : Line} {later : List Line} {n : Nat}

theorem empty : ({} : Draft).Level :=
  ⟨rfl, by simp, by simp, by simp⟩

theorem frame (hd : d.Level) (hs : d'.statements = d.statements)
    (hf : d'.functions = d.functions) (hc : d'.cls = d.cls) : d'.Level :=
  ⟨hs ▸ hd.statements, hs ▸ hd.statementLines, hf ▸ hd.functions, hc ▸ hd.classFunctions⟩

theorem afterImport (hd : d.Level) (h : importItem d l later = .ok (d', n)) : d'.Level := by
  unfold importItem at h
  dsimp only at h
  split at h
  · cases h
  · split at h
    · cases h
      exact hd.frame rfl rfl rfl
    · cases h

theorem addFunction (hd : d.Level) {f : FunctionDecl} (hf : f.BodyLevel) :
    { d with functions := d.functions ++ [f] }.Level :=
  ⟨hd.statements, hd.statementLines, fun g hg => (List.mem_append.1 hg).elim (hd.functions g)
    fun hg => List.mem_singleton.1 hg ▸ hf, hd.classFunctions⟩

theorem addTrailing (hd : d.Level) {c : ClassDecl} (hc : d.cls = some c) {f : FunctionDecl}
    (hf : f.BodyLevel) : { d with cls := some { c with trailing := c.trailing ++ [f] } }.Level := by
  refine ⟨hd.statements, hd.statementLines, hd.functions, ?_⟩
  rintro c' ⟨⟩ g hg
  have hfs : { c with trailing := c.trailing ++ [f] }.functions = c.functions ++ [f] := by
    simp [ClassDecl.functions]
  rw [hfs, List.mem_append, List.mem_singleton] at hg
  rcases hg with hg | rfl
  · exact hd.classFunctions c hc g hg
  · exact hf

theorem afterFunction (hd : d.Level) (hls : ∀ m ∈ l :: later, '\n' ∉ m.text)
    {h : Header.FunctionHeader} (hi : functionItem d l later h = .ok (d', n)) : d'.Level := by
  unfold functionItem at hi
  dsimp only at hi
  split at hi
  · cases hi
  · rename_i f extra hfa
    have hf := Line.functionAt_level hls hfa
    -- the default mark changes the default export only
    have hd₁ : (if h.isDefault then { d with defaultExport := some (String.ofList h.name) }
        else d).Level := by
      split <;> exact hd.frame rfl rfl rfl
    split at hi
    · rename_i hcls
      cases hi
      exact hd₁.addTrailing hcls hf
    · cases hi
      exact hd₁.addFunction hf

/-- Reading a class keeps its members at their level; the class has no trailing functions yet. -/
theorem afterClass (hd : d.Level) (hls : ∀ m ∈ l :: later, '\n' ∉ m.text) {h : Header.ClassHeader}
    (hi : classItem d l later h = .ok (d', n)) : d'.Level := by
  unfold classItem at hi
  dsimp only at hi
  split at hi
  · cases hi
  · split at hi
    · cases hi
    · split at hi
      · cases hi
      · rename_i spot hspot
        split at hi
        · cases hi
        · rename_i b hb
          split at hi
          · cases hi
          · rename_i c hc
            have hsuf : spot.line :: spot.more <:+ l :: later :=
              Line.braceSpot_drop hspot ▸ List.drop_suffix _ _
            obtain ⟨-, hbl⟩ :=
              Line.body_read (Line.braceSpot_brace hspot) (fun m hm => hls m (hsuf.subset hm)) hb
            have hlevel := members_level hbl hc (by simp)
            have htrail := (members_keeps hc).2.2.2
            have hd₂ : { d with cls := some c }.Level := by
              refine ⟨hd.statements, hd.statementLines, hd.functions, ?_⟩
              rintro c' ⟨⟩ g hg
              rw [ClassDecl.functions, htrail, List.append_nil] at hg
              exact hlevel g hg
            -- the default mark changes the default export only
            split at hi
            · cases hi
              exact hd₂.frame rfl rfl rfl
            · cases hi
              exact hd₂

theorem addStatements (hd : d.Level) {stmts : List String}
    (hs : ((code 0).feedLines (stmts.map String.toList)).2 = code 0)
    (hn : ∀ t ∈ stmts, '\n' ∉ t.toList) : { d with statements := d.statements ++ stmts }.Level := by
  refine ⟨?_, fun t ht => (List.mem_append.1 ht).elim (hd.statementLines t) (hn t),
    hd.functions, hd.classFunctions⟩
  rw [List.map_append, feedLines_append, hd.statements, hs]

/-- Any other item records an export list, or adds a statement group that ends at depth 0. -/
theorem afterStatement (hd : d.Level) (hls : ∀ m ∈ l :: later, '\n' ∉ m.text)
    (hi : statementItem d l later = .ok (d', n)) : d'.Level := by
  have hsub : ∀ x : List Char, x.Sublist l.text → '\n' ∉ x :=
    fun x hx hn => hls l List.mem_cons_self (hx.subset hn)
  have hrest : ∀ x : List Char, x <:+ trim l.text → '\n' ∉ x :=
    fun x hx => hsub x (hx.sublist.trans (Import.trim_sublist _))
  unfold statementItem at hi
  dsimp only at hi
  split at hi
  · rename_i list _
    cases hx : exportList d l.number list with
    | error e =>
      rw [hx] at hi
      cases hi
    | ok d₁ =>
      rw [hx] at hi
      cases hi
      obtain ⟨-, hf, hc, hs⟩ := exportList_frame hx
      exact hd.frame hs hf hc
  · split at hi
    · cases hi
    · rename_i first d₁ hstart
      -- the first line is the source line, or its declaration with the export mark taken off
      have hfirst : '\n' ∉ first ∧ d₁.Level := by
        have hindent := hsub _ (List.take_sublist (indentation l.text) l.text)
        split at hstart
        · cases hstart
          refine ⟨?_, hd.frame rfl rfl rfl⟩
          simp only [List.mem_append, not_or]
          exact ⟨hindent, hrest _ ((List.dropWhile_suffix _).trans (List.drop_suffix _ _))⟩
        · split at hstart
          · rename_i r hr
            cases hstart
            obtain ⟨r₁, h₁, h₂⟩ := Option.bind_eq_some_iff.1 hr
            have hlit : '\n' ∉ ("const " ++ anonymousDefault ++ " = ").toList := by decide
            refine ⟨?_, hd.frame rfl rfl rfl⟩
            simp only [List.mem_append, not_or] at hlit ⊢
            exact ⟨⟨hindent, hlit⟩,
              hrest _ ((Syntax.afterKeyword_suffix h₂).trans (Syntax.afterKeyword_suffix h₁))⟩
          · split at hstart <;> cases hstart
            exact ⟨hsub _ (List.Sublist.refl _), hd⟩
      split at hi
      · cases hi
      · split at hi
        · cases hi
        · rename_i stmts extra hrest'
          cases hi
          obtain ⟨hs, hn⟩ := statementRest_level (by simp [feedLines]; rfl) (by omega)
            (by simpa using hfirst.1) (fun m hm => hls m (List.mem_cons_of_mem _ hm)) hrest'
          exact hfirst.2.addStatements hs hn

theorem afterItem (hd : d.Level) (hls : ∀ m ∈ l :: later, '\n' ∉ m.text)
    (h : item d l later = .ok (d', n)) : d'.Level := by
  unfold item at h
  dsimp only at h
  split at h
  · exact hd.afterImport h
  · split at h
    · cases h
    · split at h
      · exact hd.afterFunction hls h
      · split at h
        · exact hd.afterClass hls h
        · exact hd.afterStatement hls h

end Draft.Level

/-- Reading keeps a draft at its level, from the empty draft on. -/
theorem items_level {source : String} {d : Draft}
    (h : items {} (Line.ofSource source.toList) = .ok d) : d.Level :=
  (items_invariant (fun d ls => d.Level ∧ Line.Remains (Line.ofSource source.toList) ls)
    (fun _ _ _ h => ⟨h.1, h.2.tail⟩) (fun _ _ _ _ hc h => ⟨h.1, h.2.leadingComment hc⟩)
    (fun _ _ _ _ _ hi h =>
      ⟨h.1.afterItem (h.2.unbroken (Line.unbroken_ofSource _)) hi, h.2.drop _⟩) h
    ⟨Draft.Level.empty, Line.remains_self _⟩).1

end Module

/-! ### Lines ended one by one -/

/-- Lines without line breaks, each ended by one, read back as themselves, each without a
carriage return at its end. -/
theorem lines_join_newline {ts : List String} (h : ∀ t ∈ ts, '\n' ∉ t.toList) :
    lines (String.join (ts.map (· ++ "\n"))).toList = ts.map fun t => dropFinalReturn t.toList := by
  induction ts with
  | nil => rfl
  | cons t ts ih =>
    have ht : '\n' ∉ t.toList := h t List.mem_cons_self
    have hts : ∀ x ∈ ts, '\n' ∉ x.toList := fun x hx => h x (List.mem_cons_of_mem _ hx)
    rw [List.map_cons, String.join_cons, Bundle.lines_append_of_endsLine (Bundle.endsLine_newline t),
      ih hts, String.toList_append]
    simp [lines_endLine ht]

/-- Lines without line breaks keep, each ended by one, the level they keep fed one by one. -/
theorem span_join_newline {d d' : Int} {ts : List String} (hn : ∀ t ∈ ts, '\n' ∉ t.toList)
    (h : Span d d' (ts.map String.toList)) :
    Span d d' (lines (String.join (ts.map (· ++ "\n"))).toList) := by
  rw [lines_join_newline hn]
  refine Span.of_readsAlike ?_ h
  rw [List.forall₂_map_left_iff, List.forall₂_map_right_iff]
  exact List.forall₂_same.2 fun t _ => readsAlike_dropFinalReturn t.toList

theorem FunctionDecl.BodyLevel.neutral {f : FunctionDecl} (h : f.BodyLevel) :
    Bundle.Neutral (String.join (f.body.map (· ++ "\n"))) := by
  -- the body is fed from level 1; lowered by one it is fed from code at depth 0
  exact (span_join_newline h.2 h.1).lift (-1)

/-! ### Redirected lines -/

section Redirect

variable {bs : List Binding} (hB : ∀ b ∈ bs, b.Redirectable ∧ QuietSpecifier b.source)
include hB

theorem forall₂_redirectLines (hidden : List String) (ts : List String) :
    List.Forall₂ ReadsAlike (ts.map String.toList)
      ((ts.map fun t => String.ofList (redirectLine bs hidden t.toList)).map String.toList) := by
  simp only [List.map_map, Function.comp_def, String.toList_ofList]
  rw [List.forall₂_map_left_iff, List.forall₂_map_right_iff]
  exact List.forall₂_same.2 fun t _ => readsAlike_redirectLine hB hidden t.toList

theorem FunctionDecl.BodyLevel.redirectCalls {f : FunctionDecl} (h : f.BodyLevel)
    (mode : Scoping) : (f.redirectCalls bs mode).BodyLevel := by
  refine ⟨Span.of_readsAlike (forall₂_redirectLines hB _ f.body) h.1, ?_⟩
  simp only [FunctionDecl.redirectCalls, List.mem_map]
  rintro _ ⟨t, ht, rfl⟩
  simpa using newline_not_mem_redirectLine hB _ _ (h.2 t ht)

end Redirect

/-! ### Parsed modules -/

/-- A character a test accepts is plain when the test refuses every character that is not. -/
theorem plain_of_refuses {p : Char → Bool} (h₁ : p '/' = false) (h₂ : p '\'' = false)
    (h₃ : p '"' = false) (h₄ : p '`' = false) (h₅ : p '\x7b' = false) (h₆ : p '\x7d' = false)
    (h₇ : p '\n' = false) (h₈ : p '\r' = false) {c : Char} (hc : p c = true) : plain c = true := by
  have hm : c ∉ ['/', '\'', '"', '`', '\x7b', '\x7d', '\n', '\r'] := by
    intro hm
    simp only [List.mem_cons, List.not_mem_nil, or_false] at hm
    rcases hm with rfl | rfl | rfl | rfl | rfl | rfl | rfl | rfl <;> simp_all
  simpa [plain] using hm

theorem plain_of_isIdentPart {c : Char} (hc : isIdentPart c = true) : plain c = true :=
  plain_of_refuses (by decide +kernel) (by decide +kernel) (by decide +kernel) (by decide +kernel)
    (by decide +kernel) (by decide +kernel) (by decide +kernel) (by decide +kernel) hc

theorem plain_of_isNameChar {c : Char} (hc : isNameChar c = true) : plain c = true :=
  plain_of_refuses (by decide +kernel) (by decide +kernel) (by decide +kernel) (by decide +kernel)
    (by decide +kernel) (by decide +kernel) (by decide +kernel) (by decide +kernel) hc

theorem Bundle.Plain.of_identPart {s : String} (h : ∀ c ∈ s.toList, isIdentPart c = true) :
    Bundle.Plain s :=
  fun c hc => plain_of_isIdentPart (h c hc)

theorem plain_factoryName (path : String) : Bundle.Plain (Module.factoryName path) := by
  have hstem : ∀ c ∈ ((Path.ofString path).fileStem?.getD "").toList.map
      (fun c => if isNameChar c then c else '_'), plain c = true := by
    simp only [List.mem_map]
    rintro _ ⟨c, -, rfl⟩
    split
    · exact plain_of_isNameChar ‹_›
    · rfl
  intro c hc
  simp only [Module.factoryName, String.toList_append, String.toList_ofList, List.mem_append] at hc
  rcases hc with hc | hc
  · split at hc
    · split at hc
      · rcases List.mem_cons.1 hc with rfl | hc
        · rfl
        · exact hstem c hc
      · exact hstem c hc
    · rw [List.mem_singleton.1 hc]
      rfl
  · revert c
    simp [Module.factorySuffix, plain]

namespace Module

/-- What reading guarantees of a module's pieces: its statements, fed line by line to a fresh
tracker, end in code at depth 0, the body of each function comes back to its level, and no
statement holds a line break. -/
structure Level (m : Module) : Prop where
  statements : ((code 0).feedLines (m.statements.map String.toList)).2 = code 0
  statementLines : ∀ t ∈ m.statements, '\n' ∉ t.toList
  functions : ∀ f ∈ m.functions, f.BodyLevel
  classFunctions : ∀ c ∈ m.cls, ∀ f ∈ c.functions, f.BodyLevel

theorem read_level {path source : String} {m : Module} (h : read path source = .ok m) :
    m.Level := by
  unfold read at h
  split at h
  · cases h
  · rename_i d hd
    cases h
    have hl := items_level hd
    exact ⟨hl.statements, hl.statementLines, hl.functions, hl.classFunctions⟩

theorem read_name {path source : String} {m : Module} (h : read path source = .ok m) :
    m.name = factoryName path := by
  unfold read at h
  split at h
  · cases h
  · cases h
    rfl

/-- Redirecting call sites to quiet specifiers keeps a module at its level. -/
theorem Level.redirectCalls {m : Module} (h : m.Level)
    (hB : ∀ b ∈ Binding.ofImports m.imports, b.Redirectable ∧ QuietSpecifier b.source)
    (mode : Scoping) : (m.redirectCalls mode).Level := by
  refine ⟨?_, ?_, fun f hf => ?_, fun c hc f hf => ?_⟩
  · exact (feedLines_readsAlike (forall₂_redirectLines hB [] m.statements) _).1.trans h.statements
  · simp only [Module.redirectCalls, List.mem_map]
    rintro _ ⟨t, ht, rfl⟩
    simpa using newline_not_mem_redirectLine hB [] _ (h.statementLines t ht)
  · obtain ⟨f₀, hf₀, rfl⟩ := List.mem_map.1 hf
    exact (h.functions f₀ hf₀).redirectCalls hB mode
  · obtain ⟨c₀, hc₀, rfl⟩ := Option.mem_map.1 hc
    rw [ClassDecl.functions_mapFunctions] at hf
    obtain ⟨f₀, hf₀, rfl⟩ := List.mem_map.1 hf
    exact (h.classFunctions c₀ hc₀ f₀ hf₀).redirectCalls hB mode

end Module

namespace Bundle

/-- The names a module exports, and the names they stand for, are plain when its functions and
class are well named and its export bindings and default export are plain. -/
theorem exportProperties_plain {m : Module} (hwn : m.WellNamed)
    (hexports : ∀ b ∈ m.exports, Plain b.exported ∧ Plain b.localName)
    (hdefault : ∀ v ∈ m.defaultExport, Plain v) :
    ∀ p ∈ exportProperties m, Plain p.1 ∧ Plain p.2 := by
  have hfn : ∀ f ∈ m.functions, Plain f.name :=
    fun f hf => Plain.of_identPart (hwn.functions f hf).name
  have hcls : ∀ c ∈ m.cls, Plain c.name := fun c hc => Plain.of_identPart (hwn.className c hc)
  have hclsfn : ∀ c ∈ m.cls, ∀ f ∈ c.methods ++ c.trailing, Plain f.name := fun c hc f hf => by
    refine Plain.of_identPart (hwn.classFunctions c hc f ?_).name
    rw [ClassDecl.functions, List.append_assoc]
    exact List.mem_append_right _ hf
  intro p hp
  have hc := List.mem_of_find?_eq_some ((exportProperties_spec m).2.2 p hp)
  refine ⟨?_, ?_⟩
  · -- the key: an exported function, the class or one of its functions, a binding, or default
    rcases (mem_keys_exportCandidates m p.1).1 (List.mem_map_of_mem hc) with
      ⟨f, hf, -, hn⟩ | ⟨c, hc', ⟨-, hn | ⟨f, hf, hn⟩⟩ | ⟨f, hf, -, hn⟩⟩ | ⟨b, hb, hn⟩ | ⟨hn, -⟩
    · exact hn ▸ hfn f hf
    · exact hn ▸ hcls c hc'
    · exact hn ▸ hclsfn c hc' f (List.mem_append_left _ hf)
    · exact hn ▸ hclsfn c hc' f (List.mem_append_right _ hf)
    · exact hn ▸ (hexports b hb).1
    · rw [hn]
      simp [defaultMemberName, Plain, plain]
  · rcases value_of_mem_exportCandidates hc with
      ⟨f, hf, hn⟩ | ⟨c, hc', hn | ⟨f, hf, hn⟩⟩ | ⟨b, hb, hn⟩ | hd
    · exact hn ▸ hfn f hf
    · exact hn ▸ hcls c hc'
    · exact hn ▸ hclsfn c hc' f hf
    · exact hn ▸ (hexports b hb).2
    · exact hdefault _ hd

end Bundle

namespace Module

/-- A module at its level is neutral once the pieces reading does not look into are: its name,
the statements taken together, which must not go below depth 0 within a line, each parameter
list, the fields, and the names of the returned object. -/
theorem Level.neutral {m : Module} (h : m.Level) (hwn : m.WellNamed) (hname : Bundle.Plain m.name)
    (hstmts : Above 0 ((code 0).feedLines (m.statements.map String.toList)).1)
    (hparams : ∀ f ∈ m.orderedFunctions, Span 0 1 (lines (f.params ++ " \x7b\n").toList))
    (hfields : ∀ c ∈ m.cls, ∀ f ∈ c.fields, Bundle.Neutral (Bundle.fieldDeclaration f ++ "\n"))
    (hexports : ∀ p ∈ Bundle.exportProperties m, Bundle.Plain p.1 ∧ Bundle.Plain p.2) :
    m.Neutral := by
  have hown : ∀ f ∈ m.functions, f ∈ m.orderedFunctions := fun f hf => by
    rw [orderedFunctions, List.mem_mergeSort]
    exact List.mem_append_left _ hf
  have hcls : ∀ c ∈ m.cls, ∀ f ∈ c.functions, f ∈ m.orderedFunctions := fun c hc f hf => by
    rw [orderedFunctions, List.mem_mergeSort, Option.mem_def.1 hc]
    exact List.mem_append_right _ hf
  -- a function, written under its own name or the class's, keeps the level
  have hfn : ∀ f ∈ m.orderedFunctions, f.BodyLevel → ∀ name, Bundle.Plain name →
      f.Neutral name :=
    fun f hf hb _ hn => ⟨hn, hparams f hf, hb.neutral⟩
  refine ⟨hname, hfields, span_join_newline h.statementLines ⟨h.statements, by simpa using hstmts⟩,
    fun f hf => hfn f (hown f hf) (h.functions f hf) _
      (Bundle.Plain.of_identPart (hwn.functions f hf).name),
    fun c hc => Bundle.Plain.of_identPart (hwn.className c hc), fun c hc k hk => ?_,
    fun c hc f hf => ?_, hexports⟩
  · have hk' : k ∈ c.functions :=
      List.mem_append_left _ (List.mem_append_left _ (Option.mem_toList.2 hk))
    exact hfn k (hcls c hc k hk') (h.classFunctions c hc k hk') _
      (Bundle.Plain.of_identPart (hwn.className c hc))
  · have hf' : f ∈ c.functions := by
      rw [ClassDecl.functions, List.append_assoc]
      exact List.mem_append_right _ hf
    exact hfn f (hcls c hc f hf') (h.classFunctions c hc f hf') _
      (Bundle.Plain.of_identPart (hwn.classFunctions c hc f hf').name)

/-- A parsed module keeps the tracker's level when its imports' specifiers are quiet and the
pieces reading does not check keep it too: the statements taken together never go below depth 0
within a line, each parameter list followed by ` {` opens exactly one level, each field keeps
the level, and the names of its export bindings and default export are plain. -/
theorem parse_neutral {path source : String} {mode : Scoping} {m : Module}
    (h : parse path source mode = .ok m)
    (hB : ∀ b ∈ Binding.ofImports m.imports, b.Redirectable ∧ QuietSpecifier b.source)
    (hstmts : Above 0 ((code 0).feedLines (m.statements.map String.toList)).1)
    (hparams : ∀ f ∈ m.orderedFunctions, Span 0 1 (lines (f.params ++ " \x7b\n").toList))
    (hfields : ∀ c ∈ m.cls, ∀ f ∈ c.fields, Bundle.Neutral (Bundle.fieldDeclaration f ++ "\n"))
    (hexports : ∀ b ∈ m.exports, Bundle.Plain b.exported ∧ Bundle.Plain b.localName)
    (hdefault : ∀ v ∈ m.defaultExport, Bundle.Plain v) : m.Neutral := by
  obtain ⟨m₀, hread, rfl⟩ := parse_eq_ok h
  have hwn := (read_named hread).1.redirectCalls mode
  have hname : Bundle.Plain m₀.name := read_name hread ▸ plain_factoryName path
  exact ((read_level hread).redirectCalls hB mode).neutral hwn hname hstmts hparams hfields
    (Bundle.exportProperties_plain hwn hexports hdefault)

end Module

namespace Bundle

end Bundle

end ModuleBundler
