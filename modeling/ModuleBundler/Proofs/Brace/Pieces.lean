import ModuleBundler.Proofs.Brace.Tracker

namespace ModuleBundler.Brace

open Text

namespace State

/-- Only `/`, `*` and `{` change what the character before them does, so a character followed by
any other reads as at the end of a line. -/
theorem step_next_none (s : State) (q : Option Char) (pos : Nat) (c : Char) {next : Option Char}
    (h : ∀ x ∈ next, x ≠ '/' ∧ x ≠ '*' ∧ x ≠ '\x7b') :
    s.step q pos c next = s.step q pos c none := by
  cases next with
  | none => rfl
  | some x =>
    obtain ⟨h₁, h₂, h₃⟩ := h x rfl
    simp [step, h₁, h₂, h₃]

theorem step_append_head (s : State) (q : Option Char) (pos : Nat) (c : Char) {x : Char}
    (hx : x ≠ '/' ∧ x ≠ '*' ∧ x ≠ '\x7b') (rest : List Char) :
    s.step q pos c (rest ++ [x]).head? = s.step q pos c rest.head? := by
  cases rest with
  | nil => exact step_next_none s q pos c (by simpa using hx)
  | cons y rest => rfl

theorem step_return (s : State) (q : Option Char) (pos : Nat) (next : Option Char) :
    (s.step q pos '\r' next).state = s ∧ (s.step q pos '\r' next).stops = false ∧
      (s.step q pos '\r' next).event = none := by
  unfold step
  by_cases hc : s.inComment
  · simp [hc]
  · cases q with
    | some q => rcases eq_or_ne '\r' q with rfl | hq <;> simp [*]
    | none => rcases s.layers with _ | ⟨_ | n, r⟩ <;> simp [hc]

/-- A carriage return at the end of a line changes nothing the tracker reads. -/
theorem scan_append_return (s : State) (q : Option Char) (pos : Nat) :
    ∀ cs : List Char, s.scan q pos (cs ++ ['\r']) = s.scan q pos cs
  | [] => by
    obtain ⟨hs, hstop, hev⟩ := step_return s q pos none
    rw [List.nil_append, scan]
    rcases hp : (s.step q pos '\r' none).pairs <;> simp [hs, hstop, hev, hp, scan]
  | c :: rest => by
    rw [List.cons_append, scan, scan, step_append_head s q pos c (by decide) rest]
    generalize s.step q pos c rest.head? = m
    cases hstop : m.stops
    · -- a pair at the end of the line takes the carriage return, and nothing is left either way
      cases hp : m.pairs
      · simp [scan_append_return m.state m.quote _ rest]
      · cases rest with
        | nil => simp [scan]
        | cons y rest => simp [scan_append_return m.state m.quote _ rest]
    · simp

theorem step_blank {c : Char} (hc : isBlank c = true) (s : State) (pos : Nat)
    (next : Option Char) : s.step none pos c next = { state := s, quote := none } := by
  have hne : ∀ x ∈ ['*', '\\', '`', '$', '/', '\'', '"', '\x7b', '\x7d'], c ≠ x := by
    intro x hx h
    subst h
    simp only [List.mem_cons, List.not_mem_nil, or_false] at hx
    rcases hx with rfl | rfl | rfl | rfl | rfl | rfl | rfl | rfl | rfl <;> simp [isBlank] at hc
  simp only [List.mem_cons, List.not_mem_nil, or_false, forall_eq_or_imp, forall_eq] at hne
  obtain ⟨h₁, h₂, h₃, h₄, h₅, h₆, h₇, h₈, h₉⟩ := hne
  unfold step
  by_cases hc : s.inComment
  · simp [hc, h₁]
  · rcases s.layers with _ | ⟨_ | n, r⟩ <;> simp [hc, h₂, h₃, h₄, h₅, h₆, h₇, h₈, h₉]

/-- Blanks change nothing the tracker reads, in any state. -/
theorem scan_blank {s : State} {pos : Nat} {cs : List Char} (h : ∀ c ∈ cs, isBlank c = true) :
    s.scan none pos cs = (s, []) := by
  induction cs generalizing pos with
  | nil => simp [scan]
  | cons c cs ih =>
    rw [scan, step_blank (h c List.mem_cons_self)]
    simp [ih fun x hx => h x (List.mem_cons_of_mem _ hx)]

theorem le_pos_of_mem_reads {s : State} {q : Option Char} {pos : Nat} {cs : List Char}
    {r : Read} (h : r ∈ s.reads q pos cs) : pos ≤ r.pos := by
  fun_induction s.reads q pos cs with
  | case1 => simp at h
  | case2 s q pos c rest m ih =>
    simp only [dite_eq_ite] at ih
    simp only [List.mem_cons] at h
    rcases h with rfl | h
    · exact le_refl _
    · split at h
      · simp at h
      · have := ih h
        split at this <;> omega

/-- A read at the position a scan starts from is its first, of the first character. -/
theorem reads_at_start {s : State} {q : Option Char} {pos : Nat} {cs : List Char}
    {pre post : List Read} {r : Read} (h : s.reads q pos cs = pre ++ r :: post)
    (hpos : r.pos = pos) : pre = [] ∧ cs.head? = some r.char := by
  cases cs with
  | nil => simp [reads] at h
  | cons c rest =>
    rw [reads] at h
    cases pre with
    | nil =>
      simp only [List.nil_append, List.cons.injEq] at h
      exact ⟨rfl, by rw [← h.1]; rfl⟩
    | cons p pre =>
      simp only [List.cons_append, List.cons.injEq] at h
      have hmem : r ∈ (if (s.step q pos c rest.head?).stops then []
          else (s.step q pos c rest.head?).state.reads (s.step q pos c rest.head?).quote
            (pos + if (s.step q pos c rest.head?).pairs then 2 else 1)
            (if (s.step q pos c rest.head?).pairs then rest.tail else rest)) := by
        rw [h.2]
        simp
      split at hmem
      · simp at hmem
      · have := le_pos_of_mem_reads hmem
        split at this <;> omega

/-- Up to a character it reads, a scan reads the text as if the line ended there, when that
character is neither `/`, `*` nor `{`: it comes to the state the character is read in, with the
events of the reads before it. -/
theorem scan_take_of_reads {r : Read} (hr : r.char ≠ '/' ∧ r.char ≠ '*' ∧ r.char ≠ '\x7b') :
    ∀ {pre post : List Read} {s : State} {q : Option Char} {pos : Nat} {cs : List Char},
      s.reads q pos cs = pre ++ r :: post →
      s.scan q pos (cs.take (r.pos - pos)) = (r.state, pre.filterMap fun r => r.move.event)
  | [], post, s, q, pos, cs, h => by
    cases cs with
    | nil => simp [reads] at h
    | cons c rest =>
      rw [reads] at h
      simp only [List.nil_append, List.cons.injEq] at h
      rw [← h.1]
      simp [scan]
  | p :: pre, post, s, q, pos, cs, h => by
    cases cs with
    | nil => simp [reads] at h
    | cons c rest =>
      rw [reads] at h
      simp only [List.cons_append, List.cons.injEq] at h
      obtain ⟨rfl, h⟩ := h
      set m := s.step q pos c rest.head? with hm
      split at h
      · simp at h
      rename_i hstop
      have hle : pos + (if m.pairs then 2 else 1) ≤ r.pos :=
        le_pos_of_mem_reads (h ▸ List.mem_append_right _ List.mem_cons_self)
      have ih := scan_take_of_reads hr h
      obtain ⟨n, hn⟩ : ∃ n, r.pos - pos = n + 1 := ⟨r.pos - pos - 1, by split at hle <;> omega⟩
      -- the character before the cut reads as it does in the whole line
      have hstep : s.step q pos c (rest.take n).head? = m := by
        rcases Nat.eq_zero_or_pos n with rfl | hpos
        · have hp : m.pairs = false := by
            cases hpair : m.pairs
            · rfl
            · rw [hpair] at hle; simp at hle; omega
          rw [hp] at h hle
          simp only [Bool.false_eq_true, if_false] at h hle
          obtain ⟨-, hhead⟩ := reads_at_start h (by omega)
          rw [List.take_zero, List.head?_nil, hm, hhead]
          exact (step_next_none s q pos c (by simpa using hr)).symm
        · rw [List.head?_take, if_neg (by omega)]
      rw [hn, List.take_succ_cons, scan, hstep]
      simp only [hstop, Bool.false_eq_true, if_false, List.filterMap_cons]
      have hcut : (if m.pairs then (rest.take n).tail else rest.take n) =
          (if m.pairs then rest.tail else rest).take
            (r.pos - (pos + if m.pairs then 2 else 1)) := by
        split
        · rw [List.tail_take_eq_take_tail]; congr 1; split at hle <;> omega
        · congr 1; split at hle <;> omega
      rw [hcut, ih]
      cases hev : m.event <;> simp [Read.move, ← hm, hev]

end State

/-- Events counted from depth 1 or more of which none closes down to depth 0 stay at depth 1
or more. -/
theorem Counted.one_le {d : Int} {evs : List Event} (h : Counted d evs) (hd : 1 ≤ d)
    (hc : ∀ e ∈ evs, e.opens = false → e.depth ≠ 0) : ∀ e ∈ evs, 1 ≤ e.depth := by
  induction evs generalizing d with
  | nil => simp
  | cons e evs ih =>
    obtain ⟨he, hrest⟩ := h
    have hfirst : 1 ≤ e.depth := by
      cases ho : e.opens
      · have := hc e List.mem_cons_self ho
        simp only [Event.delta, ho, Bool.false_eq_true, if_false] at he
        omega
      · simp only [Event.delta, ho, if_true] at he
        omega
    intro x hx
    rcases List.mem_cons.1 hx with rfl | hx
    · exact hfirst
    · exact ih hrest hfirst (fun y hy => hc y (List.mem_cons_of_mem _ hy)) x hx

namespace State

/-- A scan from depth 1 or more that closes nothing down to depth 0 stays at depth 1 or more,
and ends there. -/
theorem scan_one_le {s : State} (hs : 1 ≤ s.depth) (q : Option Char) (pos : Nat)
    (cs : List Char) (hc : ∀ e ∈ (s.scan q pos cs).2, e.opens = false → e.depth ≠ 0) :
    (∀ e ∈ (s.scan q pos cs).2, 1 ≤ e.depth) ∧ 1 ≤ (s.scan q pos cs).1.depth := by
  obtain ⟨hcount, hend⟩ := scan_counted s q pos cs
  have hall := hcount.one_le hs hc
  refine ⟨hall, ?_⟩
  rw [hend, ← hcount.last_depth]
  cases hl : (s.scan q pos cs).2.getLast? with
  | none => exact hs
  | some e => exact hall e (List.mem_of_getLast? hl)

/-- The scan from a position reads as the scan from the start of the line, its events moved. -/
theorem scan_from (s : State) (q : Option Char) (pos : Nat) (cs : List Char) :
    s.scan q pos cs = ((s.scan q 0 cs).1, (s.scan q 0 cs).2.map (Event.shift pos 0)) := by
  simpa using scan_lift 0 pos s q 0 cs

/-- One step of a scan, with the rest of the line read on from the state after it. -/
theorem scan_cons (s : State) (q : Option Char) (pos : Nat) (c : Char) (rest : List Char) :
    s.scan q pos (c :: rest) =
      if (s.step q pos c rest.head?).stops then ((s.step q pos c rest.head?).state, [])
      else
        (((s.step q pos c rest.head?).state.scan (s.step q pos c rest.head?).quote
            (pos + if (s.step q pos c rest.head?).pairs then 2 else 1)
            (if (s.step q pos c rest.head?).pairs then rest.tail else rest)).1,
          (s.step q pos c rest.head?).event.toList ++
            ((s.step q pos c rest.head?).state.scan (s.step q pos c rest.head?).quote
              (pos + if (s.step q pos c rest.head?).pairs then 2 else 1)
              (if (s.step q pos c rest.head?).pairs then rest.tail else rest)).2) := by
  rw [scan]

end State

/-- Two runs of the tracker that end in the same state, with events at the same depths. -/
def Alike (a b : State × List Event) : Prop :=
  a.1 = b.1 ∧ a.2.map Event.depth = b.2.map Event.depth

theorem Alike.refl (a : State × List Event) : Alike a a := ⟨rfl, rfl⟩

theorem Alike.trans {a b c : State × List Event} (h : Alike a b) (h' : Alike b c) : Alike a c :=
  ⟨h.1.trans h'.1, h.2.trans h'.2⟩

/-- Runs that end alike stay alike behind the same first events. -/
theorem Alike.cons {a b : State × List Event} (h : Alike a b) (evs : List Event) :
    Alike (a.1, evs ++ a.2) (b.1, evs ++ b.2) :=
  ⟨h.1, by simp [h.2]⟩

theorem alike_scan_pos (s : State) (q : Option Char) (pos pos' : Nat) (cs : List Char) :
    Alike (s.scan q pos cs) (s.scan q pos' cs) := by
  rw [State.scan_from s q pos, State.scan_from s q pos']
  exact ⟨rfl, by simp [Event.shift]⟩

/-- Two lines the tracker reads alike from every state. -/
def ReadsAlike (t t' : List Char) : Prop :=
  ∀ s : State, Alike (s.feed t') (s.feed t)

theorem readsAlike_dropFinalReturn (t : List Char) : ReadsAlike t (dropFinalReturn t) := by
  unfold dropFinalReturn
  split
  · rename_i hr
    intro s
    rw [← List.dropLast_append_getLast? _ hr, State.feed, State.feed,
      State.scan_append_return, List.dropLast_append_getLast? _ hr]
    exact ⟨rfl, rfl⟩
  · exact fun _ => ⟨rfl, rfl⟩

theorem feedLines_readsAlike {ts ts' : List (List Char)} (h : List.Forall₂ ReadsAlike ts ts')
    (s : State) : (s.feedLines ts').2 = (s.feedLines ts).2 ∧
      ∀ d, Above d (s.feedLines ts).1 → Above d (s.feedLines ts').1 := by
  induction h generalizing s with
  | nil => exact ⟨rfl, fun _ h => h⟩
  | @cons t t' ts ts' ht _ ih =>
    obtain ⟨hst, hev⟩ := ht s
    obtain ⟨hend, habove⟩ := ih ((s.feed t).1)
    refine ⟨by simp only [State.feedLines, hst, hend], fun d hd p hp e he => ?_⟩
    simp only [State.feedLines, List.mem_cons] at hp hd
    rcases hp with rfl | hp
    · have hmem : e.depth ∈ (s.feed t').2.map Event.depth := List.mem_map_of_mem he
      rw [hev] at hmem
      obtain ⟨e', he', hdepth⟩ := List.mem_map.1 hmem
      rw [← hdepth]
      exact hd _ List.mem_cons_self e' he'
    · rw [hst] at hp
      exact habove d (fun p hp => hd p (List.mem_cons_of_mem _ hp)) p hp e he

/-- Lines read alike span alike. -/
theorem Span.of_readsAlike {d d' : Int} {ts ts' : List (List Char)}
    (h : List.Forall₂ ReadsAlike ts ts') (hs : Span d d' ts) : Span d d' ts' := by
  obtain ⟨hend, habove⟩ := feedLines_readsAlike h (State.code d)
  exact ⟨hend.trans hs.1, habove _ hs.2⟩

end ModuleBundler.Brace
