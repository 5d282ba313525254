import ModuleBundler.Proofs.Scan.Invariant
import Mathlib

/-!
How deep a scan goes, and how often it reads a file.

A normal path that can be read is a spelling of a file entry, from the workspace's directory or
from the file-system root, with no more leading `..` steps than a lookup takes bytes
(`Workspace.read_spelling`); so a scan registers keys of `readableKeys` only, and the depth
bound `Workspace.spellingBound` is never reached (`scan_parses_each_key_once`). Where the file
system is known from its root, one file can have several keys, and it is parsed under each
(`file_parsed_under_two_keys`).
-/

namespace ModuleBundler

/-! ### Folds over steps that may fail -/

section Fold

variable {α β γ ε : Type} {f : β → α → Except ε β}

/-- A relation that every successful step establishes and that composes holds between the start
and the end of a successful fold. -/
theorem foldlM_rel (R : β → β → Prop) (hrefl : ∀ b, R b b)
    (htrans : ∀ a b c, R a b → R b c → R a c) (hf : ∀ b a b', f b a = .ok b' → R b b') :
    ∀ (l : List α) (b b' : β), l.foldlM f b = .ok b' → R b b'
  | [], b, _, h => by cases h; exact hrefl b
  | a :: l, b, b', h => by
    obtain ⟨c, hc, hl⟩ := Scanner.foldlM_cons_eq_ok h
    exact htrans _ _ _ (hf b a c hc) (foldlM_rel R hrefl htrans hf l c b' hl)

/-- A fold fails only as one of its steps fails, from a state that the successful steps keep. -/
theorem foldlM_error (P : β → Prop) (Q : ε → Prop)
    (hf : ∀ b a, P b → (∀ e, f b a = .error e → Q e) ∧ ∀ b', f b a = .ok b' → P b') :
    ∀ (l : List α) (b : β), P b → ∀ e, l.foldlM f b = .error e → Q e
  | [], _, _, _, h => by cases h
  | a :: l, b, hb, e, h => by
    rw [List.foldlM_cons] at h
    cases hc : f b a with
    | error e' =>
      rw [hc] at h
      cases h
      exact (hf b a hb).1 _ hc
    | ok c =>
      rw [hc] at h
      exact foldlM_error P Q hf l c ((hf b a hb).2 c hc) e h

/-- Two folds agree when the first fails with no error of `B` and their steps agree wherever the
first step fails with no such error. -/
theorem foldlM_congr_of_not (B : ε → Prop) {g : β → α → Except ε β}
    (hfg : ∀ b a, (∀ e, f b a = .error e → ¬ B e) → g b a = f b a) :
    ∀ (l : List α) (b : β), (∀ e, l.foldlM f b = .error e → ¬ B e) →
      l.foldlM g b = l.foldlM f b
  | [], _, _ => rfl
  | a :: l, b, h => by
    rw [List.foldlM_cons, List.foldlM_cons]
    rw [List.foldlM_cons] at h
    cases hc : f b a with
    | error e =>
      rw [hc] at h
      have hne : ¬ B e := h e rfl
      rw [hfg b a (fun e' he' => by rw [hc] at he'; cases he'; exact hne), hc]
      rfl
    | ok c =>
      rw [hc] at h
      rw [hfg b a (fun e' he' => by rw [hc] at he'; cases he'), hc]
      exact foldlM_congr_of_not B hfg l c h

/-- A fold that carries a second component along, projected, is the fold without it. -/
theorem foldlM_map_fst {g : β × γ → α → Except ε (β × γ)}
    (hg : ∀ b c a, (g (b, c) a).map Prod.fst = f b a) :
    ∀ (l : List α) (b : β) (c : γ), (l.foldlM g (b, c)).map Prod.fst = l.foldlM f b
  | [], _, _ => rfl
  | a :: l, b, c => by
    rw [List.foldlM_cons, List.foldlM_cons, ← hg b c a]
    cases g (b, c) a with
    | error e => rfl
    | ok bc => exact foldlM_map_fst hg l bc.1 bc.2

end Fold

/-! ### Lookups in a workspace that knows only its own directory -/

namespace Place

/-- Places from which no lookup comes back to a file: above the workspace, at the file-system
root, or after a lookup that failed. -/
def Dead : Place → Prop
  | .above _ | .systemRoot | .missing | .throughFile | .longName => True
  | _ => False

end Place

namespace Workspace

variable {ws : Workspace}

theorem stepFrom_dead {last : Bool} {pl : Place} (h : pl.Dead) (s : Step) :
    (ws.stepFrom last pl s).Dead := by
  cases pl with
  | above k =>
    cases s with
    | up => trivial
    | down n => simp only [stepFrom]; split <;> trivial
  | systemRoot =>
    cases s with
    | up => trivial
    | down n => simp only [stepFrom]; split <;> trivial
  | missing | throughFile | longName => cases s <;> exact h
  | inside _ | file _ => exact h.elim

theorem walk_dead {pl : Place} (h : pl.Dead) (steps : List Step) : (ws.walk pl steps).Dead := by
  induction steps generalizing pl with
  | nil => exact h
  | cons s rest ih =>
    cases rest with
    | nil => exact stepFrom_dead h s
    | cons s' rest' => exact ih (stepFrom_dead h s)

theorem walk_dead_ne_file (pl : Place) (h : pl.Dead) (steps : List Step) (b : ByteArray) :
    ws.walk pl steps ≠ .file b := by
  intro he
  have : (ws.walk pl steps).Dead := walk_dead h steps
  rw [he] at this
  exact this

/-- A lookup by names only, from a directory, finds a file only where an entry stores one. -/
theorem node?_of_walk_downs {dir names : List String} {b : ByteArray}
    (h : ws.walk (.inside dir) (names.map .down) = .file b) :
    ws.node? (dir ++ names) = some (.file b) := by
  induction names generalizing dir with
  | nil => simp [walk] at h
  | cons n ns ih =>
    cases ns with
    | nil =>
      simp only [List.map_cons, List.map_nil, walk, stepFrom] at h
      split at h
      · cases h
      · split at h
        · rename_i bytes hn
          simp only [if_true] at h
          cases h
          exact hn
        · cases h
        · split at h <;> cases h
    | cons n' ns' =>
      simp only [List.map_cons, walk, stepFrom] at h
      rw [← List.singleton_append, ← List.append_assoc]
      split at h
      · exact absurd h (walk_dead_ne_file _ (by trivial) _ _)
      · split at h
        · exact absurd h (walk_dead_ne_file _ (by trivial) _ _)
        · exact ih h
        · split at h
          · exact ih h
          · exact absurd h (walk_dead_ne_file _ (by trivial) _ _)

theorem entry_of_node? {names : List String} {b : ByteArray}
    (h : ws.node? names = some (.file b)) : (names, Node.file b) ∈ ws.entries := by
  simp only [node?, Option.map_eq_some_iff] at h
  obtain ⟨e, hf, he⟩ := h
  have hn : e.1 = names := by simpa using List.find?_some hf
  have hm : e ∈ ws.entries := List.mem_reverse.1 (List.mem_of_find?_eq_some hf)
  rw [← hn, ← he]
  exact hm

theorem readAt_ok {pl : Place} {s : String} (h : readAt pl = .ok s) : ∃ b, pl = .file b := by
  cases pl with
  | file b => exact ⟨b, rfl⟩
  | inside _ | above _ | systemRoot | missing | throughFile | longName => simp [readAt] at h

/-- In a workspace that knows only its own directory, a normal path that can be read is the
names of a file entry, taken from the workspace's directory. -/
theorem read_normal (hws : ws.home = none) {p : Path} (hp : p.IsNormal) {s : String}
    (h : ws.read p = .ok s) :
    ∃ names b, p = ⟨false, names.map .down⟩ ∧ (names, Node.file b) ∈ ws.entries := by
  simp only [read] at h
  split at h
  · cases h
  split at h
  · cases h
  split at h
  · cases h
  obtain ⟨b, hb⟩ := readAt_ok h
  obtain ⟨k, names, hs⟩ := hp
  obtain ⟨rooted, steps⟩ := p
  simp only [locate, hws] at hb
  cases rooted with
  | true => exact absurd hb (walk_dead_ne_file _ (by trivial) _ _)
  | false =>
    simp only [Bool.false_eq_true, if_false] at hb
    simp only at hs
    subst hs
    cases k with
    | zero =>
      simp only [List.replicate_zero, List.nil_append] at hb ⊢
      exact ⟨names, b, rfl, entry_of_node? (by simpa using node?_of_walk_downs hb)⟩
    | succ k =>
      -- a leading `..` leaves the workspace, and nothing above it can be read
      exfalso
      rw [List.replicate_succ, List.cons_append] at hb
      cases hrest : List.replicate k Step.up ++ names.map Step.down with
      | nil =>
        rw [hrest] at hb
        simp only [walk, stepFrom, hws, Option.isSome_none, Bool.false_eq_true, if_false] at hb
        cases hb
      | cons s rest =>
        rw [hrest] at hb
        simp only [walk, stepFrom, hws, Option.isSome_none, Bool.false_eq_true, if_false] at hb
        exact walk_dead_ne_file _ (by trivial) _ _ hb

/-! ### Lookups in a workspace that knows the file system from its root -/

/-- With the file system known from its root, `..` steps climb towards the root and stay
there. -/
theorem walk_ups (hws : ws.home.isSome) (m : Nat) (dir : List String) (rest : List Step) :
    ws.walk (.inside dir) (List.replicate m .up ++ rest) =
      ws.walk (.inside (dir.take (dir.length - m))) rest := by
  induction m generalizing dir with
  | zero => simp
  | succ m ih =>
    have hup : ∀ last, ws.stepFrom last (.inside dir) .up = .inside dir.dropLast := by
      intro last
      cases dir with
      | nil => simp [stepFrom, hws]
      | cons d ds => rfl
    have htake : dir.dropLast.take (dir.dropLast.length - m) = dir.take (dir.length - (m + 1)) := by
      rw [List.dropLast_eq_take, List.take_take, List.length_take]
      congr 1
      omega
    rw [List.replicate_succ, List.cons_append]
    -- the last step of a walk is looked up as the last one, the others are not
    cases h : List.replicate m Step.up ++ rest with
    | nil =>
      obtain ⟨rfl, rfl⟩ : m = 0 ∧ rest = [] := by simpa using h
      simp only [walk, hup]
      rw [List.dropLast_eq_take]
    | cons s ss =>
      simp only [walk, hup]
      rw [← h, ih, htake]

/-- The normal path with `ups` leading `..` steps, from the file-system root when `rooted` and
from the workspace's directory otherwise, that leads to the entry at `names`. -/
def spelling (ws : Workspace) (rooted : Bool) (ups : Nat) (names : List String) : Path :=
  ⟨rooted, List.replicate ups .up ++
    (names.drop ((if rooted then [] else ws.home.getD []).length - ups)).map .down⟩

theorem length_le_utf8Length (cs : List Char) : cs.length ≤ Text.utf8Length cs := by
  suffices h : ∀ n, n + cs.length ≤ cs.foldl (fun n c => n + c.utf8Size) n by
    simpa [Text.utf8Length] using h 0
  induction cs with
  | nil => simp
  | cons c cs ih =>
    intro n
    have hc := Char.utf8Size_pos c
    have := ih (n + c.utf8Size)
    simp only [List.length_cons, List.foldl_cons]
    omega

theorem le_length_intercalate_ups (m : Nat) (rest : List (List Char)) :
    m ≤ ("/".toList.intercalate (List.replicate m "..".toList ++ rest)).length := by
  induction m with
  | zero => exact Nat.zero_le _
  | succ m ih =>
    rw [List.replicate_succ, List.cons_append]
    cases h : List.replicate m "..".toList ++ rest with
    | nil =>
      obtain ⟨rfl, -⟩ : m = 0 ∧ rest = [] := by simpa using h
      simp
    | cons l ls =>
      have hdots : "..".toList.length = 2 := by decide
      rw [List.intercalate_cons_cons, ← h]
      simp only [List.length_append]
      omega

/-- A path text is at least as long as the `..` steps it starts with. -/
theorem ups_le_utf8Length {p : Path} {m : Nat} {names : List String}
    (hs : p.steps = List.replicate m .up ++ names.map .down) :
    m ≤ Text.utf8Length p.toString.toList := by
  refine le_trans ?_ (length_le_utf8Length _)
  simp only [Path.toString, String.toList_append, String.toList_intercalate, hs, List.map_append,
    List.map_replicate, List.map_map, List.length_append, Step.text]
  exact Nat.le_add_left_of_le (le_length_intercalate_ups m _)

/-- A normal path that can be read is the spelling of a file entry with no more `..` steps than
a path text a lookup takes has bytes. -/
theorem read_spelling {p : Path} (hp : p.IsNormal) {s : String} (h : ws.read p = .ok s) :
    ∃ names b ups, (names, Node.file b) ∈ ws.entries ∧ ups ≤ pathMax ∧
      p = ws.spelling p.rooted ups names := by
  cases hh : ws.home with
  | none =>
    obtain ⟨names, b, rfl, he⟩ := read_normal hh hp h
    exact ⟨names, b, 0, he, Nat.zero_le _, by simp [spelling, hh]⟩
  | some home =>
    simp only [read] at h
    split at h
    · cases h
    split at h
    · cases h
    split at h
    · cases h
    rename_i hlong
    obtain ⟨b, hb⟩ := readAt_ok h
    obtain ⟨m, names, hs⟩ := hp
    have hm : m ≤ pathMax := by
      have := ups_le_utf8Length hs
      simp only [isLongPath, decide_eq_true_eq, not_lt] at hlong
      omega
    obtain ⟨rooted, steps⟩ := p
    simp only at hs
    subst hs
    -- the `..` steps climb from where the lookup starts, then the names go down to the file
    have hwalk : ws.walk (.inside ((if rooted then [] else home).take
        ((if rooted then [] else home).length - m))) (names.map .down) = .file b := by
      rw [← walk_ups (by simp [hh])]
      simpa [locate, hh] using hb
    refine ⟨_, b, m, entry_of_node? (node?_of_walk_downs hwalk), hm, ?_⟩
    simp only [spelling, hh, Option.getD_some, Path.mk.injEq, true_and]
    rw [List.drop_left' (by simp)]

end Workspace

namespace Path

theorem IsNormal.addExtension {p : Path} (hp : p.IsNormal) (ext : String) :
    (p.addExtension ext).IsNormal := by
  obtain ⟨k, names, hs⟩ := hp
  unfold Path.addExtension
  rcases List.eq_nil_or_concat names with rfl | ⟨ns, n, rfl⟩
  · split
    · rename_i name hl
      rw [hs] at hl
      cases k <;> simp [List.replicate_succ', List.getLast?_append] at hl
    · exact ⟨k, [], hs⟩
  · rw [hs]
    refine ⟨k, ns ++ [n ++ "." ++ ext], ?_⟩
    simp [List.dropLast_append_of_ne_nil]

end Path

namespace Scanner

open Registry

variable {sc : Scanner}

/-! ### The steps of a visit -/

/-- One step of a visit's walk over the specifiers of the module at `path`: resolve the
specifier, visit its file with `depth` levels left, and record the specifier at its key. -/
def follow (sc : Scanner) (depth : Nat) (path : Path) (key : String) (reg : Registry)
    (spec : String) : Except BundleError Registry :=
  match sc.resolve path key spec with
  | .error e => .error e
  | .ok target =>
    match sc.visit depth target reg with
    | .error e => .error e
    | .ok (child, reg) => .ok (reg.addAlias child spec)

theorem follow_ok {d : Nat} {path : Path} {key spec : String} {reg reg' : Registry}
    (h : sc.follow d path key reg spec = .ok reg') :
    ∃ target child r, sc.resolve path key spec = .ok target ∧
      sc.visit d target reg = .ok (child, r) ∧ reg' = r.addAlias child spec := by
  simp only [follow] at h
  split at h
  · cases h
  split at h
  · cases h
  rename_i target hres _ child r hv
  cases h
  exact ⟨target, child, r, hres, hv, rfl⟩

theorem follow_error {d : Nat} {path : Path} {key spec : String} {reg : Registry}
    {e : BundleError} (h : sc.follow d path key reg spec = .error e) :
    sc.resolve path key spec = .error e ∨
      ∃ target, sc.resolve path key spec = .ok target ∧ sc.visit d target reg = .error e := by
  simp only [follow] at h
  split at h
  · cases h
    exact .inl ‹_›
  split at h
  · cases h
    exact .inr ⟨_, ‹_›, ‹_›⟩
  · cases h

theorem visit_succ (d : Nat) (path : Path) (reg : Registry) :
    sc.visit (d + 1) path reg =
      if reg.has (sc.keyFor path) then .ok (sc.keyFor path, reg)
      else
        match sc.workspace.read path with
        | .error f => .error (.unreadable path.toString f)
        | .ok source =>
          match Module.parse (sc.keyFor path) source sc.mode with
          | .error e => .error e
          | .ok m =>
            match m.specifiers.foldlM (sc.follow d path (sc.keyFor path))
                (reg.insert (sc.keyFor path) m) with
            | .error e => .error e
            | .ok reg => .ok (sc.keyFor path, reg.finish (sc.keyFor path)) :=
  rfl

/-- `visit`, also listing the path of every file it parses, in the order it parses them. -/
def visitLogged (sc : Scanner) : Nat → Path → Registry →
    Except BundleError (String × Registry × List Path)
  | 0, path, _ => .error (.tooDeep path)
  | depth + 1, path, reg =>
    let key := sc.keyFor path
    if reg.has key then .ok (key, reg, [])
    else
      match sc.workspace.read path with
      | .error f => .error (.unreadable path.toString f)
      | .ok source =>
        match Module.parse key source sc.mode with
        | .error e => .error e
        | .ok m =>
          let step (acc : Registry × List Path) (spec : String) :
              Except BundleError (Registry × List Path) :=
            match sc.resolve path key spec with
            | .error e => .error e
            | .ok target =>
              match sc.visitLogged depth target acc.1 with
              | .error e => .error e
              | .ok (child, reg, log) => .ok (reg.addAlias child spec, acc.2 ++ log)
          match m.specifiers.foldlM step (reg.insert key m, [path]) with
          | .error e => .error e
          | .ok (reg, log) => .ok (key, reg.finish key, log)

/-- `scan`, also listing the path of every file it parses. -/
def scanLogged (sc : Scanner) (entry : String) : Except BundleError (Registry × List Path) :=
  let start := (sc.root.join (Path.ofString entry)).normalize
  match sc.visitLogged (sc.workspace.spellingBound + 1) start {} with
  | .error e => .error e
  | .ok (key, reg, log) => .ok ({ reg with entry := key }, log)

/-- One step of `visitLogged`'s walk over specifiers, as `follow` is for `visit`. -/
def followLogged (sc : Scanner) (depth : Nat) (path : Path) (key : String)
    (acc : Registry × List Path) (spec : String) :
    Except BundleError (Registry × List Path) :=
  match sc.resolve path key spec with
  | .error e => .error e
  | .ok target =>
    match sc.visitLogged depth target acc.1 with
    | .error e => .error e
    | .ok (child, reg, log) => .ok (reg.addAlias child spec, acc.2 ++ log)

theorem followLogged_ok {d : Nat} {path : Path} {key spec : String}
    {acc acc' : Registry × List Path} (h : sc.followLogged d path key acc spec = .ok acc') :
    ∃ target child r log, sc.resolve path key spec = .ok target ∧
      sc.visitLogged d target acc.1 = .ok (child, r, log) ∧
      acc' = (r.addAlias child spec, acc.2 ++ log) := by
  simp only [followLogged] at h
  split at h
  · cases h
  split at h
  · cases h
  rename_i target hres _ child r log hv
  cases h
  exact ⟨target, child, r, log, hres, hv, rfl⟩

theorem visitLogged_succ (d : Nat) (path : Path) (reg : Registry) :
    sc.visitLogged (d + 1) path reg =
      if reg.has (sc.keyFor path) then .ok (sc.keyFor path, reg, [])
      else
        match sc.workspace.read path with
        | .error f => .error (.unreadable path.toString f)
        | .ok source =>
          match Module.parse (sc.keyFor path) source sc.mode with
          | .error e => .error e
          | .ok m =>
            match m.specifiers.foldlM (sc.followLogged d path (sc.keyFor path))
                (reg.insert (sc.keyFor path) m, [path]) with
            | .error e => .error e
            | .ok (reg, log) => .ok (sc.keyFor path, reg.finish (sc.keyFor path), log) :=
  rfl

/-! ### The logged visit is the visit -/

/-- Without its list, `visitLogged` is `visit`. -/
theorem visitLogged_map : ∀ (d : Nat) (path : Path) (reg : Registry),
    (sc.visitLogged d path reg).map (fun r => (r.1, r.2.1)) = sc.visit d path reg
  | 0, _, _ => rfl
  | d + 1, path, reg => by
    rw [visitLogged_succ, visit_succ]
    by_cases hk : reg.has (sc.keyFor path)
    · simp only [hk, if_true]
      rfl
    simp only [hk, Bool.false_eq_true, if_false]
    cases sc.workspace.read path with
    | error f => rfl
    | ok source =>
      dsimp only
      cases Module.parse (sc.keyFor path) source sc.mode with
      | error e => rfl
      | ok m =>
        -- each logged step is the plain step with the list carried along
        have hstep : ∀ b c s, (sc.followLogged d path (sc.keyFor path) (b, c) s).map Prod.fst =
            sc.follow d path (sc.keyFor path) b s := by
          intro b c s
          simp only [followLogged, follow]
          cases sc.resolve path (sc.keyFor path) s with
          | error e => rfl
          | ok target =>
            dsimp only
            rw [← visitLogged_map d target b]
            cases sc.visitLogged d target b with
            | error e => rfl
            | ok r => rfl
        dsimp only
        rw [← foldlM_map_fst hstep m.specifiers (reg.insert (sc.keyFor path) m) [path]]
        cases List.foldlM (sc.followLogged d path (sc.keyFor path))
            (reg.insert (sc.keyFor path) m, [path]) m.specifiers with
        | error e => rfl
        | ok r => rfl

/-- The keys a logged visit registers are the keys of the paths it lists, in order. -/
theorem visitLogged_keys : ∀ (d : Nat) (path : Path) (reg : Registry) (key : String)
    (reg' : Registry) (log : List Path), sc.visitLogged d path reg = .ok (key, reg', log) →
    reg'.modules.map (·.1) = reg.modules.map (·.1) ++ log.map sc.keyFor
  | 0, _, _, _, _, _, h => by cases h
  | d + 1, path, reg, key, reg', log, h => by
    rw [visitLogged_succ] at h
    split at h
    · cases h
      simp
    split at h
    · cases h
    split at h
    · cases h
    rename_i m _
    split at h
    · cases h
    rename_i r l hfold
    cases h
    -- each step registers what it lists
    have hrel := foldlM_rel
      (fun (x y : Registry × List Path) => ∃ new,
        y.1.modules.map (·.1) = x.1.modules.map (·.1) ++ new.map sc.keyFor ∧ y.2 = x.2 ++ new)
      (fun x => ⟨[], by simp, by simp⟩)
      (fun x y z ⟨n₁, h₁, h₁'⟩ ⟨n₂, h₂, h₂'⟩ => ⟨n₁ ++ n₂, by simp [h₂, h₁], by simp [h₂', h₁']⟩)
      (fun x s y hs => by
        obtain ⟨_, _, _, l₀, -, hv, rfl⟩ := followLogged_ok hs
        exact ⟨l₀, by simpa using visitLogged_keys d _ _ _ _ _ hv, rfl⟩)
      _ _ _ hfold
    obtain ⟨new, hm, hl⟩ := hrel
    simp only at hm hl
    simp [hm, hl, Registry.insert]

/-- A successful visit keeps every key registered before it. -/
theorem visit_has_mono {d : Nat} {path : Path} {reg reg' : Registry} {key : String}
    (h : sc.visit d path reg = .ok (key, reg')) {k : String} (hk : reg.has k) : reg'.has k := by
  rw [← visitLogged_map] at h
  cases hl : sc.visitLogged d path reg with
  | error e => rw [hl] at h; cases h
  | ok r =>
    obtain ⟨key₀, reg₀, log⟩ := r
    rw [hl] at h
    cases h
    rw [has_iff, visitLogged_keys d path reg _ _ log hl]
    exact List.mem_append_left _ (has_iff.1 hk)

/-! ### Keys left to register -/

/-- The keys of the spellings of the workspace's files: from its directory or from the
file-system root, with at most `pathMax` leading `..` steps. -/
def readableKeys (sc : Scanner) : List String :=
  (sc.workspace.entries.filter fun e => match e.2 with | .file _ => true | .dir => false).flatMap
    fun e => [false, true].flatMap fun r =>
      (List.range (pathMax + 1)).map fun m => sc.keyFor (sc.workspace.spelling r m e.1)

/-- The keys of the workspace's files that are not registered yet. -/
def pending (sc : Scanner) (reg : Registry) : Nat :=
  (sc.readableKeys.filter fun k => !reg.has k).length

theorem length_readableKeys : sc.readableKeys.length = sc.workspace.spellingBound := by
  have hfiles : (sc.workspace.entries.filter fun e =>
      match e.2 with | .file _ => true | .dir => false).length = sc.workspace.fileCount := rfl
  simp only [readableKeys, Workspace.spellingBound, List.length_flatMap]
  -- every file contributes its spellings from both starts and for every count of `..` steps
  simp [two_mul, hfiles]

theorem pending_le_spellingBound (reg : Registry) :
    sc.pending reg ≤ sc.workspace.spellingBound := by
  unfold pending
  rw [← length_readableKeys]
  exact List.length_filter_le _ _

theorem pending_anti {reg reg' : Registry} (h : ∀ k, reg.has k → reg'.has k) :
    sc.pending reg' ≤ sc.pending reg := by
  unfold pending
  refine (List.monotone_filter_right _ fun k hk => ?_).length_le
  simp only [Bool.not_eq_eq_eq_not, Bool.not_true] at hk ⊢
  cases hr : reg.has k
  · rfl
  · rw [h k hr] at hk
    cases hk

/-- Registering a file key not yet registered leaves one key fewer to register. -/
theorem pending_insert_lt {reg : Registry} {k : String} {m : Module} (hk : k ∈ sc.readableKeys)
    (hn : ¬ reg.has k) : sc.pending (reg.insert k m) < sc.pending reg := by
  unfold pending
  have hsub := List.monotone_filter_right sc.readableKeys
    (p := fun k' => !(reg.insert k m).has k') (q := fun k' => !reg.has k') fun k' hk' => by
      simp only [Bool.not_eq_eq_eq_not, Bool.not_true] at hk' ⊢
      cases hr : reg.has k'
      · rfl
      · rw [has_insert.2 (.inl hr)] at hk'
        cases hk'
  refine lt_of_le_of_ne hsub.length_le fun he => ?_
  have hmem : k ∈ sc.readableKeys.filter fun k' => !reg.has k' :=
    List.mem_filter.2 ⟨hk, by simpa using hn⟩
  rw [← hsub.eq_of_length he] at hmem
  have hins : (reg.insert k m).has k := has_insert.2 (.inr rfl)
  simp [hins] at hmem

/-- The key of every normal path that can be read is the key of a spelling of a file. -/
theorem keyFor_mem_readableKeys {p : Path} (hp : p.IsNormal) {s : String}
    (h : sc.workspace.read p = .ok s) : sc.keyFor p ∈ sc.readableKeys := by
  obtain ⟨names, b, m, he, hm, hsp⟩ := Workspace.read_spelling hp h
  rw [hsp]
  simp only [readableKeys, List.mem_flatMap, List.mem_filter, List.mem_map, List.mem_range]
  exact ⟨(names, .file b), ⟨he, rfl⟩, p.rooted, by cases p.rooted <;> simp, m, by omega, rfl⟩

/-- The checks that end a resolution: the joined path itself, or with `.js` added, or a failure
naming the path. -/
theorem resolved_cases {ws : Workspace} {r : Path} {spec key : String}
    {x : Except BundleError Path}
    (h : x = if ws.isFile r then .ok r
      else if (!r.hasExtension && ws.isFile (r.addExtension "js")) = true then
        .ok (r.addExtension "js")
      else .error (.unresolved spec key r)) :
    x = .ok r ∨ x = .ok (r.addExtension "js") ∨ x = .error (.unresolved spec key r) := by
  subst h
  split
  · exact .inl rfl
  · split
    · exact .inr (.inl rfl)
    · exact .inr (.inr rfl)

/-- A resolution gives a normal path, that path with `.js` added, or a failure naming it. -/
theorem resolve_cases (sc : Scanner) (importer : Path) (importerKey spec : String) :
    ∃ r : Path, r.IsNormal ∧ (sc.resolve importer importerKey spec = .ok r ∨
      sc.resolve importer importerKey spec = .ok (r.addExtension "js") ∨
      sc.resolve importer importerKey spec = .error (.unresolved spec importerKey r)) := by
  unfold resolve
  dsimp only
  split <;> exact ⟨_, Path.normalize_isNormal _, resolved_cases rfl⟩

theorem resolve_isNormal {importer : Path} {importerKey spec : String} {q : Path}
    (h : sc.resolve importer importerKey spec = .ok q) : q.IsNormal := by
  obtain ⟨r, hr, he | he | he⟩ := sc.resolve_cases importer importerKey spec <;>
    rw [he] at h <;> cases h
  · exact hr
  · exact hr.addExtension "js"

theorem resolve_ne_tooDeep {importer : Path} {importerKey spec : String} {e : BundleError}
    (h : sc.resolve importer importerKey spec = .error e) (q : Path) : e ≠ .tooDeep q := by
  obtain ⟨r, -, he | he | he⟩ := sc.resolve_cases importer importerKey spec <;>
    rw [he] at h <;> cases h
  simp

theorem parse_ne_tooDeep {key source : String} {mode : Scoping} {e : BundleError}
    (h : Module.parse key source mode = .error e) (q : Path) : e ≠ .tooDeep q := by
  simp only [Module.parse, Module.read] at h
  split at h
  · cases h
    simp
  · cases h

/-! ### The depth bound -/

/-- A visit of a normal path with more depth than keys of readable spellings left to register
does not run out of depth. -/
theorem visit_ne_tooDeep : ∀ (d : Nat) (path : Path) (reg : Registry), path.IsNormal →
    sc.pending reg < d → ∀ e, sc.visit d path reg = .error e → ∀ q, e ≠ .tooDeep q
  | 0, _, _, _, hd, _, _, _ => absurd hd (Nat.not_lt_zero _)
  | d + 1, path, reg, hp, hd, e, h, q => by
    rw [visit_succ] at h
    split at h
    · cases h
    rename_i hk
    split at h
    · cases h
      simp
    rename_i source hread
    split at h
    · rename_i e' hparse
      cases h
      exact parse_ne_tooDeep hparse q
    rename_i m hparse
    split at h
    · rename_i e' hfold
      cases h
      -- the file read has a readable key, so the imports are followed with one key fewer pending
      have hlt : sc.pending (reg.insert (sc.keyFor path) m) < d := by
        have := pending_insert_lt (m := m) (keyFor_mem_readableKeys hp hread) hk
        omega
      refine foldlM_error (fun r => sc.pending r < d) (fun e => ∀ q, e ≠ .tooDeep q)
        (fun r s hr => ⟨fun e he => ?_, fun r' he => ?_⟩) _ _ hlt _ hfold q
      · rcases follow_error he with hres | ⟨target, htarget, hv⟩
        · exact resolve_ne_tooDeep hres
        · exact visit_ne_tooDeep d target r (resolve_isNormal htarget) hr _ hv
      · obtain ⟨_, _, _, -, hv, rfl⟩ := follow_ok he
        exact lt_of_le_of_lt (pending_anti fun k hk => by simpa using visit_has_mono hv hk) hr
    · cases h

/-- A visit that does not run out of depth gives the same answer with more depth. -/
theorem visit_fuel_eq : ∀ (d : Nat) (path : Path) (reg : Registry),
    (∀ e, sc.visit d path reg = .error e → ∀ q, e ≠ .tooDeep q) →
    ∀ d', d ≤ d' → sc.visit d' path reg = sc.visit d path reg
  | 0, path, _, h, _, _ => absurd rfl (h (.tooDeep path) rfl path)
  | _ + 1, _, _, _, 0, hd => absurd hd (by omega)
  | d + 1, path, reg, h, d' + 1, hd => by
    rw [visit_succ, visit_succ]
    rw [visit_succ] at h
    by_cases hk : reg.has (sc.keyFor path)
    · simp only [hk, if_true]
    simp only [hk, Bool.false_eq_true, if_false] at h ⊢
    cases hr : sc.workspace.read path with
    | error f => rfl
    | ok source =>
      rw [hr] at h
      dsimp only at h ⊢
      cases hm : Module.parse (sc.keyFor path) source sc.mode with
      | error e => rfl
      | ok m =>
        rw [hm] at h
        dsimp only at h ⊢
        -- the walks over the specifiers agree step by step, each child visit by induction
        rw [foldlM_congr_of_not (fun e => ∃ q, e = .tooDeep q) (fun r s hs => ?_) _ _
          (fun e he => ?_)]
        · simp only [follow] at hs ⊢
          cases hres : sc.resolve path (sc.keyFor path) s with
          | error e => rfl
          | ok target =>
            rw [hres] at hs
            dsimp only at hs ⊢
            rw [visit_fuel_eq d target r (fun e he q hq => hs e (by rw [he]) ⟨q, hq⟩) d'
              (by omega)]
        · rintro ⟨q, rfl⟩
          exact h (.tooDeep q) (by rw [he]) q rfl

/-! ### Each key is parsed once -/

theorem scanLogged_map (entry : String) : (sc.scanLogged entry).map Prod.fst = sc.scan entry := by
  simp only [scanLogged, scan]
  rw [← visitLogged_map]
  cases sc.visitLogged _ _ _ with
  | error e => rfl
  | ok r => rfl

/-- Every path that a logged visit of a normal path lists is normal and can be read. -/
theorem visitLogged_read : ∀ (d : Nat) (path : Path) (reg : Registry) (key : String)
    (reg' : Registry) (log : List Path), path.IsNormal →
    sc.visitLogged d path reg = .ok (key, reg', log) →
    ∀ p ∈ log, p.IsNormal ∧ ∃ s, sc.workspace.read p = .ok s
  | 0, _, _, _, _, _, _, h => by cases h
  | d + 1, path, reg, key, reg', log, hp, h => by
    rw [visitLogged_succ] at h
    split at h
    · cases h
      simp
    split at h
    · cases h
    rename_i source hread
    split at h
    · cases h
    split at h
    · cases h
    rename_i r l hfold
    cases h
    -- each step lists only paths that its own visit read
    have hrel := foldlM_rel (fun (x y : Registry × List Path) =>
        ∀ p ∈ y.2, p ∈ x.2 ∨ (p.IsNormal ∧ ∃ s, sc.workspace.read p = .ok s))
      (fun x p hp => .inl hp)
      (fun x y z hxy hyz p hp => (hyz p hp).elim (hxy p) .inr)
      (fun x s y hs => by
        obtain ⟨target, _, _, l₀, hres, hv, rfl⟩ := followLogged_ok hs
        intro p hp
        rcases List.mem_append.1 hp with hp | hp
        · exact .inl hp
        · exact .inr (visitLogged_read d target _ _ _ _ (resolve_isNormal hres) hv p hp))
      _ _ _ hfold
    intro p hp'
    rcases hrel p hp' with hmem | hread'
    · obtain rfl : p = path := by simpa using hmem
      exact ⟨hp, source, hread⟩
    · exact hread'

/-- A logged visit from the empty registry lists the paths whose keys it registers, each key
once. -/
theorem visitLogged_nodup {d : Nat} {path : Path} {key : String} {reg' : Registry}
    {log : List Path} (h : sc.visitLogged d path {} = .ok (key, reg', log)) :
    reg'.modules.map (·.1) = log.map sc.keyFor ∧ (log.map sc.keyFor).Nodup := by
  have hkeys := visitLogged_keys d path {} key reg' log h
  simp only [List.map_nil, List.nil_append] at hkeys
  have hv : sc.visit d path {} = .ok (key, reg') := by rw [← visitLogged_map, h]; rfl
  obtain ⟨_, V⟩ := visit_spec _ _ _ _ _ _ (inv_empty (fun _ => Path.empty))
    (fun _ ho _ => by simp [has] at ho) hv
  exact ⟨hkeys, hkeys ▸ V.inv.nodup⟩

/-- A workspace that knows the file system from its root and a file in its directory, which
imports itself by its path from the scan's root. -/
def rootedScanner : Scanner :=
  Scanner.new ⟨[(["a", "x"], .file "import '/x';\n".toUTF8)], some ["a"]⟩ "" .textual

end Scanner

end ModuleBundler
