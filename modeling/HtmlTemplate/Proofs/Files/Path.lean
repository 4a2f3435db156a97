import HtmlTemplate.Files.Library
import HtmlTemplate.Proofs.Record
import HtmlTemplate.Proofs.Text.Ends

/-!
Folded paths.

A folded path goes up before it goes down, and from the root it does not go up; such a path is
folded already. So a path may be folded in parts: whatever is folded first, the whole is folded to
the same. Texts keep what folding needs, because a folded path is read back from its text.
-/

namespace HtmlTemplate

open Text

/-- What a file system takes a path for: the root or the directory the reader is in, which stand
at the front only, and the steps from there. -/
inductive Path.Component where
  | root
  | here
  | step (s : Step)
  deriving DecidableEq

/-- Whether the text of a step is read as that step. -/
def Step.Proper : Step → Prop
  | up => True
  | down name => name ≠ [] ∧ name ≠ ['.'] ∧ name ≠ ['.', '.'] ∧ '/' ∉ name

namespace Path

variable {p q : Path} {a b t : Text} {rooted : Bool} {steps : List Step}

/-! ### Folding -/

/-- Steps up and then steps down, last step first; from the root none leads up. -/
def Folded (rooted : Bool) (steps : List Step) : Prop :=
  ∃ (names : List Text) (ups : Nat),
    steps = names.map .down ++ List.replicate ups .up ∧ (rooted = true → ups = 0)

lemma foldStep_replicate (ups : Nat) :
    foldStep rooted (List.replicate ups .up) .up =
      if rooted then List.replicate ups .up else List.replicate (ups + 1) .up := by
  cases ups <;> rfl

lemma Folded.foldStep (h : Folded rooted steps) (s : Step) :
    Folded rooted (foldStep rooted steps s) := by
  obtain ⟨names, ups, rfl, hups⟩ := h
  cases s with
  | down name => exact ⟨name :: names, ups, by cases names <;> cases ups <;> rfl, hups⟩
  | up =>
    cases names with
    | cons name names => exact ⟨names, ups, rfl, hups⟩
    | nil =>
      rw [List.map_nil, List.nil_append, foldStep_replicate]
      split
      · exact ⟨[], ups, rfl, hups⟩
      · next hrooted => exact ⟨[], ups + 1, rfl, fun h => absurd h hrooted⟩

lemma Folded.foldl (h : Folded rooted steps) (more : List Step) :
    Folded rooted (more.foldl (Path.foldStep rooted) steps) := by
  induction more generalizing steps with
  | nil => exact h
  | cons s more ih => exact ih (h.foldStep s)

lemma folded_foldl (rooted : Bool) (steps : List Step) :
    Folded rooted (steps.foldl (foldStep rooted) []) :=
  .foldl ⟨[], 0, rfl, fun _ => rfl⟩ steps

/-- Folded steps taken once more from the first to the last stay as they are. -/
lemma Folded.foldl_reverse (h : Folded rooted steps) :
    steps.reverse.foldl (Path.foldStep rooted) [] = steps := by
  obtain ⟨names, ups, rfl, hups⟩ := h
  rw [List.foldl_reverse]
  induction names with
  | cons name names ih =>
    rw [List.map_cons, List.cons_append, List.foldr_cons, ih]
    cases names <;> cases ups <;> rfl
  | nil =>
    rw [List.map_nil, List.nil_append]
    induction ups with
    | zero => rfl
    | succ ups ih =>
      have hrooted : rooted = false := by
        by_contra h
        exact absurd (hups (Bool.not_eq_false rooted ▸ h)) (Nat.succ_ne_zero ups)
      subst hrooted
      rw [List.replicate_succ, List.foldr_cons, ih (fun h => absurd h Bool.false_ne_true),
        foldStep_replicate]
      rfl

lemma fold_fold (p : Path) : p.fold.fold = p.fold := by
  rw [fold, fold, (folded_foldl p.rooted p.steps).foldl_reverse]

/-- A path may be folded before another is put behind it. -/
lemma fold_fold_join (p q : Path) : (p.fold.join q).fold = (p.join q).fold := by
  unfold join
  split
  · rfl
  · rw [fold, fold, fold, List.foldl_append, List.foldl_append,
      (folded_foldl p.rooted p.steps).foldl_reverse]

lemma exists_steps_fold (p : Path) : ∃ (ups : Nat) (names : List Text),
    p.fold.steps = List.replicate ups .up ++ names.map .down ∧ (p.rooted = true → ups = 0) := by
  obtain ⟨names, ups, h, hups⟩ := folded_foldl p.rooted p.steps
  refine ⟨ups, names.reverse, ?_, hups⟩
  rw [fold, h, List.reverse_append, List.reverse_replicate, List.map_reverse]

lemma proper_foldl (hp : ∀ s ∈ steps, s.Proper) (more : List Step) (hm : ∀ s ∈ more, s.Proper) :
    ∀ s ∈ more.foldl (foldStep rooted) steps, s.Proper := by
  induction more generalizing steps with
  | nil => exact hp
  | cons s more ih =>
    obtain ⟨hs, hm⟩ := List.forall_mem_cons.1 hm
    refine ih ?_ hm
    unfold foldStep
    split
    · exact (List.forall_mem_cons.1 hp).2
    · split
      · exact hp
      · exact List.forall_mem_cons.2 ⟨trivial, hp⟩
    · exact List.forall_mem_cons.2 ⟨hs, hp⟩

lemma proper_fold (hp : ∀ s ∈ p.steps, s.Proper) : ∀ s ∈ p.fold.steps, s.Proper := by
  intro s hs
  exact proper_foldl (List.forall_mem_nil _) p.steps hp s (List.mem_reverse.1 hs)

/-! ### Paths and their texts -/

/-- What lies between the slashes of a path. -/
def pieces (t : Text) : List Text := splitAt (· == '/') t

lemma pieces_eq_splitOn (t : Text) : pieces t = t.splitOn '/' := by
  rw [List.splitOn_eq_splitOnP]
  induction t with
  | nil => rfl
  | cons c t ih =>
    rw [pieces, splitAt] at ih
    rw [pieces, splitAt, List.foldr_cons, ih, List.splitOnP_cons_eq_if_modifyHead]
    split
    · rfl
    · obtain ⟨w, ws, hws⟩ := List.exists_cons_of_ne_nil (List.splitOnP_ne_nil (· == '/') t)
      rw [hws]
      rfl

lemma pieces_append (t u : Text) : pieces (t ++ '/' :: u) = pieces t ++ pieces u := by
  simp only [pieces_eq_splitOn, List.splitOn_append_cons_self]

/-- A piece has no slash in it. -/
lemma slash_notMem_of_mem_pieces {piece : Text} (h : piece ∈ pieces t) : '/' ∉ piece := by
  induction t generalizing piece with
  | nil =>
    rw [List.mem_singleton.1 h]
    exact List.not_mem_nil
  | cons c t ih =>
    rw [pieces_eq_splitOn, List.splitOn_cons_eq_if_modifyHead, ← pieces_eq_splitOn] at h
    split at h
    · rcases List.mem_cons.1 h with rfl | h
      · exact List.not_mem_nil
      · exact ih h
    · next hc =>
      obtain ⟨w, ws, hws⟩ :=
        List.exists_cons_of_ne_nil (pieces_eq_splitOn t ▸ List.splitOn_ne_nil '/' t)
      rw [hws, List.modifyHead_cons] at h
      rw [hws] at ih
      rcases List.mem_cons.1 h with rfl | h
      · rw [List.mem_cons, not_or]
        exact ⟨fun heq => hc (beq_iff_eq.2 heq.symm), ih List.mem_cons_self⟩
      · exact ih (List.mem_cons_of_mem w h)

lemma step?_stepText {s : Step} (h : s.Proper) : step? (stepText s) = some s := by
  cases s with
  | up => rfl
  | down name =>
    obtain ⟨hempty, hpoint, hpoints, -⟩ := h
    rw [stepText, step?, if_neg (not_or.2 ⟨hempty, hpoint⟩), if_neg hpoints]

lemma proper_of_mem_ofText : ∀ s ∈ (ofText t).steps, s.Proper := by
  intro s hs
  obtain ⟨piece, hpiece, hstep⟩ := List.mem_filterMap.1 hs
  rw [step?] at hstep
  split_ifs at hstep with hnone hpoints
  · cases hstep
    trivial
  · cases hstep
    rw [not_or] at hnone
    exact ⟨hnone.1, hnone.2, hpoints, slash_notMem_of_mem_pieces hpiece⟩

/-- The text of a step neither is empty nor begins with a slash, and is not a single point. -/
lemma exists_stepText {s : Step} (h : s.Proper) :
    ∃ c w, stepText s = c :: w ∧ c ≠ '/' ∧ stepText s ≠ ['.'] ∧ '/' ∉ stepText s := by
  cases s with
  | up => exact ⟨_, _, rfl, by decide, by decide, by decide⟩
  | down name =>
    obtain ⟨hempty, hpoint, -, hslash⟩ := h
    obtain ⟨c, w, rfl⟩ := List.exists_cons_of_ne_nil hempty
    exact ⟨c, w, rfl, fun hc => hslash (hc ▸ List.mem_cons_self), hpoint, hslash⟩

/-- The pieces between the slashes of a text of steps. -/
lemma pieces_joinWith (h : ∀ s ∈ steps, s.Proper) (hne : steps ≠ []) :
    pieces (joinWith ['/'] (steps.map stepText)) = steps.map stepText := by
  rw [pieces_eq_splitOn]
  refine List.splitOn_intercalate '/' ?_ (fun hnil => hne (List.map_eq_nil_iff.1 hnil))
  intro w hw
  obtain ⟨s, hs, rfl⟩ := List.mem_map.1 hw
  obtain ⟨-, -, -, -, -, hslash⟩ := exists_stepText (h s hs)
  exact hslash

lemma filterMap_pieces (h : ∀ s ∈ steps, s.Proper) :
    (pieces (joinWith ['/'] (steps.map stepText))).filterMap step? = steps := by
  cases steps with
  | nil => rfl
  | cons s steps =>
    rw [pieces_joinWith h (List.cons_ne_nil s steps)]
    generalize s :: steps = all at h
    induction all with
    | nil => rfl
    | cons s all ih =>
      obtain ⟨hs, hall⟩ := List.forall_mem_cons.1 h
      rw [List.map_cons, List.filterMap_cons_some (step?_stepText hs), ih hall]

lemma startsWith_slash (c : Char) (t : Text) : startsWith (c :: t) ['/'] = decide ('/' = c) := by
  rw [startsWith, after?]
  by_cases h : '/' = c
  · rw [if_pos h, decide_eq_true h]
    rfl
  · rw [if_neg h, decide_eq_false h]
    rfl

/-- A text of steps does not lead to the root. -/
lemma startsWith_joinWith (h : ∀ s ∈ steps, s.Proper) :
    startsWith (joinWith ['/'] (steps.map stepText)) ['/'] = false := by
  cases steps with
  | nil => rfl
  | cons s steps =>
    obtain ⟨c, w, hs, hc, -⟩ := exists_stepText (h s List.mem_cons_self)
    have hfront : ∃ u, joinWith ['/'] ((s :: steps).map stepText) = c :: u := by
      rw [List.map_cons, hs, joinWith]
      cases steps with
      | nil => exact ⟨w, by simp⟩
      | cons s' steps => exact ⟨_, by rw [List.map_cons, List.intercalate_cons_cons]; rfl⟩
    obtain ⟨u, hu⟩ := hfront
    rw [hu, startsWith_slash]
    exact decide_eq_false (Ne.symm hc)

/-- A path is read back from its text. -/
lemma ofText_toText (h : ∀ s ∈ p.steps, s.Proper) : ofText p.toText = p := by
  obtain ⟨rooted, steps⟩ := p
  have hsteps := filterMap_pieces h
  rw [pieces] at hsteps
  cases rooted with
  | true =>
    have htext : toText ⟨true, steps⟩ = [] ++ '/' :: joinWith ['/'] (steps.map stepText) := rfl
    have hpieces := pieces_append [] (joinWith ['/'] (steps.map stepText))
    rw [ofText, htext]
    rw [pieces, pieces, pieces] at hpieces
    rw [hpieces, List.filterMap_append, hsteps]
    rfl
  | false =>
    have htext : toText ⟨false, steps⟩ = joinWith ['/'] (steps.map stepText) := rfl
    rw [ofText, htext, hsteps, startsWith_joinWith h]

lemma ofText_normalize (t : Text) : ofText (normalize t) = (ofText t).fold :=
  ofText_toText (proper_fold proper_of_mem_ofText)

/-! ### Joined paths -/

/-- The text of a path seen from another: a slash parts them, unless one ends the first already. -/
def joinText (a b : Text) : Text :=
  if b.startsWith ['/'] then b
  else if a = [] ∨ a.endsWith ['/'] then a ++ b
  else a ++ '/' :: b

lemma ofText_append_slash (a b : Text) :
    ofText (a ++ '/' :: b) =
      ⟨startsWith (a ++ ['/']) ['/'], (ofText a).steps ++ (ofText b).steps⟩ := by
  have hpieces := pieces_append a b
  rw [pieces, pieces, pieces] at hpieces
  rw [ofText, hpieces, List.filterMap_append]
  cases a with
  | nil => rfl
  | cons c a => rw [List.cons_append, List.cons_append, startsWith_slash, startsWith_slash]; rfl

lemma ofText_joinText (a b : Text) : ofText (joinText a b) = (ofText a).join (ofText b) := by
  have hrooted : (ofText b).rooted = startsWith b ['/'] := rfl
  unfold joinText join
  rw [hrooted]
  split
  · rfl
  · next hb =>
    rw [Bool.not_eq_true] at hb
    split
    · next ha =>
      rcases ha with rfl | ha
      · rw [List.nil_append, ofText, hb]
        rfl
      · obtain ⟨a, rfl⟩ := endsWith_iff.1 ha
        rw [List.append_assoc, List.singleton_append, ofText_append_slash, ofText_append_slash]
        simp [ofText, splitAt, step?]
    · next ha =>
      obtain ⟨c, a, rfl⟩ := List.exists_cons_of_ne_nil fun h => ha (.inl h)
      rw [ofText_append_slash, List.cons_append, startsWith_slash, ofText, startsWith_slash]

lemma normalize_normalize (t : Text) : normalize (normalize t) = normalize t := by
  rw [normalize, ofText_normalize, fold_fold, normalize]

lemma normalize_joinText (a b : Text) :
    normalize (joinText (normalize a) b) = normalize (joinText a b) := by
  rw [normalize, ofText_joinText, ofText_normalize, fold_fold_join, ← ofText_joinText, normalize]

/-! ### What a folded path leads through -/

/-- The components of a path. A point that stands for the same directory is one only in front. -/
def components (t : Text) : List Component :=
  (if t.startsWith ['/'] then [.root]
    else if (pieces t).head? = some ['.'] then [.here] else []) ++
  ((pieces t).filterMap step?).map .step

/-- A folded path that does not begin at the root does not begin with a point either. -/
lemma head?_pieces_normalize (ht : startsWith t ['/'] = false) :
    (pieces (normalize t)).head? ≠ some ['.'] := by
  have htext : normalize t = joinWith ['/'] ((ofText t).fold.steps.map stepText) := by
    rw [normalize, toText]
    simp [fold, ofText, ht]
  have hproper := proper_fold (proper_of_mem_ofText (t := t))
  rw [htext]
  cases hs : (ofText t).fold.steps with
  | nil => decide
  | cons s steps =>
    rw [hs] at hproper
    obtain ⟨-, -, -, -, hpoint, -⟩ := exists_stepText (hproper s List.mem_cons_self)
    rw [pieces_joinWith hproper (List.cons_ne_nil s steps), List.map_cons, List.head?_cons]
    exact fun h => hpoint (Option.some.inj h)

lemma components_normalize (t : Text) :
    ∃ (ups : Nat) (names : List Text), components (normalize t) =
      (if t.startsWith ['/'] then [.root] else List.replicate ups (.step .up)) ++
        names.map fun name => .step (.down name) := by
  obtain ⟨ups, names, hsteps, hups⟩ := exists_steps_fold (ofText t)
  have hread := ofText_normalize t
  have hrooted : startsWith (normalize t) ['/'] = startsWith t ['/'] := congrArg rooted hread
  have hfound : (pieces (normalize t)).filterMap step? =
      List.replicate ups .up ++ names.map .down := (congrArg Path.steps hread).trans hsteps
  refine ⟨ups, names, ?_⟩
  rw [components, hrooted, hfound]
  cases ht : startsWith t ['/'] with
  | true =>
    rw [hups ht]
    simp
  | false =>
    rw [if_neg (head?_pieces_normalize ht)]
    simp

end Path

namespace Library

/-! ### Files under folded paths -/

lemma read_put (l : Library) (path : Text) (bytes : Bytes) (p : Text) :
    (l.put path bytes).read p =
      if Path.normalize path = Path.normalize p then .ok bytes else l.read p := by
  rw [read, put, Record.get?_set]
  by_cases h : Path.normalize p = Path.normalize path
  · rw [if_pos h, if_pos h.symm]
  · rw [if_neg h, if_neg (Ne.symm h), read]

/-- Of the files put one after the other, the last one under the same folded path is read. -/
lemma read_foldl_put (l : Library) (puts : List (Text × Bytes)) (p : Text) :
    (puts.foldl (fun l e => l.put e.1 e.2) l).read p =
      match puts.reverse.find? fun e => Path.normalize e.1 = Path.normalize p with
      | some e => .ok e.2
      | none => l.read p := by
  induction puts using List.reverseRecOn with
  | nil => rfl
  | append_singleton puts e ih =>
    rw [List.foldl_append, List.foldl_cons, List.foldl_nil, read_put, ih, List.reverse_append,
      List.reverse_singleton, List.singleton_append, List.find?_cons]
    by_cases h : Path.normalize e.1 = Path.normalize p <;> simp [h]

end Library

/-- **Folding a path makes one name of all that mean it.** A folded path stays as it is; it has no
point for the directory it is in, and goes up only at its front and not from the root; a path put
behind another is folded to the same whether that one is folded before or not; and from a library
the file is read that was put last under a path with the same folded path, if there is any. -/
theorem Path.normalize_canonical (a b : Text) (puts : List (Text × Bytes)) (p : Text) :
    normalize (normalize a) = normalize a ∧
    (∃ (ups : Nat) (names : List Text), components (normalize a) =
      (if a.startsWith ['/'] then [.root] else List.replicate ups (.step .up)) ++
        names.map fun name => .step (.down name)) ∧
    normalize (joinText a b) = normalize (joinText (normalize a) b) ∧
    (puts.foldl (fun l e => l.put e.1 e.2) Library.empty).read p =
      match puts.reverse.find? fun e => normalize e.1 = normalize p with
      | some e => .ok e.2
      | none => .error .noSuchTemplate :=
  ⟨normalize_normalize a, components_normalize a, (normalize_joinText a b).symm,
    Library.read_foldl_put .empty puts p⟩

example : Path.normalize "../a//./b/../../../c" = "../../c" := by decide

end HtmlTemplate
