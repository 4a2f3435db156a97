import HtmlTemplate.Proofs.Render.Caches
import HtmlTemplate.Session

/-!
What an engine remembers changes no answer.

Through all jobs the memo of a session stays sound, and its cache holds the templates that were
parsed to be kept. So every answer is the one of a new engine, and the size of the cache counts
those templates.
-/

namespace HtmlTemplate

namespace Engine

/-- The templates that a rendering has parsed. -/
def parsedBy {α : Type} (e : Engine) (x : Render α) : List Text := (x.run.run e.store).2.parsed

/-- The memo is sound, and the cache holds the templates of `ts`. -/
structure Honest (e : Engine) (ts : List Text) : Prop where
  memo : e.memo.Sound
  cache : e.cache.Holds ts

lemma honest_new (capacity : Nat) : (new capacity).Honest [] :=
  ⟨Memo.sound_empty capacity, TemplateCache.holds_empty⟩

variable {α β : Type} {U : Set Text} {k k' : Keeping} {e e' : Engine} {x y : Render α}

lemma parsedBy_map (e : Engine) (f : α → β) (x : Render α) :
    e.parsedBy (f <$> x) = e.parsedBy x := by
  change (exec (f <$> x) e.store).2.parsed = (exec x e.store).2.parsed
  rw [← bind_pure_comp, exec_bind]
  rcases exec x e.store with ⟨r, s⟩
  cases r <;> rfl

lemma alike_store (he : e.Honest k.before) (he' : e'.Honest k'.before) :
    Alike U k k' e.store e'.store := by
  have htexts : ∀ k : Keeping, k.texts [] = k.before := by
    intro k
    unfold Keeping.texts
    split <;> rfl
  refine ⟨rfl, rfl, fun t ht => absurd ht List.not_mem_nil, ⟨he.memo, ?_⟩, ⟨he'.memo, ?_⟩⟩
  · exact (htexts k).symm ▸ he.cache
  · exact (htexts k').symm ▸ he'.cache

/-- Computations that agree give the same on any two engines, and leave them honest. -/
lemma run_alike (h : Agree (Alike U k k') x y) (he : e.Honest k.before)
    (he' : e'.Honest k'.before) :
    (e.run x).1 = (e'.run y).1 ∧ (e.run x).2.Honest (k.texts (e.parsedBy x)) ∧
      ∀ t ∈ e.parsedBy x, t ∈ U := by
  obtain ⟨r, t, t', hx, hy, ht⟩ := h e.store e'.store (alike_store he he')
  have hrun : x.run.run e.store = (r, t) := hx
  have hrun' : y.run.run e'.store = (r, t') := hy
  unfold run parsedBy
  rw [hrun, hrun']
  exact ⟨rfl, ⟨ht.left.memo, ht.left.cache⟩, ht.known⟩

/-- So do renderings, whether the templates are kept or not. -/
lemma render_alike {ts ts' : List Text} (hU : Set.InjOn Digest.ofText U) (hts : ∀ t ∈ ts, t ∈ U)
    (hts' : ∀ t ∈ ts', t ∈ U) (he : e.Honest ts) (he' : e'.Honest ts') (loader : Loader)
    (elapsed : Nat) (r : Request) (hr : ∀ t, r.Uses loader t → t ∈ U) (keep : Bool) :
    (e.render loader elapsed r).1 = (e'.render loader elapsed (r.withCache keep)).1 ∧
      (e.render loader elapsed r).2.Honest
        (Keeping.texts ⟨r.options.cache, ts⟩ (e.parsedBy (r.body loader depthLimit))) ∧
      ∀ t ∈ e.parsedBy (r.body loader depthLimit), t ∈ U := by
  have hload : ∀ file source, r.Uses loader source →
      Agree (Alike U ⟨r.options.cache, ts⟩ ⟨keep, ts'⟩)
        (loadTemplate r.options.cache file source) (loadTemplate keep file source) :=
    fun file source hsource =>
      agree_loadTemplate (k := ⟨r.options.cache, ts⟩) hU hts hts' (hr source hsource) file
  have hbody := (r.agree_body loader unseen_alike keep hload depthLimit).map (finishOutput elapsed)
  obtain ⟨heq, hhonest, hknown⟩ := run_alike hbody he he'
  rw [parsedBy_map] at hhonest hknown
  exact ⟨heq, hhonest, hknown⟩

/-- So do evaluations. -/
lemma evaluate_alike {ts ts' : List Text} (he : e.Honest ts) (he' : e'.Honest ts') (c : Context)
    (source : Text) :
    (e.evaluate c source).1 = (e'.evaluate c source).1 ∧
      (e.evaluate c source).2.Honest ts := by
  obtain ⟨r, m, m', hx, hy, hm, -⟩ := agree_evaluate_memo c source _ _ ⟨he.memo, he'.memo⟩
  have hrun : (HtmlTemplate.evaluate c source).run.run e.memo = (r, m) := hx
  have hrun' : (HtmlTemplate.evaluate c source).run.run e'.memo = (r, m') := hy
  unfold evaluate
  rw [hrun, hrun']
  exact ⟨rfl, hm, he.cache⟩

end Engine

/-- The same job, with or without keeping the templates it parses. -/
def Job.withCache (keep : Bool) : Job → Job
  | .render elapsed r => .render elapsed (r.withCache keep)
  | j => j

lemma Job.exists_withCache (j : Job) : ∃ keep, j.withCache keep = j := by
  cases j with
  | render elapsed r => exact ⟨r.options.cache, rfl⟩
  | _ => exact ⟨false, rfl⟩

/-- The texts that a job brings in. -/
def Job.Brings : Job → Text → Prop
  | .put _ bytes, t => textOfBytes bytes = .ok t
  | .render _ r, t => r.source = .text t
  | .check source _, t => source = t
  | .clear, _ | .evaluate .., _ => False

namespace Session

/-- The texts of a library and of jobs. -/
def texts (library : Library) (jobs : List Job) : Set Text :=
  {t | library.loader.Holds t ∨ ∃ j ∈ jobs, j.Brings t}

/-- The templates that were parsed to be kept since all were forgotten last, after a job; they
were `before` it. -/
def keptBy (s : Session) (before : List Text) : Job → List Text
  | .render _ r =>
    if r.options.cache then
      s.engine.parsedBy (r.body s.library.loader depthLimit) ++ before
    else before
  | .clear => []
  | _ => before

/-- The templates that were parsed to be kept since all were forgotten last, after some jobs. -/
def kept (s : Session) (before : List Text) : List Job → List Text
  | [] => before
  | j :: jobs => (s.step j).2.kept (s.keptBy before j) jobs

/-- The engine is honest, and all texts are from `U`. -/
structure Honest (U : Set Text) (ts : List Text) (s : Session) : Prop where
  engine : s.engine.Honest ts
  known : ∀ t ∈ ts, t ∈ U
  library : ∀ t, s.library.loader.Holds t → t ∈ U

variable {U : Set Text} {ts ts' : List Text} {s s' : Session}

lemma step_render (s : Session) (elapsed : Nat) (r : Request) :
    s.step (.render elapsed r) = (.output (s.engine.render s.library.loader elapsed r).1,
      { s with engine := (s.engine.render s.library.loader elapsed r).2 }) := rfl

/-- Two sessions over the same files give the same answer, kept or not, and stay honest. -/
lemma Honest.step (hU : Set.InjOn Digest.ofText U) (hs : s.Honest U ts) (hs' : s'.Honest U ts')
    (hl : s'.library = s.library) (j : Job) (hj : ∀ t, j.Brings t → t ∈ U) (keep : Bool) :
    (s.step j).1 = (s'.step (j.withCache keep)).1 ∧ (s.step j).2.Honest U (s.keptBy ts j) := by
  cases j with
  | put path bytes =>
    refine ⟨rfl, hs.engine, hs.known, fun t ht => ?_⟩
    rcases Library.holds_put ht with ht | ht
    · exact hs.library t ht
    · exact hj t ht
  | clear =>
    exact ⟨rfl, ⟨hs.engine.memo, TemplateCache.holds_clear _⟩,
      fun t ht => absurd ht List.not_mem_nil, hs.library⟩
  | evaluate c source =>
    obtain ⟨heq, he⟩ := Engine.evaluate_alike hs.engine hs'.engine c source
    exact ⟨congrArg Answer.value heq, he, hs.known, hs.library⟩
  | check source file =>
    have hload : Agree (Alike U ⟨false, ts⟩ ⟨false, ts'⟩) (loadTemplate false file source)
        (loadTemplate false file source) :=
      agree_loadTemplate (k := ⟨false, ts⟩) hU hs.known hs'.known
        (hj source rfl) file
    obtain ⟨heq, he, -⟩ := Engine.run_alike (hload.bind fun _ => agree_pure ()) hs.engine hs'.engine
    exact ⟨congrArg Answer.checked heq, he, hs.known, hs.library⟩
  | render elapsed r =>
    have hr : ∀ t, r.Uses s.library.loader t → t ∈ U := by
      rintro t (ht | ht)
      · exact hj t ht
      · exact hs.library t ht
    obtain ⟨heq, he, hknown⟩ := Engine.render_alike hU hs.known hs'.known hs.engine hs'.engine
      s.library.loader elapsed r hr keep
    dsimp only [Job.withCache]
    rw [step_render, step_render, hl]
    exact ⟨congrArg Answer.output heq, he,
      Keeping.mem_of_mem_texts (k := ⟨r.options.cache, ts⟩) hs.known hknown, hs.library⟩

/-- Honesty lasts. -/
lemma Honest.after (hU : Set.InjOn Digest.ofText U) (hs : s.Honest U ts) (jobs : List Job)
    (hj : ∀ j ∈ jobs, ∀ t, j.Brings t → t ∈ U) :
    (s.after jobs).Honest U (s.kept ts jobs) := by
  induction jobs generalizing s ts with
  | nil => exact hs
  | cons j jobs ih =>
    obtain ⟨-, h⟩ := hs.step hU hs rfl j (hj j List.mem_cons_self) true
    exact ih h fun j' hj' => hj j' (List.mem_cons_of_mem _ hj')

lemma honest_new (capacity : Nat) {library : Library}
    (hlibrary : ∀ t, library.loader.Holds t → t ∈ U) : (new capacity library).Honest U [] :=
  ⟨Engine.honest_new capacity, fun _ ht => absurd ht List.not_mem_nil, hlibrary⟩

/-- **Caches are invisible.** After any jobs, the answer to one more is the one of a new engine
over the same files, and is the same whether parsed templates are kept or not; and the cache then
holds as many templates as different texts have been parsed, and could be parsed, to be kept since
it was cleared last. -/
theorem step_caches_unseen (capacity : Nat) (library : Library) (jobs : List Job) (j : Job)
    (hU : Set.InjOn Digest.ofText (texts library (jobs ++ [j]))) :
    let s := (new capacity library).after jobs
    (∀ capacity', (s.step j).1 = ((new capacity' s.library).step j).1) ∧
    (∀ keep, (s.step (j.withCache keep)).1 = (s.step j).1) ∧
    (s.step j).2.engine.cache.size =
      (((new capacity library).kept [] (jobs ++ [j])).filter
        fun t => (parseTemplate t).isOk).toFinset.card := by
  intro s
  have hnew := honest_new (U := texts library (jobs ++ [j])) capacity fun t ht => .inl ht
  have hbrings : ∀ i ∈ jobs ++ [j], ∀ t, i.Brings t → t ∈ texts library (jobs ++ [j]) :=
    fun i hi t ht => .inr ⟨i, hi, ht⟩
  have hs := hnew.after hU jobs fun i hi => hbrings i (List.mem_append_left _ hi)
  have hj := hbrings j (by simp)
  refine ⟨fun capacity' => ?_, fun keep => ?_, ?_⟩
  · obtain ⟨keep, hkeep⟩ := j.exists_withCache
    have h := (hs.step hU (honest_new capacity' hs.library) rfl j hj keep).1
    rwa [hkeep] at h
  · exact (hs.step hU hs rfl j hj keep).1.symm
  · have hlast := hnew.after hU (jobs ++ [j]) hbrings
    rw [after, List.foldl_append] at hlast
    exact hlast.engine.cache.size_eq hU hlast.known

/-- Both renderings include a file and fail after that; two templates are kept. -/
theorem step_caches_unseen_inclusion :
    let library := Library.empty.put "b" (Utf8.encode "x")
    let source : Text := "<t-include file='b'></t-include>" ++ openBraces ++ "y" ++ closeBraces
    let j := Job.render 0 ⟨.text source, .object [], ⟨true, false, some "a"⟩⟩
    let s := (new 0 library).after [j]
    Set.InjOn Digest.ofText (texts library [j, j]) ∧
    (∀ capacity', (s.step j).1 = ((new capacity' s.library).step j).1) ∧
    (∀ keep, (s.step (j.withCache keep)).1 = (s.step j).1) ∧
    (s.step j).2.engine.cache.size =
      (((new 0 library).kept [] [j, j]).filter fun t => (parseTemplate t).isOk).toFinset.card ∧
    (s.step j).2.engine.cache.size = 2 := by
  intro library source j s
  have htexts : ∀ t ∈ texts library [j, j], t = source ∨ t = ("x" : Text) := by
    rintro t (h | ⟨i, hi, h⟩)
    · rcases Library.holds_put h with h | h
      · obtain ⟨path, bytes, hget, -⟩ := Library.holds_iff.1 h
        cases hget
      · rw [show textOfBytes (Utf8.encode "x") = .ok ("x" : Text) by rfl] at h
        cases h
        exact .inr rfl
    · obtain rfl : i = j := by simpa using hi
      cases h
      exact .inl rfl
  have hne : Digest.ofText source ≠ Digest.ofText "x" := by decide +kernel
  have hU : Set.InjOn Digest.ofText (texts library [j, j]) := by
    intro t ht u hu heq
    rcases htexts t ht with rfl | rfl <;> rcases htexts u hu with rfl | rfl
    · rfl
    · exact absurd heq hne
    · exact absurd heq.symm hne
    · rfl
  obtain ⟨hfresh, hflip, hsize⟩ := step_caches_unseen 0 library [j] j hU
  exact ⟨hU, hfresh, hflip, hsize, by decide +kernel⟩

end Session

end HtmlTemplate
