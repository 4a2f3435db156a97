import HtmlTemplate.Proofs.Session

/-!
A rendering, from the template that it loads.

What an honest engine renders is the tree of the text that is asked for, with the members of its
context as variables.
-/

namespace HtmlTemplate

/-- The text of a source, if it can be read. -/
def TemplateSource.Holds (source : TemplateSource) (loader : Loader) (u : Text) : Prop :=
  match source with
  | .text t => t = u
  | .file path => ∃ bytes, loader path = .contents bytes ∧ textOfBytes bytes = .ok u

lemma TemplateSource.Holds.unique {source : TemplateSource} {loader : Loader} {u v : Text}
    (hu : source.Holds loader u) (hv : source.Holds loader v) : u = v := by
  unfold Holds at hu hv
  cases source with
  | text t => exact hu.symm.trans hv
  | file path =>
    obtain ⟨bytes, hloader, hbytes⟩ := hu
    obtain ⟨bytes', hloader', hbytes'⟩ := hv
    cases hloader.symm.trans hloader'
    cases hbytes.symm.trans hbytes'
    rfl

/-- The text of a source is loaded, or nothing is. -/
lemma Request.load_eq (r : Request) (loader : Loader) :
    (∃ source file, r.source.Holds loader source ∧ r.load loader = pure (source, file)) ∨
      ∃ stop, r.load loader = throw stop := by
  unfold load TemplateSource.Holds
  cases r.source with
  | text t => exact .inl ⟨t, r.options.filename, rfl, rfl⟩
  | file path =>
    dsimp only
    unfold readFile
    cases loader path with
    | unread => exact .inr ⟨_, rfl⟩
    | failed e => exact .inr ⟨_, rfl⟩
    | contents bytes =>
      cases hbytes : textOfBytes bytes with
      | ok t =>
        exact .inl ⟨t, some (r.options.filename.getD path), ⟨bytes, rfl, hbytes⟩, by simp [hbytes]⟩
      | error e => exact .inr ⟨.failed (.ofFault (.unreadable path e)), by simp [hbytes]; rfl⟩

/-- What is rendered of a text once it has been read. -/
def Request.rendered (r : Request) (loader : Loader) (depth : Nat) (c : Context)
    (file : Option Text) (source : Text) : Render Text :=
  match parseTemplate source with
  | .error err => Render.within (err.place file source) (Render.fail (.malformed err))
  | .ok ns => do
    checkHoles ⟨file, ns⟩
    walk ⟨loader, r.options.cache, r.options.debug⟩ depth ⟨file, ns⟩ ns (.ofContext c)

variable {e : Engine} {ts : List Text} {U : Set Text} {r : Request} {loader : Loader}
  {c : Context} {source out : Text} {file : Option Text}

/-- Through the cache of an honest engine comes the template that the text is parsed as. -/
lemma Engine.Honest.exec_body (depth : Nat) (he : e.Honest ts) (hU : Set.InjOn Digest.ofText U)
    (hts : ∀ t ∈ ts, t ∈ U) (hsource : source ∈ U) (hc : Context.ofJson? r.context = some c)
    (hload : r.load loader = pure (source, file)) :
    ∃ s : Store, s.memo = e.memo ∧ s.trees = .empty ∧
      exec (r.body loader depth) e.store = exec (r.rendered loader depth c file source) s := by
  have halike : Alike U ⟨r.options.cache, ts⟩ ⟨r.options.cache, ts⟩ e.store e.store :=
    Engine.alike_store he he
  obtain ⟨cache, hkept, -⟩ := exec_parseKept (k := ⟨r.options.cache, ts⟩) hU hts halike.left
    (fun t ht => absurd ht List.not_mem_nil) hsource
  refine ⟨{ e.store with parsed := source :: e.store.parsed, cache := cache }, rfl, rfl, ?_⟩
  have hbody : r.body loader depth = (do
      let t ← loadTemplate r.options.cache file source
      walk ⟨loader, r.options.cache, r.options.debug⟩ depth t t.nodes (.ofContext c)) := by
    rw [Request.body, hc, hload]
    rfl
  rw [hbody, loadTemplate, bind_assoc, exec_bind, hkept, Request.rendered]
  cases parseTemplate source with
  | error err => rfl
  | ok ns =>
    dsimp only
    rw [bind_assoc]
    rfl

/-- A rendering that succeeds has loaded a template, and walked through it. -/
lemma Engine.Honest.exists_of_render (he : e.Honest ts)
    (hU : Set.InjOn Digest.ofText {t | t ∈ ts ∨ r.source.Holds loader t}) {elapsed : Nat}
    (h : (e.render loader elapsed r).1 = .ok out) :
    ∃ c source file ns s s' body, Context.ofJson? r.context = some c ∧
      r.source.Holds loader source ∧ parseTemplate source = .ok ns ∧ s.memo.Sound ∧
      exec (walk ⟨loader, r.options.cache, r.options.debug⟩ depthLimit ⟨file, ns⟩ ns
        (.ofContext c)) s = (.ok body, s') ∧
      out = finishOutput elapsed body := by
  change (exec (finishOutput elapsed <$> r.body loader depthLimit) e.store).1 = _ at h
  rw [exec_map] at h
  rcases hbody : exec (r.body loader depthLimit) e.store with ⟨_ | body, s'⟩
  · rw [hbody] at h
    cases h
  rw [hbody] at h
  cases hc : Context.ofJson? r.context with
  | none =>
    rw [Request.body, hc] at hbody
    cases hbody
  | some c =>
    rcases r.load_eq loader with ⟨source, file, hsource, hload⟩ | ⟨stop, hload⟩
    · obtain ⟨s, hmemo, -, hrendered⟩ :=
        he.exec_body depthLimit hU (fun t ht => .inl ht) (.inr hsource) hc hload
      rw [hbody, Request.rendered] at hrendered
      cases hparse : parseTemplate source with
      | error err =>
        rw [hparse] at hrendered
        cases hrendered
      | ok ns =>
        rw [hparse] at hrendered
        dsimp only at hrendered
        unfold checkHoles at hrendered
        split at hrendered
        · exact ⟨c, source, file, ns, s, s', body, rfl, hsource, hparse, hmemo ▸ he.memo,
            hrendered.symm, (Except.ok.inj h).symm⟩
        · cases hrendered
    · rw [Request.body, hc, hload] at hbody
      cases hbody

end HtmlTemplate
