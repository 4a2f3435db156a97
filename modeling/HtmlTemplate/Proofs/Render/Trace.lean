import HtmlTemplate.Proofs.Render.Blame
import HtmlTemplate.Proofs.Render.Loaded

/-!
Traces of failures are paths of visits.

What has no place yet when it comes out of the rule for a node was raised by the node itself, as the
rule fails in the same way where the visits that it leads to give nothing. Whatever else comes out
has the trace of such a visit. This goes through all rules, and so through all depths.
-/

namespace HtmlTemplate

/-! ### One rule at a time -/

/-- The trace of a failure is one of a visit. -/
def Visit.Explains (loader : Loader) (v : Visit) (e : Failure) : Prop :=
  v.Traces loader e.fault e.trace

/-- It is, once the place of a node has been added. -/
def Visit.ExplainsAt (loader : Loader) (v : Visit) (n : Node) (e : Failure) : Prop :=
  v.Explains loader (e.through (v.template.place n))

namespace Lexical

variable {loader : Loader} {debug : Bool} {lexical : Surroundings → Walk} {v : Visit} {n : Node}
  {taken : Option Bool}

/-- Visits explain their failures, and what waits in them waits for some file. -/
structure Explained (loader : Loader) (lexical : Surroundings → Walk) : Prop where
  failures : ∀ u : Visit, Yields (Stop.Blamed (u.Explains loader))
    (lexical u.around u.template u.nodes u.scope) fun _ => True
  waits : ∀ e t ns scope, Yields (· ≠ .awaits []) (lexical e t ns scope) fun _ => True

variable (hw : Explained loader lexical) (hn : v.Renders n taken)
include hw hn

lemma yields_opened {u : Visit} (h : v.Opens loader n taken [] u) :
    Yields (Stop.Blamed (v.ExplainsAt loader n))
      (lexical u.around u.template u.nodes u.scope) fun _ => True := by
  refine (hw.failures u).blamed_mono fun e he => ?_
  have htrace := Visit.Traces.inside hn h he
  rwa [List.append_nil] at htrace

lemma blames_renderBranch {d : Directive} (hd : Directive.ofTag? n.tag = some d)
    (hbranch : d ∈ [.ifBranch, .elifBranch, .elseBranch]) :
    Blames (v.ExplainsAt loader n)
      (Node.renderBranch ⟨loader, false, debug⟩ (lexical v.around) v.template n v.scope
        (taken.getD false))
      (Node.renderBranch ⟨loader, false, false⟩ (idle v.around) v.template n v.scope
        (taken.getD false)) := by
  unfold Node.renderBranch
  match taken with
  | some true => exact blames_of_yields (yields_opened hw hn (.branch hd hbranch rfl))
  | some false | none => exact blames_pure _

lemma blames_renderLoop (hd : Directive.ofTag? n.tag = some .loop) :
    Blames (v.ExplainsAt loader n) (Node.renderLoop (lexical v.around) v.template n v.scope)
      (Node.renderLoop (idle v.around) v.template n v.scope) :=
  (blames_self (yields_loopScopes raisable_bare n v.scope)).bind fun _ hscopes =>
    blames_of_yields (Node.yields_renderIn (additive_blamed _) fun _ hinner =>
      yields_opened hw hn (.loop hd hscopes hinner))

lemma blames_renderBinding (hd : Directive.ofTag? n.tag = some .binding) :
    Blames (v.ExplainsAt loader n) (Node.renderBinding (lexical v.around) v.template n v.scope)
      (Node.renderBinding (idle v.around) v.template n v.scope) := by
  unfold Node.renderBinding
  by_cases hnone : n.attributes = []
  · rw [if_pos hnone, if_pos hnone]
    exact blames_misuse _ _
  · rw [if_neg hnone, if_neg hnone]
    exact (blames_self (yields_evaluateAll raisable_bare _ _)).bind fun vars hvars =>
      blames_of_yields (yields_opened hw hn (.binding hd hvars))

lemma blames_renderTree (hd : Directive.ofTag? n.tag = some .tree) :
    Blames (v.ExplainsAt loader n) (renderTree lexical v.around v.template n v.scope)
      (renderTree idle v.around v.template n v.scope) := by
  unfold renderTree
  refine (settled_demand _ _).blames_self.bind fun on hon => ?_
  refine (settled_readBinding _).blames_self.bind fun b hb => ?_
  refine (blames_self (yields_evaluate raisable_bare _ _)).bind fun value hvalue => ?_
  cases value with
  | array items =>
    refine blames_of_yields (yields_insideTree fun id =>
      yields_renderItems (additive_blamed _) fun item hitem => ?_)
    exact yields_opened hw hn
      (.tree hd (canGive_demand hon) (canGive_readBinding hb) hvalue hitem)
  | _ => exact blames_misuse _ _

lemma blames_renderChildren (hd : Directive.ofTag? n.tag = some .children) :
    Blames (v.ExplainsAt loader n) (renderChildren lexical v.around n v.scope)
      (renderChildren idle v.around n v.scope) := by
  unfold renderChildren
  cases hf : v.around.tree with
  | none => exact blames_misuse _ _
  | some f =>
    dsimp only
    cases hfield : Node.itemField v.scope.context f.item
      ((n.attributes.get? "field").getD "children") with
    | array items =>
      exact blames_of_yields (yields_renderItems (additive_blamed _) fun item hitem =>
        yields_opened hw hn (.children hd hf hfield hitem))
    | _ =>
      dsimp only
      split
      · exact blames_misuse _ _
      · exact blames_pure _

variable {fills : List (Text × Node)} {path : Text}

lemma yields_renderFills_names (h : n.Includes v.template fills path) :
    Yields (Stop.Blamed (v.ExplainsAt loader n))
      (Node.renderFills (lexical v.around) v.template fills v.scope)
      fun filled => filled.names = fills.map Prod.fst := by
  have hfill : ∀ p ∈ fills, Yields (Stop.Blamed (v.ExplainsAt loader n))
      (Render.within (v.template.place p.2) (lexical v.around v.template p.2.children v.scope))
      fun _ => True := by
    intro p hp
    refine yields_within_of _ ((hw.failures (v.inner p.2.children v.scope)).blamed_mono ?_)
    exact fun e he => .inside hn (.fill h hp) he
  have hfills : Yields (Stop.Blamed (v.ExplainsAt loader n))
      (Node.renderFills (lexical v.around) v.template fills v.scope) fun _ => True :=
    (yields_fanOut (additive_blamed _) hfill).bind fun _ _ => yields_pure trivial
  intro s hs
  obtain ⟨hmemo, hresult⟩ := hfills s hs
  rcases hr : exec (Node.renderFills (lexical v.around) v.template fills v.scope) s
    with ⟨stop | filled, t⟩
  · rw [hr] at hmemo hresult
    exact ⟨hmemo, hresult⟩
  · rw [hr] at hmemo
    exact ⟨hmemo, (inTurn_of_renderFills hs (fun p _ => hw.waits _ _ _ _) hr).2⟩

lemma yields_included {source : Text} {filled : Record Text}
    (h : n.Includes v.template fills path) (hread : readFile loader path = pure source)
    (hfilled : filled.names = fills.map Prod.fst) :
    Yields (Stop.Blamed (v.ExplainsAt loader n))
      (loadTemplate false (some path) source >>= fun u =>
        lexical (.included filled) u u.nodes (v.scope.included filled)) fun _ => True := by
  refine (yields_loadTemplate_unkept (fun err herr => ?_) fun ns m hns hm => ?_).bind ?_
  · exact .here (.line hn h hread herr)
  · exact .here (.hole hn h hread hns hm)
  · rintro ⟨_, ns⟩ ⟨hns, rfl, hholes⟩
    exact yields_opened hw hn (.included h hread hns hholes hfilled)

lemma blames_renderInclusion (hd : Directive.ofTag? n.tag = some .inclusion) :
    Blames (v.ExplainsAt loader n)
      (renderInclusion ⟨loader, false, debug⟩ lexical v.around v.template n v.scope)
      (renderInclusion ⟨loader, false, false⟩ idle v.around v.template n v.scope) := by
  unfold renderInclusion
  refine (settled_demand _ _).blames_self.bind fun file hfile => ?_
  rcases Node.fillsOf_eq v.template n with ⟨fills, hfills⟩ | ⟨m, f, hfirst, hfills⟩
  · rw [hfills, pure_bind, pure_bind]
    refine (settled_includedPath _ _).blames_self.bind fun path hpath => ?_
    obtain ⟨base, hbase, hresolve⟩ := canGive_includedPath hpath
    have hincludes : n.Includes v.template fills path :=
      ⟨hd, ⟨base, file, hbase, canGive_demand hfile, hresolve⟩, hfills⟩
    have hnames := yields_renderFills_names hw hn hincludes
    dsimp only
    -- a file that cannot be read only matters if no fill has failed
    rcases readFile_eq loader path with ⟨source, hread⟩ | ⟨stop, hread, hstop⟩
    · rw [hread, Render.both_pure, Render.both_pure, bind_map_left, bind_map_left]
      exact blames_of_yields (hnames.bind fun filled hfilled =>
        yields_included hw hn hincludes hread hfilled)
    · rw [hread]
      refine Blames.bind_of_fails ?_ (Render.gives_both_snd (p := fun _ => False)
        (gives_throw _ _))
      exact blames_both_throw hnames (fun s => ⟨_, _, exec_renderFills_idle _ _ _ _ s⟩) hstop
  · rw [hfills]
    exact blames_throw (Visit.Traces.here (.child hn hd (canGive_demand hfile) hfirst))

lemma blames_renderHole (hd : Directive.ofTag? n.tag = some .hole) :
    Blames (v.ExplainsAt loader n) (renderHole lexical v.around v.template n v.scope)
      (renderHole idle v.around v.template n v.scope) := by
  unfold renderHole
  cases hfill : v.around.fills.bind fun fills => fills.get? (slotName n) with
  | some content => exact blames_pure _
  | none => exact blames_of_yields (yields_opened hw hn (.hole hd hfill))

lemma blames_renderPlain (hd : Directive.ofTag? n.tag = none) :
    Blames (v.ExplainsAt loader n) (Node.renderPlain (lexical v.around) v.template n v.scope)
      (Node.renderPlain (idle v.around) v.template n v.scope) := by
  have hattribute : ∀ a ∈ n.attributes, Yields (Stop.Blamed Failure.Bare)
      (Node.renderAttribute v.scope a) fun _ => True :=
    fun a _ => (yields_fillIn raisable_bare _ _).bind fun _ _ => yields_pure trivial
  refine (blames_self (Yields.mapM hattribute)).bind fun attributes _ => ?_
  cases hvoid : isVoid n.tag with
  | true => exact blames_pure _
  | false =>
    have hinner := yields_opened hw hn (.plain hd hvoid)
    exact blames_of_yields (hinner.bind fun _ _ => yields_pure (p := fun _ => True) trivial)

lemma blames_renderElement :
    Blames (v.ExplainsAt loader n)
      (renderElement ⟨loader, false, debug⟩ lexical v.around v.template n v.scope
        (taken.getD false))
      (v.ownStep loader n taken) := by
  unfold Visit.ownStep renderElement
  cases hd : Directive.ofTag? n.tag with
  | none => exact blames_renderPlain hw hn hd
  | some d =>
    refine Blames.map ?_ _ _
    cases d with
    | ifBranch | elifBranch | elseBranch => exact blames_renderBranch hw hn hd (by decide)
    | loop => exact blames_renderLoop hw hn hd
    | binding => exact blames_renderBinding hw hn hd
    | tree => exact blames_renderTree hw hn hd
    | children => exact blames_renderChildren hw hn hd
    | inclusion => exact blames_renderInclusion hw hn hd
    | hole => exact blames_renderHole hw hn hd
    | fill => exact blames_misuse _ _
    | html => exact blames_of_yields (yields_opened hw hn (.html hd))

/-! ### Siblings -/

omit hw hn in
/-- A condition that fails is explained, if those before it have been decided. -/
lemma yields_decideFrom_explained (loader : Loader) (v : Visit) (ns : List Node) : ∀ before state,
    v.nodes = before ++ ns → Decided v.scope before state →
    Yields (Stop.Blamed (v.Explains loader)) (decideFrom v.template v.scope state ns)
      fun _ => True := by
  induction ns with
  | nil => exact fun _ _ _ _ => yields_pure trivial
  | cons n ns ih =>
    intro before state hnodes hdecided
    -- the nodes decided so far are needed to say in what state the next one is reached
    have hnext : v.nodes = before ++ [n] ++ ns := by rw [hnodes, List.append_assoc]; rfl
    rw [decideFrom]
    by_cases helement : n.isElement = true
    · rw [if_pos helement]
      refine (yields_within_self _ (yields_decideElement raisable_bare v.scope state n)
        fun f hf => .here (.condition hnodes hdecided helement hf)).bind fun decided hgives => ?_
      obtain ⟨_, next⟩ := decided
      exact (ih _ next hnext (.element hdecided helement hgives)).bind fun _ _ =>
        yields_pure trivial
    · rw [if_neg helement]
      exact (ih _ state hnext (.leaf hdecided (by simpa using helement))).bind fun _ _ =>
        yields_pure trivial

omit hn in
/-- One more list of nodes. -/
lemma Explained.siblings (v : Visit) :
    Yields (Stop.Blamed (v.Explains loader))
      (renderSiblings ⟨loader, false, debug⟩ unwatched lexical v.around v.template v.nodes v.scope)
      fun _ => True := by
  have hdecide := yields_decideFrom_explained loader v v.nodes [] .outside rfl .nil
  refine hdecide.canGive.bind fun decisions hdecisions => ?_
  refine (yields_fanOut (additive_blamed _) ?_).bind fun _ _ => yields_pure trivial
  rintro ⟨n, taken⟩ hmem
  have hn : v.Renders n taken := ⟨decisions, hdecisions, hmem⟩
  refine Yields.bind (p := fun _ => True) (yields_pure trivial) fun _ _ => ?_
  cases n with
  | leaf kind raw line =>
    have htext := yields_renderText raisable_bare raw v.scope
    cases kind with
    | doctype | instruction => exact yields_pure trivial
    | text | comment | cdata =>
      exact (yields_within_self _ htext fun f hf => .here (.text hn nofun nofun hf)).mono
        fun _ _ => trivial
  | element head closed children =>
    refine yields_within_of _ ((blames_renderElement hw hn).yields.blamed_mono ?_)
    rintro e (he | ⟨f, rfl, hf⟩)
    · exact he
    · exact .here (.element hn rfl hf)

omit hw hn in
lemma explained_walk (loader : Loader) (debug : Bool) (depth : Nat) :
    Explained loader (Lexical.walk ⟨loader, false, debug⟩ unwatched depth) := by
  induction depth with
  | zero => exact ⟨fun _ => yields_throw trivial, yields_walk _ 0⟩
  | succ depth ih => exact ⟨ih.siblings, yields_walk _ (depth + 1)⟩

end Lexical

/-! ### Whole renderings -/

/-- A trace ends at a node of the visit. -/
lemma Visit.Traces.getLast? {loader : Loader} {v : Visit} {f : Fault} {places : List Place}
    (h : v.Traces loader f places) :
    ∃ n ∈ v.nodes, places.getLast? = some (v.template.place n) := by
  have hmem {n : Node} {taken : Option Bool} (hn : v.Renders n taken) : n ∈ v.nodes := by
    obtain ⟨decisions, -, hzip⟩ := hn
    exact (List.of_mem_zip hzip).1
  cases h with
  | inside hn _ _ => exact ⟨_, hmem hn, List.getLast?_concat⟩
  | here h =>
    cases h with
    | condition hnodes => exact ⟨_, by rw [hnodes]; simp, rfl⟩
    | text hn | element hn | child hn | line hn | hole hn => exact ⟨_, hmem hn, rfl⟩

/-- A template that is rendered by itself explains its failures. -/
lemma explains_walk {loader : Loader} {debug : Bool} {depth : Nat} {t : Template} {c : Context}
    {s : Store} (hs : s.memo.Sound) (htrees : s.trees.Orderly) {e : Failure}
    (h : (exec (walk ⟨loader, false, debug⟩ depth t t.nodes (.ofContext c)) s).1 =
      .error (.failed e)) : (Visit.outermost t c).Explains loader e := by
  have hfollows := Lexical.follows_walk ⟨loader, false, debug⟩ silent_unwatched depth
    .outermost t t.nodes (.ofContext c) s.trees htrees (Surroundings.live_ofContext c _)
  rw [(exec_eq_of_holding hfollows).1] at h
  obtain ⟨-, hresult⟩ := (Lexical.explained_walk loader debug depth).failures (.outermost t c) s hs
  dsimp only [Visit.outermost] at hresult
  rw [h] at hresult
  exact hresult

/-- The failure that a rendering ends with, if it does. -/
def failure? {α : Type} : Except Stop α → Option Failure
  | .error (.failed e) => some e
  | _ => none

lemma eq_failed_of_failure? {α : Type} {x : Except Stop α} {e : Failure}
    (h : failure? x = some e) : x = .error (.failed e) := by
  match x with
  | .error (.failed e') => exact congrArg (Except.error ∘ Stop.failed) (Option.some.inj h)

/-- The root template of a rendering is loaded: it can be read and parsed, its holes have different
names, and there are variables to render it with. -/
structure Request.Loads (r : Request) (loader : Loader) (c : Context) (t : Template) : Prop where
  context : Context.ofJson? r.context = some c
  parsed : ∃ source, r.load loader = pure (source, t.file) ∧ parseTemplate source = .ok t.nodes
  holes : checkHoles t = pure ()

namespace Engine

/-- **Traces are paths.** A rendering that has loaded its root template and fails has a trace that
begins where the fault was raised, and leads through every node that was being rendered, up to one
of the root template. -/
theorem render_trace (e : Engine) (ts : List Text) (he : e.Honest ts) (loader : Loader)
    (elapsed : Nat) (r : Request)
    (hdigest : Set.InjOn Digest.ofText {t | t ∈ ts ∨ r.Uses loader t}) (c : Context)
    (t : Template) (hloads : r.Loads loader c t) (failure : Failure)
    (hfails : (e.render loader elapsed r).1 = .error (.failed failure)) :
    (Visit.outermost t c).Traces loader failure.fault failure.trace ∧
      ∃ n ∈ t.nodes, failure.trace.getLast? = some (t.place n) := by
  obtain ⟨source, hload, hparse⟩ := hloads.parsed
  have hsource : source ∈ {u | u ∈ ts ∨ r.Uses loader u} :=
    .inr (r.gives_load loader e.store (source, t.file) e.store (by rw [hload]; rfl))
  -- the cache does not matter, so templates may as well be parsed anew
  rw [(render_alike hdigest (fun _ h => .inl h) (fun _ h => .inl h) he he loader elapsed r
    (fun _ h => .inr h) false).1] at hfails
  change (exec (finishOutput elapsed <$> (r.withCache false).body loader depthLimit) e.store).1 = _
    at hfails
  obtain ⟨s, hmemo, htrees, hbody⟩ := he.exec_body (r := r.withCache false) depthLimit
    hdigest (fun _ h => .inl h) hsource hloads.context hload
  rw [exec_map, hbody, Request.rendered, hparse] at hfails
  dsimp only at hfails
  rw [hloads.holes, pure_bind] at hfails
  have hwalk : (exec (walk ⟨loader, false, r.options.debug⟩ depthLimit t t.nodes
      (.ofContext c)) s).1 = .error (.failed failure) := eq_error_of_map hfails
  have htraces := explains_walk (hmemo ▸ he.memo)
    (htrees ▸ Expansions.Reachable.empty.orderly) hwalk
  exact ⟨htraces, htraces.getLast?⟩

/-- A variable that is not there, inside an element of an included file. -/
theorem render_trace_inclusion :
    let included : Text := "\n<li> \x7b\x7b y \x7d\x7d</li>"
    let library := Library.empty.put "b" (Utf8.encode included)
    let source : Text := "<ul>\n<t-include file='b'></t-include></ul>"
    let r : Request := ⟨.text source, .object [], ⟨true, false, some "m"⟩⟩
    let failure : Failure := ⟨.expression (.undefined "y"), [⟨some "b", 2, "\x7b\x7b y \x7d\x7d"⟩,
      ⟨some "b", 2, "<li>"⟩, ⟨some "m", 2, "<t-include file='b'>"⟩, ⟨some "m", 1, "<ul>"⟩]⟩
    (new 0).Honest [] ∧
    Set.InjOn Digest.ofText {t | t ∈ ([] : List Text) ∨ r.Uses library.loader t} ∧
    ∃ t, r.Loads library.loader ⟨[[]]⟩ t ∧
      ((new 0).render library.loader 0 r).1 = .error (.failed failure) ∧
      (Visit.outermost t ⟨[[]]⟩).Traces library.loader failure.fault failure.trace := by
  intro included library source r failure
  have htexts : {t | t ∈ ([] : List Text) ∨ r.Uses library.loader t} ⊆ {source, included} := by
    rintro t (ht | ht | ht)
    · cases ht
    · cases ht
      exact .inl rfl
    · rcases Library.holds_put ht with ht | ht
      · obtain ⟨path, bytes, hget, -⟩ := Library.holds_iff.1 ht
        cases hget
      · rw [show textOfBytes (Utf8.encode included) = .ok included by rfl] at ht
        cases ht
        exact .inr rfl
  have hdigest : Set.InjOn Digest.ofText {t | t ∈ ([] : List Text) ∨ r.Uses library.loader t} := by
    refine (Set.injOn_pair.2 fun heq => ?_).mono htexts
    exact absurd heq (by decide +kernel)
  obtain ⟨ns, hns, hholes⟩ := exists_of_parseTemplate source
    (f := fun ns => (firstRepeated? [] ((Node.nodesAll ns).filter isHole)).isNone) (a := true)
    (by decide +kernel)
  have hloads : r.Loads library.loader ⟨[[]]⟩ ⟨some "m", ns⟩ := by
    refine ⟨rfl, ⟨source, rfl, hns⟩, ?_⟩
    rw [checkHoles, Option.isNone_iff_eq_none.1 hholes]
  have hfails := eq_failed_of_failure? (x := ((new 0).render library.loader 0 r).1)
    (e := failure) (by decide +kernel)
  exact ⟨honest_new 0, hdigest, _, hloads, hfails, (render_trace (new 0) [] (honest_new 0)
    library.loader 0 r hdigest _ _ hloads failure hfails).1⟩

end Engine

end HtmlTemplate
