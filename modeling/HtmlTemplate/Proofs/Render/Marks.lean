import HtmlTemplate.Proofs.Render.Place
import HtmlTemplate.Proofs.Record

/-!
Debug output is plain output with marks.

In both modes a rendering takes the same steps. What it gives are two views of one output, in which
the places of the marks are kept: plain output leaves them out and debug output writes them. This
holds of every rule if it holds of the walk inside it and of the fills of the scope, and so of all
renderings.
-/

namespace HtmlTemplate

/-- A text with the places of marks: around what a directive renders, and where a branch is not
taken. -/
inductive Output where
  | text (t : Text)
  | untaken
  | join (a b : Output)
  | around (d : Directive) (inner : Output)

/-- The mark before what a directive renders. -/
def Directive.beginMark (d : Directive) : Text := "<!-- " ++ d.tag.upperAscii ++ " BEGIN -->\n"

/-- The mark after what a directive renders. -/
def Directive.endMark (d : Directive) : Text := "\n<!-- " ++ d.tag.upperAscii ++ " END -->"

namespace Output

/-- The text, with the marks if they are shown. -/
def shown (debug : Bool) : Output → Text
  | text t => t
  | untaken => if debug then "<!-- FALSE -->" else []
  | join a b => a.shown debug ++ b.shown debug
  | around d inner =>
    if debug && d.isMarked then d.beginMark ++ inner.shown debug ++ d.endMark
    else inner.shown debug

/-- Outputs one after the other. -/
def concat (outs : List Output) : Output := outs.foldr join (text [])

lemma shown_concat (debug : Bool) (outs : List Output) :
    (concat outs).shown debug = (outs.map (shown debug)).flatten := by
  induction outs with
  | nil => rfl
  | cons out outs ih =>
    rw [List.map_cons, List.flatten_cons, ← ih]
    rfl

/-- Marks only add to a text. -/
lemma shown_sublist (out : Output) : (out.shown false).Sublist (out.shown true) := by
  induction out with
  | text t => exact List.Sublist.refl t
  | untaken => exact List.nil_sublist _
  | join a b iha ihb => exact iha.append ihb
  | around d inner ih =>
    rw [shown, shown, Bool.false_and, if_neg Bool.false_ne_true]
    split
    · exact (ih.trans (List.sublist_append_right _ _)).trans (List.sublist_append_left _ _)
    · exact ih

end Output

/-- Named outputs in one mode. -/
def shownRecord (debug : Bool) (outs : Record Output) : Record Text :=
  outs.map fun p => (p.1, p.2.shown debug)

lemma get?_shownRecord (debug : Bool) (outs : Record Output) (name : Text) :
    (shownRecord debug outs).get? name = (outs.get? name).map (Output.shown debug) := by
  induction outs with
  | nil => rfl
  | cons p outs ih =>
    rw [shownRecord, List.map_cons, Record.get?_cons, Record.get?_cons]
    split
    · rfl
    · exact ih

/-- In both modes a computation gives views of one result, and leaves the same store. -/
def Modes {α β : Type} (view : Bool → α → β) (x : Bool → Render β) : Prop :=
  ∀ s, ∃ (r : Except Stop α) (s' : Store), ∀ debug, exec (x debug) s = (r.map (view debug), s')

section

variable {α β γ δ : Type} {view : Bool → α → β} {view' : Bool → γ → δ} {x : Bool → Render β}

/-! ### Computations -/

/-- What is the same in both modes. -/
lemma modes_same (x : Render α) : Modes (fun _ a => a) fun _ => x := by
  intro s
  refine ⟨(exec x s).1, (exec x s).2, fun _ => ?_⟩
  rcases exec x s with ⟨_ | a, s'⟩ <;> rfl

lemma modes_pure (a : α) : Modes view fun debug => pure (view debug a) :=
  fun s => ⟨.ok a, s, fun _ => rfl⟩

lemma modes_throw (stop : Stop) : Modes view fun _ => throw stop :=
  fun s => ⟨.error stop, s, fun _ => rfl⟩

lemma Modes.bind {f : Bool → β → Render δ} (h : Modes view x)
    (hf : ∀ a, Modes view' fun debug => f debug (view debug a)) :
    Modes view' fun debug => x debug >>= f debug := by
  intro s
  obtain ⟨r, t, hx⟩ := h s
  cases r with
  | error stop =>
    refine ⟨.error stop, t, fun debug => ?_⟩
    rw [exec_bind, hx]
    rfl
  | ok a =>
    obtain ⟨r', t', hf⟩ := hf a t
    refine ⟨r', t', fun debug => ?_⟩
    rw [exec_bind, hx]
    exact hf debug

lemma modes_within (h : Modes view x) (place : Place) :
    Modes view fun debug => Render.within place (x debug) := by
  intro s
  obtain ⟨r, t, hx⟩ := h s
  refine ⟨Render.placed place r, t, fun debug => ?_⟩
  rw [Render.exec_within, hx]
  match r with
  | .ok a | .error (.failed e) | .error (.awaits paths) | .error .tooDeep => rfl

lemma modes_insideTree (f : Expansion) {x : Bool → Nat → Render β}
    (h : ∀ id, Modes view fun debug => x debug id) :
    Modes view fun debug => Render.insideTree f (x debug) := by
  intro s
  obtain ⟨r, t, hx⟩ := h (s.trees.start f).1 { s with trees := (s.trees.start f).2 }
  refine ⟨r, { t with trees := t.trees.finish (s.trees.start f).1 }, fun debug => ?_⟩
  rw [exec_insideTree]
  dsimp only
  rw [hx]

lemma modes_fanOut {ι : Type} {f : Bool → ι → Render β} {as : List ι}
    (hf : ∀ a ∈ as, Modes view fun debug => f debug a) :
    Modes (fun debug (outs : List α) => outs.map (view debug)) fun debug =>
      Render.fanOut (f debug) as := by
  have hfrom : ∀ (hasty : Bool) (done : List α) (waiting : List Text),
      Modes (fun debug (outs : List α) => outs.map (view debug)) fun debug =>
        Render.fanOutFrom (f debug) hasty (done.map (view debug)) waiting as := by
    induction as with
    | nil =>
      intro hasty done waiting
      simp only [Render.fanOutFrom]
      split
      · simp only [← List.map_reverse]
        exact modes_pure done.reverse
      · exact modes_throw _
    | cons a as ih =>
      intro hasty done waiting s
      have ih := ih fun b hb => hf b (List.mem_cons_of_mem a hb)
      obtain ⟨r, t, hx⟩ := hf a List.mem_cons_self s
      simp only [Render.exec_fanOutFrom_cons, hx]
      cases r with
      | ok b => exact ih hasty (b :: done) waiting t
      | error stop =>
        cases stop with
        | awaits paths => exact ih hasty done (waiting ++ paths) t
        | failed | tooDeep => exact ⟨.error _, t, fun _ => rfl⟩
  exact hfrom _ [] []

lemma modes_both {y : Bool → Render δ} (hx : Modes view x) (hy : Modes view' y) :
    Modes (fun debug (p : α × γ) => (view debug p.1, view' debug p.2)) fun debug =>
      Render.both (x debug) (y debug) := by
  intro s
  obtain ⟨r, t, hx⟩ := hx s
  obtain ⟨r', u, hy⟩ := hy t
  simp only [Render.exec_both, hx]
  match r with
  | .ok a =>
    refine ⟨r'.map (Prod.mk a), u, fun debug => ?_⟩
    dsimp only [Except.map]
    rw [exec_map, hy]
    cases r' <;> rfl
  | .error (.failed e) | .error .tooDeep => exact ⟨.error _, t, fun _ => rfl⟩
  | .error (.awaits paths) =>
    simp only [Except.map, hy]
    match r' with
    | .ok b => exact ⟨.error _, u, fun _ => rfl⟩
    | .error (.failed e) | .error (.awaits more) | .error .tooDeep =>
      exact ⟨.error _, u, fun _ => rfl⟩

end

/-! ### Rules, from the walk inside them -/

/-- A scope in one mode: its fills are views of outputs. -/
def Scope.inMode (scope : Scope) (tree : Option Nat) (fills : Option (Record Output))
    (debug : Bool) : Scope :=
  scope.inPlace tree (fills.map (shownRecord debug))

/-- Whatever is walked through, and whatever the fills, in both modes it gives views of one
output. -/
def ModesWalk (walk : Bool → Walk) : Prop :=
  ∀ t ns (scope : Scope) tree fills, Modes Output.shown fun debug =>
    walk debug t ns (scope.inMode tree fills debug)

/-- A text that is the same in both modes. -/
lemma modes_text (x : Render Text) : Modes Output.shown fun _ => x := by
  intro s
  refine ⟨(exec x s).1.map .text, (exec x s).2, fun _ => ?_⟩
  rcases exec x s with ⟨_ | a, s'⟩ <;> rfl

namespace Node

variable {walk : Bool → Walk} (hw : ModesWalk walk) {loader : Loader} {keep : Bool} (t : Template)
  (n : Node) (scope : Scope) (tree : Option Nat) (fills : Option (Record Output))

include hw

lemma modes_renderIn (body : List Node) (scopes : List Scope) :
    Modes Output.shown fun debug =>
      renderIn (walk debug) t body (scopes.map (·.inMode tree fills debug)) := by
  have hparts : Modes (fun debug (outs : List Output) => outs.map (Output.shown debug)) fun debug =>
      Render.fanOut (fun scope => walk debug t body scope)
        (scopes.map (·.inMode tree fills debug)) := by
    simp only [Render.fanOut_map]
    exact modes_fanOut fun scope _ => hw t body scope tree fills
  refine hparts.bind fun outs => ?_
  simp only [← Output.shown_concat]
  exact modes_pure (Output.concat outs)

lemma modes_renderLoop : Modes Output.shown fun debug =>
    renderLoop (walk debug) t n (scope.inMode tree fills debug) := by
  simp only [renderLoop, Scope.inMode, loopScopes_inPlace, bind_map_left]
  exact (modes_same (loopScopes n scope)).bind fun scopes =>
    modes_renderIn hw t tree fills n.children scopes

lemma modes_renderBinding : Modes Output.shown fun debug =>
    renderBinding (walk debug) t n (scope.inMode tree fills debug) := by
  simp only [renderBinding, Scope.inMode, evaluateAll_inPlace]
  split
  · exact modes_throw _
  · exact (modes_same (evaluateAll scope n.attributes)).bind fun vars =>
      hw t n.children (scope.extend vars) tree fills

lemma modes_renderItems (id : Nat) (items : List Json) : Modes Output.shown fun debug =>
    renderItems (walk debug) id items (scope.inMode tree fills debug) := by
  refine (modes_same (expansionOf id)).bind fun f => ?_
  have hscopes : ∀ debug,
      items.map (fun v => (scope.inMode tree fills debug).extend [(f.item, v)]) =
        (items.map fun v => scope.extend [(f.item, v)]).map (·.inMode tree fills debug) := by
    intro debug
    rw [List.map_map]
    rfl
  simp only [hscopes]
  exact modes_renderIn hw f.template tree fills f.body _

lemma modes_renderTree : Modes Output.shown fun debug =>
    renderTree (walk debug) t n (scope.inMode tree fills debug) := by
  refine (modes_same (demand "on" n)).bind fun on => ?_
  refine (modes_same (readBinding on)).bind fun b => ?_
  refine (modes_same (scope.evaluate b.data)).bind fun v => ?_
  cases v with
  | array items =>
    exact modes_insideTree ⟨t, n.children, b.item⟩ fun id =>
      modes_renderItems hw scope (some id) fills id items
  | _ => exact modes_throw _

lemma modes_renderChildren : Modes Output.shown fun debug =>
    renderChildren (walk debug) n (scope.inMode tree fills debug) := by
  cases tree with
  | none => exact modes_throw _
  | some id =>
    refine (modes_same (expansionOf id)).bind fun f => ?_
    have hcontext : ∀ debug, (scope.inMode (some id) fills debug).context = scope.context :=
      fun _ => rfl
    simp only [hcontext]
    split
    · exact modes_renderItems hw scope (some id) fills id _
    · exact modes_text _

lemma modes_renderFills (parts : List (Text × Node)) : Modes shownRecord fun debug =>
    renderFills (walk debug) t parts (scope.inMode tree fills debug) := by
  have houts : Modes (fun debug (outs : List Output) => outs.map (Output.shown debug)) fun debug =>
      Render.fanOut (fun p : Text × Node => Render.within (t.place p.2)
        (walk debug t p.2.children (scope.inMode tree fills debug))) parts :=
    modes_fanOut fun p _ => modes_within (hw t p.2.children scope tree fills) (t.place p.2)
  refine houts.bind fun outs => ?_
  simp only [List.zip_map_right]
  exact modes_pure ((parts.map Prod.fst).zip outs)

lemma modes_renderInclusion : Modes Output.shown fun debug =>
    renderInclusion ⟨loader, keep, debug⟩ (walk debug) t n (scope.inMode tree fills debug) := by
  refine (modes_same (demand "file" n)).bind fun file => ?_
  refine (modes_same (fillsOf t n)).bind fun parts => ?_
  refine (modes_same (includedPath t file)).bind fun path => ?_
  refine (modes_both (modes_renderFills hw t scope tree fills parts)
    (modes_same (readFile loader path))).bind fun both => ?_
  refine (modes_same (loadTemplate keep (some path) both.2)).bind fun u => ?_
  exact hw u u.nodes scope none (some both.1)

lemma modes_renderHole : Modes Output.shown fun debug =>
    renderHole (walk debug) t n (scope.inMode tree fills debug) := by
  have hcontent : ∀ debug, ((scope.inMode tree fills debug).fills.bind fun fills =>
      fills.get? (slotName n)) =
        (fills.bind fun outs => outs.get? (slotName n)).map (Output.shown debug) := by
    intro debug
    cases fills with
    | none => rfl
    | some outs => exact get?_shownRecord debug outs (slotName n)
  simp only [renderHole, hcontent]
  cases fills.bind fun outs => outs.get? (slotName n) with
  | none => exact hw t n.children scope tree fills
  | some out => exact modes_pure out

lemma modes_renderPlain : Modes Output.shown fun debug =>
    renderPlain (walk debug) t n (scope.inMode tree fills debug) := by
  refine (modes_same (n.attributes.mapM (renderAttribute scope))).bind fun attributes => ?_
  have hhead := modes_text (pure ('<' :: n.tag ++ attributes.flatten ++ ['>']))
  cases hvoid : isVoid n.tag with
  | true => exact hhead
  | false =>
    refine (hw t n.children scope tree fills).bind fun inner => ?_
    exact modes_pure (Output.join (.join (.text ('<' :: n.tag ++ attributes.flatten ++ ['>']))
      inner) (.text (printClosing n.tag)))

lemma modes_renderBranch (taken : Bool) : Modes Output.shown fun debug =>
    renderBranch ⟨loader, keep, debug⟩ (walk debug) t n (scope.inMode tree fills debug) taken := by
  cases taken with
  | true => exact hw t n.children scope tree fills
  | false => exact modes_pure Output.untaken

lemma modes_renderDirective (taken : Bool) (d : Directive) : Modes Output.shown fun debug =>
    renderDirective ⟨loader, keep, debug⟩ (walk debug) t n (scope.inMode tree fills debug)
      taken d := by
  cases d with
  | ifBranch | elifBranch | elseBranch => exact modes_renderBranch hw t n scope tree fills taken
  | loop => exact modes_renderLoop hw t n scope tree fills
  | binding => exact modes_renderBinding hw t n scope tree fills
  | tree => exact modes_renderTree hw t n scope tree fills
  | children => exact modes_renderChildren hw n scope tree fills
  | inclusion => exact modes_renderInclusion hw t n scope tree fills
  | hole => exact modes_renderHole hw t n scope tree fills
  | fill => exact modes_throw _
  | html => exact hw t n.children { scope with raw := true } tree fills

omit hw in
lemma mark_shown (debug : Bool) (d : Directive) (inner : Output) :
    mark ⟨loader, keep, debug⟩ d (inner.shown debug) = (Output.around d inner).shown debug := by
  rw [mark, Output.shown]
  refine if_congr Iff.rfl ?_ rfl
  change _ = ("<!-- " ++ d.tag.upperAscii ++ " BEGIN -->\n") ++ inner.shown debug ++
    ("\n<!-- " ++ d.tag.upperAscii ++ " END -->")
  simp only [List.append_assoc]

/-- What a directive renders is marked as such. -/
lemma modes_renderElement (taken : Bool) : Modes Output.shown fun debug =>
    renderElement ⟨loader, keep, debug⟩ (walk debug) t n (scope.inMode tree fills debug)
      taken := by
  cases hd : Directive.ofTag? n.tag with
  | none =>
    simp only [renderElement, hd]
    exact modes_renderPlain hw t n scope tree fills
  | some d =>
    simp only [renderElement, hd]
    refine (modes_renderDirective hw t n scope tree fills taken d).bind fun inner => ?_
    simp only [mark_shown]
    exact modes_pure (Output.around d inner)

lemma modes_renderSiblings (ns : List Node) : Modes Output.shown fun debug =>
    renderSiblings ⟨loader, keep, debug⟩ (walk debug) t ns (scope.inMode tree fills debug) := by
  simp only [renderSiblings, decideBranches, Scope.inMode, decideFrom_inPlace]
  refine (modes_same (decideFrom t scope .outside ns)).bind fun taken => ?_
  have hnode : ∀ p ∈ ns.zip taken, Modes Output.shown fun debug =>
      render ⟨loader, keep, debug⟩ (walk debug) t (scope.inMode tree fills debug) p.1 p.2 := by
    rintro ⟨n, b⟩ _
    cases n with
    | leaf kind raw line =>
      cases kind with
      | doctype | instruction => exact modes_pure (Output.text raw)
      | text | comment | cdata =>
        exact modes_text (Render.within (t.place (.leaf _ raw line)) (renderText raw scope))
    | element head closed children =>
      exact modes_within (modes_renderElement hw t _ scope tree fills _) _
  refine (modes_fanOut hnode).bind fun outs => ?_
  simp only [← Output.shown_concat]
  exact modes_pure (Output.concat outs)

end Node

lemma modes_walk (loader : Loader) (keep : Bool) (depth : Nat) :
    ModesWalk fun debug => walk ⟨loader, keep, debug⟩ depth := by
  induction depth with
  | zero => exact fun _ _ _ _ _ => modes_throw .tooDeep
  | succ depth ih =>
    exact fun t ns scope tree fills => Node.modes_renderSiblings ih t scope tree fills ns

/-- **Debug mode is pure.** With and without it a rendering of the nodes of a template leaves the
same store and stops in the same way, with the same error, or gives two views of one output. So
plain output is debug output without the marks in it, and a part of it. -/
theorem walk_modes (loader : Loader) (keep : Bool) (depth : Nat) (t : Template) (c : Context)
    (s : Store) :
    ∃ (r : Except Stop Output) (s' : Store),
      (∀ debug, exec (walk ⟨loader, keep, debug⟩ depth t t.nodes (.ofContext c)) s =
        (r.map (Output.shown debug), s')) ∧
      ∀ out, r = .ok out → (out.shown false).Sublist (out.shown true) := by
  obtain ⟨r, s', hwalk⟩ := modes_walk loader keep depth t t.nodes (.ofContext c) none none s
  exact ⟨r, s', hwalk, fun out _ => out.shown_sublist⟩

end HtmlTemplate
