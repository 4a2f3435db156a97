import HtmlTemplate.Proofs.Markup.Origin
import HtmlTemplate.Proofs.Markup.Passes
import HtmlTemplate.Proofs.Render.Walk

/-!
Markup without directives and expressions.

It is printed in two ways: rendering leaves out the closing tag of an element, and all below it, if
its name is that of one without content; printing leaves out the closing tag if the opening one has
closed itself. Rendering is printing once the marks are as the names have it.
-/

namespace HtmlTemplate

namespace Node

/-- There is no directive and no expression in a node, whatever is below it. -/
def Static : Node → Prop
  | .leaf .doctype _ _ => True
  | .leaf .instruction _ _ => True
  | .leaf _ raw _ => ¬ openBraces <:+: raw
  | .element head _ _ =>
    Directive.ofTag? head.tag = none ∧ ∀ a ∈ head.attributes, ¬ openBraces <:+: a.2

instance : DecidablePred Static := fun n =>
  match n with
  | .leaf .doctype _ _ => isTrue trivial
  | .leaf .instruction _ _ => isTrue trivial
  | .leaf .text raw _ => inferInstanceAs (Decidable (¬ openBraces <:+: raw))
  | .leaf .comment raw _ => inferInstanceAs (Decidable (¬ openBraces <:+: raw))
  | .leaf .cdata raw _ => inferInstanceAs (Decidable (¬ openBraces <:+: raw))
  | .element head _ _ => inferInstanceAs (Decidable
    (Directive.ofTag? head.tag = none ∧ ∀ a ∈ head.attributes, ¬ openBraces <:+: a.2))

mutual

/-- The node with an element closing itself, and without anything below it, if its name is that of
one without content, and only then. -/
def settle : Node → Node
  | .leaf kind raw line => .leaf kind raw line
  | .element head closed children =>
    .element { head with selfClosing := isVoid head.tag } closed
      (if isVoid head.tag then [] else settleAll children)

def settleAll : List Node → List Node
  | [] => []
  | n :: ns => settle n :: settleAll ns

end

mutual

/-- How many lists of nodes lie inside each other, below a node. -/
def levels : Node → Nat
  | .leaf .. => 0
  | .element _ _ children => levelsAll children

/-- The same with the list itself. -/
def levelsAll : List Node → Nat
  | [] => 1
  | n :: ns => max (levels n + 1) (levelsAll ns)

end

variable {n : Node} {ns : List Node}

lemma levelsAll_pos (ns : List Node) : 0 < levelsAll ns := by
  cases ns with
  | nil => exact Nat.one_pos
  | cons n ns =>
    rw [levelsAll]
    omega

/-- There are fewer levels below a node than with the list it is in. -/
lemma levelsAll_children_lt (hn : n ∈ ns) (h : n.isElement = true) :
    levelsAll n.children < levelsAll ns := by
  induction ns with
  | nil => cases hn
  | cons m ns ih =>
    rw [levelsAll]
    rcases List.mem_cons.1 hn with rfl | hn
    · cases n with
      | leaf kind raw line => cases h
      | element head closed children =>
        rw [levels, Node.children]
        omega
    · have hle := ih hn
      omega

lemma printAll_settleAll (ns : List Node) :
    printAll (settleAll ns) = (ns.map fun n => print (settle n)).flatten := by
  induction ns with
  | nil => rfl
  | cons n ns ih => rw [settleAll, printAll, ih, List.map_cons, List.flatten_cons]

lemma print_settle_element (head : Opening) (closed : Bool) (children : List Node) :
    print (settle (element head closed children)) =
      printOpening head.tag head.attributes ++
        if isVoid head.tag then [] else printAll (settleAll children) ++ printClosing head.tag := by
  rw [settle, print]
  cases isVoid head.tag <;> rfl

/-- Marks that are as the names have it, and nothing below an element that closes itself. -/
lemma settleAll_eq (hempty : SelfClosingEmpty ns)
    (hmarks : ∀ n ∈ nodesAll ns, n.isElement = true → n.selfClosing = isVoid n.tag) :
    settleAll ns = ns := by
  induction ns using forest_induction with
  | nil => rfl
  | leaf kind raw line ns ih =>
    rw [nodesAll_leaf, List.forall_mem_cons] at hmarks
    rw [settleAll, settle, ih (SelfClosingEmpty.leaf_iff.1 hempty) hmarks.2]
  | element head closed children ns ihc ihn =>
    rw [nodesAll_element, List.forall_mem_cons, List.forall_mem_append] at hmarks
    obtain ⟨hhead, hmarksc, hmarksn⟩ := hmarks
    obtain ⟨hself, hemptyc, hemptyn⟩ := SelfClosingEmpty.element_iff.1 hempty
    have hmark : head.selfClosing = isVoid head.tag := hhead rfl
    rw [settleAll, settle, ihn hemptyn hmarksn, ihc hemptyc hmarksc, ← hmark]
    cases hclosing : head.selfClosing with
    | false => rw [if_neg Bool.false_ne_true, ← hclosing]
    | true =>
      have hchildren : children = [] := by
        by_contra hne
        rw [hself hne] at hclosing
        cases hclosing
      rw [if_pos rfl, hchildren, ← hclosing]

end Node

/-! ### Rendering -/

/-- Parts that all come to an end, and leave the store as it is. -/
lemma Render.exec_fanOut_of_forall {α β : Type} {f : α → Render β} {g : α → β} {as : List α}
    {s : Store} (h : ∀ a ∈ as, exec (f a) s = (.ok (g a), s)) :
    exec (fanOut f as) s = (.ok (as.map g), s) := by
  have hfrom : ∀ hasty done, exec (fanOutFrom f hasty done [] as) s =
      (.ok (done.reverse ++ as.map g), s) := by
    induction as with
    | nil =>
      intro hasty done
      rw [fanOutFrom, if_pos rfl, List.map_nil, List.append_nil]
      rfl
    | cons a as ih =>
      intro hasty done
      obtain ⟨ha, has⟩ := List.forall_mem_cons.1 h
      rw [exec_fanOutFrom_cons, ha]
      dsimp only
      rw [ih has]
      simp
  rw [fanOut, hfrom]
  rfl

lemma exec_mapM_of_forall {ε σ α β : Type} {f : α → ExceptT ε (StateM σ) β} {g : α → β}
    {as : List α} {s : σ} (h : ∀ a ∈ as, exec (f a) s = (.ok (g a), s)) :
    exec (as.mapM f) s = (.ok (as.map g), s) := by
  induction as with
  | nil => rfl
  | cons a as ih =>
    obtain ⟨ha, has⟩ := List.forall_mem_cons.1 h
    rw [List.mapM_cons, exec_bind, ha]
    dsimp only
    rw [exec_bind, ih has]
    rfl

lemma exec_fillIn_of_no_braces {t : Text} (h : ¬ openBraces <:+: t) (scope : Scope) (s : Store) :
    exec (scope.fillIn t) s = (.ok t, s) := by
  have hfill : exec (HtmlTemplate.fillIn scope.context scope.raw t) s.memo = (.ok t, s.memo) := by
    have hchunk : ∀ chunk ∈ [Chunk.literal t],
        exec (fillChunk scope.context scope.raw chunk) s.memo = (.ok t, s.memo) := by
      intro chunk hchunk
      rw [List.mem_singleton.1 hchunk]
      rfl
    rw [HtmlTemplate.fillIn, Chunk.chunks_of_none (Chunk.first?_of_no_braces h), exec_bind,
      exec_mapM_of_forall (g := fun _ => t) hchunk]
    simp [exec]
    rfl
  rw [Scope.fillIn, Render.exec_evaluating, hfill]
  rfl

namespace Node

variable {setup : Setup} {walk : Walk} {t : Template} {n : Node} {ns : List Node} {scope : Scope}
  {s : Store}

/-- Where there is no directive there is nothing to decide. -/
lemma decideFrom_of_plain (h : ∀ n ∈ ns, Directive.ofTag? n.tag = none) :
    ∀ state, decideFrom t scope state ns = pure (ns.map fun _ => none) := by
  induction ns with
  | nil => exact fun state => rfl
  | cons n ns ih =>
    intro state
    obtain ⟨hn, hns⟩ := List.forall_mem_cons.1 h
    have hdecide : decideElement scope state n = pure (none, .outside) := by
      unfold decideElement
      rw [hn]
    rw [decideFrom, hdecide, Render.within_pure, pure_bind, ih hns]
    dsimp only
    rw [ih hns, pure_bind, ite_self, List.map_cons]

lemma renderSiblings_of_plain (h : ∀ n ∈ ns, Directive.ofTag? n.tag = none) :
    renderSiblings setup walk t ns scope = do
      return (← Render.fanOut (fun n => render setup walk t scope n none) ns).flatten := by
  have hpairs : ns.zip (ns.map fun _ => none) = ns.map fun n => (n, (none : Option Bool)) := by
    simpa using List.zip_map' (f := id) (g := fun _ => (none : Option Bool)) (l := ns)
  rw [renderSiblings, decideBranches, decideFrom_of_plain h, pure_bind, hpairs, Render.fanOut_map]
  rfl

lemma Static.ofTag?_tag {n : Node} (h : n.Static) : Directive.ofTag? n.tag = none := by
  cases n with
  | leaf kind raw line => rfl
  | element head closed children => exact h.1

lemma exec_renderText_of_no_braces {raw : Text} (h : ¬ openBraces <:+: raw) :
    exec (renderText raw scope) s = (.ok raw, s) := by
  unfold renderText
  split
  · rfl
  · exact exec_fillIn_of_no_braces h scope s

lemma exec_renderPlain_of_static {head : Opening} {closed : Bool} {children : List Node}
    (h : (element head closed children).Static)
    (hchildren : exec (walk t children scope) s = (.ok (printAll (settleAll children)), s)) :
    exec (renderPlain walk t (element head closed children) scope) s =
      (.ok (print (settle (element head closed children))), s) := by
  have hattributes : exec (head.attributes.mapM (renderAttribute scope)) s =
      (.ok (head.attributes.map fun a => ' ' :: a.1 ++ '=' :: Attributes.quote a.2), s) := by
    refine exec_mapM_of_forall fun a ha => ?_
    rw [renderAttribute, exec_bind, exec_fillIn_of_no_braces (h.2 a ha)]
    rfl
  have hopening : '<' :: head.tag ++
      (head.attributes.map fun a => ' ' :: a.1 ++ '=' :: Attributes.quote a.2).flatten ++ ['>'] =
      printOpening head.tag head.attributes := by
    rw [printOpening, List.flatMap_def]
  rw [print_settle_element, ← hopening]
  change exec (head.attributes.mapM (renderAttribute scope) >>= _) s = _
  rw [exec_bind, hattributes]
  change exec (if isVoid head.tag = true then pure ('<' :: head.tag ++ _ ++ ['>']) else _) s = _
  cases hvoid : isVoid head.tag with
  | true =>
    rw [if_pos rfl, if_pos rfl, List.append_nil]
    rfl
  | false =>
    rw [if_neg Bool.false_ne_true, if_neg Bool.false_ne_true]
    change exec (walk t children scope >>= _) s = _
    rw [exec_bind, hchildren, ← List.append_assoc]
    rfl

lemma exec_render_of_static {setup : Setup} {n : Node} (h : n.Static)
    (hchildren : n.isElement = true →
      exec (walk t n.children scope) s = (.ok (printAll (settleAll n.children)), s)) :
    exec (render setup walk t scope n none) s = (.ok (print (settle n)), s) := by
  cases n with
  | leaf kind raw line =>
    have htext (hraw : ¬ openBraces <:+: raw) :
        exec (Render.within (t.place (leaf kind raw line)) (renderText raw scope)) s =
          (.ok raw, s) := by
      rw [Render.exec_within, exec_renderText_of_no_braces hraw]
      rfl
    cases kind with
    | doctype | instruction => rfl
    | text | comment | cdata => exact htext h
  | element head closed children =>
    have hplain : exec (renderElement setup walk t (element head closed children) scope false) s =
        exec (renderPlain walk t (element head closed children) scope) s := by
      rw [renderElement, show (element head closed children).tag = head.tag from rfl, h.1]
    change exec (Render.within _ (renderElement setup walk t _ scope false)) s = _
    rw [Render.exec_within, hplain, exec_renderPlain_of_static h (hchildren rfl)]
    rfl

end Node

open Node

/-- **Without directives and expressions** siblings are rendered as they are printed, once the marks
are as the names have it, and nothing is stored. -/
lemma exec_walk_of_static {setup : Setup} {depth : Nat} {t : Template} {ns : List Node}
    {scope : Scope} {s : Store} (hstatic : ∀ n ∈ nodesAll ns, n.Static)
    (hdepth : levelsAll ns ≤ depth) :
    exec (walk setup depth t ns scope) s = (.ok (printAll (settleAll ns)), s) := by
  induction depth generalizing ns with
  | zero =>
    have hpos := levelsAll_pos ns
    omega
  | succ depth ih =>
    have hself : ∀ n ∈ ns, n.Static := fun n hn => hstatic n (mem_nodesAll hn)
    have hnode : ∀ n ∈ ns, exec (render setup (walk setup depth) t scope n none) s =
        (.ok (print (settle n)), s) := by
      intro n hn
      refine exec_render_of_static (hself n hn) fun helement => ih (fun m hm => ?_) ?_
      · exact hstatic m ((nodesAll_children hn).subset hm)
      · exact Nat.le_of_lt_succ ((levelsAll_children_lt hn helement).trans_le hdepth)
    rw [walk, renderSiblings_of_plain fun n hn => (hself n hn).ofTag?_tag, exec_bind,
      Render.exec_fanOut_of_forall hnode, printAll_settleAll]
    rfl

/-- **Rendering prints what is without directives and expressions**, in every scope and setup, if
the elements that close themselves are those named like one without content. -/
theorem walk_static (source : Text) (ns : List Node) (h : parseTemplate source = .ok ns)
    (hstatic : ∀ n ∈ nodesAll ns, n.Static)
    (hmarks : ∀ n ∈ nodesAll ns, n.isElement = true → n.selfClosing = isVoid n.tag)
    (setup : Setup) (t : Template) (scope : Scope) (s : Store) (depth : Nat)
    (hdepth : levelsAll ns ≤ depth) :
    exec (walk setup depth t ns scope) s = (.ok (printAll ns), s) := by
  have hempty : SelfClosingEmpty ns := by
    obtain ⟨b, hpush, rfl⟩ := exists_pushAll_of_parseTemplate h
    rw [← Builder.pushEach_of_pushAll hpush]
    exact ((Builder.tidy_ofPlaceholders _).pushEach _).forest
  rw [exec_walk_of_static hstatic hdepth, settleAll_eq hempty hmarks]

/-- A tag in upper case, an attribute in other quotes, elements without content, a comment and an
element that is left open. -/
theorem walk_static_comment :
    let source : Text := "<!DOCTYPE html><UL class='a'><li>x<br><hr/></li><!-- c --></UL><p>\\<i>"
    let setup : Setup := ⟨Library.empty.loader, false, false⟩
    let s : Store := ⟨.empty 1, .empty, .empty, []⟩
    ∃ ns, parseTemplate source = .ok ns ∧ (∀ n ∈ nodesAll ns, n.Static) ∧
      (∀ n ∈ nodesAll ns, n.isElement = true → n.selfClosing = isVoid n.tag) ∧
      exec (walk setup 9 ⟨none, ns⟩ ns (.ofContext ⟨[]⟩)) s = (.ok (printAll ns), s) ∧
      printAll ns =
        "<!DOCTYPE html><ul class=\"a\"><li>x<br><hr></li><!-- c --></ul><p>\\<i></p>" := by
  intro source setup s
  obtain ⟨ns, hns, hcomputed⟩ := exists_of_parseTemplate source
    (f := fun ns => ((nodesAll ns).all fun n =>
      decide n.Static && (!n.isElement || n.selfClosing == isVoid n.tag),
      levelsAll ns, printAll ns))
    (a := (true, 4,
      "<!DOCTYPE html><ul class=\"a\"><li>x<br><hr></li><!-- c --></ul><p>\\<i></p>"))
    (by decide +kernel)
  simp only [Prod.mk.injEq, List.all_eq_true, Bool.and_eq_true, decide_eq_true_eq] at hcomputed
  obtain ⟨hall, hlevels, hprinted⟩ := hcomputed
  have hstatic : ∀ n ∈ nodesAll ns, n.Static := fun n hn => (hall n hn).1
  have hmarks : ∀ n ∈ nodesAll ns, n.isElement = true → n.selfClosing = isVoid n.tag := by
    intro n hn helement
    simpa [helement] using (hall n hn).2
  exact ⟨ns, hns, hstatic, hmarks,
    walk_static source ns hns hstatic hmarks setup _ _ s 9 (by omega), hprinted⟩

/-- An element that closes itself, but is not named like one without content, is rendered with a
closing tag and printed without one. -/
theorem walk_static_selfClosing :
    let setup : Setup := ⟨Library.empty.loader, false, false⟩
    let s : Store := ⟨.empty 1, .empty, .empty, []⟩
    ∃ ns, parseTemplate "<div/>" = .ok ns ∧ (∀ n ∈ nodesAll ns, n.Static) ∧
      (exec (walk setup 2 ⟨none, ns⟩ ns (.ofContext ⟨[]⟩)) s).1.toOption = some "<div></div>" ∧
      printAll ns = "<div>" := by
  intro setup s
  obtain ⟨ns, hns, hcomputed⟩ := exists_of_parseTemplate "<div/>"
    (f := fun ns => ((nodesAll ns).all fun n => decide n.Static,
      (exec (walk setup 2 ⟨none, ns⟩ ns (.ofContext ⟨[]⟩)) s).1.toOption, printAll ns))
    (a := (true, some "<div></div>", "<div>")) (by decide +kernel)
  simp only [Prod.mk.injEq, List.all_eq_true, decide_eq_true_eq] at hcomputed
  obtain ⟨hstatic, hrendered, hprinted⟩ := hcomputed
  exact ⟨ns, hns, hstatic, hrendered, hprinted⟩

end HtmlTemplate
