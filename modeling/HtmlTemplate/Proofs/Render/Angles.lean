import Mathlib.Data.Bool.AllAny
import HtmlTemplate.Proofs.Expr.Escaping
import HtmlTemplate.Proofs.Markup.Quoting
import HtmlTemplate.Proofs.Render.Loaded
import HtmlTemplate.Proofs.Render.Outcome
import HtmlTemplate.Proofs.Render.Static

/-!
Values cannot become tags.

The angle brackets in the output of a template without directives are those that its tree is
written with: each value is escaped on its way into a text, quoting an attribute adds none, and the
last replacements neither add nor remove any. So they are the same whatever the values are.
-/

namespace HtmlTemplate

/-- Whether a character opens or closes a tag. -/
def isAngle (c : Char) : Bool := c == '<' || c == '>'

/-- The angle brackets of a text, in order. -/
def angles (t : Text) : Text := t.filter isAngle

/-- The angle brackets that a chunk is sure to have: there are none in a value. -/
def Chunk.angles : Chunk → Text
  | .literal t => HtmlTemplate.angles t
  | .expression _ => []

/-- The angle brackets that a text has outside its expressions. -/
def literalAngles (t : Text) : Text := (Chunk.chunks t).flatMap Chunk.angles

namespace Node

mutual

/-- The angle brackets that a node without directives is rendered with. -/
def angles : Node → Text
  | .leaf .doctype raw _ => HtmlTemplate.angles raw
  | .leaf .instruction raw _ => HtmlTemplate.angles raw
  | .leaf _ raw _ => literalAngles raw
  | .element head _ children =>
    '<' :: HtmlTemplate.angles head.tag ++
      head.attributes.flatMap (fun a => HtmlTemplate.angles a.1 ++ literalAngles a.2) ++
      ['>'] ++ if isVoid head.tag then []
        else anglesAll children ++ HtmlTemplate.angles (printClosing head.tag)

def anglesAll : List Node → Text
  | [] => []
  | n :: ns => angles n ++ anglesAll ns

end

end Node

section

variable {t out : Text} {c : Context}

/-! ### Texts -/

@[simp] lemma angles_nil : angles [] = [] := rfl

@[simp] lemma angles_append (t u : Text) : angles (t ++ u) = angles t ++ angles u :=
  List.filter_append ..

lemma angles_cons_of_not {c : Char} (h : isAngle c = false) (t : Text) :
    angles (c :: t) = angles t := List.filter_cons_of_neg (by simp [h])

/-- Parts are put together with their brackets. -/
lemma angles_flatten_of_forall₂ {α : Type} {p : α → Text} {as : List α} {parts : List Text}
    (h : List.Forall₂ (fun a part => angles part = p a) as parts) :
    angles parts.flatten = as.flatMap p := by
  induction h with
  | nil => rfl
  | cons h _ ih => rw [List.flatten_cons, angles_append, List.flatMap_cons, h, ih]

lemma angles_escapeMarkup (t : Text) : angles (escapeMarkup t) = [] := by
  have hchar : ∀ c, angles (escapeMarkupChar c) = [] := by
    intro c
    unfold escapeMarkupChar
    split
    · rfl
    · next hopen =>
      split
      · rfl
      · next hclose => exact angles_cons_of_not (by simp [isAngle, hopen, hclose]) []
  induction t with
  | nil => rfl
  | cons c t ih => rw [escapeMarkup_cons, angles_append, hchar, ih, List.append_nil]

lemma angles_quote (value : Text) : angles (Attributes.quote value) = angles value := by
  have hrefs : angles (Attributes.refQuotes value) = angles value :=
    Text.filter_replace (by decide) (by decide) (by decide) value
  have htext : angles (Attributes.quotedText value) = angles value := by
    unfold Attributes.quotedText
    split
    · exact hrefs
    · rfl
  have hmark : isAngle (Attributes.quoteMark value) = false := by
    unfold Attributes.quoteMark
    split <;> rfl
  rw [Attributes.quote_eq, angles_cons_of_not hmark, angles_append, htext,
    angles_cons_of_not hmark, angles_nil, List.append_nil]

/-- The last replacements only add and remove what is in their marks, or a digit. -/
lemma filter_finishOutput {q : Char → Bool} (hmarks : ∀ c ∈ timestampMark ++ ['!'], q c = false)
    (hdigit : ∀ c, c.isDigit = true → q c = false) (elapsed : Nat) (t : Text) :
    (finishOutput elapsed t).filter q = t.filter q := by
  have hnone : ∀ {u : Text}, (∀ c ∈ u, q c = false) → u.filter q = [] := fun hu =>
    List.filter_eq_nil_iff.2 fun c hc => by simp [hu c hc]
  have hmark : ∀ {u : Text}, u ⊆ timestampMark ++ ['!'] → u.filter q = [] :=
    fun hu => hnone fun c hc => hmarks c (hu hc)
  have hnumeral := hnone fun c hc => hdigit c (Text.isDigit_of_mem_numeral (n := elapsed) hc)
  rw [finishOutput, restoreBraces,
    Text.filter_replace (by decide) (hmark (by decide)) (hmark (by decide)),
    Text.filter_replace (by decide) (hmark (by decide)) (hmark (by decide)),
    Text.filter_replaceFirst (hmark (by decide)) hnumeral]

lemma angles_finishOutput (elapsed : Nat) (t : Text) :
    angles (finishOutput elapsed t) = angles t := by
  refine filter_finishOutput (List.all_iff_forall_prop.1 (by decide)) (fun c hc => ?_) elapsed t
  have hopen : c ≠ '<' := by
    rintro rfl
    cases hc
  have hclose : c ≠ '>' := by
    rintro rfl
    cases hc
  simp [isAngle, hopen, hclose]

/-! ### Filling in -/

lemma gives_fillIn (c : Context) (t : Text) :
    Gives (fillIn c false t) fun out => angles out = literalAngles t := by
  have hchunk : ∀ chunk ∈ Chunk.chunks t,
      Gives (fillChunk c false chunk) fun out => angles out = chunk.angles := by
    intro chunk _
    cases chunk with
    | literal t => exact gives_pure rfl
    | expression body =>
      exact gives_bind fun v => gives_pure (angles_escapeMarkup v.display)
  exact (Gives.mapM _ hchunk).bind fun parts hparts =>
    gives_pure (angles_flatten_of_forall₂ hparts)

/-- Where nothing is to be decided and nothing is raw, a text is rendered with its own brackets. -/
lemma yields_fillIn_angles {scope : Scope} (hraw : scope.raw = false) (t : Text) :
    Yields (· ≠ .awaits []) (scope.fillIn t) fun out => angles out = literalAngles t := by
  have hfill := gives_fillIn scope.context t
  rw [← hraw] at hfill
  exact (yields_evaluating closed_ne_awaits.toRaisable (agree_fillIn_memo _ _ _)).mono
    fun out ⟨m, _, hout⟩ => hfill m out _ (Prod.ext hout rfl)

/-! ### Nodes -/

namespace Node

variable {setup : Setup} {walk : Walk} {scope : Scope} {n : Node} {ns : List Node} {t : Template}

lemma yields_renderText_angles (hraw : scope.raw = false) (raw : Text) :
    Yields (· ≠ .awaits []) (renderText raw scope) fun out =>
      HtmlTemplate.angles out = literalAngles raw := by
  unfold renderText
  split
  · next hblank =>
    refine yields_pure ?_
    have hbraces : ¬ openBraces <:+: raw := by
      intro hi
      rw [Text.isBlank, List.all_eq_true] at hblank
      exact absurd (hblank '{' (hi.subset (by decide))) (by decide)
    rw [literalAngles, Chunk.chunks_of_none (Chunk.first?_of_no_braces hbraces)]
    exact (List.append_nil _).symm
  · exact yields_fillIn_angles hraw raw

lemma yields_renderAttribute_angles (hraw : scope.raw = false) (a : Text × Text) :
    Yields (· ≠ .awaits []) (renderAttribute scope a) fun out =>
      HtmlTemplate.angles out = HtmlTemplate.angles a.1 ++ literalAngles a.2 := by
  refine (yields_fillIn_angles hraw a.2).bind fun value hvalue => yields_pure ?_
  rw [List.cons_append, angles_cons_of_not rfl, angles_append, angles_cons_of_not rfl,
    angles_quote, hvalue]

lemma yields_renderPlain_angles (hraw : scope.raw = false) (head : Opening) (closed : Bool)
    (children : List Node)
    (hw : Yields (· ≠ .awaits []) (walk t children scope) fun out =>
      HtmlTemplate.angles out = anglesAll children) :
    Yields (· ≠ .awaits []) (renderPlain walk t (.element head closed children) scope) fun out =>
      HtmlTemplate.angles out = angles (.element head closed children) := by
  have hattribute : ∀ a ∈ head.attributes, Yields (· ≠ .awaits []) (renderAttribute scope a)
      fun out => HtmlTemplate.angles out = HtmlTemplate.angles a.1 ++ literalAngles a.2 :=
    fun a _ => yields_renderAttribute_angles hraw a
  unfold renderPlain
  refine (Yields.mapM hattribute).bind fun attributes hattributes => ?_
  have hhead : HtmlTemplate.angles ('<' :: head.tag ++ attributes.flatten ++ ['>']) =
      '<' :: HtmlTemplate.angles head.tag ++
        (head.attributes.flatMap fun a => HtmlTemplate.angles a.1 ++ literalAngles a.2) ++
          ['>'] := by
    rw [angles_append, List.cons_append, ← List.singleton_append, angles_append, angles_append,
      angles_flatten_of_forall₂ hattributes]
    rfl
  rw [angles, ← hhead]
  change Yields _ (if isVoid head.tag = true then _ else _) _
  split
  · refine yields_pure ?_
    rw [List.append_nil]
    rfl
  · refine hw.bind fun inner hinner => yields_pure ?_
    rw [angles_append, angles_append, hinner, List.append_assoc]
    rfl

lemma yields_render_angles (hraw : scope.raw = false) (hplain : Directive.ofTag? n.tag = none)
    (hw : Yields (· ≠ .awaits []) (walk t n.children scope) fun out =>
      HtmlTemplate.angles out = anglesAll n.children) :
    Yields (· ≠ .awaits []) (render setup walk t scope n none) fun out =>
      HtmlTemplate.angles out = angles n := by
  cases n with
  | leaf kind raw line =>
    cases kind with
    | doctype | instruction => exact yields_pure rfl
    | text | comment | cdata =>
      exact yields_within (yields_renderText_angles hraw raw) closed_ne_awaits _
  | element head closed children =>
    change Yields _ (Render.within _ (renderElement setup walk t _ scope false)) _
    refine yields_within ?_ closed_ne_awaits _
    rw [renderElement, hplain]
    exact yields_renderPlain_angles hraw head closed children hw

lemma anglesAll_eq (ns : List Node) : anglesAll ns = ns.flatMap angles := by
  induction ns with
  | nil => rfl
  | cons n ns ih => rw [anglesAll, List.flatMap_cons, ih]

end Node

open Node

/-- The brackets that siblings without directives are rendered with. -/
lemma yields_walk_angles {setup : Setup} {depth : Nat} {t : Template} {ns : List Node}
    {scope : Scope} (hraw : scope.raw = false)
    (hplain : ∀ n ∈ nodesAll ns, Directive.ofTag? n.tag = none) :
    Yields (· ≠ .awaits []) (walk setup depth t ns scope) fun out => angles out = anglesAll ns := by
  induction depth generalizing ns with
  | zero => exact yields_throw nofun
  | succ depth ih =>
    have hself : ∀ n ∈ ns, Directive.ofTag? n.tag = none := fun n hn => hplain n (mem_nodesAll hn)
    have hnode : ∀ n ∈ ns, Yields (· ≠ .awaits [])
        (render setup (walk setup depth) t scope n none) fun out => angles out = n.angles :=
      fun n hn => yields_render_angles hraw (hself n hn)
        (ih fun m hm => hplain m ((nodesAll_children hn).subset hm))
    rw [walk, renderSiblings_of_plain hself, anglesAll_eq]
    exact (yields_fanOut_forall₂ hnode).bind fun parts hparts =>
      yields_pure (angles_flatten_of_forall₂ hparts)

end

/-! ### Attributes -/

/-- An attribute as it is written: its name, and a text between two quotes that it does not hold. -/
def WritesQuoted (a : Text × Text) (written : Text) : Prop :=
  ∃ q body, Span.isQuote q = true ∧ q ∉ body ∧ written = ' ' :: a.1 ++ '=' :: q :: (body ++ [q])

lemma gives_renderAttribute (scope : Scope) (a : Text × Text) :
    Gives (Node.renderAttribute scope a) (WritesQuoted a) := by
  refine gives_bind fun value => gives_pure ?_
  rw [Attributes.quote_eq]
  exact ⟨_, _, Attributes.isQuote_quoteMark value, Attributes.quoteMark_not_mem value, rfl⟩

lemma gives_renderPlain (walk : Walk) (t : Template) (n : Node) (scope : Scope) :
    Gives (Node.renderPlain walk t n scope) fun out => ∃ written rest,
      List.Forall₂ WritesQuoted n.attributes written ∧
        out = '<' :: n.tag ++ written.flatten ++ '>' :: rest := by
  refine (Gives.mapM _ fun a _ => gives_renderAttribute scope a).bind fun written hwritten => ?_
  split
  · exact gives_pure ⟨written, [], hwritten, rfl⟩
  · exact gives_bind fun inner => gives_pure ⟨written, inner ++ Node.printClosing n.tag, hwritten,
      by simp⟩

/-! ### Renderings -/

lemma Engine.Honest.angles_of_render {e : Engine} {ts : List Text} {loader : Loader} {r : Request}
    {elapsed : Nat} {out : Text} (he : e.Honest ts)
    (hU : Set.InjOn Digest.ofText {t | t ∈ ts ∨ r.source.Holds loader t})
    (h : (e.render loader elapsed r).1 = .ok out)
    (hplain : ∀ source ns, r.source.Holds loader source → parseTemplate source = .ok ns →
      ∀ n ∈ Node.nodesAll ns, Directive.ofTag? n.tag = none) :
    ∃ source ns, r.source.Holds loader source ∧ parseTemplate source = .ok ns ∧
      angles out = Node.anglesAll ns := by
  obtain ⟨c, source, file, ns, s, s', body, -, hsource, hparse, hs, hwalk, rfl⟩ :=
    he.exists_of_render hU h
  have hangles : Yields (· ≠ .awaits []) (walk ⟨loader, r.options.cache, r.options.debug⟩ depthLimit
      ⟨file, ns⟩ ns (.ofContext c)) fun out => angles out = Node.anglesAll ns :=
    yields_walk_angles rfl (hplain source ns hsource hparse)
  have hbody := (hangles s hs).2
  rw [hwalk] at hbody
  exact ⟨source, ns, hsource, hparse, (angles_finishOutput elapsed body).trans hbody⟩

/-- **Values cannot become markup.** Two renderings of a template without directives that succeed,
whatever their contexts, give texts with the same angle brackets in the same order. And in every
scope an element is written with each of its attributes in quotes that the text between them does
not hold; the last replacements keep all quotes. -/
theorem Engine.render_angles (e e' : Engine) (ts ts' : List Text) (he : e.Honest ts)
    (he' : e'.Honest ts') (loader : Loader) (elapsed elapsed' : Nat) (source : TemplateSource)
    (options : Options) (context context' : Json)
    (hplain : ∀ t ns, source.Holds loader t → parseTemplate t = .ok ns →
      ∀ n ∈ Node.nodesAll ns, Directive.ofTag? n.tag = none)
    (hdigest : Set.InjOn Digest.ofText {t | t ∈ ts ∨ t ∈ ts' ∨ source.Holds loader t}) :
    (∀ out out', (e.render loader elapsed ⟨source, context, options⟩).1 = .ok out →
      (e'.render loader elapsed' ⟨source, context', options⟩).1 = .ok out' →
      angles out = angles out') ∧
    (∀ walk t n scope, Gives (Node.renderPlain walk t n scope) fun out => ∃ written rest,
      List.Forall₂ WritesQuoted n.attributes written ∧
        out = '<' :: n.tag ++ written.flatten ++ '>' :: rest) ∧
    ∀ elapsed t, (finishOutput elapsed t).filter Span.isQuote = t.filter Span.isQuote := by
  refine ⟨fun out out' h h' => ?_, gives_renderPlain, fun elapsed t => ?_⟩
  · obtain ⟨u, ns, hu, hns, hangles⟩ :=
      he.angles_of_render (hdigest.mono fun t ht => ht.imp_right .inr) h hplain
    obtain ⟨u', ns', hu', hns', hangles'⟩ :=
      he'.angles_of_render (hdigest.mono fun t ht => .inr ht) h' hplain
    obtain rfl := hu.unique hu'
    cases hns.symm.trans hns'
    rw [hangles, hangles']
  · refine filter_finishOutput (List.all_iff_forall_prop.1 (by decide)) (fun c hc => ?_) elapsed t
    rw [← Bool.not_eq_true, Span.isQuote_iff]
    rintro (rfl | rfl) <;> cases hc

lemma eq_ok_of_toOption {ε α : Type} {x : Except ε α} {a : α} (h : x.toOption = some a) :
    x = .ok a := by
  cases x with
  | error e => cases h
  | ok b => exact congrArg Except.ok (Option.some.inj h)

/-- A value with a tag and both quotes, in an attribute, a comment, a script and a text. -/
theorem Engine.render_angles_tag :
    let x : Text := openBraces ++ "x" ++ closeBraces
    let text : Text := "<p a='" ++ x ++ "'><!--" ++ x ++ "--><script>" ++ x ++ "</script>" ++ x
    let source : TemplateSource := .text text
    let context : Json := .object [("x", .string "<b>\"'")]
    let context' : Json := .object [("x", .array [.null, .bool true])]
    let loader := Library.empty.loader
    (new 1).Honest [] ∧ (new 2).Honest [] ∧
    (∀ t ns, source.Holds loader t → parseTemplate t = .ok ns →
      ∀ n ∈ Node.nodesAll ns, Directive.ofTag? n.tag = none) ∧
    Set.InjOn Digest.ofText
      {t | t ∈ ([] : List Text) ∨ t ∈ ([] : List Text) ∨ source.Holds loader t} ∧
    ∃ out out', ((new 1).render loader 0 ⟨source, context, .default⟩).1 = .ok out ∧
      ((new 2).render loader 7 ⟨source, context', .default⟩).1 = .ok out' ∧
      angles out = angles out' ∧
      out = ("<p a=\"&lt;b&gt;&quot;'\"><!--&lt;b&gt;\"'--><script>&lt;b&gt;\"'</script>" ++
        "&lt;b&gt;\"'</p>" : String).toList := by
  intro x text source context context' loader
  have hplain : ∀ t ns, source.Holds loader t → parseTemplate t = .ok ns →
      ∀ n ∈ Node.nodesAll ns, Directive.ofTag? n.tag = none := by
    rintro t ns rfl hns
    obtain ⟨ns', hns', hall⟩ := exists_of_parseTemplate text
      (f := fun ns => (Node.nodesAll ns).all fun n => Directive.ofTag? n.tag = none)
      (a := true) (by decide +kernel)
    cases hns.symm.trans hns'
    simpa using hall
  have hdigest : Set.InjOn Digest.ofText
      {t | t ∈ ([] : List Text) ∨ t ∈ ([] : List Text) ∨ source.Holds loader t} := by
    refine (Set.injOn_singleton _ text).mono ?_
    rintro t (ht | ht | rfl)
    · cases ht
    · cases ht
    · rfl
  have hout := eq_ok_of_toOption (x := ((new 1).render loader 0 ⟨source, context, .default⟩).1)
    (a := ("<p a=\"&lt;b&gt;&quot;'\"><!--&lt;b&gt;\"'--><script>&lt;b&gt;\"'</script>" ++
      "&lt;b&gt;\"'</p>" : String).toList) (by decide +kernel)
  have hout' := eq_ok_of_toOption (x := ((new 2).render loader 7 ⟨source, context', .default⟩).1)
    (a := "<p a=\"null,true\"><!--null,true--><script>null,true</script>null,true</p>")
    (by decide +kernel)
  exact ⟨honest_new 1, honest_new 2, hplain, hdigest, _, _, hout, hout',
    (render_angles (new 1) (new 2) [] [] (honest_new 1) (honest_new 2) loader 0 7 source .default
      context context' hplain hdigest).1 _ _ hout hout', rfl⟩

end HtmlTemplate
