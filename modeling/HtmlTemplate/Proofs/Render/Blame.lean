import HtmlTemplate.Proofs.Render.Static
import HtmlTemplate.Proofs.Render.Visits

/-!
Who is to blame for a failure.

A computation with others inside it is compared with the one that has nothing in their place. If it
fails, then either something inside has, which is known by a property of the failure, or it fails in
the same way by itself.
-/

namespace HtmlTemplate

/-- Failures with a property. Other ways to stop do not matter. -/
def Stop.Blamed (Q : Failure → Prop) : Stop → Prop
  | .failed e => Q e
  | _ => True

/-- No place has been added yet. -/
def Failure.Bare (e : Failure) : Prop := ∃ f, e = .ofFault f

lemma additive_blamed (Q : Failure → Prop) : Stop.Additive (Stop.Blamed Q) := ⟨fun _ _ => trivial⟩

lemma raisable_bare : Stop.Raisable (Stop.Blamed Failure.Bare) :=
  ⟨additive_blamed _, fun f => ⟨f, rfl⟩⟩

lemma eq_error_of_map {ε α β : Type} {f : α → β} {x : Except ε α} {e : ε}
    (h : x.map f = .error e) : x = .error e := by
  cases x with
  | error e' => exact congrArg Except.error (Except.error.inj h)
  | ok a => cases h

section Blames

variable {α β : Type} {Q : Failure → Prop} {x y : Render α} {p : α → Prop}

lemma Yields.canGive {stops : Stop → Prop} (h : Yields stops x p) : Yields stops x (CanGive x) := by
  intro s hs
  obtain ⟨hmemo, hresult⟩ := h s hs
  exact ⟨hmemo, hresult.imp (fun _ => id) fun a ha _ => ⟨s, hs, ha⟩⟩

lemma yields_within_of (place : Place)
    (h : Yields (Stop.Blamed fun e => Q (e.through place)) x p) :
    Yields (Stop.Blamed Q) (Render.within place x) p := by
  intro s hs
  obtain ⟨hmemo, hresult⟩ := h s hs
  rw [Render.exec_within]
  refine ⟨hmemo, ?_⟩
  cases hr : (exec x s).1 with
  | ok a =>
    rw [hr] at hresult
    exact hresult
  | error stop =>
    rw [hr] at hresult
    cases stop with
    | failed e => exact hresult
    | awaits | tooDeep => trivial

lemma Yields.blamed_mono {Q' : Failure → Prop} (h : Yields (Stop.Blamed Q) x p)
    (hQ : ∀ e, Q e → Q' e) : Yields (Stop.Blamed Q') x p := by
  refine h.mono_stops fun stop hstop => ?_
  cases stop with
  | failed e => exact hQ e hstop
  | awaits | tooDeep => trivial

/-- Whenever `x` fails, either the failure has the property, or it is bare and `y` fails in the same
way. The memo stays sound. -/
def Blames (Q : Failure → Prop) (x y : Render α) : Prop :=
  ∀ s : Store, s.memo.Sound → (exec x s).2.memo.Sound ∧
    ∀ e, (exec x s).1 = .error (.failed e) →
      Q e ∨ e.Bare ∧ (exec y s).1 = .error (.failed e)

lemma blames_of_yields (h : Yields (Stop.Blamed Q) x p) : Blames Q x y := by
  intro s hs
  obtain ⟨hmemo, hresult⟩ := h s hs
  refine ⟨hmemo, fun e he => ?_⟩
  rw [he] at hresult
  exact .inl hresult

lemma blames_self (h : Yields (Stop.Blamed Failure.Bare) x p) : Blames Q x x := by
  intro s hs
  obtain ⟨hmemo, hresult⟩ := h s hs
  refine ⟨hmemo, fun e he => ?_⟩
  rw [he] at hresult
  exact .inr ⟨hresult, he⟩

lemma blames_pure (a : α) : Blames Q (pure a) y :=
  blames_of_yields (yields_pure (p := fun _ => True) trivial)

lemma blames_throw {stop : Stop} (h : stop.Blamed Q) : Blames Q (throw stop) y :=
  blames_of_yields (yields_throw (p := fun _ => True) h)

lemma blames_misuse (kind : Misuse) (message : Text) :
    Blames Q (Render.misuse kind message : Render α) (Render.misuse kind message) :=
  blames_self (yields_misuse (p := fun _ => True) raisable_bare _ _)

lemma Settled.blames_self (h : Settled x) : Blames Q x x :=
  HtmlTemplate.blames_self (h.yields raisable_bare)

lemma Blames.bind {f g : α → Render β} (hx : Blames Q x x)
    (hf : ∀ a, CanGive x a → Blames Q (f a) (g a)) : Blames Q (x >>= f) (x >>= g) := by
  intro s hs
  obtain ⟨hmemo, hfails⟩ := hx s hs
  rw [exec_bind, exec_bind]
  rcases hr : exec x s with ⟨stop | a, t⟩
  · rw [hr] at hmemo hfails
    refine ⟨hmemo, fun e he => ?_⟩
    cases he
    exact (hfails e rfl).imp_right fun ⟨hbare, _⟩ => ⟨hbare, rfl⟩
  · rw [hr] at hmemo
    exact hf a ⟨s, hs, by rw [hr]⟩ t hmemo

lemma Blames.map (h : Blames Q x y) (f g : α → β) : Blames Q (f <$> x) (g <$> y) := by
  intro s hs
  obtain ⟨hmemo, hfails⟩ := h s hs
  rw [exec_map, exec_map]
  refine ⟨hmemo, fun e he => (hfails e (eq_error_of_map he)).imp_right ?_⟩
  rintro ⟨hbare, hy⟩
  exact ⟨hbare, by rw [hy]; rfl⟩

/-- What comes after a computation that gives nothing does not matter. -/
lemma Blames.bind_of_fails {f g : α → Render β} (h : Blames Q x y) (hx : Gives x fun _ => False) :
    Blames Q (x >>= f) (y >>= g) := by
  intro s hs
  obtain ⟨hmemo, hfails⟩ := h s hs
  rw [exec_bind, exec_bind]
  rcases hr : exec x s with ⟨stop | a, t⟩
  · rw [hr] at hmemo hfails
    refine ⟨hmemo, fun e he => ?_⟩
    cases he
    refine (hfails e rfl).imp_right fun ⟨hbare, hy⟩ => ⟨hbare, ?_⟩
    rcases hr' : exec y s with ⟨stop | a, u⟩
    · rw [hr'] at hy
      cases hy
      rfl
    · rw [hr'] at hy
      cases hy
  · exact (hx s a t hr).elim

/-- A failure that is bare is how the other computation fails by itself. -/
lemma Blames.yields (h : Blames Q x y) :
    Yields (Stop.Blamed fun e => Q e ∨ ∃ f, e = .ofFault f ∧ CanFail y f) x fun _ => True := by
  intro s hs
  obtain ⟨hmemo, hfails⟩ := h s hs
  refine ⟨hmemo, ?_⟩
  cases hr : (exec x s).1 with
  | ok a => trivial
  | error stop =>
    cases stop with
    | awaits | tooDeep => trivial
    | failed e =>
      refine (hfails e hr).imp_right ?_
      rintro ⟨⟨f, rfl⟩, hy⟩
      exact ⟨f, rfl, s, hs, hy⟩

/-- What fails by itself fails at its place. -/
lemma yields_within_self (place : Place) (h : Yields (Stop.Blamed Failure.Bare) x p)
    (hQ : ∀ f, CanFail x f → Q ⟨f, [place]⟩) :
    Yields (Stop.Blamed Q) (Render.within place x) (CanGive x) := by
  have hself := (blames_self (Q := fun _ => False) h).yields
  refine yields_within_of _ (hself.canGive.blamed_mono ?_)
  rintro e (hnever | ⟨f, rfl, hf⟩)
  · exact hnever.elim
  · exact hQ f hf

end Blames

/-! ### Steps of an inclusion -/

/-- What gives something in any case, after what may fail. -/
lemma Render.both_pure {α β : Type} (x : Render α) (b : β) : both x (pure b) = (·, b) <$> x := by
  refine exec_ext fun s => ?_
  rw [exec_both, exec_map]
  rcases exec x s with ⟨r, t⟩
  match r with
  | .ok a | .error (.failed e) | .error (.awaits paths) | .error .tooDeep => rfl

lemma readFile_eq (loader : Loader) (path : Text) :
    (∃ source, readFile loader path = pure source) ∨
      ∃ stop, readFile loader path = throw stop ∧ stop.Blamed Failure.Bare := by
  unfold readFile
  split
  · exact .inr ⟨_, rfl, trivial⟩
  · exact .inr ⟨_, rfl, _, rfl⟩
  · split
    · exact .inl ⟨_, rfl⟩
    · exact .inr ⟨_, rfl, _, rfl⟩

/-- What fails, after something that does not matter to it. -/
lemma blames_both_throw {α β : Type} {Q : Failure → Prop} {x y : Render α} {p : α → Prop}
    {stop : Stop} (hx : Yields (Stop.Blamed Q) x p) (hy : ∀ s, ∃ a t, exec y s = (.ok a, t))
    (hstop : stop.Blamed Failure.Bare) :
    Blames Q (Render.both x (throw stop : Render β)) (Render.both y (throw stop)) := by
  intro s hs
  obtain ⟨hmemo, hresult⟩ := hx s hs
  obtain ⟨b, u, hy⟩ := hy s
  rw [Render.exec_both, Render.exec_both, hy]
  rcases hr : exec x s with ⟨r, t⟩
  rw [hr] at hmemo hresult
  match r with
  | .ok a | .error (.awaits paths) =>
    -- the second part stops in the same way, whatever the first has done
    refine ⟨?_, fun e he => ?_⟩
    · cases stop <;> exact hmemo
    · cases stop with
      | awaits | tooDeep => cases he
      | failed e' =>
        cases he
        exact .inr ⟨hstop, rfl⟩
  | .error (.failed e') =>
    refine ⟨hmemo, fun e he => ?_⟩
    cases he
    exact .inl hresult
  | .error .tooDeep => exact ⟨hmemo, nofun⟩

namespace Node

lemma isFill_of_leaf {m : Node} (h : m.isElement = false) : isFill m = false := by
  cases m with
  | leaf kind raw line => rfl
  | element head closed children => cases h

lemma fillNames_concat_fill {before : List Node} {m : Node} (hm : isFill m = true) :
    fillNames (before ++ [m]) = fillNames before ++ [slotName m] := by
  have hfilter : [m].filter isFill = [m] := List.filter_cons_of_pos hm
  rw [fillNames, List.filter_append, hfilter, List.map_append]
  rfl

lemma fillNames_concat_leaf {before : List Node} {m : Node} (hm : m.isElement = false) :
    fillNames (before ++ [m]) = fillNames before := by
  simp [fillNames, isFill_of_leaf hm]

lemma Unfit.fillsFrom_eq {before : List Node} {n : Node} {f : Fault} (h : Unfit before n f)
    (t : Template) (ns : List Node) :
    fillsFrom t (fillNames before).reverse (n :: ns) = throw (.failed ⟨f, [t.place n]⟩) := by
  rw [fillsFrom_cons]
  cases h with
  | stray helement hfill =>
    rw [helement, hfill]
    rfl
  | repeated hfill hseen =>
    have helement : n.isElement = true := by
      by_contra hleaf
      rw [isFill_of_leaf (Bool.not_eq_true _ ▸ hleaf)] at hfill
      cases hfill
    rw [helement, hfill, if_neg (by simp), if_neg (by simp), if_pos (List.mem_reverse.2 hseen)]
    rfl

/-- A child that an inclusion may have does not stop it. -/
lemma fillsFrom_of_fits {before : List Node} {n : Node} (h : ∀ g, ¬ Unfit before n g)
    (t : Template) (ns : List Node) : ∃ first, fillsFrom t (fillNames before).reverse (n :: ns) =
      (first ++ ·) <$> fillsFrom t (fillNames (before ++ [n])).reverse ns := by
  rw [fillsFrom_cons]
  cases helement : n.isElement with
  | false =>
    rw [if_pos (by rfl), fillNames_concat_leaf helement]
    exact ⟨[], (id_map _).symm⟩
  | true =>
    cases hfill : isFill n with
    | false => exact absurd (.stray helement hfill) (h _)
    | true =>
      have hnew : slotName n ∉ (fillNames before).reverse := fun hseen =>
        h _ (.repeated hfill (List.mem_reverse.1 hseen))
      rw [if_neg (by simp), if_neg (by simp), if_neg hnew, fillNames_concat_fill hfill,
        List.reverse_append]
      exact ⟨[(slotName n, n)], rfl⟩

/-- An inclusion fails at the first child that it may not have. -/
lemma FirstUnfit.fillsFrom_eq {before ns : List Node} {m : Node} {f : Fault}
    (h : FirstUnfit before ns m f) (t : Template) :
    fillsFrom t (fillNames before).reverse ns = throw (.failed ⟨f, [t.place m]⟩) := by
  induction h with
  | here h => exact h.fillsFrom_eq t _
  | later hfits _ ih =>
    obtain ⟨first, hrun⟩ := fillsFrom_of_fits hfits t _
    rw [hrun, ih]
    rfl

/-- Either there is no child that an inclusion may not have, or there is a first one. -/
lemma fillsFrom_eq (t : Template) (ns : List Node) : ∀ before,
    (∃ fills, fillsFrom t (fillNames before).reverse ns = pure fills) ∨
      ∃ m f, FirstUnfit before ns m f := by
  induction ns with
  | nil => exact fun _ => .inl ⟨[], rfl⟩
  | cons n ns ih =>
    intro before
    by_cases hunfit : ∃ g, Unfit before n g
    · obtain ⟨g, hg⟩ := hunfit
      exact .inr ⟨n, g, .here hg⟩
    · rw [not_exists] at hunfit
      obtain ⟨first, hrun⟩ := fillsFrom_of_fits hunfit t ns
      rcases ih (before ++ [n]) with ⟨fills, hfills⟩ | ⟨m, f, hfirst⟩
      · exact .inl ⟨first ++ fills, by rw [hrun, hfills]; rfl⟩
      · exact .inr ⟨m, f, .later hunfit hfirst⟩

lemma fillsOf_eq (t : Template) (n : Node) :
    (∃ fills, fillsOf t n = pure fills) ∨
      ∃ m f, FirstUnfit [] n.children m f ∧ fillsOf t n = throw (.failed ⟨f, [t.place m]⟩) :=
  (fillsFrom_eq t n.children []).imp_right fun ⟨m, f, h⟩ => ⟨m, f, h, h.fillsFrom_eq t⟩

end Node

lemma exec_renderFills_idle (e : Surroundings) (t : Template) (fills : List (Text × Node))
    (scope : Scope) (s : Store) :
    exec (Node.renderFills (Lexical.idle e) t fills scope) s =
      (.ok ((fills.map Prod.fst).zip (fills.map fun _ => [])), s) := by
  have hparts : exec (Render.fanOut (fun p : Text × Node => Render.within (t.place p.2)
      (Lexical.idle e t p.2.children scope)) fills) s = (.ok (fills.map fun _ => []), s) :=
    Render.exec_fanOut_of_forall fun _ _ => rfl
  rw [Node.renderFills, exec_bind, hparts]
  rfl

lemma settled_readBinding (on : Text) : Settled (Node.readBinding on) := by
  unfold Node.readBinding
  split
  · exact settled_pure _
  · exact settled_misuse _ _

lemma canGive_demand {name a : Text} {n : Node} (h : CanGive (demand name n) a) :
    n.attributes.get? name = some a := by
  obtain ⟨s, -, h⟩ := h
  unfold demand at h
  split at h
  · cases h
    assumption
  · cases h

lemma canGive_readBinding {on : Text} {b : TreeHead} (h : CanGive (Node.readBinding on) b) :
    TreeHead.parse? on = some b := by
  obtain ⟨s, -, h⟩ := h
  unfold Node.readBinding at h
  split at h
  · cases h
    assumption
  · cases h

lemma canGive_includedPath {t : Template} {file path : Text}
    (h : CanGive (Node.includedPath t file) path) :
    ∃ base, t.file = some base ∧ path = Path.resolve base file := by
  obtain ⟨s, -, h⟩ := h
  unfold Node.includedPath at h
  split at h
  · cases h
    exact ⟨_, by assumption, rfl⟩
  · cases h

/-- A file that is loaded can be parsed, and its holes have different names. -/
lemma yields_loadTemplate_unkept {Q : Failure → Prop} {file : Option Text} {source : Text}
    (hline : ∀ err, parseTemplate source = .error err →
      Q ⟨.malformed err, [err.place file source]⟩)
    (hhole : ∀ ns m, parseTemplate source = .ok ns →
      firstRepeated? [] ((Node.nodesAll ns).filter isHole) = some m →
      Q ⟨.misuse .duplicateSlotName (repeatedMessage .hole (slotName m)),
        [Template.place ⟨file, ns⟩ m]⟩) :
    Yields (Stop.Blamed Q) (loadTemplate false file source) fun t =>
      parseTemplate source = .ok t.nodes ∧ t.file = file ∧ checkHoles t = pure () := by
  have hparse : Yields (Stop.Blamed Q) (parseKept false source) (· = parseTemplate source) :=
    fun _ hs => ⟨hs, rfl⟩
  refine hparse.bind fun read hread => ?_
  rw [hread]
  cases htemplate : parseTemplate source with
  | error err => exact yields_throw (hline err htemplate)
  | ok ns =>
    dsimp only
    cases hrepeated : firstRepeated? [] ((Node.nodesAll ns).filter isHole) with
    | none =>
      have hcheck : checkHoles ⟨file, ns⟩ = pure () := by rw [checkHoles, hrepeated]
      rw [hcheck]
      exact yields_pure ⟨rfl, rfl, hcheck⟩
    | some m =>
      have hcheck : checkHoles ⟨file, ns⟩ = throw (.failed
          ⟨.misuse .duplicateSlotName (repeatedMessage .hole (slotName m)),
            [Template.place ⟨file, ns⟩ m]⟩) := by
        rw [checkHoles, hrepeated]
        rfl
      rw [hcheck]
      exact Yields.bind (p := fun _ => False) (yields_throw (hhole ns m htemplate hrepeated))
        fun _ h => h.elim

end HtmlTemplate
