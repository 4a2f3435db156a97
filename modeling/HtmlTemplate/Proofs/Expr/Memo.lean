import HtmlTemplate.Expr.Filling
import HtmlTemplate.Proofs.Render.Agree

/-!
A memo of expressions never changes an answer.

All its trees are what reading their texts gives, so reading with it is reading; whatever else it
holds, and whether it is full, does not matter.
-/

namespace HtmlTemplate

namespace Memo

/-- Every tree is the one that its text is read as. -/
def Sound (m : Memo) : Prop := ∀ p ∈ m.entries, Expr.parse p.1 = .ok p.2

lemma sound_empty (capacity : Nat) : (empty capacity).Sound := by
  intro p hp
  cases hp

variable {m : Memo}

/-- Reading through a memo is reading. -/
lemma Sound.parse_fst (h : m.Sound) (source : Text) : (m.parse source).1 = Expr.parse source := by
  unfold parse
  split
  · rename_i e he
    obtain ⟨before, after, heq, -⟩ := List.lookup_eq_some_iff.1 he
    exact (h (source, e) (by simp [heq])).symm
  · split <;> rename_i hp <;> exact hp.symm

lemma Sound.parse_snd (h : m.Sound) (source : Text) : (m.parse source).2.Sound := by
  unfold parse
  split
  · exact h
  · split
    · exact h
    · rename_i e he
      dsimp only
      split
      · intro p hp
        rcases List.mem_cons.1 hp with rfl | hp
        · exact he
        · exact h p hp
      · exact h

end Memo

/-- Both memos are sound. -/
def BothSound (m m' : Memo) : Prop := m.Sound ∧ m'.Sound

lemma exec_readExpression {m : Memo} (h : m.Sound) (source : Text) :
    exec (readExpression source) m =
      ((Expr.parse (Text.trim source)).mapError (.invalid (Text.trim source)),
        (m.parse (Text.trim source)).2) := by
  rw [← h.parse_fst]
  dsimp only [exec, readExpression, ExceptT.run_mk, StateT.run]
  rcases m.parse (Text.trim source) with ⟨r, m⟩
  cases r <;> rfl

/-- Evaluating is reading, and then finding the value. -/
lemma fst_exec_evaluate {m : Memo} (hm : m.Sound) (c : Context) (source : Text) :
    (exec (evaluate c source) m).1 =
      ((Expr.parse (Text.trim source)).mapError (.invalid (Text.trim source))).bind
        fun e => e.eval c := by
  rw [evaluate, exec_bind, exec_readExpression hm]
  cases Expr.parse (Text.trim source) <;> rfl

lemma agree_readExpression (source : Text) :
    Agree BothSound (readExpression source) (readExpression source) :=
  fun _ _ h => ⟨_, _, _, exec_readExpression h.1 source, exec_readExpression h.2 source,
    h.1.parse_snd _, h.2.parse_snd _⟩

/-- **The value of an expression does not depend on the memo.** -/
theorem agree_evaluate_memo (c : Context) (source : Text) :
    Agree BothSound (evaluate c source) (evaluate c source) :=
  (agree_readExpression source).bind fun e m m' hm => ⟨e.eval c, m, m', rfl, rfl, hm⟩

theorem agree_fillIn_memo (c : Context) (raw : Bool) (t : Text) :
    Agree BothSound (fillIn c raw t) (fillIn c raw t) := by
  refine (Agree.mapM (fun chunk => ?_) _).bind fun _ => agree_pure _
  cases chunk with
  | literal t => exact agree_pure t
  | expression body => exact (agree_evaluate_memo c body).bind fun _ => agree_pure _

end HtmlTemplate
