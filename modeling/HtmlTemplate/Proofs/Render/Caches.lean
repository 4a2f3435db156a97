import HtmlTemplate.Proofs.Expr.Memo
import HtmlTemplate.Proofs.Markup.TemplateCache
import HtmlTemplate.Proofs.Render.Walk

/-!
Renderings that differ in what is remembered.

Two stores are alike if they have the same tree expansions and had the same templates parsed, and
if both of their memories are right. Rendering does not see the difference, whether it keeps what
it parses or not.
-/

namespace HtmlTemplate

/-- Whether a rendering keeps what it parses, and what was kept before it. -/
structure Keeping where
  keep : Bool
  before : List Text

/-- The texts that are kept once a rendering has had some parsed. -/
def Keeping.texts (k : Keeping) (parsed : List Text) : List Text :=
  if k.keep then parsed ++ k.before else k.before

/-- The memo is sound, and the cache holds what is kept. -/
structure Store.Honest (k : Keeping) (s : Store) : Prop where
  memo : s.memo.Sound
  cache : s.cache.Holds (k.texts s.parsed)

/-- The stores differ in their memories only. All texts are from `U`. -/
structure Alike (U : Set Text) (k k' : Keeping) (s s' : Store) : Prop where
  trees : s.trees = s'.trees
  parsed : s.parsed = s'.parsed
  known : ∀ t ∈ s.parsed, t ∈ U
  left : s.Honest k
  right : s'.Honest k'

variable {U : Set Text} {k k' : Keeping} {s s' : Store}

lemma Keeping.mem_of_mem_texts (hk : ∀ t ∈ k.before, t ∈ U) {parsed : List Text}
    (hp : ∀ t ∈ parsed, t ∈ U) : ∀ t ∈ k.texts parsed, t ∈ U := by
  intro t ht
  unfold texts at ht
  split at ht
  · rcases List.mem_append.1 ht with ht | ht
    · exact hp t ht
    · exact hk t ht
  · exact hk t ht

/-! ### Evaluating -/

lemma agree_evaluating {α : Type} {x : Evaluation α} (h : Agree BothSound x x) :
    Agree (Alike U k k') (Render.evaluating x) (Render.evaluating x) := by
  intro s s' hs
  obtain ⟨r, m, m', hx, hx', hm, hm'⟩ := h s.memo s'.memo ⟨hs.left.memo, hs.right.memo⟩
  rw [Render.exec_evaluating, Render.exec_evaluating, hx, hx']
  exact ⟨_, _, _, rfl, rfl, hs.trees, hs.parsed, hs.known, ⟨hm, hs.left.cache⟩,
    ⟨hm', hs.right.cache⟩⟩

lemma unseen_alike : Unseen (Alike U k k') where
  evaluating c source := agree_evaluating (agree_evaluate_memo c source)
  filling c raw t := agree_evaluating (agree_fillIn_memo c raw t)
  trees hs := hs.trees
  setTrees _ hs := ⟨rfl, hs.parsed, hs.known, ⟨hs.left.memo, hs.left.cache⟩,
    ⟨hs.right.memo, hs.right.cache⟩⟩

/-! ### Loading -/

variable (hU : Set.InjOn Digest.ofText U)
include hU

/-- Parsing through the cache is parsing. -/
lemma exec_parseKept (hk : ∀ t ∈ k.before, t ∈ U) (hs : s.Honest k) (hp : ∀ t ∈ s.parsed, t ∈ U)
    {source : Text} (hsource : source ∈ U) :
    ∃ cache, exec (parseKept k.keep source) s =
        (.ok (parseTemplate source), { s with parsed := source :: s.parsed, cache := cache }) ∧
      cache.Holds (k.texts (source :: s.parsed)) := by
  have hts := k.mem_of_mem_texts hk hp
  obtain ⟨hfetch, hholds⟩ := hs.cache.fetch hU hts hsource
  unfold Keeping.texts at hholds ⊢
  cases hkeep : k.keep with
  | true =>
    refine ⟨(s.cache.fetch source).2, ?_, by simpa [hkeep] using hholds⟩
    rw [← hfetch]
    rfl
  | false => exact ⟨s.cache, rfl, by simpa [Keeping.texts, hkeep] using hs.cache⟩

variable (hk : ∀ t ∈ k.before, t ∈ U) (hk' : ∀ t ∈ k'.before, t ∈ U)
include hk hk'

lemma agree_parseKept {source : Text} (hsource : source ∈ U) :
    Agree (Alike U k k') (parseKept k.keep source) (parseKept k'.keep source) := by
  intro s s' hs
  obtain ⟨c, hrun, hc⟩ := exec_parseKept hU hk hs.left hs.known hsource
  obtain ⟨c', hrun', hc'⟩ := exec_parseKept hU hk' hs.right (hs.parsed ▸ hs.known) hsource
  refine ⟨_, _, _, hrun, hrun', hs.trees, by rw [hs.parsed], fun t ht => ?_,
    ⟨hs.left.memo, hc⟩, ⟨hs.right.memo, hc'⟩⟩
  rcases List.mem_cons.1 ht with rfl | ht
  · exact hsource
  · exact hs.known t ht

lemma agree_loadTemplate {source : Text} (hsource : source ∈ U) (file : Option Text) :
    Agree (Alike U k k') (loadTemplate k.keep file source) (loadTemplate k'.keep file source) := by
  refine (agree_parseKept hU hk hk' hsource).bind fun r => ?_
  cases r with
  | error e => exact Render.agree_within _ (Render.agree_fail _)
  | ok nodes => exact (agree_checkHoles _).bind fun _ => agree_pure _

end HtmlTemplate
