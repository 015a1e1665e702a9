import JointAnalysis.Proofs.Faithful

/-!
# What questions preserve

Answering questions changes the entries of the queries about which composers are asked, clears
caches, counts queries, and has analyses remember things. A property of worlds that survives this is
preserved by the answer to every question of some kind, if the questions that are raised are of this
kind too.
-/

namespace JointAnalysis

open Lookup Tight

variable {V R M β γ : Type}

/-- A property of worlds that does not need any entry to be there. -/
def World.Modest (holds : World V R M → Prop) : Prop :=
  ∀ w w' : World V R M, (∀ c k e, (w'.cache c).get? k = some e → (w.cache c).get? k = some e) →
    holds w → holds w'

/-- A computation that comes to a result preserves a property of worlds. -/
def Run.Preserves (holds : World V R M → Prop) (x : Run V R M β) : Prop :=
  ∀ w, holds w → ∀ b w', x.outcome w = (.ok b, w') → holds w'

/-- Nothing is said about computations without result. -/
theorem Run.preserves_iff {holds : World V R M → Prop} {x : Run V R M β} :
    x.Preserves holds ↔ ∀ w, holds w → x.Ends (fun _ _ => True) w fun _ => holds := by
  refine ⟨fun h w hw => ?_, fun h w hw b w' hx => (h w hw).ok hx⟩
  rcases hx : x.outcome w with ⟨halt | b, w'⟩
  · exact .of_error hx trivial
  · exact .of_ok hx (h w hw b w' hx)

namespace World.Modest

variable {holds : World V R M → Prop} (h : World.Modest holds) {w : World V R M}

include h

/-- What is noted and remembered, and how many queries are being answered, is no matter of
entries. -/
theorem same {w' : World V R M} (hw : holds w) (hcache : ∀ c, w'.cache c = w.cache c) : holds w' :=
  h w w' (fun c k e he => by rwa [hcache] at he) hw

/-- Clearing a cache leaves no new entries. -/
theorem clear (c : ComposerId) (hw : holds w) : holds (w.clear c) := by
  refine h w _ (fun d k e he => ?_) hw
  rw [World.clear_cache] at he
  split at he
  · cases he
  · exact he

/-- Ending a query leaves no new entries. -/
theorem concluded (t : Tight V R M) (c : ComposerId) (hw : holds w) : holds (t.concluded w c) := by
  rcases t.concluded_cases w c with heq | ⟨_, heq⟩
  · rw [heq]
    exact h.same hw fun d => World.putDepth_cache _ _ _ _
  · rw [heq]
    exact h.clear c (h.same hw fun d => World.putDepth_cache _ _ _ _)

end World.Modest

section Walk

variable {holds : World V R M → Prop} (hmodest : World.Modest holds) {ask : Answerer V R M}

include hmodest

/-- Carrying out a plan preserves what its questions preserve. -/
theorem Plan.preserving_guides : Plan.Guides (.any ask) (fun _ _ => True)
    (fun (p : Plan V R M β) w => holds w ∧ ∀ q, p.MayAsk q → (ask q).Preserves holds)
    fun _ => holds where
  give _ _ h := h.1
  fail _ _ _ := trivial
  ask r _ w h := ⟨trivial, (Run.preserves_iff.1 (h.2 r (.inl rfl)) w h.1).imp fun answer _ hw' =>
    ⟨hw', fun q hq => h.2 q (.inr ⟨answer, hq⟩)⟩⟩
  recollect _ _ h := ⟨h.1, fun q hq => h.2 q ⟨_, hq⟩⟩
  remember _ _ _ h := ⟨hmodest.same h.1 fun _ => rfl, h.2⟩
  inspect _ _ _ _ h := ⟨h.1, fun q hq => h.2 q ⟨_, _, hq⟩⟩
  clear c _ _ h := ⟨hmodest.clear c h.1, h.2⟩

/-- Consulting an analysis preserves what its questions preserve. -/
theorem Analysis.consult_preserves {a : Analysis V R M} {family : Family} {q : Inquiry}
    (hask : ∀ r, (a.answer family q).MayAsk r → (ask r).Preserves holds) {w : World V R M}
    (hw : holds w) :
    (Trait.any ask).Meets (fun _ _ => True) (fun ask => a.consult ask family q) w fun _ => holds :=
  .consult (Plan.preserving_guides hmodest) ⟨hmodest.same hw fun _ => rfl, hask⟩
    fun _ _ hw' => hmodest.same hw' fun _ => rfl

/-- A resolution changes the entry of its query at most, besides what its questions do. -/
theorem Tight.preserving_resolves {net : Network V R M} {t : Tight V R M} {r : Request}
    (hedit : ∀ w w' : World V R M, World.Edit r w w' → holds w → holds w')
    (ho : r.operand = none) (ht : net.composer? r.composer = some (.tight t))
    (hask : ∀ q, net.Raises .followed r q → (ask q).Preserves holds) :
    Stages.Resolves (r := r) ⟨holds, fun _ _ => holds, fun _ => holds, fun _ => holds,
      fun _ => holds⟩ (.any ask) (fun _ _ => True) t where
  found _ h := ⟨fun _ _ => h, fun _ => trivial⟩
  cut _ h _ _ := h
  start w h _ _ := hedit _ _ (.started w r) h
  skip _ _ _ _ _ h := h
  meanwhile _ _ _ _ h := ⟨fun _ _ => h, fun _ => trivial⟩
  consult m hm hears _ _ w h _ := by
    cases hmark : (w.cache r.composer).mark r.key m.id with
    | error fault => exact trivial
    | ok cache =>
        exact Analysis.consult_preserves hmodest
          (fun q hq => hask q (.member ht ho hm hears hq (by simp))) (hedit _ _ (.mark hmark) h)
  orphan _ _ _ h := h
  inherit p hp _ w h := ⟨trivial, Run.preserves_iff.1 (hask _ (.parent ht ho hp)) w h⟩
  kept _ _ h := ⟨fun _ _ => h, fun _ => trivial⟩
  keep children w h _ := by
    cases hfinish : (w.cache r.composer).finish r.key
        ⟨r.family, .combined .intersect children⟩ with
    | error fault => exact trivial
    | ok cache => exact hedit _ _ (.finish hfinish) h
  leave _ w h := hedit _ _ (.ended w r) h

/-- A question about a term changes the entry of its query at most, besides what its questions
do. -/
theorem Composer.query_preserves {net : Network V R M} {c : Composer V R M} {r : Request}
    (hc : net.composer? r.composer = some c) (ho : r.operand = none)
    (hedit : ∀ t, c = .tight t → ∀ w w', World.Edit r w w' → holds w → holds w')
    (hask : ∀ q, net.Raises .followed r q → (ask q).Preserves holds) :
    (c.query ask r).Preserves holds := by
  refine Run.preserves_iff.2 fun w hw => ?_
  have hnoted : holds (w.note (.requested r)) := hmodest.same hw fun _ => rfl
  have hfind : (Trait.any ask).Meets (fun _ _ => True) (fun ask => c.find ask r)
      (w.note (.requested r)) fun _ => holds := by
    cases c with
    | chain x =>
        exact .chain (fun _ => hnoted) fun m hm => Analysis.consult_preserves hmodest
          (fun q hq => hask q (.speaker hc ho hm hq)) hnoted
    | tight t =>
        exact (Tight.preserving_resolves hmodest (hedit t rfl) ho hc hask).meets_query
          (hmodest.same hnoted fun d => begun_cache _ _ _)
          fun _ _ hw' => hmodest.concluded t r.composer hw'
    | relay x =>
        exact Analysis.consult_preserves hmodest (fun q hq => hask q (.relay hc ho hq)) hnoted
  exact (Trait.Meets.query hfind fun _ _ hw' => hmodest.same hw' fun _ => rfl).2

end Walk

/-- The answer to a question preserves what the queries of its parts preserve. -/
theorem Composer.respond_preserves {holds : World V R M → Prop} {ask : Answerer V R M}
    {c : Composer V R M} {r : Request}
    (hquery : ∀ q ∈ c.parts r, (c.query ask q).Preserves holds) :
    (c.respond ask r).Preserves holds := by
  refine Run.preserves_iff.2 fun w hw => ?_
  have hrespond : (Trait.any ask).Meets (fun _ _ => True) (fun ask => c.respond ask r) w
      fun _ => holds :=
    .respond (fun term edge hpart w hw =>
      ⟨trivial, Run.preserves_iff.1 (hquery (r.about term edge) hpart) w hw⟩) hw
  exact hrespond.2

/-- The answer to a question of some kind preserves a property, if the queries about terms that are
of this kind do, given that the questions do that they raise. -/
theorem Network.answer_preserves {net : Network V R M} {kind : Request → Prop}
    {holds : World V R M → Prop} (hparts : ∀ r c, kind r → net.composer? r.composer = some c →
      ∀ q ∈ c.parts r, kind q)
    (hquery : ∀ depth r c, kind r → r.operand = none → net.composer? r.composer = some c →
      (∀ q, kind q → (net.answer depth q).Preserves holds) →
      (c.query (net.answer depth) r).Preserves holds)
    (depth : Nat) (r : Request) (hr : kind r) : (net.answer depth r).Preserves holds := by
  induction depth generalizing r with
  | zero =>
      intro w _ o w' h
      cases h
  | succ depth ih =>
      rw [Network.answer]
      cases hc : net.composer? r.composer with
      | none => exact Run.preserves_iff.2 fun _ hw => .of_ok rfl hw
      | some c =>
          refine Composer.respond_preserves fun q hq => ?_
          obtain ⟨hcomposer, hplain⟩ := Composer.of_mem_parts hq
          exact hquery depth q c (hparts r c hr hc q hq) hplain (by rw [hcomposer, hc]) ih

end JointAnalysis
