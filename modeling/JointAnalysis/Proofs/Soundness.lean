import JointAnalysis.Proofs.Denotation
import JointAnalysis.Proofs.Walk

/-!
# Answers cover the truth

An analysis is sound if its answer covers the truth whenever the answers that it got on the way do.
Compositions of sound analyses answer soundly, although questions are cut off with the full object,
answers are kept and served again, and a nested resolution may finish a query before the outer one.
The invariant is `Truthful`: every answer that is kept or was given covers the truth. It holds at
every moment, also when a question ends without answer. `Tight.answers_cover_truth` is the result.
-/

namespace JointAnalysis

variable {V R M β γ : Type}

/-- What the analyses of a network are measured by: a reading of their answers, the composers on
whose answers they may rely, and what they keep true of the memory. -/
structure Standard (V R M : Type) where
  reading : Reading V R
  reliable : ComposerId → Prop
  valid : M → Prop

/-- A plan gives good results, provided that the answers of reliable composers to questions about
terms cover the truth. -/
def Plan.Sound (σ : Standard V R M) (good : β → Prop) : Plan V R M β → Prop
  | .give result => good result
  | .fail _ => True
  | .ask r next =>
    ∀ answer, (σ.reliable r.composer → r.operand = none → σ.reading.Covers r.term r.edge answer) →
      (next answer).Sound σ good
  | .recollect next => ∀ memory, σ.valid memory → (next memory).Sound σ good
  | .remember update next =>
    (∀ memory, σ.valid memory → σ.valid (update memory)) ∧ next.Sound σ good
  | .inspect _ _ next => ∀ state size, (next state size).Sound σ good
  | .clear _ next => next.Sound σ good

/-- An analysis answers soundly what it is asked. If its composer is not relied on, it only has to
keep the memory valid. -/
def Analysis.SoundAt (σ : Standard V R M) (a : Analysis V R M) (family : Family) (q : Inquiry) :
    Prop :=
  (a.answer family q).Sound σ fun o => σ.reliable q.composer → σ.reading.Covers q.term q.edge o

/-- A member answers soundly whatever its composer asks it. -/
def Member.Sound (σ : Standard V R M) (c : ComposerId) (m : Member V R M) : Prop :=
  ∀ family term edge, m.analysis.handles family = true →
    m.analysis.SoundAt σ family ⟨term, edge, c, m.id⟩

/-- A composer is sound if its members are, and if it can rely on its parent. -/
def Composer.Sound (σ : Standard V R M) (c : ComposerId) : Composer V R M → Prop
  | .chain x => ∀ m ∈ x.members, m.Sound σ c
  | .tight x =>
    (∀ m ∈ x.members, m.Sound σ c) ∧ ∀ p, x.parent = some p → σ.reliable c → σ.reliable p
  | .relay x => ∀ family term edge client, x.analysis.SoundAt σ family ⟨term, edge, c, client⟩

/-- A network is sound if all its composers are. -/
def Network.Sound (σ : Standard V R M) (net : Network V R M) : Prop :=
  ∀ c composer, net.composer? c = some composer → composer.Sound σ c

/-- All answers that reliable composers keep or gave cover the truth, and the memory is valid. -/
structure Truthful (σ : Standard V R M) (w : World V R M) : Prop where
  memory : σ.valid w.memory
  kept : ∀ c, σ.reliable c → ∀ k o, (w.cache c).finished? k = some o →
    σ.reading.Covers k.term k.edge o.object
  given : ∀ r o, .returned r o ∈ w.trail → σ.reliable r.composer →
    ∃ answer, o = ⟨r.family, answer⟩ ∧ σ.reading.Covers r.term r.edge answer

namespace Truthful

variable {σ : Standard V R M} {w : World V R M}

/-- Noting what is no answer of a composer keeps a world truthful. -/
theorem note (h : Truthful σ w) {e : Event V R} (he : ∀ r o, e ≠ .returned r o) :
    Truthful σ (w.note e) where
  memory := h.memory
  kept := h.kept
  given r o hmem hr := by
    rcases List.mem_cons.1 hmem with heq | hmem
    · exact absurd heq.symm (he r o)
    · exact h.given r o hmem hr

/-- Noting an answer that covers the truth keeps a world truthful. -/
theorem note_returned (h : Truthful σ w) (r : Request) (answer : Object V R r.family)
    (hanswer : σ.reliable r.composer → σ.reading.Covers r.term r.edge answer) :
    Truthful σ (w.note (.returned r ⟨r.family, answer⟩)) where
  memory := h.memory
  kept := h.kept
  given r' o hmem hr := by
    rcases List.mem_cons.1 hmem with heq | hmem
    · cases heq
      exact ⟨answer, rfl, hanswer hr⟩
    · exact h.given r' o hmem hr

/-- A new cache keeps a world truthful if its answers are. -/
theorem put_cache (h : Truthful σ w) (c : ComposerId) (cache : QueryCache (AnyObject V R))
    (hcache : σ.reliable c → ∀ k o, cache.finished? k = some o →
      σ.reading.Covers k.term k.edge o.object) :
    Truthful σ (w.putCache c cache) where
  memory := h.memory
  kept d hd k o hk := by
    rw [World.putCache_cache] at hk
    split at hk
    · next heq =>
        subst heq
        exact hcache hd k o hk
    · exact h.kept d hd k o hk
  given := h.given

/-- A cache with the answers of the one before keeps a world truthful. -/
theorem put_same (h : Truthful σ w) (c : ComposerId) {cache : QueryCache (AnyObject V R)}
    (hcache : ∀ k, cache.finished? k = (w.cache c).finished? k) :
    Truthful σ (w.putCache c cache) :=
  h.put_cache c cache fun hc k o hk => h.kept c hc k o ((hcache k).symm.trans hk)

/-- Clearing a cache keeps a world truthful. -/
theorem clear (h : Truthful σ w) (c : ComposerId) : Truthful σ (w.clear c) := by
  refine (h.put_cache c .empty ?_).note (by simp)
  intro _ k o hk
  simp [QueryCache.finished?_eq] at hk

/-- Counting queries keeps a world truthful. -/
theorem put_depth (h : Truthful σ w) (c : ComposerId) (depth : Nat) :
    Truthful σ (w.putDepth c depth) where
  memory := h.memory
  kept d hd k o hk := by
    rw [World.putDepth_cache] at hk
    exact h.kept d hd k o hk
  given := h.given

/-- Starting a resolution keeps a world truthful. -/
theorem started (h : Truthful σ w) (r : Request) : Truthful σ (Tight.started w r) := by
  unfold Tight.started
  exact (h.put_same r.composer fun k => QueryCache.finished?_enter _ _ k).note (by simp)

/-- Ending a resolution keeps a world truthful. -/
theorem ended (h : Truthful σ w) (r : Request) : Truthful σ (Tight.ended w r) := by
  unfold Tight.ended
  exact h.put_same r.composer fun k => QueryCache.finished?_leave _ _ k

/-- Ending a query keeps a world truthful. -/
theorem concluded (h : Truthful σ w) (t : Tight V R M) (c : ComposerId) :
    Truthful σ (t.concluded w c) := by
  unfold Tight.concluded
  split
  · exact (h.put_depth c _).clear c
  · exact h.put_depth c _

end Truthful

/-- If a composer is relied on, this answer of it covers the truth. -/
def Standard.Trusts (σ : Standard V R M) (c : ComposerId) {family : Family} (term : TermId)
    (edge : EdgeId) (o : Object V R family) : Prop :=
  σ.reliable c → σ.reading.Covers term edge o

/-- What is found in a truthful world covers the truth. -/
theorem Truthful.finds {σ : Standard V R M} {w : World V R M} (h : Truthful σ w) (r : Request) :
    Tight.Stages.Finds (r := r) (fun _ => Truthful σ) w fun o w' =>
      Truthful σ w' ∧ σ.Trusts r.composer r.term r.edge o :=
  ⟨fun _ hsettled => ⟨h, fun hr => h.kept r.composer hr r.key _ hsettled⟩, fun _ => h⟩

/-- A computation keeps worlds truthful whichever way it ends, and its result, if it has one, is
good. -/
def Run.Delivers (σ : Standard V R M) (good : β → Prop) (x : Run V R M β) : Prop :=
  ∀ w, Truthful σ w → x.Ends (fun _ => Truthful σ) w fun b w' => Truthful σ w' ∧ good b

/-- The world that is left is truthful, and the result is good. -/
theorem Run.Delivers.outcome {σ : Standard V R M} {good : β → Prop} {x : Run V R M β}
    (h : x.Delivers σ good) {w : World V R M} (hw : Truthful σ w) :
    Truthful σ (x.outcome w).2 ∧ ∀ b, (x.outcome w).1 = .ok b → good b := by
  rcases hx : x.outcome w with ⟨halt | b, w'⟩
  · exact ⟨(h w hw).error hx, fun _ hb => nomatch hb⟩
  · refine ⟨((h w hw).ok hx).1, fun b' hb => ?_⟩
    cases hb
    exact ((h w hw).ok hx).2

section Walk

variable {σ : Standard V R M} {ask : Answerer V R M}
  (hask : ∀ r, (ask r).Delivers σ
    fun o => r.operand = none → σ.Trusts r.composer r.term r.edge o)

include hask

/-- What is left of a sound plan is sound. -/
theorem Plan.sound_guides (good : β → Prop) :
    Plan.Guides (.any ask) (fun _ => Truthful σ) (fun p w => Truthful σ w ∧ p.Sound σ good)
      fun b w => Truthful σ w ∧ good b where
  give _ _ h := h
  fail _ _ h := h.1
  ask r _ w h := ⟨trivial, (hask r w h.1).imp fun answer _ ho =>
    ⟨ho.1, h.2 answer fun hr hplain => ho.2 hplain hr⟩⟩
  recollect _ w h := ⟨h.1, h.2 w.memory h.1.memory⟩
  remember _ _ _ h := ⟨⟨h.2.1 _ h.1.memory, h.1.kept, h.1.given⟩, h.2.2⟩
  inspect _ _ _ _ h := ⟨h.1, h.2 _ _⟩
  clear c _ _ h := ⟨h.1.clear c, h.2⟩

/-- Consulting an analysis delivers what its plan gives. -/
theorem Analysis.consult_delivers {a : Analysis V R M} {family : Family} {q : Inquiry}
    (ha : a.SoundAt σ family q) {w : World V R M} (hw : Truthful σ w) :
    (Trait.any ask).Meets (fun _ => Truthful σ) (fun ask => a.consult ask family q) w
      fun o w' => Truthful σ w' ∧ σ.Trusts q.composer q.term q.edge o :=
  .consult (Plan.sound_guides hask _) ⟨hw.note (by simp), ha⟩ fun _ _ h =>
    ⟨h.1.note (by simp), h.2⟩

/-- All answers to a query cover the truth, those that are gathered and the one that is given. -/
def Tight.truthfulStages (σ : Standard V R M) (r : Request) : Stages V R M r where
  begun := Truthful σ
  asking _ answers w := Truthful σ w ∧ ∀ o ∈ answers, σ.Trusts r.composer r.term r.edge o
  gathered children w := Truthful σ w ∧ ∀ o ∈ children, σ.Trusts r.composer r.term r.edge o
  resolved o w := Truthful σ w ∧ σ.Trusts r.composer r.term r.edge o
  answered o w := Truthful σ w ∧ σ.Trusts r.composer r.term r.edge o

/-- A resolution comes to an answer that covers the truth, whether it is found, cut off or
gathered. -/
theorem Tight.truthful_resolves {t : Tight V R M} {r : Request}
    (hmembers : ∀ m ∈ t.members, m.Sound σ r.composer)
    (hparent : ∀ p, t.parent = some p → σ.reliable r.composer → σ.reliable p) :
    (truthfulStages σ r).Resolves (.any ask) (fun _ => Truthful σ) t where
  found w h := h.finds r
  cut w h _ _ := ⟨h, fun _ => Reading.covers_full⟩
  start w h _ _ := ⟨h.started r, by simp⟩
  skip _ _ _ _ _ h := h
  meanwhile _ _ _ w h := h.1.finds r
  consult m hm hears rest answers w h _ := by
    cases hmark : (w.cache r.composer).mark r.key m.id with
    | error fault => exact h.1
    | ok cache =>
        -- a mark changes no answer that is kept
        have hmarked := h.1.put_same r.composer fun k => QueryCache.finished?_mark hmark k
        have hconsult := Analysis.consult_delivers hask
          (hmembers m hm r.family r.term r.edge hears) hmarked
        exact hconsult.imp fun answer w' ho =>
          ⟨ho.1, List.forall_mem_append.2 ⟨h.2, List.forall_mem_singleton.2 ho.2⟩⟩
  orphan _ _ _ h := h
  inherit p hp answers w h := ⟨trivial, (hask _ w h.1).imp fun _ _ ho =>
    ⟨ho.1, List.forall_mem_cons.2 ⟨fun hr => ho.2 rfl (hparent p hp hr), h.2⟩⟩⟩
  kept _ w h := h.1.finds r
  keep children w h _ := by
    cases hfinish : (w.cache r.composer).finish r.key
        ⟨r.family, .combined .intersect children⟩ with
    | error fault => exact h.1
    | ok cache =>
        have hcovers : σ.Trusts r.composer r.term r.edge (.combined .intersect children) :=
          fun hr => Reading.covers_intersect.2 fun o ho => h.2 o ho hr
        refine ⟨h.1.put_cache _ _ fun hr k o hk => ?_, hcovers⟩
        rw [QueryCache.finished?_finish hfinish] at hk
        split at hk
        · next heq =>
            cases hk
            subst heq
            exact hcovers hr
        · exact h.1.kept _ hr k o hk
  leave _ _ h := ⟨h.1.ended r, h.2⟩

/-- Every composer delivers answers that cover the truth, and notes them. -/
theorem Composer.query_delivers {c : Composer V R M} {r : Request} (hc : c.Sound σ r.composer)
    {w : World V R M} (hw : Truthful σ w) :
    (Trait.any ask).Meets (fun _ => Truthful σ) (fun ask => c.query ask r) w
      fun o w' => Truthful σ w' ∧ σ.Trusts r.composer r.term r.edge o := by
  have hnoted : Truthful σ (w.note (.requested r)) := hw.note (by simp)
  have hfind : (Trait.any ask).Meets (fun _ => Truthful σ) (fun ask => c.find ask r)
      (w.note (.requested r))
      fun o w' => Truthful σ w' ∧ σ.Trusts r.composer r.term r.edge o := by
    cases c with
    | chain x =>
        refine .chain (fun _ => ⟨hnoted, fun _ => Reading.covers_full⟩) fun m hs => ?_
        obtain ⟨hm, hears⟩ := Chain.speaker?_eq_some hs
        exact Analysis.consult_delivers hask (hc m hm r.family r.term r.edge hears) hnoted
    | tight t =>
        exact (Tight.truthful_resolves hask hc.1 hc.2).meets_query (hnoted.put_depth r.composer _)
          fun _ _ h => ⟨h.1.concluded t r.composer, h.2⟩
    | relay x => exact Analysis.consult_delivers hask (hc r.family r.term r.edge r.client) hnoted
  exact .query hfind fun o _ h => ⟨h.1.note_returned r o h.2, h.2⟩

/-- Every composer delivers answers to questions about terms that cover the truth. -/
theorem Composer.respond_delivers {c : Composer V R M} {r : Request} (hc : c.Sound σ r.composer) :
    (c.respond ask r).Delivers σ
      fun o => r.operand = none → σ.Trusts r.composer r.term r.edge o := by
  intro w hw
  by_cases ho : r.operand = none
  · rw [Composer.respond, ho]
    exact (Composer.query_delivers hask hc hw).2.imp fun _ _ h => ⟨h.1, fun _ => h.2⟩
  · have hrespond : (Trait.any ask).Meets (fun _ => Truthful σ) (fun ask => c.respond ask r) w
        fun _ => Truthful σ :=
      .respond (fun term edge _ w hw => (Composer.query_delivers hask (r := r.about term edge) hc
        hw).imp fun _ _ h => h.1) hw
    exact hrespond.2.imp fun _ _ h => ⟨h, fun hplain => absurd hplain ho⟩

end Walk

/-- In a sound network every answer of a reliable composer to a question about a term covers the
truth, however deep questions are nested. -/
theorem Network.answer_delivers {σ : Standard V R M} {net : Network V R M} (hnet : net.Sound σ)
    (depth : Nat) (r : Request) :
    (net.answer depth r).Delivers σ
      fun o => r.operand = none → σ.Trusts r.composer r.term r.edge o := by
  induction depth generalizing r with
  | zero => exact fun _ hw => hw
  | succ depth ih =>
      rw [Network.answer]
      cases hc : net.composer? r.composer with
      | none => exact fun _ hw => ⟨hw, fun _ _ => Reading.covers_full⟩
      | some c => exact Composer.respond_delivers ih (hnet r.composer c hc)

/-- A session keeps the world truthful, if the client keeps the memory valid. -/
theorem Network.session_delivers {σ : Standard V R M} {net : Network V R M} (hnet : net.Sound σ)
    (depth : Nat) (steps : List (Step M))
    (hsteps : ∀ update, .revise update ∈ steps → ∀ m, σ.valid m → σ.valid (update m)) :
    (net.session depth steps).Delivers σ fun _ => True := by
  intro w hw
  have hsession : (net.session depth steps).Ends (fun _ => Truthful σ) w fun _ => Truthful σ := by
    refine net.session_ends (fun r _ w hw => ?_) (fun c _ w hw => hw.clear c)
      (fun update hu w hw => ⟨hsteps update hu _ hw.memory, hw.kept, hw.given⟩) hw
    exact (Network.answer_delivers hnet depth r w hw).imp fun _ _ h => h.1
  exact hsession.imp fun _ _ h => ⟨h, trivial⟩

/-- A world in which nothing happened is truthful. -/
theorem Truthful.initial {σ : Standard V R M} {memory : M} (h : σ.valid memory) :
    Truthful σ (.initial memory : World V R M) where
  memory := h
  kept c _ k o hk := by cases hk
  given r o hmem := by cases hmem

/-- Every answer that a tight composer gives to a question about a term covers the truth, if its
members are sound and so is every composer on which it or they rely. This holds for answers to
nested questions and to those of the client, for every configuration, whichever questions are cut
off and whichever resolution finishes a query first. -/
theorem Tight.answers_cover_truth {σ : Standard V R M} {net : Network V R M} {c : ComposerId}
    {t : Tight V R M} (ht : net.composer? c = some (.tight t)) (hc : σ.reliable c)
    (hmembers : ∀ m ∈ t.members, m.Sound σ c)
    (hparent : ∀ p, t.parent = some p → σ.reliable p)
    (hothers : ∀ d composer, d ≠ c → net.composer? d = some composer → composer.Sound σ d)
    (depth : Nat) (steps : List (Step M)) {memory : M} (hmemory : σ.valid memory)
    (hsteps : ∀ update, .revise update ∈ steps → ∀ m, σ.valid m → σ.valid (update m)) :
    (∀ r o, .returned r o ∈ (net.after depth steps memory).trail → r.composer = c →
      ∃ answer, o = ⟨r.family, answer⟩ ∧ σ.reading.Covers r.term r.edge answer) ∧
    ∀ r answer, r.composer = c → r.operand = none →
      ((net.answer depth r).outcome (net.after depth steps memory)).1 = .ok answer →
      σ.reading.Covers r.term r.edge answer := by
  have hnet : net.Sound σ := by
    intro d composer hd
    by_cases heq : d = c
    · subst heq
      rw [ht] at hd
      cases hd
      exact ⟨hmembers, fun p hp _ => hparent p hp⟩
    · exact hothers d composer heq hd
  have hafter : Truthful σ (net.after depth steps memory) :=
    ((Network.session_delivers hnet depth steps hsteps).outcome (.initial hmemory)).1
  refine ⟨fun r o hmem hr => hafter.given r o hmem (hr ▸ hc), fun r answer hr hoperand hok => ?_⟩
  exact ((Network.answer_delivers hnet depth r).outcome hafter).2 answer hok hoperand (hr ▸ hc)

namespace Circle

/-- All values are five, and only the composer itself is relied on. -/
def fives : Standard ValueLeaf RegionLeaf Unit where
  reading := {
    Entity := fun _ => Int64
    plain := fun
      | .value, .flat (.exactly n) _ => {n}
      | _, _ => Set.univ
    truth := fun _ _ _ => 5 }
  reliable c := c = ⟨0⟩
  valid _ := True

/-- The analyses in the circle are sound when all values are five. -/
theorem members_sound : ∀ m ∈ composer.members, m.Sound fives ⟨0⟩ := by
  intro m hm family term edge hfamily
  simp only [composer, List.mem_cons, List.not_mem_nil, or_false] at hm
  obtain rfl | rfl | rfl := hm
  · cases family <;> simp [Analysis.echo] at hfamily
    exact ⟨fun _ _ => trivial, fun _ h hc => h hc rfl⟩
  · cases family <;> simp [Analysis.echo] at hfamily
    exact ⟨fun _ _ => trivial, fun _ h hc => h hc rfl⟩
  · cases family <;> simp [Analysis.constant] at hfamily
    refine ⟨fun _ _ => trivial, fun _ => ?_⟩
    by_cases h : term = ⟨0⟩
    · simp only [h, if_true]
      rfl
    · simp only [h, if_false]
      exact Set.mem_univ (5 : Int64)

/-- The circle is cut off, the question is answered, and the answer covers five. -/
theorem answer_covers_five :
    ((network.answer 9 question).outcome (network.after 9 [.ask question] ())).1.toBool = true ∧
    ∀ answer,
      ((network.answer 9 question).outcome (network.after 9 [.ask question] ())).1 = .ok answer →
      fives.reading.Covers question.term question.edge answer := by
  have hnet : network.composer? ⟨0⟩ = some (.tight composer) := rfl
  have hparent : ∀ p, composer.parent = some p → fives.reliable p := by
    intro p hp
    cases hp
  have hothers : ∀ d other, d ≠ ⟨0⟩ → network.composer? d = some other → other.Sound fives d := by
    intro d other hd hother
    obtain ⟨_ | n⟩ := d
    · exact absurd rfl hd
    · cases hother
  have hmemory : fives.valid () := trivial
  have hcovers := Tight.answers_cover_truth hnet rfl members_sound hparent hothers 9
    [.ask question] hmemory (by simp)
  exact ⟨by decide +kernel, fun answer h => hcovers.2 question answer rfl rfl h⟩

end Circle

end JointAnalysis
