import JointAnalysis.Proofs.Memo

/-!
# Two networks that differ in cache policies

Networks are *alike* if they differ in the cache policies of their tight composers only. Questions
raise the same questions in both and have the same meaning. When alike networks are asked the same
question about a query that is not grounded, they go through it in lockstep, as long as the entries
agree that they find on the way: `Network.answer_twins`. These are the entries of a *region*, a set
of queries that lead to each other and to grounded questions only. What the caches hold elsewhere,
and whether they are dropped after the outermost query, makes no difference.
-/

namespace JointAnalysis

open Lookup Tight

variable {V R M β γ : Type}

/-- The same composer with another cache policy. -/
def Tight.withPolicy (t : Tight V R M) (policy : CachePolicy) : Tight V R M :=
  { t with config := { t.config with cachePolicy := policy } }

/-- The same composer with another cache policy, if it has one. -/
def Composer.withPolicy (policy : CachePolicy) : Composer V R M → Composer V R M
  | .chain x => .chain x
  | .tight t => .tight (t.withPolicy policy)
  | .relay x => .relay x

namespace Composer

variable (c : Composer V R M) (policy : CachePolicy) (r : Request)

/-- The policy has no part in the parts of a question. -/
theorem parts_withPolicy : (c.withPolicy policy).parts r = c.parts r := by
  cases c <;> rfl

/-- The policy has no part in the meaning of a question. -/
theorem meaning_withPolicy (rule : Recurrence) (oracle : Oracle V R) :
    (c.withPolicy policy).meaning rule oracle r = c.meaning rule oracle r := by
  cases c <;> rfl

/-- The policy has no part in what plans answer a question. -/
theorem stateless_withPolicy : (c.withPolicy policy).Stateless r ↔ c.Stateless r := by
  cases c <;> exact Iff.rfl

variable {c} in
/-- Composers that are equal but for their policies. -/
theorem eq_withPolicy {c' : Composer V R M}
    (h : c.withPolicy policy = c'.withPolicy policy) : ∃ policy', c' = c.withPolicy policy' := by
  cases c with
  | chain x =>
      cases c' with
      | chain x' => exact ⟨policy, h.symm⟩
      | tight t' => cases h
      | relay x' => cases h
  | tight t =>
      cases c' with
      | chain x' => cases h
      | tight t' =>
          obtain ⟨id, direction, members, parent, config, system, program⟩ := t
          obtain ⟨id', direction', members', parent', config', system', program'⟩ := t'
          simp only [withPolicy, Tight.withPolicy, tight.injEq, Tight.mk.injEq,
            Config.mk.injEq] at h
          obtain ⟨rfl, rfl, rfl, rfl, ⟨_, hmode, hbound⟩, rfl, rfl⟩ := h
          refine ⟨config'.cachePolicy, ?_⟩
          simp only [withPolicy, Tight.withPolicy, hmode, hbound]
      | relay x' => cases h
  | relay x =>
      cases c' with
      | chain x' => cases h
      | tight t' => cases h
      | relay x' => exact ⟨policy, h.symm⟩

end Composer

namespace Network

/-- The networks differ at most in the cache policies of their composers. -/
def Alike (net net' : Network V R M) : Prop :=
  ∀ d, (net.composer? d).map (·.withPolicy .retain) = (net'.composer? d).map (·.withPolicy .retain)

namespace Alike

variable {net net' : Network V R M} (h : net.Alike net')

include h

/-- It does not matter which of the networks comes first. -/
theorem symm : net'.Alike net := fun d => (h d).symm

/-- The composers of one network are those of the other one, with policies of their own. -/
theorem composer {d : ComposerId} {c : Composer V R M} (hc : net.composer? d = some c) :
    ∃ policy, net'.composer? d = some (c.withPolicy policy) := by
  have hmap := h d
  rw [hc, Option.map_some] at hmap
  obtain ⟨c', hc', heq⟩ := Option.map_eq_some_iff.1 hmap.symm
  obtain ⟨policy, rfl⟩ := Composer.eq_withPolicy .retain heq.symm
  exact ⟨policy, hc'⟩

/-- Questions raise the same questions. -/
theorem raises {rule : Recurrence} {r q : Request} (hq : net.Raises rule r q) :
    net'.Raises rule r q := by
  cases hq with
  | @part c _ hc ho hq =>
      obtain ⟨policy, hc'⟩ := h.composer hc
      exact .part hc' ho (by rw [c.parts_withPolicy policy]; exact hq)
  | speaker hc ho hm hq =>
      obtain ⟨_, hc'⟩ := h.composer hc
      exact .speaker hc' ho hm hq
  | member hc ho hm hears hq hown =>
      obtain ⟨policy, hc'⟩ := h.composer hc
      exact .member (t := Tight.withPolicy _ policy) hc' ho hm hears hq hown
  | @parent t p hc ho hp =>
      obtain ⟨policy, hc'⟩ := h.composer hc
      exact .parent (t := t.withPolicy policy) hc' ho hp
  | relay hc ho hq =>
      obtain ⟨_, hc'⟩ := h.composer hc
      exact .relay hc' ho hq

/-- The same questions are grounded. -/
theorem grounded {r : Request} (hr : net.Grounded r) : net'.Grounded r := by
  induction hr with
  | @intro r hstateless _ ih =>
      refine .intro (fun ho c' hc' => ?_) fun q hq => ih q (h.symm.raises hq)
      obtain ⟨policy, hc⟩ := h.symm.composer hc'
      exact (c'.stateless_withPolicy policy r).1 (hstateless ho _ hc)

/-- Questions have the same meaning. -/
theorem meaning (rule : Recurrence) (oracle : Oracle V R) (r : Request) :
    net'.meaning rule oracle r = net.meaning rule oracle r := by
  unfold Network.meaning
  cases hc : net.composer? r.composer with
  | none =>
      cases hc' : net'.composer? r.composer with
      | none => rfl
      | some c' =>
          obtain ⟨_, hsome⟩ := h.symm.composer hc'
          rw [hc] at hsome
          cases hsome
  | some c =>
      obtain ⟨policy, hc'⟩ := h.composer hc
      rw [hc']
      exact c.meaning_withPolicy policy r rule oracle

/-- The references agree on grounded questions. -/
theorem reference {r : Request} (hr : net.Grounded r) : net'.reference r = net.reference r := by
  induction hr with
  | @intro r hstateless hraised ih =>
      have hr : net.Grounded r := .intro hstateless hraised
      rw [(h.grounded hr).reference_eq, hr.reference_eq, h.meaning]
      exact meaning_congr ih

end Alike

end Network

/-- Where both computations come to a result, it is the same, and `post` holds of the worlds that
they leave. -/
def Run.Twins (x₁ x₂ : Run V R M β) (w₁ w₂ : World V R M)
    (post : World V R M → World V R M → Prop) : Prop :=
  ∀ b₁ w₁' b₂ w₂', x₁.outcome w₁ = (.ok b₁, w₁') → x₂.outcome w₂ = (.ok b₂, w₂') →
    b₁ = b₂ ∧ post w₁' w₂'

namespace Run.Twins

variable {x₁ x₂ y₁ y₂ : Run V R M β} {w₁ w₂ w₁' w₂' : World V R M}
  {post post' : World V R M → World V R M → Prop}

/-- Both computations have the same result. -/
theorem of_ok {b : β} (h₁ : x₁.outcome w₁ = (.ok b, w₁')) (h₂ : x₂.outcome w₂ = (.ok b, w₂'))
    (hpost : post w₁' w₂') : Twins x₁ x₂ w₁ w₂ post := by
  intro b₁ _ b₂ _ hx₁ hx₂
  rw [h₁] at hx₁
  rw [h₂] at hx₂
  cases hx₁
  cases hx₂
  exact ⟨rfl, hpost⟩

/-- Computations that go on as others. -/
theorem after (h₁ : x₁.outcome w₁ = y₁.outcome w₁') (h₂ : x₂.outcome w₂ = y₂.outcome w₂')
    (hy : Twins y₁ y₂ w₁' w₂' post) : Twins x₁ x₂ w₁ w₂ post := by
  intro b₁ v₁ b₂ v₂ hx₁ hx₂
  exact hy b₁ v₁ b₂ v₂ (h₁ ▸ hx₁) (h₂ ▸ hx₂)

/-- Less may be asked of the worlds. -/
theorem mono (hx : Twins x₁ x₂ w₁ w₂ post) (hpost : ∀ v₁ v₂, post v₁ v₂ → post' v₁ v₂) :
    Twins x₁ x₂ w₁ w₂ post' := by
  intro b₁ v₁ b₂ v₂ hx₁ hx₂
  obtain ⟨heq, hv⟩ := hx b₁ v₁ b₂ v₂ hx₁ hx₂
  exact ⟨heq, hpost v₁ v₂ hv⟩

/-- The parts of sequences go side by side. -/
theorem bind {f₁ f₂ : β → Run V R M γ} (hx : Twins x₁ x₂ w₁ w₂ post)
    (hf : ∀ b v₁ v₂, post v₁ v₂ → Twins (f₁ b) (f₂ b) v₁ v₂ post') :
    Twins (x₁ >>= f₁) (x₂ >>= f₂) w₁ w₂ post' := by
  intro c₁ u₁ c₂ u₂ h₁ h₂
  rw [outcome_bind] at h₁ h₂
  rcases houtcome₁ : x₁.outcome w₁ with ⟨halt | b₁, v₁⟩
  · rw [houtcome₁] at h₁
    cases h₁
  · rcases houtcome₂ : x₂.outcome w₂ with ⟨halt | b₂, v₂⟩
    · rw [houtcome₂] at h₂
      cases h₂
    · rw [houtcome₁] at h₁
      rw [houtcome₂] at h₂
      obtain ⟨rfl, hv⟩ := hx b₁ v₁ b₂ v₂ houtcome₁ houtcome₂
      exact hf b₁ v₁ v₂ hv c₁ u₁ c₂ u₂ h₁ h₂

end Run.Twins

section Plans

variable {ask₁ ask₂ : Answerer V R M} {inv : World V R M → World V R M → Prop}
  (hinv : ∀ w₁ w₂ v₁ v₂ : World V R M, v₁.desk = w₁.desk → v₂.desk = w₂.desk →
    inv w₁ w₂ → inv v₁ v₂)

include hinv

/-- A stateless plan is carried out in lockstep if its questions are answered so. -/
theorem Plan.run_twins (p : Plan V R M β) (hp : p.Stateless)
    (hask : ∀ q, p.MayAsk q → ∀ w₁ w₂, inv w₁ w₂ → Run.Twins (ask₁ q) (ask₂ q) w₁ w₂ inv)
    {w₁ w₂ : World V R M} (hw : inv w₁ w₂) :
    Run.Twins (p.run ask₁) (p.run ask₂) w₁ w₂ inv := by
  induction p generalizing w₁ w₂ with
  | give result => exact .of_ok rfl rfl hw
  | fail fault =>
      intro b₁ v₁ b₂ v₂ h₁ h₂
      cases h₁
  | ask r next ih =>
      refine (hask r (.inl rfl) w₁ w₂ hw).bind fun answer v₁ v₂ hv => ?_
      exact ih answer (hp answer) (fun q hq => hask q (.inr ⟨answer, hq⟩)) hv
  | recollect next ih => exact hp.elim
  | remember update next ih =>
      exact .after (Run.outcome_bind_ok (Run.outcome_update w₁ update))
        (Run.outcome_bind_ok (Run.outcome_update w₂ update))
        (ih hp hask (hinv w₁ w₂ _ _ rfl rfl hw))
  | inspect c key next ih => exact hp.elim
  | clear c next ih => exact hp.elim

/-- An analysis with a stateless plan is consulted in lockstep if its questions are answered so. -/
theorem Analysis.consult_twins {a : Analysis V R M} {family : Family} {q : Inquiry}
    (ha : (a.answer family q).Stateless)
    (hask : ∀ r, (a.answer family q).MayAsk r → ∀ w₁ w₂, inv w₁ w₂ →
      Run.Twins (ask₁ r) (ask₂ r) w₁ w₂ inv)
    {w₁ w₂ : World V R M} (hw : inv w₁ w₂) :
    Run.Twins (a.consult ask₁ family q) (a.consult ask₂ family q) w₁ w₂ inv := by
  have hnoted : inv (w₁.note (.asked a.name family q)) (w₂.note (.asked a.name family q)) :=
    hinv w₁ w₂ _ _ rfl rfl hw
  refine .after (Run.outcome_bind_ok (Run.outcome_record w₁ _))
    (Run.outcome_bind_ok (Run.outcome_record w₂ _)) ?_
  refine (Plan.run_twins hinv _ ha hask hnoted).bind fun answer v₁ v₂ hv => ?_
  exact .of_ok (Run.outcome_bind_ok (Run.outcome_record v₁ _))
    (Run.outcome_bind_ok (Run.outcome_record v₂ _)) (hinv v₁ v₂ _ _ rfl rfl hv)

end Plans

/-- A request about one of these queries of a composer. -/
structure Request.In (c : ComposerId) (region : QueryKey → Prop) (r : Request) : Prop where
  composer : r.composer = c
  plain : r.operand = none
  key : region r.key

namespace Network

/-- Queries of a composer that are not grounded, are answered by stateless plans, and lead to each
other and to grounded questions only. -/
structure Region (net : Network V R M) (c : ComposerId) (t : Tight V R M)
    (region : QueryKey → Prop) : Prop where
  tight : net.composer? c = some (.tight t)
  ungrounded : ∀ r : Request, r.In c region → ¬ net.Grounded r
  stateless : ∀ r : Request, r.In c region → (Composer.tight t).Stateless r
  closed : ∀ r q : Request, r.In c region → net.Raises .followed r q →
    net.Grounded q ∨ q.In c region

/-- Calm worlds with the same entries in a region, in which a composer has so many queries to
answer. -/
structure Aligned (net₁ net₂ : Network V R M) (c : ComposerId) (region : QueryKey → Prop)
    (d₁ d₂ : Nat) (w₁ w₂ : World V R M) : Prop where
  calm₁ : net₁.Calm w₁
  calm₂ : net₂.Calm w₂
  depth₁ : w₁.depth c = d₁
  depth₂ : w₂.depth c = d₂
  same : ∀ k, region k → (w₁.cache c).get? k = (w₂.cache c).get? k

namespace Region

variable {net net' : Network V R M} {c : ComposerId} {t : Tight V R M} {region : QueryKey → Prop}
  (h : net.Region c t region)

include h

/-- No query of a region is grounded. -/
theorem not_covers {k : QueryKey} (hk : region k) : ¬ net.Covers c k := by
  rintro ⟨r, hr, ho, rfl, rfl⟩
  exact h.ungrounded r ⟨rfl, ho, hk⟩ hr

/-- A region of a network is one of all networks that are alike. -/
theorem alike (hlike : net.Alike net') :
    ∃ policy, net'.Region c (t.withPolicy policy) region := by
  obtain ⟨policy, ht⟩ := hlike.composer h.tight
  refine ⟨policy, ht, fun r hr hground => ?_, fun r hr => ?_, fun r q hr hq => ?_⟩
  · exact h.ungrounded r hr (hlike.symm.grounded hground)
  · exact h.stateless r hr
  · exact (h.closed r q hr (hlike.symm.raises hq)).imp_left hlike.grounded

end Region

namespace Aligned

variable {net₁ net₂ : Network V R M} {c : ComposerId} {region : QueryKey → Prop} {d₁ d₂ : Nat}
  {w₁ w₂ v₁ v₂ : World V R M} {r : Request}
  (h : net₁.Aligned net₂ c region d₁ d₂ w₁ w₂)

include h

/-- What no cache holds may change, and how many queries are going on. -/
theorem of_caches {e₁ e₂ : Nat} (h₁ : ∀ d, v₁.cache d = w₁.cache d)
    (h₂ : ∀ d, v₂.cache d = w₂.cache d) (hdepth₁ : v₁.depth c = e₁) (hdepth₂ : v₂.depth c = e₂) :
    net₁.Aligned net₂ c region e₁ e₂ v₁ v₂ where
  calm₁ := h.calm₁.fewer fun d k e he => by rwa [h₁] at he
  calm₂ := h.calm₂.fewer fun d k e he => by rwa [h₂] at he
  depth₁ := hdepth₁
  depth₂ := hdepth₂
  same k hk := by rw [h₁, h₂, h.same k hk]

/-- The entry of a query of the region may change in both worlds. -/
theorem edit {t₁ t₂ : Tight V R M} (hregion₁ : net₁.Region c t₁ region)
    (hregion₂ : net₂.Region c t₂ region) (hr : r.In c region)
    (hedit₁ : World.Edit r w₁ v₁) (hedit₂ : World.Edit r w₂ v₂)
    (hentry : (v₁.cache r.composer).get? r.key = (v₂.cache r.composer).get? r.key) :
    net₁.Aligned net₂ c region d₁ d₂ v₁ v₂ := by
  obtain rfl := hr.composer
  refine ⟨h.calm₁.edit (hregion₁.ungrounded r hr) hr.plain hregion₁.tight hedit₁,
    h.calm₂.edit (hregion₂.ungrounded r hr) hr.plain hregion₂.tight hedit₂,
    (hedit₁.depth _).trans h.depth₁, (hedit₂.depth _).trans h.depth₂, fun k hk => ?_⟩
  by_cases hkey : k = r.key
  · rw [hkey, hentry]
  · rw [hedit₁.entry _ k fun hat => hkey hat.2, hedit₂.entry _ k fun hat => hkey hat.2,
      h.same k hk]

/-- Grounded questions leave the worlds aligned while the composer is answering. -/
theorem passes {t₁ t₂ : Tight V R M} (hregion₁ : net₁.Region c t₁ region)
    (hregion₂ : net₂.Region c t₂ region) (hpos₁ : 1 ≤ d₁) (hpos₂ : 1 ≤ d₂)
    (h₁ : net₁.Passes w₁ v₁) (h₂ : net₂.Passes w₂ v₂) :
    net₁.Aligned net₂ c region d₁ d₂ v₁ v₂ where
  calm₁ := h.calm₁.passes h₁
  calm₂ := h.calm₂.passes h₂
  depth₁ := (h₁.depth c).trans h.depth₁
  depth₂ := (h₂.depth c).trans h.depth₂
  same k hk := by
    rw [h₁.entry c k id (by rw [h.depth₁]; exact hpos₁)
        fun hcovers => absurd hcovers (hregion₁.not_covers hk),
      h₂.entry c k id (by rw [h.depth₂]; exact hpos₂)
        fun hcovers => absurd hcovers (hregion₂.not_covers hk), h.same k hk]

/-- Both worlds have the same entry for a query of the region. -/
theorem entry (hr : r.In c region) :
    (w₁.cache r.composer).get? r.key = (w₂.cache r.composer).get? r.key := by
  rw [hr.composer]
  exact h.same _ hr.key

/-- Both worlds have the same answer for a query of the region. -/
theorem finished (hr : r.In c region) :
    (w₁.cache r.composer).finished? r.key = (w₂.cache r.composer).finished? r.key := by
  rw [QueryCache.finished?_eq, QueryCache.finished?_eq, h.entry hr]

/-- Whether a request about a query of the region is cut off is the same in both worlds. -/
theorem cut (hr : r.In c region) (t : Tight V R M) (policy : CachePolicy) :
    t.Cut w₁ r ↔ (t.withPolicy policy).Cut w₂ r := by
  unfold Cut
  rw [QueryCache.isCycle_iff, QueryCache.isCycle_iff, QueryCache.active_eq, QueryCache.active_eq,
    h.entry hr]
  exact Iff.rfl

end Aligned

end Network

section Walk

variable {net₁ net₂ : Network V R M} {c : ComposerId} {t : Tight V R M} {policy : CachePolicy}
  {region : QueryKey → Prop} (hregion₁ : net₁.Region c t region)
  (hregion₂ : net₂.Region c (t.withPolicy policy) region) {ask₁ ask₂ : Answerer V R M}
  {d₁ d₂ e₁ e₂ : Nat}
  (hask : ∀ q, net₁.Grounded q ∨ q.In c region → ∀ w₁ w₂,
    net₁.Aligned net₂ c region d₁ d₂ w₁ w₂ →
      Run.Twins (ask₁ q) (ask₂ q) w₁ w₂ (net₁.Aligned net₂ c region d₁ d₂))
  {r : Request} (hr : r.In c region) {w₁ w₂ : World V R M}

namespace Tight

include hregion₁ hregion₂ hr

/-- The same answer is kept in both worlds, or was kept before. -/
theorem keep_twins (answers : List (Object V R r.family))
    (h : net₁.Aligned net₂ c region d₁ d₂ w₁ w₂) :
    Run.Twins (keep r answers) (keep r answers) w₁ w₂ (net₁.Aligned net₂ c region d₁ d₂) := by
  rcases Lookup.cases w₁ r with hopen | ⟨kept, hsettled⟩ | hcorrupt
  · have hopen₂ : Open w₂ r := (h.finished hr).symm.trans hopen
    have hactive : (w₁.cache r.composer).active r.key = (w₂.cache r.composer).active r.key := by
      rw [QueryCache.active_eq, QueryCache.active_eq, h.entry hr]
    have hkeep₁ := keep_open hopen answers
    have hkeep₂ := keep_open hopen₂ answers
    intro b₁ v₁ b₂ v₂ hx₁ hx₂
    rw [hx₁] at hkeep₁
    rw [hx₂] at hkeep₂
    split at hkeep₁
    · next cache₁ hfinish₁ =>
        split at hkeep₂
        · next cache₂ hfinish₂ =>
            cases hkeep₁
            cases hkeep₂
            refine ⟨rfl, h.edit hregion₁ hregion₂ hr (.finish hfinish₁) (.finish hfinish₂) ?_⟩
            rw [World.putCache_cache, if_pos rfl, World.putCache_cache, if_pos rfl,
              (QueryCache.finish_eq_ok hfinish₁).2, (QueryCache.finish_eq_ok hfinish₂).2,
              if_pos rfl, if_pos rfl, hactive]
        · cases hkeep₂
    · cases hkeep₁
  · have hsettled₂ : Settled w₂ r kept := (h.finished hr).symm.trans hsettled
    exact .of_ok (keep_settled hsettled answers) (keep_settled hsettled₂ answers) h
  · intro b₁ v₁ b₂ v₂ hx₁ _
    rw [keep_corrupt hcorrupt] at hx₁
    cases hx₁

include hask

/-- The members are asked in lockstep. -/
theorem gather_twins (rest : List (Member V R M)) (hrest : ∀ m ∈ rest, m ∈ t.members)
    (answers : List (Object V R r.family)) (h : net₁.Aligned net₂ c region d₁ d₂ w₁ w₂) :
    Run.Twins (t.gather ask₁ r rest answers) ((t.withPolicy policy).gather ask₂ r rest answers)
      w₁ w₂ (net₁.Aligned net₂ c region d₁ d₂) := by
  induction rest generalizing answers w₁ w₂ with
  | nil =>
      have hinherited : Run.Twins (t.inherited ask₁ r) ((t.withPolicy policy).inherited ask₂ r)
          w₁ w₂ (net₁.Aligned net₂ c region d₁ d₂) := by
        have hparent : ∀ p, t.parent = some p → net₁.Grounded
            { r with composer := p, client := t.id, operand := none } ∨
            Request.In c region { r with composer := p, client := t.id, operand := none } :=
          fun p hp => hregion₁.closed r _ hr
            (.parent (by rw [hr.composer]; exact hregion₁.tight) hr.plain hp)
        show Run.Twins (t.inherited ask₁ r) (t.inherited ask₂ r) w₁ w₂ _
        unfold inherited
        cases hp : t.parent with
        | none => exact .of_ok rfl rfl h
        | some p =>
            exact (hask _ (hparent p hp) w₁ w₂ h).bind fun answer v₁ v₂ hv => .of_ok rfl rfl hv
      exact hinherited.bind fun above v₁ v₂ hv => keep_twins hregion₁ hregion₂ hr _ hv
  | cons m rest ih =>
      have hlater := fun m hm => hrest m (List.mem_cons_of_mem _ hm)
      cases hm : m.analysis.handles r.family with
      | false =>
          rw [gather_skip t _ rest answers hm, gather_skip _ _ rest answers hm]
          exact ih hlater answers h
      | true =>
          rcases Lookup.cases w₁ r with hopen | ⟨kept, hsettled⟩ | hcorrupt
          · have hopen₂ : Open w₂ r := (h.finished hr).symm.trans hopen
            have hmember := hrest m List.mem_cons_self
            have hstateless : (m.analysis.answer r.family (inquiry r m)).Stateless :=
              hregion₁.stateless r hr m hmember hm
            have hgather₁ := gather_open t ask₁ rest answers hm hopen
            have hgather₂ := gather_open (t.withPolicy policy) ask₂ rest answers hm hopen₂
            intro b₁ u₁ b₂ u₂ hx₁ hx₂
            rw [hx₁] at hgather₁
            rw [hx₂] at hgather₂
            split at hgather₁
            · next cache₁ hmark₁ =>
                split at hgather₂
                · next cache₂ hmark₂ =>
                    have hmarked : net₁.Aligned net₂ c region d₁ d₂
                        (w₁.putCache r.composer cache₁) (w₂.putCache r.composer cache₂) := by
                      refine h.edit hregion₁ hregion₂ hr (.mark hmark₁) (.mark hmark₂) ?_
                      rw [World.putCache_cache, if_pos rfl, World.putCache_cache, if_pos rfl,
                        (QueryCache.mark_eq_ok hmark₁).2, (QueryCache.mark_eq_ok hmark₂).2,
                        if_pos rfl, if_pos rfl, QueryCache.entryOrFresh, QueryCache.entryOrFresh,
                        QueryCache.active_eq, QueryCache.active_eq, h.entry hr]
                    have hconsult := Analysis.consult_twins
                      (fun _ _ _ _ hdesk₁ hdesk₂ hw => hw.of_caches
                        (fun d => by rw [World.cache, hdesk₁, World.cache])
                        (fun d => by rw [World.cache, hdesk₂, World.cache])
                        (by rw [World.depth, hdesk₁]; exact hw.depth₁)
                        (by rw [World.depth, hdesk₂]; exact hw.depth₂))
                      hstateless
                      (fun q hq => hask q (hregion₁.closed r q hr (.member
                        (by rw [hr.composer]; exact hregion₁.tight) hr.plain hmember hm hq
                        (by simp)))) hmarked
                    exact (hconsult.bind fun answer v₁ v₂ hv => ih hlater (answers ++ [answer]) hv)
                      b₁ u₁ b₂ u₂ hgather₁.symm hgather₂.symm
                · cases hgather₂
            · cases hgather₁
          · have hsettled₂ : Settled w₂ r kept := (h.finished hr).symm.trans hsettled
            exact .of_ok (gather_settled t _ rest answers hm hsettled)
              (gather_settled _ _ rest answers hm hsettled₂) h
          · intro b₁ v₁ b₂ v₂ hx₁ _
            rw [gather_corrupt t _ rest answers hm hcorrupt] at hx₁
            cases hx₁

/-- A resolution of a query of the region that was started goes on in lockstep. -/
theorem started_twins (h : net₁.Aligned net₂ c region d₁ d₂ w₁ w₂) :
    Run.Twins
      (do
        let answer ← t.gather ask₁ r t.members []
        depart r
        pure answer)
      (do
        let answer ← (t.withPolicy policy).gather ask₂ r t.members []
        depart r
        pure answer)
      (started w₁ r) (started w₂ r) (net₁.Aligned net₂ c region d₁ d₂) := by
  have hstarted : net₁.Aligned net₂ c region d₁ d₂ (started w₁ r) (started w₂ r) := by
    refine h.edit hregion₁ hregion₂ hr (.started w₁ r) (.started w₂ r) ?_
    rw [started_cache, started_cache, QueryCache.get?_enter, QueryCache.get?_enter, if_pos rfl,
      if_pos rfl, QueryCache.entryOrFresh, QueryCache.entryOrFresh, QueryCache.active_eq,
      QueryCache.active_eq, h.entry hr]
  refine (gather_twins hregion₁ hregion₂ hask hr t.members (fun _ hm => hm) [] hstarted).bind
    fun answer v₁ v₂ hv => ?_
  have hdepart : ∀ v : World V R M,
      (depart r : Run V R M Unit).outcome v = (.ok (), ended v r) := fun _ => rfl
  refine .of_ok (Run.outcome_bind_ok (hdepart v₁)) (Run.outcome_bind_ok (hdepart v₂))
    (hv.edit hregion₁ hregion₂ hr (.ended v₁ r) (.ended v₂ r) ?_)
  rw [ended_cache, ended_cache, QueryCache.get?_leave, QueryCache.get?_leave, if_pos rfl,
    if_pos rfl, hv.entry hr]

/-- A query of the region is resolved in lockstep. -/
theorem resolve_twins (h : net₁.Aligned net₂ c region d₁ d₂ w₁ w₂) :
    Run.Twins (t.resolve ask₁ r) ((t.withPolicy policy).resolve ask₂ r) w₁ w₂
      (net₁.Aligned net₂ c region d₁ d₂) := by
  rcases Lookup.cases w₁ r with hopen | ⟨kept, hsettled⟩ | hcorrupt
  · have hopen₂ : Open w₂ r := (h.finished hr).symm.trans hopen
    by_cases hcut : t.Cut w₁ r
    · exact .of_ok (resolve_cut t _ hopen hcut)
        (resolve_cut _ _ hopen₂ ((h.cut hr t policy).1 hcut)) h
    · exact .after (resolve_open t _ hopen hcut)
        (resolve_open _ _ hopen₂ fun hcut₂ => hcut ((h.cut hr t policy).2 hcut₂))
        (started_twins hregion₁ hregion₂ hask hr h)
  · have hsettled₂ : Settled w₂ r kept := (h.finished hr).symm.trans hsettled
    exact .of_ok (resolve_settled t _ hsettled) (resolve_settled _ _ hsettled₂) h
  · intro b₁ v₁ b₂ v₂ hx₁ _
    rw [resolve_corrupt t _ hcorrupt] at hx₁
    cases hx₁

/-- A query of the region that was not met before is resolved in lockstep whoever asks. -/
theorem resolve_twins_of_new (h : net₁.Aligned net₂ c region d₁ d₂ w₁ w₂)
    (hnew : (w₁.cache r.composer).get? r.key = none) (asker : AnalysisId) :
    Run.Twins (t.resolve ask₁ r) ((t.withPolicy policy).resolve ask₂ { r with client := asker })
      w₁ w₂ (net₁.Aligned net₂ c region d₁ d₂) := by
  have huncut : ∀ (x : Tight V R M) (w : World V R M) (q : Request),
      (w.cache q.composer).get? q.key = none → Open w q ∧ ¬ x.Cut w q := by
    intro x w q hnone
    refine ⟨?_, not_cut_of_idle ?_⟩
    · rw [Open, QueryCache.finished?_eq, hnone]
      rfl
    · rintro ⟨e, he, _⟩
      rw [hnone] at he
      cases he
  have hnew₂ : (w₂.cache r.composer).get? r.key = none := (h.entry hr).symm.trans hnew
  obtain ⟨hopen₁, hcut₁⟩ := huncut t w₁ r hnew
  obtain ⟨hopen₂, hcut₂⟩ := huncut (t.withPolicy policy) w₂ { r with client := asker } hnew₂
  refine .after (resolve_open t _ hopen₁ hcut₁) ?_ (started_twins hregion₁ hregion₂ hask hr h)
  rw [resolve_open _ _ hopen₂ hcut₂, gather_client]
  rfl

omit hregion₁ hregion₂ hask in
/-- A query of the region is answered in lockstep if it is resolved so. The worlds are aligned
afterwards if it is not the outermost query of the composer. -/
theorem query_twins {asker : AnalysisId} (hd₁ : d₁ = e₁ + 1) (hd₂ : d₂ = e₂ + 1)
    (hresolve : ∀ v₁ v₂ : World V R M, v₁.cache r.composer = w₁.cache r.composer →
      net₁.Aligned net₂ c region d₁ d₂ v₁ v₂ →
        Run.Twins (t.resolve ask₁ r) ((t.withPolicy policy).resolve ask₂ { r with client := asker })
          v₁ v₂ (net₁.Aligned net₂ c region d₁ d₂))
    (h : net₁.Aligned net₂ c region e₁ e₂ w₁ w₂) :
    Run.Twins ((Composer.tight t).query ask₁ r)
      ((Composer.tight (t.withPolicy policy)).query ask₂ { r with client := asker }) w₁ w₂
      fun v₁ v₂ => 1 ≤ e₁ → 1 ≤ e₂ → net₁.Aligned net₂ c region e₁ e₂ v₁ v₂ := by
  have hbegun : net₁.Aligned net₂ c region d₁ d₂ (begun (w₁.note (.requested r)) r.composer)
      (begun (w₂.note (.requested { r with client := asker })) r.composer) :=
    h.of_caches (fun _ => by simp) (fun _ => by simp)
      (by rw [hr.composer, begun_depth, World.note_depth, h.depth₁, hd₁])
      (by rw [hr.composer, begun_depth, World.note_depth, h.depth₂, hd₂])
  refine .after (t.noted_query_outcome ask₁) ((t.withPolicy policy).noted_query_outcome ask₂)
    ((hresolve _ _ (by simp) hbegun).bind fun answer v₁ v₂ hv => ?_)
  refine .after (Run.outcome_bind_ok (t.closed_outcome _))
    (Run.outcome_bind_ok ((t.withPolicy policy).closed_outcome _)) ?_
  refine .of_ok (Run.outcome_bind_ok (Run.outcome_record _ _))
    (Run.outcome_bind_ok (Run.outcome_record _ _)) fun hpos₁ hpos₂ => ?_
  rw [hr.composer]
  -- a query that is not the outermost one leaves the caches alone when it is over
  have hcache : ∀ (x : Tight V R M) {v : World V R M} {n : Nat}, v.depth c = n + 1 → 1 ≤ n →
      ∀ d, (x.concluded v c).cache d = v.cache d := by
    intro x v n hdepth hpos d
    rcases Network.concluded_cache (t := x) v c d with hkept | ⟨_, hzero, _⟩
    · exact hkept
    · omega
  refine hv.of_caches (hcache t (hv.depth₁.trans hd₁) hpos₁)
    (hcache _ (hv.depth₂.trans hd₂) hpos₂) ?_ ?_
  · rw [World.note_depth, concluded_depth, hv.depth₁, hd₁, Nat.add_sub_cancel]
  · rw [World.note_depth, concluded_depth, hv.depth₂, hd₂, Nat.add_sub_cancel]

end Tight

end Walk

namespace Network

variable {net₁ net₂ : Network V R M} (hlike : net₁.Alike net₂) {c : ComposerId}
  {t : Tight V R M} {policy : CachePolicy} {region : QueryKey → Prop}
  (hregion₁ : net₁.Region c t region) (hregion₂ : net₂.Region c (t.withPolicy policy) region)

include hlike hregion₁ hregion₂

/-- Alike networks answer a question in lockstep that is grounded or about a query of the region,
while the composer is answering. -/
theorem answer_twins (depth : Nat) {q : Request} (hq : net₁.Grounded q ∨ q.In c region)
    {d₁ d₂ : Nat} (hpos₁ : 1 ≤ d₁) (hpos₂ : 1 ≤ d₂) {w₁ w₂ : World V R M}
    (h : net₁.Aligned net₂ c region d₁ d₂ w₁ w₂) :
    Run.Twins (net₁.answer depth q) (net₂.answer depth q) w₁ w₂
      (net₁.Aligned net₂ c region d₁ d₂) := by
  induction depth generalizing q d₁ d₂ w₁ w₂ with
  | zero =>
      intro b₁ v₁ b₂ v₂ hx₁ _
      cases hx₁
  | succ depth ih =>
      rcases hq with hq | hq
      · have hmatches₁ := net₁.answer_matches (depth + 1) q hq w₁ h.calm₁.faithful
          (h.calm₁.quiet hq)
        have hmatches₂ := net₂.answer_matches (depth + 1) q (hlike.grounded hq) w₂
          h.calm₂.faithful (h.calm₂.quiet (hlike.grounded hq))
        intro b₁ v₁ b₂ v₂ hx₁ hx₂
        obtain ⟨hresult₁, hpasses₁⟩ := hmatches₁.ok hx₁
        obtain ⟨hresult₂, hpasses₂⟩ := hmatches₂.ok hx₂
        rw [hlike.reference hq] at hresult₂
        refine ⟨Except.ok.inj (hresult₁.symm.trans hresult₂), ?_⟩
        exact h.passes hregion₁ hregion₂ hpos₁ hpos₂ hpasses₁ hpasses₂
      · rw [answer_tight hregion₁.tight hq.composer hq.plain,
          answer_tight hregion₂.tight hq.composer hq.plain]
        have hask : ∀ s, net₁.Grounded s ∨ s.In c region → ∀ v₁ v₂,
            net₁.Aligned net₂ c region (d₁ + 1) (d₂ + 1) v₁ v₂ →
              Run.Twins (net₁.answer depth s) (net₂.answer depth s) v₁ v₂
                (net₁.Aligned net₂ c region (d₁ + 1) (d₂ + 1)) :=
          fun s hs v₁ v₂ hv => ih hs (Nat.le_add_left 1 d₁) (Nat.le_add_left 1 d₂) hv
        have hquery := query_twins hq rfl rfl
          (fun v₁ v₂ _ hv => resolve_twins hregion₁ hregion₂ hask hq hv) h
        exact hquery.mono fun v₁ v₂ hv => hv hpos₁ hpos₂

/-- Alike networks give the same answer to a question about a query of the region, whoever asks, if
they come to an answer and met no query of the region before. -/
theorem answer_unique {depth : Nat} {r : Request} (hr : r.In c region) (asker : AnalysisId)
    {w₁ w₂ : World V R M} (hcalm₁ : net₁.Calm w₁) (hcalm₂ : net₂.Calm w₂)
    (hnew₁ : ∀ k, region k → (w₁.cache c).get? k = none)
    (hnew₂ : ∀ k, region k → (w₂.cache c).get? k = none)
    {a₁ a₂ : Object V R r.family} (h₁ : ((net₁.answer depth r).outcome w₁).1 = .ok a₁)
    (h₂ : ((net₂.answer depth { r with client := asker }).outcome w₂).1 = .ok a₂) : a₁ = a₂ := by
  cases depth with
  | zero => cases h₁
  | succ depth =>
      rw [answer_tight hregion₁.tight hr.composer hr.plain] at h₁
      rw [answer_tight (r := { r with client := asker }) hregion₂.tight hr.composer hr.plain] at h₂
      have haligned : net₁.Aligned net₂ c region (w₁.depth c) (w₂.depth c) w₁ w₂ :=
        ⟨hcalm₁, hcalm₂, rfl, rfl, fun k hk => (hnew₁ k hk).trans (hnew₂ k hk).symm⟩
      have hnew : (w₁.cache r.composer).get? r.key = none := by
        rw [hr.composer]
        exact hnew₁ _ hr.key
      have hquery := query_twins hr rfl rfl (fun v₁ v₂ hcache hv => resolve_twins_of_new hregion₁
        hregion₂ (fun s hs u₁ u₂ hu => answer_twins hlike hregion₁ hregion₂ depth hs
          (Nat.le_add_left 1 (w₁.depth c)) (Nat.le_add_left 1 (w₂.depth c)) hu) hr hv
        (by rw [hcache]; exact hnew) asker) haligned
      exact (hquery a₁ _ a₂ _ (Prod.ext h₁ rfl) (Prod.ext h₂ rfl)).1

end Network

end JointAnalysis
