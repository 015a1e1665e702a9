import JointAnalysis.Proofs.Resolution
import JointAnalysis.Proofs.Session

/-!
# The walk through a computation

Whatever composers and analyses do is made of a few steps: they look at desks and at the memory,
replace them, note events, give up, and ask questions. A `Trait` is a property of computations that
such steps have and that a sequence has if its parts do. `Trait.Meets` says that a computation has a
trait and ends as it should, with a result of which one assertion holds or halted as another one
allows. This module goes once through everything that is done with a question.

* `Plan.Guides`: an assertion about what is left of a plan leads through it.
* `Tight.Stages`: assertions about the stages of a query lead through a resolution.
* `Trait.respond`: if single questions have a trait, whatever a composer does has it.

What other modules prove about all computations they get from here, by a trait of their own or by
assertions with `Trait.any`, the trait of all computations.
-/

namespace JointAnalysis

open Lookup Tight

variable {V R M β γ : Type}

/-- Started in `w`, a computation ends with a result of which `post` holds, or is halted as `halts`
allows. -/
def Run.Ends (halts : Halt → World V R M → Prop) (x : Run V R M β) (w : World V R M)
    (post : β → World V R M → Prop) : Prop :=
  match x.outcome w with
  | (.ok b, w') => post b w'
  | (.error halt, w') => halts halt w'

namespace Run.Ends

variable {halts halts' : Halt → World V R M → Prop} {x : Run V R M β} {w w' : World V R M}
  {post post' : β → World V R M → Prop}

/-- What holds of a result. -/
theorem ok (h : x.Ends halts w post) {b : β} (hx : x.outcome w = (.ok b, w')) : post b w' := by
  rw [Ends, hx] at h
  exact h

/-- What holds if there is no result. -/
theorem error (h : x.Ends halts w post) {halt : Halt} (hx : x.outcome w = (.error halt, w')) :
    halts halt w' := by
  rw [Ends, hx] at h
  exact h

/-- A computation with a result as it should be. -/
theorem of_ok {b : β} (hx : x.outcome w = (.ok b, w')) (h : post b w') : x.Ends halts w post := by
  rw [Ends, hx]
  exact h

/-- A computation that is halted as it may be. -/
theorem of_error {halt : Halt} (hx : x.outcome w = (.error halt, w')) (h : halts halt w') :
    x.Ends halts w post := by
  rw [Ends, hx]
  exact h

/-- Less may be asked of the end. -/
theorem mono (h : x.Ends halts w post) (hpost : ∀ b w', post b w' → post' b w')
    (hhalts : ∀ halt w', halts halt w' → halts' halt w') : x.Ends halts' w post' := by
  rcases hx : x.outcome w with ⟨halt | b, w'⟩
  · exact of_error hx (hhalts halt w' (h.error hx))
  · exact of_ok hx (hpost b w' (h.ok hx))

/-- Less may be asked of the result. -/
theorem imp (h : x.Ends halts w post) (hpost : ∀ b w', post b w' → post' b w') :
    x.Ends halts w post' :=
  h.mono hpost fun _ _ hhalts => hhalts

/-- The second part of a sequence starts where the first one ends. -/
theorem bind {f : β → Run V R M γ} {last : γ → World V R M → Prop} (h : x.Ends halts w post)
    (hf : ∀ b w', x.outcome w = (.ok b, w') → post b w' → (f b).Ends halts w' last) :
    (x >>= f).Ends halts w last := by
  rcases hx : x.outcome w with ⟨halt | b, w'⟩
  · exact of_error (outcome_bind_error hx) (h.error hx)
  · have hnext := hf b w' hx (h.ok hx)
    rwa [Ends, ← outcome_bind_ok hx] at hnext

end Run.Ends

/-- Look at the memory that the analyses share. -/
def Run.memory : Run V R M M := return (← get).memory

/-- A property of computations that all steps have that ask nothing, wherever they start, and that a
sequence has if its parts do. Computations ask what they are given to ask; the first part of a
sequence hands over the result that it has when `ask` answers. -/
structure Trait (ask : Answerer V R M) where
  holds : {β : Type} → (Answerer V R M → Run V R M β) → World V R M → Prop
  pure : ∀ {β : Type} (b : β) w, holds (fun _ => Pure.pure b) w
  throw : ∀ {β : Type} halt w, holds (fun _ => (MonadExcept.throw halt : Run V R M β)) w
  record : ∀ event w, holds (fun _ => Run.record event) w
  desk : ∀ c w, holds (fun _ => Run.desk c) w
  setDesk : ∀ c d w, holds (fun _ => Run.setDesk c d) w
  memory : ∀ w, holds (fun _ => Run.memory) w
  update : ∀ (f : M → M) w,
    holds (fun _ => (modify fun w => { w with memory := f w.memory } : Run V R M Unit)) w
  bind : ∀ {β γ : Type} {x : Answerer V R M → Run V R M β}
    {f : β → Answerer V R M → Run V R M γ} {w}, holds x w →
    (∀ b w', (x ask).outcome w = (.ok b, w') → holds (f b) w') →
      holds (fun ask => x ask >>= fun b => f b ask) w

/-- The trait that all computations have. -/
def Trait.any (ask : Answerer V R M) : Trait ask where
  holds _ _ := True
  pure _ _ := trivial
  throw _ _ := trivial
  record _ _ := trivial
  desk _ _ := trivial
  setDesk _ _ _ := trivial
  memory _ := trivial
  update _ _ := trivial
  bind _ _ := trivial

namespace Trait

variable {ask : Answerer V R M} (F : Trait ask)

/-! Steps made of other steps have a trait as well. -/

section Steps

variable (c : ComposerId) (w : World V R M)

theorem cache : F.holds (fun _ => Run.cache c) w :=
  F.bind (F.desk c w) fun _ _ _ => F.pure _ _

theorem setCache (cache : QueryCache (AnyObject V R)) :
    F.holds (fun _ => Run.setCache c cache) w :=
  F.bind (F.desk c w) fun _ _ _ => F.setDesk c _ _

theorem clear : F.holds (fun _ => Run.clear c) w :=
  F.bind (F.setCache c w _) fun _ _ _ => F.record _ _

theorem ofExcept (result : Except Fault β) : F.holds (fun _ => Run.ofExcept result) w := by
  cases result with
  | ok b => exact F.pure b w
  | error fault => exact F.throw _ w

theorem cached? (r : Request) : F.holds (fun _ => Tight.cached? r) w := by
  refine F.bind (F.cache _ w) fun cache w' _ => ?_
  cases cache.finished? r.key with
  | none => exact F.pure _ w'
  | some kept =>
      dsimp only
      split
      · exact F.pure _ w'
      · exact F.throw _ w'

theorem keep (r : Request) (answers : List (Object V R r.family)) :
    F.holds (fun _ => Tight.keep r answers) w := by
  refine F.bind (F.cached? w r) fun found w' _ => ?_
  cases found with
  | some answer => exact F.pure _ w'
  | none =>
      exact F.bind (F.cache _ w') fun _ _ _ => F.bind (F.ofExcept _ _) fun _ _ _ =>
        F.bind (F.setCache _ _ _) fun _ _ _ => F.pure _ _

theorem depart (r : Request) : F.holds (fun _ => Tight.depart r) w :=
  F.bind (F.cache _ w) fun _ _ _ => F.setCache _ _ _

theorem opened : F.holds (fun _ => Tight.opened c) w :=
  F.bind (F.desk c w) fun _ _ _ => F.setDesk c _ _

theorem closed (t : Tight V R M) : F.holds (fun _ => t.closed c) w := by
  refine F.bind (F.desk c w) fun desk w' _ => F.bind (F.setDesk c _ w') fun _ w'' _ => ?_
  split
  · exact F.clear c w''
  · exact F.pure () w''

end Steps

/-- A computation has a trait where it starts and ends as it should. -/
def Meets (halts : Halt → World V R M → Prop) (x : Answerer V R M → Run V R M β)
    (w : World V R M) (post : β → World V R M → Prop) : Prop :=
  F.holds x w ∧ (x ask).Ends halts w post

namespace Meets

variable {F} {halts : Halt → World V R M → Prop} {w w' : World V R M}
  {x : Answerer V R M → Run V R M β} {f : β → Answerer V R M → Run V R M γ}
  {mid post : β → World V R M → Prop} {last : γ → World V R M → Prop}

/-- A result as it should be. -/
theorem pure {b : β} (h : post b w) : F.Meets halts (fun _ => Pure.pure b) w post :=
  ⟨F.pure b w, h⟩

/-- A step with a result as it should be. -/
theorem of_ok {x : Run V R M β} {b : β} (htrait : F.holds (fun _ => x) w)
    (hx : x.outcome w = (.ok b, w')) (h : post b w') : F.Meets halts (fun _ => x) w post :=
  ⟨htrait, .of_ok hx h⟩

/-- A step that is halted as it may be. -/
theorem of_error {x : Run V R M β} {halt : Halt} (htrait : F.holds (fun _ => x) w)
    (hx : x.outcome w = (.error halt, w')) (h : halts halt w') :
    F.Meets halts (fun _ => x) w post :=
  ⟨htrait, .of_error hx h⟩

/-- Less may be asked of the end. -/
theorem mono {halts' : Halt → World V R M → Prop} {post' : β → World V R M → Prop}
    (hx : F.Meets halts x w post) (hpost : ∀ b w', post b w' → post' b w')
    (hhalts : ∀ halt w', halts halt w' → halts' halt w') : F.Meets halts' x w post' :=
  ⟨hx.1, hx.2.mono hpost hhalts⟩

/-- Less may be asked of the result. -/
theorem imp {post' : β → World V R M → Prop} (hx : F.Meets halts x w post)
    (hpost : ∀ b w', post b w' → post' b w') : F.Meets halts x w post' :=
  ⟨hx.1, hx.2.imp hpost⟩

/-- The second part of a sequence starts where the first one ends. -/
theorem bind (hx : F.Meets halts x w mid)
    (hf : ∀ b w', mid b w' → F.Meets halts (f b) w' last) :
    F.Meets halts (fun ask => x ask >>= fun b => f b ask) w last :=
  ⟨F.bind hx.1 fun b w' houtcome => (hf b w' (hx.2.ok houtcome)).1,
    hx.2.bind fun b w' _ hb => (hf b w' hb).2⟩

/-- After a step the rest goes on. -/
theorem step {x : Run V R M β} {b : β} (htrait : F.holds (fun _ => x) w)
    (hx : x.outcome w = (.ok b, w')) (hf : F.Meets halts (f b) w' last) :
    F.Meets halts (fun ask => x >>= fun b => f b ask) w last := by
  have hstep : F.Meets halts (fun _ => x) w fun b₁ w₁ => b₁ = b ∧ w₁ = w' :=
    of_ok htrait hx ⟨rfl, rfl⟩
  refine hstep.bind fun b₁ w₁ hsame => ?_
  rw [hsame.1, hsame.2]
  exact hf

/-- After a step that is halted nothing goes on. -/
theorem stop {x : Run V R M β} {halt : Halt} (htrait : F.holds (fun _ => x) w)
    (hx : x.outcome w = (.error halt, w')) (h : halts halt w') :
    F.Meets halts (fun ask => x >>= fun b => f b ask) w last := by
  have hstep : F.Meets halts (fun _ => x) w fun _ _ => False := of_error htrait hx h
  exact hstep.bind fun _ _ hfalse => hfalse.elim

/-- Computations in turn keep what each of them keeps. -/
theorem mapM {f : β → Answerer V R M → Run V R M γ} {l : List β} {inv : World V R M → Prop}
    (h : ∀ b ∈ l, ∀ w, inv w → F.Meets halts (f b) w fun _ => inv) (hw : inv w) :
    F.Meets halts (fun ask => l.mapM (f · ask)) w fun _ => inv := by
  induction l generalizing w with
  | nil => exact .pure hw
  | cons b rest ih =>
      obtain ⟨hfirst, hrest⟩ := List.forall_mem_cons.1 h
      simp only [List.mapM_cons]
      exact (hfirst w hw).bind fun _ w₁ hw₁ => (ih hrest hw₁).bind fun _ w₂ hw₂ => .pure hw₂

end Meets

end Trait

/-- An assertion about what is left of a plan leads through it: it holds again after each step of
the plan, and where the plan ends it says what should hold there. -/
structure Plan.Guides {ask : Answerer V R M} (F : Trait ask)
    (halts : Halt → World V R M → Prop) (guide : Plan V R M β → World V R M → Prop)
    (post : β → World V R M → Prop) : Prop where
  give : ∀ b w, guide (.give b) w → post b w
  fail : ∀ fault w, guide (.fail fault) w → halts (.fault fault) w
  ask : ∀ r next w, guide (.ask r next) w →
    F.Meets halts (fun ask => ask r) w fun answer => guide (next answer)
  recollect : ∀ next w, guide (.recollect next) w → guide (next w.memory) w
  remember : ∀ update next w, guide (.remember update next) w →
    guide next { w with memory := update w.memory }
  inspect : ∀ c key next w, guide (.inspect c key next) w →
    guide (next ((w.cache c).state? key) (w.cache c).size) w
  clear : ∀ c next w, guide (.clear c next) w → guide next (w.clear c)

namespace Trait.Meets

variable {ask : Answerer V R M} {F : Trait ask} {halts : Halt → World V R M → Prop}
  {w : World V R M}

/-- A plan is carried out under the guidance of an assertion. -/
theorem run {guide : Plan V R M β → World V R M → Prop} {post : β → World V R M → Prop}
    (h : Plan.Guides F halts guide post) {p : Plan V R M β} (hp : guide p w) :
    F.Meets halts (fun ask => p.run ask) w post := by
  induction p generalizing w with
  | give result => exact .pure (h.give result w hp)
  | fail fault => exact .of_error (F.throw _ w) rfl (h.fail fault w hp)
  | ask r next ih => exact (h.ask r next w hp).bind fun answer w' hw' => ih answer hw'
  | recollect next ih =>
      show F.Meets halts (fun ask => Run.memory >>= fun memory => (next memory).run ask) w post
      exact .step (F.memory w) rfl (ih w.memory (h.recollect next w hp))
  | remember update next ih =>
      exact .step (F.update update w) rfl (ih (h.remember update next w hp))
  | inspect c key next ih =>
      exact .step (F.cache c w) rfl (ih _ _ (h.inspect c key next w hp))
  | clear c next ih => exact .step (F.clear c w) rfl (ih (h.clear c next w hp))

/-- An analysis is consulted under the guidance of an assertion about its plan. -/
theorem consult {a : Analysis V R M} {family : Family} {q : Inquiry}
    {guide : Plan V R M (Object V R family) → World V R M → Prop}
    {planned post : Object V R family → World V R M → Prop}
    (h : Plan.Guides F halts guide planned)
    (hw : guide (a.answer family q) (w.note (.asked a.name family q)))
    (hpost : ∀ o w', planned o w' → post o (w'.note (.answered a.name q ⟨family, o⟩))) :
    F.Meets halts (fun ask => a.consult ask family q) w post :=
  .step (F.record _ w) rfl <| (run h hw).bind fun o w' ho =>
    .step (F.record _ w') rfl (.pure (hpost o w' ho))

/-- The parent is asked if there is one. -/
theorem inherited {t : Tight V R M} {r : Request}
    {post : List (Object V R r.family) → World V R M → Prop} (hnone : t.parent = none → post [] w)
    (hsome : ∀ p, t.parent = some p →
      F.Meets halts (fun ask => ask { r with composer := p, client := t.id, operand := none }) w
        fun answer => post [answer]) :
    F.Meets halts (fun ask => t.inherited ask r) w post := by
  unfold Tight.inherited
  cases hp : t.parent with
  | none => exact .pure (hnone hp)
  | some p => exact (hsome p hp).bind fun answer w' hw' => .pure hw'

end Trait.Meets

namespace Tight

/-- Assertions about the stages of a query of a tight composer. -/
structure Stages (V R M : Type) (r : Request) where
  /-- The query has begun. -/
  begun : World V R M → Prop
  /-- In a resolution these members are still to be asked, and those before gave these answers. -/
  asking : List (Member V R M) → List (Object V R r.family) → World V R M → Prop
  /-- All answers are there. -/
  gathered : List (Object V R r.family) → World V R M → Prop
  /-- The resolution has come to an answer. -/
  resolved : Object V R r.family → World V R M → Prop
  /-- The query has an answer. -/
  answered : Object V R r.family → World V R M → Prop

namespace Stages

variable {ask : Answerer V R M} {r : Request}

/-- What is found for the query of a request is as it should be, and if it is corrupt, the query may
be halted. -/
def Finds (halts : Halt → World V R M → Prop) (w : World V R M)
    (post : Object V R r.family → World V R M → Prop) : Prop :=
  (∀ kept, Settled w r kept → post (.combined .intersect kept) w) ∧
    (Corrupt w r → halts (.fault (.corruptAnswer r.key.kind)) w)

/-- What is known of all that is kept for a query holds of what is found. -/
theorem Finds.of_sealed {halts : Halt → World V R M → Prop} {w : World V R M}
    {post : Object V R r.family → World V R M → Prop} {good : List (Object V R r.family) → Prop}
    (h : Sealed w r good)
    (hpost : ∀ kept, Settled w r kept → good kept → post (.combined .intersect kept) w) :
    Finds halts w post :=
  ⟨fun kept hsettled => hpost kept hsettled (h.settled hsettled),
    fun hcorrupt => absurd hcorrupt h.not_corrupt⟩

/-- The assertions lead through asking the members and the parent. -/
structure Gathers (S : Stages V R M r) (F : Trait ask) (halts : Halt → World V R M → Prop)
    (t : Tight V R M) (members : List (Member V R M)) : Prop where
  skip : ∀ m rest answers w, m.analysis.handles r.family = false →
    S.asking (m :: rest) answers w → S.asking rest answers w
  meanwhile : ∀ m rest answers w, S.asking (m :: rest) answers w → Finds halts w S.resolved
  consult : ∀ m ∈ members, m.analysis.handles r.family = true → ∀ rest answers w,
    S.asking (m :: rest) answers w → Open w r →
      match (w.cache r.composer).mark r.key m.id with
      | .ok cache =>
        F.Meets halts (fun ask => m.analysis.consult ask r.family (inquiry r m))
          (w.putCache r.composer cache) fun answer => S.asking rest (answers ++ [answer])
      | .error fault => halts (.fault fault) w
  orphan : t.parent = none → ∀ answers w, S.asking [] answers w → S.gathered answers w
  inherit : ∀ p, t.parent = some p → ∀ answers w, S.asking [] answers w →
    F.Meets halts (fun ask => ask { r with composer := p, client := t.id, operand := none }) w
      fun answer => S.gathered (answer :: answers)
  kept : ∀ children w, S.gathered children w → Finds halts w S.resolved
  keep : ∀ children w, S.gathered children w → Open w r →
    match (w.cache r.composer).finish r.key ⟨r.family, .combined .intersect children⟩ with
    | .ok cache => S.resolved (.combined .intersect children) (w.putCache r.composer cache)
    | .error fault => halts (.fault fault) w

/-- The assertions lead through a resolution. -/
structure Resolves (S : Stages V R M r) (F : Trait ask) (halts : Halt → World V R M → Prop)
    (t : Tight V R M) : Prop extends S.Gathers F halts t t.members where
  found : ∀ w, S.begun w → Finds halts w S.answered
  cut : ∀ w, S.begun w → Open w r → t.Cut w r → S.answered .full w
  start : ∀ w, S.begun w → Open w r → ¬ t.Cut w r → S.asking t.members [] (started w r)
  leave : ∀ o w, S.resolved o w → S.answered o (ended w r)

variable {F : Trait ask} {halts : Halt → World V R M → Prop} {S : Stages V R M r}
  {t : Tight V R M} {members : List (Member V R M)} {w : World V R M}

/-- What was gathered is kept, unless the query is finished. -/
theorem Gathers.meets_keep (h : S.Gathers F halts t members)
    {children : List (Object V R r.family)} (hw : S.gathered children w) :
    F.Meets halts (fun _ => Tight.keep r children) w S.resolved := by
  have htrait := F.keep w r children
  rcases Lookup.cases w r with hopen | ⟨kept, hsettled⟩ | hcorrupt
  · have hkeep := h.keep children w hw hopen
    have houtcome := keep_open hopen children
    cases hfinish : (w.cache r.composer).finish r.key
        ⟨r.family, .combined .intersect children⟩ with
    | ok cache =>
        rw [hfinish] at hkeep houtcome
        exact .of_ok htrait houtcome hkeep
    | error fault =>
        rw [hfinish] at hkeep houtcome
        exact .of_error htrait houtcome hkeep
  · exact .of_ok htrait (keep_settled hsettled children) ((h.kept children w hw).1 kept hsettled)
  · exact .of_error htrait (keep_corrupt hcorrupt children) ((h.kept children w hw).2 hcorrupt)

/-- The answer of the parent goes before those of the members. -/
theorem Gathers.meets_conclude (h : S.Gathers F halts t members)
    {answers : List (Object V R r.family)} (hw : S.asking [] answers w) :
    F.Meets halts (fun ask => t.conclude ask r answers) w S.resolved := by
  have hinherited : F.Meets halts (fun ask => t.inherited ask r) w
      fun above => S.gathered (above ++ answers) :=
    .inherited (fun hp => h.orphan hp answers w hw) fun p hp => h.inherit p hp answers w hw
  exact hinherited.bind fun _ _ hw' => h.meets_keep hw'

/-- The members are asked in turn. -/
theorem Gathers.meets_gather (h : S.Gathers F halts t members) {rest : List (Member V R M)}
    (hrest : ∀ m ∈ rest, m ∈ members) {answers : List (Object V R r.family)}
    (hw : S.asking rest answers w) :
    F.Meets halts (fun ask => t.gather ask r rest answers) w S.resolved := by
  induction rest generalizing answers w with
  | nil => exact h.meets_conclude hw
  | cons m rest ih =>
      obtain ⟨hmember, hlater⟩ := List.forall_mem_cons.1 hrest
      cases hm : m.analysis.handles r.family with
      | false =>
          simp only [gather_skip t _ rest answers hm]
          exact ih hlater (h.skip m rest answers w hm hw)
      | true =>
          simp only [gather, hm, if_true]
          have htrait := F.cached? w r
          rcases Lookup.cases w r with hopen | ⟨kept, hsettled⟩ | hcorrupt
          · have hconsult := h.consult m hmember hm rest answers w hw hopen
            refine .step htrait hopen.outcome (.step (F.cache _ w) (Run.outcome_cache w _) ?_)
            cases hmark : (w.cache r.composer).mark r.key m.id with
            | ok cache =>
                rw [hmark] at hconsult
                refine .step (F.ofExcept w _) rfl
                  (.step (F.setCache _ w cache) (Run.outcome_setCache w _ _) ?_)
                exact hconsult.bind fun answer w' hw' => ih hlater hw'
            | error fault =>
                rw [hmark] at hconsult
                exact .stop (F.ofExcept w _) rfl hconsult
          · exact .step htrait hsettled.outcome
              (.pure ((h.meanwhile m rest answers w hw).1 kept hsettled))
          · exact .stop htrait hcorrupt.outcome ((h.meanwhile m rest answers w hw).2 hcorrupt)

/-- A resolution finds the answer, is cut off, or asks everyone. -/
theorem Resolves.meets_resolve (h : S.Resolves F halts t) (hw : S.begun w) :
    F.Meets halts (fun ask => t.resolve ask r) w S.answered := by
  have htrait := F.cached? w r
  rcases Lookup.cases w r with hopen | ⟨kept, hsettled⟩ | hcorrupt
  · refine .step htrait hopen.outcome (.step (F.cache _ w) (Run.outcome_cache w _) ?_)
    dsimp only
    by_cases hcycle : (w.cache r.composer).isCycle r.key r.client = true
    · simp only [hcycle, if_true]
      exact .pure (h.cut w hw hopen (.inl hcycle))
    · simp only [hcycle, Bool.false_eq_true, if_false]
      refine .step (F.setCache _ w _) (Run.outcome_setCache w _ _) ?_
      simp only [QueryCache.enter_fst, attempt]
      by_cases hbound : t.config.reentrantResolutions < (w.cache r.composer).active r.key
      · -- Too deep: the query is entered and left at once, which changes nothing.
        simp only [gt_iff_lt, hbound, if_true]
        refine .step (F.pure _ _) rfl (.step (F.cache _ _) (Run.outcome_cache _ _)
          (.step (F.setCache _ _ _) (Run.outcome_setCache _ _ _) (.pure ?_)))
        show S.answered .full (ended _ r)
        rw [ended_entered (Nat.zero_lt_of_lt hbound)]
        exact h.cut w hw hopen (.inr hbound)
      · simp only [gt_iff_lt, hbound, if_false, convene]
        have hstarted := h.start w hw hopen (not_or.2 ⟨hcycle, hbound⟩)
        have hgather := h.meets_gather (fun _ hm => hm) hstarted
        refine .bind (.step (F.record _ _) (Run.outcome_record _ _) hgather) fun o w' ho => ?_
        exact .step (F.cache _ w') (Run.outcome_cache w' _)
          (.step (F.setCache _ w' _) (Run.outcome_setCache w' _ _) (.pure (h.leave o w' ho)))
  · exact .step htrait hsettled.outcome (.pure ((h.found w hw).1 kept hsettled))
  · exact .stop htrait hcorrupt.outcome ((h.found w hw).2 hcorrupt)

/-- A query is a resolution between its beginning and its end. -/
theorem Resolves.meets_query (h : S.Resolves F halts t)
    {post : Object V R r.family → World V R M → Prop} (hw : S.begun (Tight.begun w r.composer))
    (hpost : ∀ o w', S.answered o w' → post o (t.concluded w' r.composer)) :
    F.Meets halts (fun ask => t.query ask r) w post := by
  refine .step (F.opened r.composer w) rfl ((h.meets_resolve hw).bind fun o w' ho => ?_)
  exact .step (F.closed r.composer w' t) (t.closed_outcome r.composer) (.pure (hpost o w' ho))

end Stages

end Tight

namespace Trait.Meets

variable {ask : Answerer V R M} {F : Trait ask} {halts : Halt → World V R M → Prop}
  {w : World V R M} {r : Request} {post : Object V R r.family → World V R M → Prop}

/-- A chain answers by the member that speaks for it. -/
theorem chain {x : Chain V R M} (hnone : x.speaker? r.family r.client = none → post .full w)
    (hsome : ∀ m, x.speaker? r.family r.client = some m →
      F.Meets halts (fun ask => m.analysis.consult ask r.family (inquiry r m)) w post) :
    F.Meets halts (fun ask => x.query ask r) w post := by
  unfold Chain.query
  cases hm : x.speaker? r.family r.client with
  | none => exact .pure (hnone hm)
  | some m => exact hsome m hm

/-- A query of a composer is noted on the trail, and so is the answer. -/
theorem query {c : Composer V R M} {found : Object V R r.family → World V R M → Prop}
    (hfind : F.Meets halts (fun ask => c.find ask r) (w.note (.requested r)) found)
    (hpost : ∀ o w', found o w' → post o (w'.note (.returned r ⟨r.family, o⟩))) :
    F.Meets halts (fun ask => c.query ask r) w post :=
  .step (F.record _ w) rfl <| hfind.bind fun o w' ho =>
    .step (F.record _ w') rfl (.pure (hpost o w' ho))

/-- A question is answered by queries about its parts, which keep what holds before. -/
theorem respond {c : Composer V R M} {inv : World V R M → Prop}
    (hquery : ∀ term edge, r.about term edge ∈ c.parts r → ∀ w, inv w →
      F.Meets halts (fun ask => c.query ask (r.about term edge)) w fun _ => inv)
    (hw : inv w) : F.Meets halts (fun ask => c.respond ask r) w fun _ => inv := by
  rcases c.respond_cases r with ⟨_, hrespond⟩ | ⟨term, edge, hparts, hrespond⟩ |
    ⟨term, mode, edges, hparts, hrespond⟩
  · simp only [hrespond]
    exact .pure hw
  · simp only [hrespond]
    exact hquery term edge (by rw [hparts]; exact List.mem_singleton_self _) w hw
  · simp only [hrespond]
    have hedges : ∀ edge ∈ edges, ∀ w, inv w →
        F.Meets halts (fun ask => c.query ask (r.about term edge)) w fun _ => inv := by
      intro edge hedge
      refine hquery term edge ?_
      rw [hparts]
      exact List.mem_map_of_mem hedge
    exact (mapM hedges hw).bind fun _ _ hw' => .pure hw'

end Trait.Meets

/-! Where single questions have a trait, everything has it: all assertions may be trivial. -/

namespace Trait

variable {ask : Answerer V R M} {F : Trait ask}

/-- A computation with a trait ends somehow. -/
theorem holds_iff_meets {x : Answerer V R M → Run V R M β} {w : World V R M} :
    F.holds x w ↔ F.Meets (fun _ _ => True) x w fun _ _ => True := by
  refine ⟨fun h => ⟨h, ?_⟩, And.left⟩
  unfold Run.Ends
  split <;> exact trivial

variable (hask : ∀ r w, F.holds (fun ask => ask r) w)

include hask

/-- Nothing needs to be known about plans. -/
theorem guides : Plan.Guides F (fun _ _ => True) (fun (_ : Plan V R M β) _ => True)
    fun _ _ => True where
  give _ _ _ := trivial
  fail _ _ _ := trivial
  ask r _ w _ := holds_iff_meets.1 (hask r w)
  recollect _ _ _ := trivial
  remember _ _ _ _ := trivial
  inspect _ _ _ _ _ := trivial
  clear _ _ _ _ := trivial

theorem run (p : Plan V R M β) (w : World V R M) : F.holds (fun ask => p.run ask) w :=
  holds_iff_meets.2 (.run (guides hask) trivial)

theorem consult (a : Analysis V R M) (family : Family) (q : Inquiry) (w : World V R M) :
    F.holds (fun ask => a.consult ask family q) w :=
  holds_iff_meets.2 (.consult (guides hask) trivial fun _ _ _ => trivial)

variable (t : Tight V R M) (r : Request)

theorem inherited (w : World V R M) : F.holds (fun ask => t.inherited ask r) w :=
  holds_iff_meets.2 (.inherited (fun _ => trivial) fun _ _ => holds_iff_meets.1 (hask _ w))

/-- Nothing needs to be known about the stages of a query. -/
theorem gathers (members : List (Member V R M)) :
    Stages.Gathers (r := r) ⟨fun _ => True, fun _ _ _ => True, fun _ _ => True, fun _ _ => True,
      fun _ _ => True⟩ F (fun _ _ => True) t members where
  skip _ _ _ _ _ _ := trivial
  meanwhile _ _ _ _ _ := ⟨fun _ _ => trivial, fun _ => trivial⟩
  consult m _ _ _ _ w _ _ := by
    split
    · exact holds_iff_meets.1 (consult hask m.analysis _ _ _)
    · exact trivial
  orphan _ _ _ _ := trivial
  inherit _ _ _ w _ := holds_iff_meets.1 (hask _ w)
  kept _ _ _ := ⟨fun _ _ => trivial, fun _ => trivial⟩
  keep _ _ _ _ := by split <;> exact trivial

theorem resolves : Stages.Resolves (r := r) ⟨fun _ => True, fun _ _ _ => True, fun _ _ => True,
    fun _ _ => True, fun _ _ => True⟩ F (fun _ _ => True) t where
  toGathers := gathers hask t r t.members
  found _ _ := ⟨fun _ _ => trivial, fun _ => trivial⟩
  cut _ _ _ _ := trivial
  start _ _ _ _ := trivial
  leave _ _ _ := trivial

theorem gather (members : List (Member V R M)) (answers : List (Object V R r.family))
    (w : World V R M) : F.holds (fun ask => t.gather ask r members answers) w :=
  ((gathers hask t r members).meets_gather (fun _ hm => hm) trivial).1

theorem resolve (w : World V R M) : F.holds (fun ask => t.resolve ask r) w :=
  ((resolves hask t r).meets_resolve trivial).1

variable (c : Composer V R M)

theorem query (w : World V R M) : F.holds (fun ask => c.query ask r) w := by
  have hfind : F.holds (fun ask => c.find ask r) (w.note (.requested r)) := by
    cases c with
    | chain x =>
        exact holds_iff_meets.2 (.chain (fun _ => trivial)
          fun m _ => holds_iff_meets.1 (consult hask m.analysis _ _ _))
    | tight t =>
        exact holds_iff_meets.2 ((resolves hask t r).meets_query trivial fun _ _ _ => trivial)
    | relay x => exact consult hask x.analysis _ _ _
  exact holds_iff_meets.2 (.query (holds_iff_meets.1 hfind) fun _ _ _ => trivial)

/-- Whatever a composer does when it is asked has the trait. -/
theorem respond (w : World V R M) : F.holds (fun ask => c.respond ask r) w :=
  holds_iff_meets.2 (.respond (fun _ _ _ w _ => holds_iff_meets.1 (query hask _ c w)) trivial)

end Trait

/-- A session keeps what its steps keep. -/
theorem Network.session_ends {net : Network V R M} {depth : Nat} {steps : List (Step M)}
    {halts : Halt → World V R M → Prop} {inv : World V R M → Prop}
    (hask : ∀ r, .ask r ∈ steps → ∀ w, inv w → (net.answer depth r).Ends halts w fun _ => inv)
    (hclear : ∀ c, .clear c ∈ steps → ∀ w, inv w → inv (w.clear c))
    (hrevise : ∀ update, .revise update ∈ steps → ∀ w : World V R M, inv w →
      inv { w with memory := update w.memory })
    {w : World V R M} (hw : inv w) : (net.session depth steps).Ends halts w fun _ => inv := by
  induction steps generalizing w with
  | nil => exact .of_ok rfl hw
  | cons step rest ih =>
      have hstep : (net.perform depth step).Ends halts w fun _ => inv := by
        cases step with
        | ask r => exact (hask r List.mem_cons_self w hw).bind fun _ _ _ hw' => .of_ok rfl hw'
        | clear c => exact .of_ok rfl (hclear c List.mem_cons_self w hw)
        | revise update => exact .of_ok rfl (hrevise update List.mem_cons_self w hw)
      refine hstep.bind fun _ w' _ hw' => ih ?_ ?_ ?_ hw'
      · exact fun r hr => hask r (List.mem_cons_of_mem _ hr)
      · exact fun c hc => hclear c (List.mem_cons_of_mem _ hc)
      · exact fun update hu => hrevise update (List.mem_cons_of_mem _ hu)

end JointAnalysis
