import JointAnalysis.Proofs.Provenance
import Mathlib.Logic.Relation

/-!
# What questions mean without a cache

An oracle answers every question at once. With an oracle each plan of an analysis has a meaning, and
with it each question to a composer: the answer of a tight composer is the intersection of what its
parent says and what the members' plans come to, in this order. No cache is looked at.

A question is *grounded* if the plans that answer it read no state and all questions that it raises
are grounded. Grounded questions have a meaning in which the oracle is that meaning itself, defined
by recursion on the questions they raise: `Network.reference`.
-/

namespace JointAnalysis

open Tight

variable {V R M β γ : Type}

/-- Someone who answers every question at once, or tells how asking it ends. -/
abbrev Oracle (V R : Type) : Type := (r : Request) → Except Halt (Object V R r.family)

/-- What becomes of a question that a member asks while it is asked the same question. -/
inductive Recurrence where
  /-- It is like any other question. -/
  | followed
  /-- It is cut off. -/
  | cut
  deriving DecidableEq

/-- The same question about a term, asked by a member that is asked it. -/
abbrev Request.own (r : Request) (self : AnalysisId) : Request :=
  { r with client := self, operand := none }

/-- An oracle as it answers a member that is asked the question `own`. -/
def Oracle.facing (oracle : Oracle V R) (rule : Recurrence) (own : Request) : Oracle V R :=
  fun r => if rule = .cut ∧ r = own then .ok .full else oracle r

namespace Plan

/-- A plan reads no memory and leaves the caches alone. -/
def Stateless : Plan V R M β → Prop
  | .give _ => True
  | .fail _ => True
  | .ask _ next => ∀ answer, (next answer).Stateless
  | .recollect _ => False
  | .remember _ next => next.Stateless
  | .inspect _ _ _ => False
  | .clear _ _ => False

/-- A plan asks this question, if the answers before are suitable. -/
def MayAsk (q : Request) : Plan V R M β → Prop
  | .give _ => False
  | .fail _ => False
  | .ask r next => r = q ∨ ∃ answer, (next answer).MayAsk q
  | .recollect next => ∃ memory, (next memory).MayAsk q
  | .remember _ next => next.MayAsk q
  | .inspect _ _ next => ∃ state size, (next state size).MayAsk q
  | .clear _ next => next.MayAsk q

/-- What a plan comes to when an oracle answers. Nothing comes of a plan that is not stateless. -/
def meaning (oracle : Oracle V R) : Plan V R M β → Except Halt β
  | .give result => .ok result
  | .fail fault => .error (.fault fault)
  | .ask r next => do
    let answer ← oracle r
    (next answer).meaning oracle
  | .recollect _ => .error .exhausted
  | .remember _ next => next.meaning oracle
  | .inspect _ _ _ => .error .exhausted
  | .clear _ _ => .error .exhausted

/-- The questions that a plan asks when an oracle answers. -/
def questions (oracle : Oracle V R) : Plan V R M β → List Request
  | .ask r next =>
    r :: match oracle r with
      | .ok answer => (next answer).questions oracle
      | .error _ => []
  | .remember _ next => next.questions oracle
  | _ => []

/-- What a plan comes to depends only on the answers to questions that it may ask. -/
theorem meaning_congr {o₁ o₂ : Oracle V R} {p : Plan V R M β}
    (h : ∀ q, p.MayAsk q → o₁ q = o₂ q) : p.meaning o₁ = p.meaning o₂ := by
  induction p with
  | give result => rfl
  | fail fault => rfl
  | ask r next ih =>
      rw [meaning, meaning, h r (.inl rfl)]
      congr 1
      funext answer
      exact ih answer fun q hq => h q (.inr ⟨answer, hq⟩)
  | recollect next ih => rfl
  | remember update next ih => exact ih h
  | inspect c key next ih => rfl
  | clear c next ih => rfl

/-- The questions that a plan asks are among those that it may ask. -/
theorem mayAsk_of_mem_questions {oracle : Oracle V R} {p : Plan V R M β} {q : Request}
    (hq : q ∈ p.questions oracle) : p.MayAsk q := by
  induction p with
  | give result => cases hq
  | fail fault => cases hq
  | ask r next ih =>
      rw [questions, List.mem_cons] at hq
      rcases hq with rfl | hq
      · exact .inl rfl
      · split at hq
        · next answer _ => exact .inr ⟨answer, ih answer hq⟩
        · cases hq
  | recollect next ih => cases hq
  | remember update next ih => exact ih hq
  | inspect c key next ih => cases hq
  | clear c next ih => cases hq

end Plan

/-- An analysis that knows constants is stateless. -/
theorem Analysis.constant_stateless (name : String) (direction : Direction)
    (values : TermId → Option Int64) (tally : M → M) (family : Family) (q : Inquiry) :
    ((constant name direction values tally).answer family q).Stateless := by
  cases family <;> exact trivial

/-- An analysis that echoes is stateless. -/
theorem Analysis.echo_stateless (name : String) (redirect : TermId → Option TermId) (tally : M → M)
    (family : Family) (q : Inquiry) : ((echo name redirect tally).answer family q).Stateless := by
  cases family with
  | value => exact fun _ => trivial
  | codeLoc => exact trivial
  | memRegion => exact trivial
  | memLoc => exact trivial

/-- What a chain answers about a term when an oracle answers its members. -/
def Chain.meaning (x : Chain V R M) (oracle : Oracle V R) (r : Request) :
    Except Halt (Object V R r.family) :=
  match x.speaker? r.family r.client with
  | none => .ok .full
  | some m => (m.analysis.answer r.family (inquiry r m)).meaning oracle

/-- What a relay answers about a term when an oracle answers its analysis. -/
def Relay.meaning (x : Relay V R M) (oracle : Oracle V R) (r : Request) :
    Except Halt (Object V R r.family) :=
  (x.analysis.answer r.family ⟨r.term, r.edge, r.composer, r.client⟩).meaning oracle

namespace Tight

/-- What an oracle answers for the parent, if there is one. -/
def above (t : Tight V R M) (oracle : Oracle V R) (r : Request) :
    Except Halt (List (Object V R r.family)) :=
  match t.parent with
  | none => .ok []
  | some p => do
    let answer ← oracle { r with composer := p, client := t.id, operand := none }
    pure [answer]

/-- What members that handle the family answer about a term when an oracle answers them. -/
def below (rule : Recurrence) (oracle : Oracle V R) (r : Request) (members : List (Member V R M)) :
    Except Halt (List (Object V R r.family)) :=
  (members.filter (·.analysis.handles r.family)).mapM fun m =>
    (m.analysis.answer r.family (inquiry r m)).meaning (oracle.facing rule (r.own m.id))

/-- What a tight composer answers about a term when an oracle answers its members and for its
parent: the intersection of all they say, the parent first and then the members in order. -/
def meaning (t : Tight V R M) (rule : Recurrence) (oracle : Oracle V R) (r : Request) :
    Except Halt (Object V R r.family) := do
  let answers ← below rule oracle r t.members
  let above ← t.above oracle r
  pure (.combined .intersect (above ++ answers))

end Tight

/-- What a composer answers when an oracle answers its analyses, for its parent, and about terms
that it is asked about as operands. -/
def Composer.meaning (c : Composer V R M) (rule : Recurrence) (oracle : Oracle V R) (r : Request) :
    Except Halt (Object V R r.family) :=
  match r.operand with
  | none =>
    match c with
    | .chain x => x.meaning oracle r
    | .tight t => t.meaning rule oracle r
    | .relay x => x.meaning oracle r
  | some operand =>
    match c with
    | .tight t =>
      match t.source r.term operand r.edge with
      | .unknown => .ok .full
      | .here => oracle (r.about operand r.edge)
      | .along [edge] => oracle (r.about operand edge)
      | .along edges => do
        let answers ← edges.mapM fun edge => oracle (r.about operand edge)
        pure (.combined t.config.operandMode answers)
    | _ => oracle (r.about operand r.edge)

/-- What a network answers when an oracle answers the questions that are raised. -/
def Network.meaning (net : Network V R M) (rule : Recurrence) (oracle : Oracle V R) (r : Request) :
    Except Halt (Object V R r.family) :=
  match net.composer? r.composer with
  | none => .ok .full
  | some c => c.meaning rule oracle r

/-- To answer a question, a composer may have to have another one answered. -/
inductive Network.Raises (net : Network V R M) (rule : Recurrence) (r : Request) : Request → Prop
  | part {c : Composer V R M} {q : Request} (hc : net.composer? r.composer = some c)
    (ho : r.operand ≠ none) (hq : q ∈ c.parts r) : Raises net rule r q
  | speaker {x : Chain V R M} {m : Member V R M} {q : Request}
    (hc : net.composer? r.composer = some (.chain x)) (ho : r.operand = none)
    (hm : x.speaker? r.family r.client = some m)
    (hq : (m.analysis.answer r.family (inquiry r m)).MayAsk q) : Raises net rule r q
  | member {t : Tight V R M} {m : Member V R M} {q : Request}
    (hc : net.composer? r.composer = some (.tight t)) (ho : r.operand = none) (hm : m ∈ t.members)
    (hears : m.analysis.handles r.family = true)
    (hq : (m.analysis.answer r.family (inquiry r m)).MayAsk q)
    (hown : rule = .cut → q ≠ r.own m.id) : Raises net rule r q
  | parent {t : Tight V R M} {p : ComposerId} (hc : net.composer? r.composer = some (.tight t))
    (ho : r.operand = none) (hp : t.parent = some p) :
    Raises net rule r { r with composer := p, client := t.id, operand := none }
  | relay {x : Relay V R M} {q : Request} (hc : net.composer? r.composer = some (.relay x))
    (ho : r.operand = none)
    (hq : (x.analysis.answer r.family ⟨r.term, r.edge, r.composer, r.client⟩).MayAsk q) :
    Raises net rule r q

/-- The plans that answer a question about a term are stateless. -/
def Composer.Stateless (r : Request) : Composer V R M → Prop
  | .chain x => ∀ m, x.speaker? r.family r.client = some m →
    (m.analysis.answer r.family (inquiry r m)).Stateless
  | .tight t => ∀ m ∈ t.members, m.analysis.handles r.family = true →
    (m.analysis.answer r.family (inquiry r m)).Stateless
  | .relay x => (x.analysis.answer r.family ⟨r.term, r.edge, r.composer, r.client⟩).Stateless

/-- A question is answered by stateless plans, and so are all questions that it raises, which come
to an end. -/
inductive Network.Grounded (net : Network V R M) : Request → Prop
  | intro {r : Request}
    (stateless : r.operand = none → ∀ c, net.composer? r.composer = some c → c.Stateless r)
    (raised : ∀ q, net.Raises .cut r q → Grounded net q) : Grounded net r

/-- Computations in turn depend only on the computations for the elements of the list. -/
theorem mapM_congr {m : Type → Type} [Monad m] [LawfulMonad m] {f g : β → m γ} {l : List β}
    (h : ∀ b ∈ l, f b = g b) : l.mapM f = l.mapM g := by
  induction l with
  | nil => rfl
  | cons b rest ih =>
      obtain ⟨hfirst, hrest⟩ := List.forall_mem_cons.1 h
      rw [List.mapM_cons, List.mapM_cons, hfirst, ih hrest]

namespace Tight

variable {t : Tight V R M} {rule : Recurrence} {oracle : Oracle V R} {r : Request}
  {m : Member V R M} {rest : List (Member V R M)}

/-- A member that does not handle the family says nothing. -/
theorem below_skip (hm : m.analysis.handles r.family = false) :
    below rule oracle r (m :: rest) = below rule oracle r rest := by
  simp [below, hm]

/-- What the first member says comes first. -/
theorem below_cons (hm : m.analysis.handles r.family = true) :
    below rule oracle r (m :: rest) = (do
      let answer ←
        (m.analysis.answer r.family (inquiry r m)).meaning (oracle.facing rule (r.own m.id))
      let others ← below rule oracle r rest
      pure (answer :: others)) := by
  simp [below, hm]

/-- What members say depends only on what their plans come to. -/
theorem below_congr {rule₁ rule₂ : Recurrence} {o₁ o₂ : Oracle V R}
    {members : List (Member V R M)}
    (h : ∀ m ∈ members, m.analysis.handles r.family = true →
      (m.analysis.answer r.family (inquiry r m)).meaning (o₁.facing rule₁ (r.own m.id)) =
        (m.analysis.answer r.family (inquiry r m)).meaning (o₂.facing rule₂ (r.own m.id))) :
    below rule₁ o₁ r members = below rule₂ o₂ r members := by
  refine mapM_congr fun m hm => ?_
  obtain ⟨hmember, hears⟩ := List.mem_filter.1 hm
  exact h m hmember hears

/-- What is inherited depends only on the answer for the parent. -/
theorem above_congr {o₁ o₂ : Oracle V R}
    (h : ∀ p, t.parent = some p →
      o₁ { r with composer := p, client := t.id, operand := none } =
        o₂ { r with composer := p, client := t.id, operand := none }) :
    t.above o₁ r = t.above o₂ r := by
  unfold above
  cases hp : t.parent with
  | none => rfl
  | some p => simp only [h p hp]

/-- A tight composer answers with an intersection. -/
theorem meaning_eq_ok {o : Object V R r.family} (h : t.meaning rule oracle r = .ok o) :
    ∃ children, o = .combined .intersect children := by
  unfold meaning at h
  cases hbelow : below rule oracle r t.members with
  | error halt => simp [hbelow, bind, Except.bind] at h
  | ok answers =>
      cases habove : t.above oracle r with
      | error halt => simp [hbelow, habove, bind, Except.bind] at h
      | ok above =>
          simp only [hbelow, habove, bind, Except.bind, pure, Except.pure, Except.ok.injEq] at h
          exact ⟨above ++ answers, h.symm⟩

end Tight

/-- What is asked about an operand has no parts and nothing is known, or it has one part and the
same answer, or the answers to its parts are combined. -/
theorem Composer.operand_cases (c : Composer V R M) {r : Request} (ho : r.operand ≠ none) :
    (c.parts r = [] ∧ (∀ ask, c.respond ask r = pure .full) ∧
      ∀ rule oracle, c.meaning rule oracle r = .ok .full) ∨
    (∃ term edge, c.parts r = [r.about term edge] ∧
      (∀ ask, c.respond ask r = c.query ask (r.about term edge)) ∧
      ∀ rule oracle, c.meaning rule oracle r = oracle (r.about term edge)) ∨
    ∃ term mode, ∃ edges : List EdgeId, c.parts r = edges.map (r.about term) ∧
      (∀ ask, c.respond ask r = (do
        let answers ← edges.mapM fun edge => c.query ask (r.about term edge)
        pure (.combined mode answers))) ∧
      ∀ rule oracle, c.meaning rule oracle r = (do
        let answers ← edges.mapM fun edge => oracle (r.about term edge)
        pure (.combined mode answers)) := by
  obtain ⟨d, family, term, edge, client, operand⟩ := r
  cases operand with
  | none => exact absurd rfl ho
  | some operand =>
      cases c with
      | chain x => exact .inr (.inl ⟨operand, edge, rfl, fun _ => rfl, fun _ _ => rfl⟩)
      | relay x => exact .inr (.inl ⟨operand, edge, rfl, fun _ => rfl, fun _ _ => rfl⟩)
      | tight t =>
          simp only [parts, Tight.parts, respond, meaning]
          cases t.source term operand edge with
          | unknown => exact .inl ⟨rfl, fun _ => rfl, fun _ _ => rfl⟩
          | here => exact .inr (.inl ⟨operand, edge, rfl, fun _ => rfl, fun _ _ => rfl⟩)
          | along edges =>
              rcases edges with _ | ⟨e₁, _ | ⟨e₂, rest⟩⟩
              · exact .inr (.inr ⟨operand, _, [], rfl, fun _ => rfl, fun _ _ => rfl⟩)
              · exact .inr (.inl ⟨operand, e₁, rfl, fun _ => rfl, fun _ _ => rfl⟩)
              · exact .inr (.inr ⟨operand, _, e₁ :: e₂ :: rest, rfl, fun _ => rfl, fun _ _ => rfl⟩)

namespace Network

variable {net : Network V R M} {rule : Recurrence} {r : Request}

/-- The meaning of a question depends only on the answers to questions that it raises. -/
theorem meaning_congr {o₁ o₂ : Oracle V R} (h : ∀ q, net.Raises rule r q → o₁ q = o₂ q) :
    net.meaning rule o₁ r = net.meaning rule o₂ r := by
  unfold meaning
  cases hc : net.composer? r.composer with
  | none => rfl
  | some c =>
      show c.meaning rule o₁ r = c.meaning rule o₂ r
      by_cases ho : r.operand = none
      · simp only [Composer.meaning, ho]
        cases c with
        | chain x =>
            simp only [Chain.meaning]
            cases hm : x.speaker? r.family r.client with
            | none => rfl
            | some m => exact Plan.meaning_congr fun q hq => h q (.speaker hc ho hm hq)
        | tight t =>
            have hbelow : below rule o₁ r t.members = below rule o₂ r t.members := by
              refine below_congr fun m hm hears => Plan.meaning_congr fun q hq => ?_
              unfold Oracle.facing
              split
              · rfl
              · next hown =>
                  exact h q (.member hc ho hm hears hq fun hrule heq => hown ⟨hrule, heq⟩)
            have habove : t.above o₁ r = t.above o₂ r :=
              above_congr fun p hp => h _ (.parent hc ho hp)
            simp only [Tight.meaning, hbelow, habove]
        | relay x => exact Plan.meaning_congr fun q hq => h q (.relay hc ho hq)
      · have hpart : ∀ q ∈ c.parts r, o₁ q = o₂ q := fun q hq => h q (.part hc ho hq)
        rcases c.operand_cases ho with ⟨_, _, hmeaning⟩ | ⟨term, edge, hparts, _, hmeaning⟩ |
          ⟨term, mode, edges, hparts, _, hmeaning⟩
        · rw [hmeaning, hmeaning]
        · rw [hmeaning, hmeaning]
          exact hpart _ (by simp [hparts])
        · have hedges : ∀ edge ∈ edges, o₁ (r.about term edge) = o₂ (r.about term edge) := by
            intro edge hedge
            refine hpart _ ?_
            rw [hparts]
            exact List.mem_map_of_mem hedge
          rw [hmeaning, hmeaning, mapM_congr hedges]

/-- The questions that a grounded question raises are well founded. -/
theorem raises_wellFounded (net : Network V R M) :
    WellFounded fun q r => net.Grounded r ∧ net.Raises .cut r q := by
  refine ⟨fun r => ?_⟩
  by_cases hr : net.Grounded r
  · induction hr with
    | intro _ _ ih => exact .intro _ fun q hq => ih q hq.2
  · exact .intro r fun q hq => absurd hq.1 hr

open Classical in
/-- The meaning of questions with that meaning for the oracle, by recursion on the questions that
are raised. Questions that are not grounded have no such meaning. -/
noncomputable def reference (net : Network V R M) : Oracle V R :=
  net.raises_wellFounded.fix fun r recur =>
    net.meaning .cut
      (fun q => if h : net.Grounded r ∧ net.Raises .cut r q then recur q h else .error .exhausted) r

/-- The reference of a grounded question is its meaning with the reference for the oracle. -/
theorem Grounded.reference_eq (h : net.Grounded r) :
    net.reference r = net.meaning .cut net.reference r := by
  rw [reference, WellFounded.fix_eq]
  refine meaning_congr fun q hq => ?_
  rw [dif_pos ⟨h, hq⟩]

/-- A grounded question never comes back to itself. -/
theorem Grounded.not_circular (h : net.Grounded r) :
    ¬ Relation.TransGen (net.Raises .cut) r r := by
  induction h with
  | @intro r _ _ ih =>
      intro hcircle
      -- the first step of the circle leads to a question that is on the circle too
      obtain ⟨q, hfirst, hrest⟩ := Relation.TransGen.head'_iff.1 hcircle
      exact ih q hfirst (Relation.TransGen.tail' hrest hfirst)

/-- What a grounded question leads to is grounded. -/
theorem Grounded.trans {q : Request} (h : net.Grounded r)
    (hq : Relation.ReflTransGen (net.Raises .cut) r q) : net.Grounded q := by
  induction hq with
  | refl => exact h
  | tail _ hstep ih =>
      cases ih with
      | intro _ hraised => exact hraised _ hstep

section Clients

variable {t : Tight V R M} (ht : net.composer? r.composer = some (.tight t))
  (ho : r.operand = none) (asker : AnalysisId)

include ht ho

/-- A question to a tight composer raises the same questions whoever asks. -/
theorem Raises.client {q : Request} (h : net.Raises rule r q) :
    net.Raises rule { r with client := asker } q := by
  cases h with
  | part _ hoperand _ => exact absurd ho hoperand
  | speaker hc => cases ht.symm.trans hc
  | member hc _ hm hears hq hown => exact .member hc ho hm hears hq hown
  | parent hc _ hp => exact .parent hc ho hp
  | relay hc => cases ht.symm.trans hc

/-- A question to a tight composer is grounded whoever asks. -/
theorem Grounded.client (h : net.Grounded r) : net.Grounded { r with client := asker } := by
  cases h with
  | intro hstateless hraised =>
      refine .intro (fun _ c hc => ?_) fun q hq => ?_
      · obtain rfl := Option.some.inj (ht.symm.trans hc)
        exact hstateless ho _ ht
      · exact hraised q (Raises.client (r := { r with client := asker }) ht ho r.client hq)

/-- A question to a tight composer has the same meaning whoever asks. -/
theorem Grounded.reference_client (h : net.Grounded r) :
    net.reference { r with client := asker } = net.reference r := by
  rw [(h.client ht ho asker).reference_eq, h.reference_eq]
  simp only [meaning, ht, Composer.meaning, ho]
  rfl

end Clients

/-- Nothing is raised only because questions are cut off. -/
theorem Raises.followed {q : Request} (h : net.Raises .cut r q) : net.Raises .followed r q := by
  cases h with
  | part hc ho hq => exact .part hc ho hq
  | speaker hc ho hm hq => exact .speaker hc ho hm hq
  | member hc ho hm hears hq _ => exact .member hc ho hm hears hq (by simp)
  | parent hc ho hp => exact .parent hc ho hp
  | relay hc ho hq => exact .relay hc ho hq

/-- What a grounded question raises is grounded, also if no question is cut off. -/
theorem Grounded.raised {q : Request} (h : net.Grounded r) (hq : net.Raises .followed r q) :
    net.Grounded q := by
  have hraised : ∀ q, net.Raises .cut r q → net.Grounded q := fun q hq => h.trans (.single hq)
  cases hq with
  | part hc ho hq => exact hraised q (.part hc ho hq)
  | speaker hc ho hm hq => exact hraised q (.speaker hc ho hm hq)
  | @member t m _ hc ho hm hears hq _ =>
      by_cases hown : q = r.own m.id
      · rw [hown, Request.own, ← ho]
        exact h.client hc ho m.id
      · exact hraised q (.member hc ho hm hears hq fun _ => hown)
  | parent hc ho hp => exact hraised _ (.parent hc ho hp)
  | relay hc ho hq => exact hraised q (.relay hc ho hq)

/-- Where no member of a tight composer asks the question that it is asked, it does not matter what
becomes of such questions. -/
theorem meaning_followed (oracle : Oracle V R)
    (h : ∀ t, net.composer? r.composer = some (.tight t) → r.operand = none →
      ∀ self, ¬ net.Raises .followed r (r.own self)) :
    net.meaning .followed oracle r = net.meaning .cut oracle r := by
  unfold meaning
  cases hc : net.composer? r.composer with
  | none => rfl
  | some c =>
      show c.meaning .followed oracle r = c.meaning .cut oracle r
      by_cases ho : r.operand = none
      · cases c with
        | chain x => simp only [Composer.meaning, ho]
        | relay x => simp only [Composer.meaning, ho]
        | tight t =>
            have hbelow : below .followed oracle r t.members = below .cut oracle r t.members := by
              refine below_congr fun m hm hears => Plan.meaning_congr fun q hq => ?_
              have hown : q ≠ r.own m.id := by
                rintro rfl
                exact h t hc ho m.id (.member hc ho hm hears hq (by simp))
              simp [Oracle.facing, hown]
            simp only [Composer.meaning, ho, Tight.meaning, hbelow]
      · rcases c.operand_cases ho with ⟨_, _, hmeaning⟩ | ⟨_, _, _, _, hmeaning⟩ |
          ⟨_, _, _, _, _, hmeaning⟩ <;> rw [hmeaning, hmeaning]

end Network

/-- Two questions about one query of a composer differ only in who asks. -/
theorem Request.eq_of_key {r q : Request} (hc : q.composer = r.composer) (hkey : q.key = r.key)
    (hr : r.operand = none) (hq : q.operand = none) : q = { r with client := q.client } := by
  obtain ⟨c, family, term, edge, client, operand⟩ := r
  obtain ⟨c', family', term', edge', client', operand'⟩ := q
  simp only [Request.key, QueryKey.mk.injEq] at hkey
  obtain ⟨rfl, rfl, hkind⟩ := hkey
  obtain rfl := Family.kind_injective hkind
  simp only at hc hr hq
  subst hc hr hq
  rfl

end JointAnalysis
