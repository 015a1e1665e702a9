import JointAnalysis.Proofs.DispatchBound
import JointAnalysis.Proofs.Redirection
import Mathlib.Data.List.Forall2
import Mathlib.Data.List.TakeWhile

/-!
# Chains are layered

In a chain every question is answered by a member that stands before the one who asks, and what this
member asks in turn it asks under its own identity. So the questions go to the front of the chain,
and there are never more of them inside each other than there are members: `Chain.completes`. What a
member is told depends on the members before it only. Read `Plan.Alike` first, which compares what
two members do in different chains, and then `Chain.agree`. For chains of simple analyses
`Layer.walk` says what the answer is.
-/

namespace JointAnalysis

variable {V R M β γ : Type}

/-- A request to the composer that the inquiry names, on behalf of the analysis that is asked. -/
def Inquiry.Routes (q : Inquiry) (r : Request) : Prop := r.composer = q.composer ∧ r.client = q.self

/-- Whatever it is asked, and by whomever, an analysis asks only in the way that it is told to. -/
def Analysis.AsksInContext (a : Analysis V R M) : Prop :=
  ∀ family q, (a.answer family q).Asks q.Routes

/-- A computation that never runs out of depth. -/
def Run.Completes (x : Run V R M β) : Prop := ∀ w, (x.outcome w).1 ≠ .error .exhausted

namespace Run.Completes

/-- A computation with a result. -/
theorem pure (b : β) : (Pure.pure b : Run V R M β).Completes := by
  intro w h
  cases h

/-- A fault is not for want of depth. -/
theorem fail (fault : Fault) : (Run.fail fault : Run V R M β).Completes := by
  intro w h
  cases h

/-- Noting an event takes no depth. -/
theorem record (e : Event V R) : (Run.record e : Run V R M Unit).Completes := by
  intro w h
  cases h

/-- A sequence never runs out of depth if its parts do not. -/
theorem bind {x : Run V R M β} {f : β → Run V R M γ} (hx : x.Completes)
    (hf : ∀ b, (f b).Completes) : (x >>= f).Completes := by
  intro w
  have hfirst := hx w
  rw [outcome_bind]
  rcases hres : x.outcome w with ⟨halt | b, w'⟩
  · rw [hres] at hfirst
    intro h
    cases h
    exact hfirst rfl
  · exact hf b w'

end Run.Completes

section Ending

variable {ask : Answerer V R M} {kind : Request → Prop} (hask : ∀ r, kind r → (ask r).Completes)

include hask

/-- A plan never runs out of depth if its questions do not. -/
theorem Plan.run_completes (p : Plan V R M β) (hp : p.Asks kind) : (p.run ask).Completes := by
  induction p with
  | give result => exact .pure result
  | fail fault => exact .fail fault
  | ask r next ih => exact (hask r hp.1).bind fun answer => ih answer (hp.2 answer)
  | recollect next ih => exact fun w => ih w.memory (hp w.memory) w
  | remember update next ih =>
      intro w
      exact ih hp { w with memory := update w.memory }
  | inspect d key next ih =>
      intro w
      exact ih _ _ (hp _ _) w
  | clear d next ih =>
      intro w
      exact ih hp (w.clear d)

/-- Consulting an analysis never runs out of depth if its questions do not. -/
theorem Analysis.consult_completes {a : Analysis V R M} {family : Family} {q : Inquiry}
    (ha : (a.answer family q).Asks kind) : (a.consult ask family q).Completes :=
  .bind (.record _) fun _ => .bind (Plan.run_completes hask _ ha) fun _ =>
    .bind (.record _) fun _ => .pure _

end Ending

/-- The members that may answer a client. -/
def Chain.before (c : Chain V R M) (client : AnalysisId) : List (Member V R M) :=
  c.members.takeWhile (·.id ≠ client)

namespace Chain

variable {net : Network V R M} {k : ComposerId} {c : Chain V R M}

/-- A question about an operand is one about the operand as a term. -/
theorem respond_eq (c : Chain V R M) (ask : Answerer V R M) (r : Request) :
    (Composer.chain c).respond ask r =
      (Composer.chain c).query ask (r.about (r.operand.getD r.term) r.edge) := by
  obtain ⟨composer, family, term, edge, client, operand⟩ := r
  cases operand with
  | none => rfl
  | some operand => rfl

/-- A network answers a question to a chain in the way of the chain. -/
theorem answer_succ (hc : net.composer? k = some (.chain c)) (depth : Nat) {r : Request}
    (hr : r.composer = k) :
    net.answer (depth + 1) r =
      (Composer.chain c).query (net.answer depth) (r.about (r.operand.getD r.term) r.edge) := by
  rw [Network.answer, hr, hc]
  exact c.respond_eq _ r

/-- Nesting is bounded by the number of members before the client: the member that answers has fewer
members before it, and whatever it asks it asks as itself. -/
theorem completes (hc : net.composer? k = some (.chain c))
    (hmembers : ∀ m ∈ c.members, m.analysis.AsksInContext) {depth : Nat} {r : Request}
    (hr : r.composer = k) (hdepth : (c.before r.client).length < depth) :
    (net.answer depth r).Completes := by
  induction depth generalizing r with
  | zero => omega
  | succ depth ih =>
      rw [answer_succ hc depth hr]
      refine .bind (.record _) fun _ => .bind ?_ fun _ => .bind (.record _) fun _ => .pure _
      show (c.query _ _).Completes
      unfold Chain.query
      cases hs : c.speaker? r.family r.client with
      | none => exact .pure _
      | some m =>
          have hbefore : m ∈ c.before r.client :=
            List.mem_reverse.1 (List.mem_of_find?_eq_some hs)
          have hfewer : (c.before m.id).length < (c.before r.client).length :=
            length_takeWhile_lt hbefore
          refine Analysis.consult_completes (fun q hq => ?_)
            (hmembers m (speaker?_eq_some hs).1 r.family ⟨_, _, _, m.id⟩)
          obtain ⟨hcomposer, hclient⟩ := hq
          refine ih (hcomposer.trans hr) ?_
          rw [hclient]
          show (c.before m.id).length < depth
          omega

end Chain

/-- Two worlds that differ in their trails at most. -/
def World.Agrees (w w' : World V R M) : Prop := w.desk = w'.desk ∧ w.memory = w'.memory

/-- A world that agrees with another one is the other one with another trail. -/
theorem World.Agrees.eq {w w' : World V R M} (h : w.Agrees w') :
    ∃ trail, w' = { w with trail } := by
  obtain ⟨desk, memory, trail⟩ := w
  obtain ⟨desk', memory', trail'⟩ := w'
  obtain ⟨hdesk, hmemory⟩ := h
  cases hdesk
  cases hmemory
  exact ⟨trail', rfl⟩

/-- In worlds that agree, two computations have the same result or the same reason to have none, and
they leave worlds that agree. -/
def Run.Agree (x x' : Run V R M β) : Prop :=
  ∀ w w', w.Agrees w' →
    (x.outcome w).1 = (x'.outcome w').1 ∧ (x.outcome w).2.Agrees (x'.outcome w').2

namespace Run.Agree

/-- A result is the same in all worlds. -/
theorem pure (b : β) : Run.Agree (Pure.pure b : Run V R M β) (Pure.pure b) :=
  fun _ _ h => ⟨rfl, h⟩

/-- So is the reason for having no result. -/
theorem halt (reason : Halt) : Run.Agree (throw reason : Run V R M β) (throw reason) :=
  fun _ _ h => ⟨rfl, h⟩

/-- Events may differ. -/
theorem record (e e' : Event V R) : Run.Agree (Run.record e : Run V R M Unit) (Run.record e') :=
  fun _ _ h => ⟨rfl, h⟩

/-- Sequences agree if their parts do. -/
theorem bind {x x' : Run V R M β} {f f' : β → Run V R M γ} (hx : Run.Agree x x')
    (hf : ∀ b, Run.Agree (f b) (f' b)) : Run.Agree (x >>= f) (x' >>= f') := by
  intro w w' hw
  obtain ⟨hresult, hworld⟩ := hx w w' hw
  rw [outcome_bind, outcome_bind]
  rcases hres : x.outcome w with ⟨halt | b, w₁⟩ <;>
    rcases hres' : x'.outcome w' with ⟨halt' | b', w₁'⟩ <;>
    rw [hres, hres'] at hresult hworld <;> cases hresult
  · exact ⟨rfl, hworld⟩
  · exact hf b w₁ w₁' hworld

end Run.Agree

/-- Two plans for different inquiries go the same way: where one of them asks a question as its
inquiry says, the other one asks the same as its own inquiry says, and whatever they learn they go
on alike. -/
inductive Plan.Alike (q q' : Inquiry) : Plan V R M β → Plan V R M β → Prop where
  | give (result : β) : Alike q q' (.give result) (.give result)
  | fail (fault : Fault) : Alike q q' (.fail fault) (.fail fault)
  | ask (family : Family) (term : TermId) (edge : EdgeId) (operand : Option TermId)
      (next next' : Object V R family → Plan V R M β)
      (h : ∀ answer, Alike q q' (next answer) (next' answer)) :
      Alike q q' (.ask ⟨q.composer, family, term, edge, q.self, operand⟩ next)
        (.ask ⟨q'.composer, family, term, edge, q'.self, operand⟩ next')
  | recollect (next next' : M → Plan V R M β)
      (h : ∀ memory, Alike q q' (next memory) (next' memory)) :
      Alike q q' (.recollect next) (.recollect next')
  | remember (update : M → M) (next next' : Plan V R M β) (h : Alike q q' next next') :
      Alike q q' (.remember update next) (.remember update next')
  | inspect (d : ComposerId) (key : QueryKey)
      (next next' : Option QueryState → Nat → Plan V R M β)
      (h : ∀ state size, Alike q q' (next state size) (next' state size)) :
      Alike q q' (.inspect d key next) (.inspect d key next')
  | clear (d : ComposerId) (next next' : Plan V R M β) (h : Alike q q' next next') :
      Alike q q' (.clear d next) (.clear d next')

/-- A plan that asks as its inquiry says goes the same way as itself. -/
theorem Plan.Asks.alike {q : Inquiry} {p : Plan V R M β} (hp : p.Asks q.Routes) :
    Plan.Alike q q p p := by
  induction p with
  | give result => exact .give result
  | fail fault => exact .fail fault
  | ask r next ih =>
      obtain ⟨composer, family, term, edge, client, operand⟩ := r
      obtain ⟨hroute, hnext⟩ := hp
      obtain ⟨hcomposer, hclient⟩ := hroute
      cases hcomposer
      cases hclient
      exact .ask _ _ _ _ _ _ fun answer => ih answer (hnext answer)
  | recollect next ih => exact .recollect _ _ fun memory => ih memory (hp memory)
  | remember update next ih => exact .remember _ _ _ (ih hp)
  | inspect d key next ih =>
      exact .inspect _ _ _ _ fun state size => ih state size (hp state size)
  | clear d next ih => exact .clear _ _ _ (ih hp)

/-- Plans that go the same way agree if their questions are answered in the same way. -/
theorem Plan.Alike.run {q q' : Inquiry} {ask ask' : Answerer V R M} {p p' : Plan V R M β}
    (h : Plan.Alike q q' p p')
    (hask : ∀ family term edge operand,
      Run.Agree (ask ⟨q.composer, family, term, edge, q.self, operand⟩)
        (ask' ⟨q'.composer, family, term, edge, q'.self, operand⟩)) :
    Run.Agree (p.run ask) (p'.run ask') := by
  induction h with
  | give result => exact .pure result
  | fail fault => exact .halt _
  | ask family term edge operand next next' _ ih =>
      exact (hask family term edge operand).bind ih
  | recollect next next' _ ih =>
      intro w w' hw
      obtain ⟨trail, rfl⟩ := hw.eq
      exact ih w.memory w _ hw
  | remember update next next' _ ih =>
      intro w w' hw
      exact ih _ _ ⟨hw.1, congrArg update hw.2⟩
  | inspect d key next next' _ ih =>
      intro w w' hw
      obtain ⟨trail, rfl⟩ := hw.eq
      exact ih ((w.cache d).state? key) (w.cache d).size w _ hw
  | clear d next next' _ ih =>
      intro w w' hw
      obtain ⟨trail, rfl⟩ := hw.eq
      exact ih (w.clear d) _ ⟨rfl, rfl⟩

/-- Consulting analyses whose plans go the same way. -/
theorem Analysis.consult_agree {a a' : Analysis V R M} {family : Family} {q q' : Inquiry}
    {ask ask' : Answerer V R M} (h : Plan.Alike q q' (a.answer family q) (a'.answer family q'))
    (hask : ∀ family term edge operand,
      Run.Agree (ask ⟨q.composer, family, term, edge, q.self, operand⟩)
        (ask' ⟨q'.composer, family, term, edge, q'.self, operand⟩)) :
    Run.Agree (a.consult ask family q) (a'.consult ask' family q') :=
  .bind (.record _ _) fun _ => .bind (h.run hask) fun _ => .bind (.record _ _) fun _ => .pure _

/-- Two members do the same in their chains: they handle the same families, and asked about the same
they follow plans that go the same way. -/
structure Member.Same (k k' : ComposerId) (m m' : Member V R M) : Prop where
  handles : ∀ family, m.analysis.handles family = m'.analysis.handles family
  answer : ∀ family term edge, Plan.Alike ⟨term, edge, k, m.id⟩ ⟨term, edge, k', m'.id⟩
    (m.analysis.answer family ⟨term, edge, k, m.id⟩)
    (m'.analysis.answer family ⟨term, edge, k', m'.id⟩)

/-- A member that asks only as it is told does the same as itself. -/
theorem Member.Same.refl {k : ComposerId} {m : Member V R M} (hm : m.analysis.AsksInContext) :
    Member.Same k k m m :=
  ⟨fun _ => rfl, fun family _ _ => (hm family _).alike⟩

/-- Of members that pairwise do the same, the first ones to handle a family have the same place. -/
theorem Member.find?_same {k k' : ComposerId} {l l' : List (Member V R M)}
    (h : List.Forall₂ (Member.Same k k') l l') (family : Family) :
    (l.find? (·.analysis.handles family) = none ∧ l'.find? (·.analysis.handles family) = none) ∨
      ∃ skipped m rest skipped' m' rest',
        l = skipped ++ m :: rest ∧ l' = skipped' ++ m' :: rest' ∧
        l.find? (·.analysis.handles family) = some m ∧
        l'.find? (·.analysis.handles family) = some m' ∧
        Member.Same k k' m m' ∧ List.Forall₂ (Member.Same k k') rest rest' := by
  induction h with
  | nil => exact .inl ⟨rfl, rfl⟩
  | cons hm hrest ih =>
      rename_i m m' rest rest'
      have hhandles' := hm.handles family
      cases hhandles : m.analysis.handles family with
      | true =>
          rw [hhandles] at hhandles'
          refine .inr ⟨[], m, rest, [], m', rest', rfl, rfl, ?_, ?_, hm, hrest⟩
          · exact List.find?_cons_of_pos hhandles
          · exact List.find?_cons_of_pos hhandles'.symm
      | false =>
          rw [hhandles] at hhandles'
          simp only [List.find?_cons, hhandles, ← hhandles']
          obtain hnone | ⟨skipped, found, others, skipped', found', others', hl, hl', hfound⟩ := ih
          · exact .inl hnone
          · exact .inr ⟨m :: skipped, found, others, m' :: skipped', found', others',
              congrArg _ hl, congrArg _ hl', hfound⟩

namespace Chain

variable {net net' : Network V R M} {k k' : ComposerId} {c c' : Chain V R M}

/-- If no two members have the same identity, those before a member are those that are listed
before it. -/
theorem before_eq (hids : (c.members.map (·.id)).Nodup) {earlier later : List (Member V R M)}
    {m : Member V R M} (hmembers : c.members = earlier ++ m :: later) :
    c.before m.id = earlier := by
  rw [hmembers, List.map_append, List.map_cons, List.nodup_append] at hids
  obtain ⟨-, -, hdistinct⟩ := hids
  have hearlier : ∀ x ∈ earlier, decide (x.id ≠ m.id) = true := by
    intro x hx
    exact decide_eq_true
      (hdistinct x.id (List.mem_map_of_mem hx) m.id List.mem_cons_self)
  rw [before, hmembers, List.takeWhile_append_of_pos hearlier,
    List.takeWhile_cons_of_neg (by simp), List.append_nil]

/-- Members stand before a client in the order of the chain. -/
theorem before_append (c : Chain V R M) (client : AnalysisId) :
    ∃ later, c.members = c.before client ++ later :=
  ⟨_, (List.takeWhile_append_dropWhile ..).symm⟩

/-- What is before a member that answers a client. -/
theorem before_speaker (hids : (c.members.map (·.id)).Nodup) {client : AnalysisId}
    {skipped rest : List (Member V R M)} {m : Member V R M}
    (hbefore : (c.before client).reverse = skipped ++ m :: rest) :
    c.before m.id = rest.reverse := by
  obtain ⟨later, hlater⟩ := c.before_append client
  have hmembers : c.members = rest.reverse ++ m :: (skipped.reverse ++ later) := by
    rw [hlater, ← List.reverse_reverse (c.before client), hbefore]
    simp
  exact before_eq hids hmembers

/-- Chains agree about clients before which stand members that do the same: what answers them has
members before it that do the same. -/
theorem agree (hc : net.composer? k = some (.chain c)) (hc' : net'.composer? k' = some (.chain c'))
    (hids : (c.members.map (·.id)).Nodup) (hids' : (c'.members.map (·.id)).Nodup)
    {client client' : AnalysisId}
    (hbefore : List.Forall₂ (Member.Same k k') (c.before client) (c'.before client'))
    (depth : Nat) (family : Family) (term : TermId) (edge : EdgeId) (operand : Option TermId) :
    Run.Agree (net.answer depth ⟨k, family, term, edge, client, operand⟩)
      (net'.answer depth ⟨k', family, term, edge, client', operand⟩) := by
  induction depth generalizing client client' family term edge operand with
  | zero => exact .halt _
  | succ depth ih =>
      rw [answer_succ hc depth rfl, answer_succ hc' depth rfl]
      refine .bind (.record _ _) fun _ => .bind ?_ fun _ => .bind (.record _ _) fun _ => .pure _
      show Run.Agree (c.query (net.answer depth) ⟨k, family, operand.getD term, edge, client, none⟩)
        (c'.query (net'.answer depth) ⟨k', family, operand.getD term, edge, client', none⟩)
      unfold Chain.query
      obtain ⟨hnone, hnone'⟩ |
        ⟨skipped, m, rest, skipped', m', rest', hl, hl', hm, hm', hsame, hrest⟩ :=
        Member.find?_same (List.rel_reverse hbefore) family
      · rw [show c.speaker? family client = none from hnone,
          show c'.speaker? family client' = none from hnone']
        exact .pure _
      · rw [show c.speaker? family client = some m from hm,
          show c'.speaker? family client' = some m' from hm']
        refine Analysis.consult_agree (hsame.answer family _ edge) (ih ?_)
        rw [before_speaker hids hl, before_speaker hids' hl']
        exact List.rel_reverse hrest

/-- The members before the one at a position are those at the positions before it. -/
theorem before_getElem? (hids : (c.members.map (·.id)).Nodup) {i : Nat} {m : Member V R M}
    (hm : c.members[i]? = some m) : c.before m.id = c.members.take i := by
  obtain ⟨hi, rfl⟩ := List.getElem?_eq_some_iff.1 hm
  have hmembers : c.members = c.members.take i ++ c.members[i] :: c.members.drop (i + 1) := by
    rw [← List.drop_eq_getElem_cons hi, List.take_append_drop]
  exact before_eq hids hmembers

/-- All members stand before a client that is none of them. -/
theorem before_outsider {client : AnalysisId} (hclient : ∀ m ∈ c.members, m.id ≠ client) :
    c.before client = c.members :=
  List.takeWhile_eq_self_iff.2 fun m hm => decide_eq_true (hclient m hm)

end Chain

/-- The members of a chain that is added to a network have different identities. -/
theorem Network.addChain_nodup {net net' : Network V R M} {analyses : List (Analysis V R M)}
    {system : Option TransitionSystem} {program : Option Program}
    (h : net.addChain analyses system program = .ok net') :
    ∃ c : Chain V R M, net'.composers = net.composers ++ [.chain c] ∧
      (c.members.map (·.id)).Nodup := by
  unfold addChain at h
  cases hmembers : enroll (leadingDirection analyses) (net.identities + 1) analyses with
  | error mismatch =>
      simp only [hmembers] at h
      cases h
  | ok members =>
      simp only [hmembers] at h
      cases h
      exact ⟨_, rfl, enroll_nodup hmembers⟩

/-- A simple analysis as a layer of a chain. -/
inductive Layer (M : Type) where
  | constant (name : String) (direction : Direction) (values : TermId → Option Int64)
      (tally : M → M)
  | echo (name : String) (redirect : TermId → Option TermId) (tally : M → M)
  | regions (name : String) (home : TermId → Option String)

namespace Layer

/-- The analysis of a layer. -/
def analysis : Layer M → Analysis ValueLeaf RegionLeaf M
  | .constant name direction values tally => .constant name direction values tally
  | .echo name redirect tally => .echo name redirect tally
  | .regions name home => .regions name home

/-- What layers, the nearest first, make of the question for the value of a term. Constants answer
it, echoes change the term, and regions let it through. -/
def walk : List (Layer M) → TermId → Value ValueLeaf
  | [], _ => .full
  | .constant _ _ values _ :: _, t =>
    match values t with
    | some n => Value.constant n
    | none => Value.unknown
  | .echo _ redirect _ :: rest, t => walk rest ((redirect t).getD t)
  | .regions _ _ :: rest, t => walk rest t

/-- Layers ask only as they are told. -/
theorem asksInContext (layer : Layer M) : layer.analysis.AsksInContext := by
  intro family q
  cases layer with
  | constant name direction values tally => cases family <;> trivial
  | regions name home => cases family <;> trivial
  | echo name redirect tally =>
      cases family with
      | value => exact ⟨⟨rfl, rfl⟩, fun _ => trivial⟩
      | _ => trivial

/-- A layer does the same in all chains. -/
theorem same (layer : Layer M) (k k' : ComposerId) (id id' : AnalysisId) :
    Member.Same k k' ⟨id, layer.analysis⟩ ⟨id', layer.analysis⟩ := by
  refine ⟨fun _ => rfl, fun family term edge => ?_⟩
  cases layer with
  | constant name direction values tally =>
      cases family with
      | value => exact .remember _ _ _ (.give _)
      | _ => exact .fail _
  | echo name redirect tally =>
      cases family with
      | value => exact .remember _ _ _ (.ask .value _ edge none _ _ fun answer => .give answer)
      | _ => exact .fail _
  | regions name home =>
      cases family with
      | memRegion => exact .give _
      | memLoc => exact .give _
      | _ => exact .fail _

end Layer

/-- Noting what was asked and answered does not change the answer. -/
theorem Run.result_noted (x : Run V R M β) (e : Event V R) (report : β → Event V R)
    (w : World V R M) :
    ((do
      Run.record e
      let answer ← x
      Run.record (report answer)
      pure answer : Run V R M β).outcome w).1 = (x.outcome (w.note e)).1 := by
  rw [outcome_bind_ok (outcome_record w e), outcome_bind]
  rcases x.outcome (w.note e) with ⟨halt | answer, w'⟩ <;> rfl

namespace Chain

variable {net : Network ValueLeaf RegionLeaf M} {k : ComposerId}
  {c : Chain ValueLeaf RegionLeaf M} {client : AnalysisId}

/-- If nobody can answer, the answer is full. -/
theorem answer_of_none (hc : net.composer? k = some (.chain c))
    (hs : c.speaker? .value client = none) (depth : Nat) (t : TermId) (e : EdgeId)
    (w : World ValueLeaf RegionLeaf M) :
    ((net.answer (depth + 1) ⟨k, .value, t, e, client, none⟩).outcome w).1 = .ok .full := by
  rw [answer_succ hc depth rfl]
  refine (Run.result_noted _ _ _ w).trans ?_
  show ((c.query (net.answer depth) ⟨k, .value, t, e, client, none⟩).outcome _).1 = _
  rw [Chain.query, show c.speaker? Family.value client = none from hs]
  rfl

/-- If a member can answer, its plan says what the answer is. -/
theorem answer_of_some (hc : net.composer? k = some (.chain c))
    {m : Member ValueLeaf RegionLeaf M}
    (hs : c.speaker? .value client = some m) (depth : Nat) (t : TermId) (e : EdgeId)
    (w : World ValueLeaf RegionLeaf M) :
    ∃ w', ((net.answer (depth + 1) ⟨k, .value, t, e, client, none⟩).outcome w).1 =
      (((m.analysis.answer .value ⟨t, e, k, m.id⟩).run (net.answer depth)).outcome w').1 := by
  rw [answer_succ hc depth rfl]
  let heard := w.note (.requested ⟨k, .value, t, e, client, none⟩)
  refine ⟨heard.note (.asked m.analysis.name .value ⟨t, e, k, m.id⟩),
    (Run.result_noted _ _ _ w).trans ?_⟩
  show ((c.query (net.answer depth) ⟨k, .value, t, e, client, none⟩).outcome heard).1 = _
  rw [Chain.query, show c.speaker? Family.value client = some m from hs]
  exact Run.result_noted _ _ _ _

/-- The answer about a value is what the walk through the layers finds. The induction takes the last
layer off: a region leaves the client as it is, and an echo becomes the client. -/
theorem answer_walk (hc : net.composer? k = some (.chain c))
    (hids : (c.members.map (·.id)).Nodup) {layers : List (Layer M)}
    {earlier later : List (Member ValueLeaf RegionLeaf M)}
    (hmembers : c.members = earlier ++ later)
    (hlayers : earlier.map (·.analysis) = layers.map Layer.analysis)
    (hclient : c.speaker? .value client = earlier.reverse.find? (·.analysis.handles .value))
    {depth : Nat} (hdepth : earlier.length < depth) (t : TermId) (e : EdgeId)
    (w : World ValueLeaf RegionLeaf M) :
    ((net.answer depth ⟨k, .value, t, e, client, none⟩).outcome w).1 =
      .ok (Layer.walk layers.reverse t) := by
  induction layers using List.reverseRecOn generalizing earlier later client depth t w with
  | nil =>
      obtain rfl := List.map_eq_nil_iff.1 hlayers
      obtain ⟨depth, rfl⟩ := Nat.exists_eq_add_of_lt hdepth
      exact answer_of_none hc hclient _ t e w
  | append_singleton layers layer ih =>
      rw [List.map_append] at hlayers
      obtain ⟨earlier, last, rfl, hearlier, hlast⟩ := List.map_eq_append_iff.1 hlayers
      obtain ⟨m, rfl, hm⟩ := List.map_eq_singleton_iff.1 hlast
      have hsplit : c.members = earlier ++ m :: later := by rw [hmembers]; simp
      rw [List.length_append, List.length_singleton] at hdepth
      rw [List.reverse_append, List.reverse_singleton, List.singleton_append] at hclient ⊢
      obtain ⟨depth, rfl⟩ : ∃ d, depth = d + 1 := ⟨depth - 1, by omega⟩
      cases layer with
      | constant name direction values tally =>
          have hhandles : m.analysis.handles .value = true := by rw [hm]; rfl
          obtain ⟨w', hw'⟩ :=
            answer_of_some hc (hclient.trans (List.find?_cons_of_pos hhandles)) depth t e w
          rw [hw', hm]
          rfl
      | echo name redirect tally =>
          have hhandles : m.analysis.handles .value = true := by rw [hm]; rfl
          obtain ⟨w', hw'⟩ :=
            answer_of_some hc (hclient.trans (List.find?_cons_of_pos hhandles)) depth t e w
          have hnext : c.speaker? .value m.id =
              earlier.reverse.find? (·.analysis.handles .value) := by
            rw [← before_eq hids hsplit]
            rfl
          rw [hw', hm]
          show (((net.answer depth ⟨k, .value, (redirect t).getD t, e, m.id, none⟩ >>= pure).outcome
            { w' with memory := tally w'.memory })).1 = _
          rw [bind_pure]
          exact ih hsplit hearlier hnext (by omega) _ _
      | regions name home =>
          have hhandles : ¬ m.analysis.handles .value = true := by
            rw [hm]
            exact Bool.false_ne_true
          exact ih hsplit hearlier (hclient.trans (List.find?_cons_of_neg hhandles)) (by omega) t w

/-- Chains are layered. If all members ask only as they are told, every question comes to an end,
and no deeper than there are members. What a member is told depends only on what the members before
it do, in whatever chain they stand and whoever comes after. And what simple analyses answer to
somebody outside is what the walk from the last of them to the first finds. -/
theorem answers_by_layers :
    (∀ {V R M : Type} {net : Network V R M} {k : ComposerId} {c : Chain V R M},
      net.composer? k = some (.chain c) → (∀ m ∈ c.members, m.analysis.AsksInContext) →
      ∀ r w, r.composer = k → ∃ outcome, outcome.1 ≠ .error .exhausted ∧
        ∀ depth, c.members.length < depth → (net.answer depth r).outcome w = outcome) ∧
    (∀ {V R M : Type} {net net' : Network V R M} {k k' : ComposerId} {c c' : Chain V R M},
      net.composer? k = some (.chain c) → net'.composer? k' = some (.chain c') →
      (c.members.map (·.id)).Nodup → (c'.members.map (·.id)).Nodup →
      ∀ i m m', c.members[i]? = some m → c'.members[i]? = some m' →
      List.Forall₂ (Member.Same k k') (c.members.take i) (c'.members.take i) →
      ∀ depth family term edge operand,
        Run.Agree (net.answer depth ⟨k, family, term, edge, m.id, operand⟩)
          (net'.answer depth ⟨k', family, term, edge, m'.id, operand⟩)) ∧
    (∀ {M : Type} {net : Network ValueLeaf RegionLeaf M} {k : ComposerId}
      {c : Chain ValueLeaf RegionLeaf M},
      net.composer? k = some (.chain c) → (c.members.map (·.id)).Nodup →
      ∀ layers : List (Layer M), c.members.map (·.analysis) = layers.map Layer.analysis →
      ∀ client, (∀ m ∈ c.members, m.id ≠ client) →
      ∀ depth, c.members.length < depth → ∀ term edge w,
        ((net.answer depth ⟨k, .value, term, edge, client, none⟩).outcome w).1 =
          .ok (Layer.walk layers.reverse term)) := by
  refine ⟨?_, ?_, ?_⟩
  · intro V R M net k c hc hmembers r w hr
    have hbefore : (c.before r.client).length < c.members.length + 1 :=
      Nat.lt_succ_of_le (List.takeWhile_sublist _).length_le
    have hends := completes hc hmembers hr hbefore w
    exact ⟨_, hends, fun depth hdepth => (Steady.asking r).stable hdepth hends⟩
  · intro V R M net net' k k' c c' hc hc' hids hids' i m m' hm hm' hsame
    refine agree hc hc' hids hids' ?_
    rwa [before_getElem? hids hm, before_getElem? hids' hm']
  · intro M net k c hc hids layers hlayers client hclient depth hdepth term edge w
    refine answer_walk hc hids (List.append_nil _).symm hlayers ?_ hdepth term edge w
    rw [← before_outsider hclient]
    rfl

end Chain

namespace Pipeline

/-- Constants, an echo that exchanges two terms, and an echo that repeats its own question, with
regions between them. -/
def long : List (Layer Unit) :=
  [.constant "base" .forward (Analysis.assigned [(⟨0⟩, 9), (⟨1⟩, 7)]) id,
    .echo "swap" (Analysis.assigned [(⟨0⟩, ⟨1⟩), (⟨1⟩, ⟨0⟩)]) id,
    .regions "heap" (Analysis.assigned [(⟨0⟩, "heap")]),
    .echo "again" (Analysis.assigned [(⟨0⟩, ⟨0⟩)]) id]

/-- The same up to the echo that exchanges terms, and then other constants. -/
def short : List (Layer Unit) :=
  long.take 2 ++ [.constant "late" .forward (Analysis.assigned [(⟨0⟩, 1)]) id]

/-- A chain of layers with the given identities. -/
def chain (id : Nat) (layers : List (Layer Unit)) : Chain ValueLeaf RegionLeaf Unit where
  id := ⟨id⟩
  direction := .forward
  members := (layers.zipIdx (id + 1)).map fun layer => ⟨⟨layer.2⟩, layer.1.analysis⟩
  system := none
  program := none

/-- The network of the two chains. -/
def network : Network ValueLeaf RegionLeaf Unit :=
  ⟨[.chain (chain 0 long), .chain (chain 5 short)], 9⟩

/-- The network of the shorter chain alone. -/
def alone : Network ValueLeaf RegionLeaf Unit := ⟨[.chain (chain 0 short)], 4⟩

/-- Chains of the two kinds come to be when their analyses are added. The third members of all of
them are told the same, and a question to the longer one reaches the constants for another term. -/
theorem network_layered :
    (do (← Network.empty.addChain (long.map Layer.analysis) none none).addChain
          (short.map Layer.analysis) none none) = .ok network ∧
      (∀ r w, r.composer = ⟨0⟩ → ∃ outcome, outcome.1 ≠ .error .exhausted ∧
        ∀ depth, 4 < depth → (network.answer depth r).outcome w = outcome) ∧
      (∀ depth family term edge operand,
        Run.Agree (network.answer depth ⟨⟨0⟩, family, term, edge, ⟨3⟩, operand⟩)
          (network.answer depth ⟨⟨1⟩, family, term, edge, ⟨8⟩, operand⟩) ∧
        Run.Agree (network.answer depth ⟨⟨0⟩, family, term, edge, ⟨3⟩, operand⟩)
          (alone.answer depth ⟨⟨0⟩, family, term, edge, ⟨3⟩, operand⟩)) ∧
      ∀ w, ((network.answer 5 ⟨⟨0⟩, .value, ⟨0⟩, ⟨0⟩, network.outsider, none⟩).outcome w).1 =
        .ok (Value.constant 7) := by
  obtain ⟨hends, hagree, hwalk⟩ := Chain.answers_by_layers
  have hlong : network.composer? ⟨0⟩ = some (.chain (chain 0 long)) := rfl
  have hshort : network.composer? ⟨1⟩ = some (.chain (chain 5 short)) := rfl
  have hids : ((chain 0 long).members.map (·.id)).Nodup := by decide
  have hids' : ((chain 5 short).members.map (·.id)).Nodup := by decide
  have hasks : ∀ m ∈ (chain 0 long).members, m.analysis.AsksInContext := by
    intro m hm
    obtain ⟨layer, -, rfl⟩ := List.mem_map.1 hm
    exact layer.1.asksInContext
  refine ⟨rfl, hends hlong hasks, ?_, ?_⟩
  · intro depth family term edge operand
    constructor
    · exact hagree hlong hshort hids hids' 2 _ _ rfl rfl
        (.cons (Layer.same _ _ _ _ _) (.cons (Layer.same _ _ _ _ _) .nil))
        depth family term edge operand
    · have halone : alone.composer? ⟨0⟩ = some (.chain (chain 0 short)) := rfl
      have hsame : ∀ m ∈ (chain 0 long).members, Member.Same ⟨0⟩ ⟨0⟩ m m :=
        fun m hm => .refl (hasks m hm)
      refine hagree hlong halone hids (by decide) 2 _ _ rfl rfl ?_ depth family term edge operand
      exact .cons (hsame _ (.head _)) (.cons (hsame _ (.tail _ (.head _))) .nil)
  · intro w
    exact hwalk hlong hids long rfl network.outsider (by decide) 5 (by decide) ⟨0⟩ ⟨0⟩ w

end Pipeline

end JointAnalysis
