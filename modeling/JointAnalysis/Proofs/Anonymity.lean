import JointAnalysis.Proofs.Rest
import JointAnalysis.Proofs.Walk

/-!
# Every client gets the same answer

A tight composer looks at its client only to see whether a member asks the query again that was
handed to it. At rest no query is handed to anyone. So it makes no difference who asks: the answer,
the questions put to members, and what is kept are the same. Read `Run.Anonymous` first. It compares
the runs for all clients at once and allows them to differ in the name of the client on the trail,
which no computation reads: `Network.answer_oblivious`.
-/

namespace JointAnalysis

open Lookup Tight

variable {V R M β γ : Type}

/-- The event as it is noted for a client. -/
def Event.signed (client : AnalysisId) : Event V R → Event V R
  | .requested r => .requested { r with client }
  | .returned r answer => .returned { r with client } answer
  | e => e

/-- An event in the report of a run that was made for some client. -/
inductive Report (V R : Type) where
  /-- The composer noted the client's own question or the answer to it. -/
  | own (event : Event V R)
  /-- Something else happened. -/
  | other (event : Event V R)

/-- What is on the trail when the run was made for the given client. -/
def Report.event (client : AnalysisId) : Report V R → Event V R
  | .own e => e.signed client
  | .other e => e

/-- In the desks and the memory of a world, computations made for all clients come to the same,
whatever happened before. Only the client's own questions are noted with its name. -/
def Run.Anonymous (x : AnalysisId → Run V R M β) (w : World V R M) : Prop :=
  ∃ result desk memory, ∃ reports : List (Report V R), ∀ client past,
    (x client).outcome ⟨w.desk, w.memory, past⟩ =
      (result, ⟨desk, memory, reports.map (Report.event client) ++ past⟩)

/-- A computation that takes no notice of the trail. -/
def Run.Oblivious (x : Run V R M β) : Prop := ∀ w, Run.Anonymous (fun _ => x) w

namespace Run

variable {w : World V R M}

namespace Anonymous

/-- Where computations go on as others do, having noted an event, they come to the same if those
do. -/
theorem after {x y : AnalysisId → Run V R M β} {v : World V R M} (report : Report V R)
    (hx : ∀ client past, (x client).outcome ⟨w.desk, w.memory, past⟩ =
      (y client).outcome ⟨v.desk, v.memory, report.event client :: past⟩)
    (hy : Anonymous y v) : Anonymous x w := by
  obtain ⟨result, desk, memory, reports, hy⟩ := hy
  refine ⟨result, desk, memory, reports ++ [report], fun client past => ?_⟩
  rw [hx, hy, List.map_append, List.append_assoc]
  rfl

/-- A sequence comes to the same for all clients if its parts do. -/
theorem bind {x : AnalysisId → Run V R M β} {f : AnalysisId → β → Run V R M γ}
    (hx : Anonymous x w)
    (hf : ∀ client b v, (x client).outcome w = (.ok b, v) → Anonymous (fun a => f a b) v) :
    Anonymous (fun client => x client >>= f client) w := by
  obtain ⟨result, desk, memory, reports, hx⟩ := hx
  cases result with
  | error halt =>
      exact ⟨.error halt, desk, memory, reports, fun client past =>
        outcome_bind_error (hx client past)⟩
  | ok b =>
      -- the second part starts in the same desks and memory for every client
      obtain ⟨result, desk', memory', more, hf⟩ := hf ⟨0⟩ b _ (hx ⟨0⟩ w.trail)
      refine ⟨result, desk', memory', more ++ reports, fun client past => ?_⟩
      rw [outcome_bind_ok (hx client past), hf, List.map_append, List.append_assoc]

/-- Noting an answer for the client. -/
theorem record (e : Event V R) :
    Anonymous (fun client => (Run.record (e.signed client) : Run V R M Unit)) w :=
  ⟨.ok (), w.desk, w.memory, [.own e], fun _ _ => rfl⟩

/-- A result is the same for all clients. -/
theorem pure (b : β) : Anonymous (fun _ => (Pure.pure b : Run V R M β)) w :=
  ⟨.ok b, w.desk, w.memory, [], fun _ _ => rfl⟩

/-- Giving up is the same for all clients. -/
theorem throw (halt : Halt) : Anonymous (fun _ => (MonadExcept.throw halt : Run V R M β)) w :=
  ⟨.error halt, w.desk, w.memory, [], fun _ _ => rfl⟩

end Anonymous

end Run

/-- Where it starts, a computation takes no notice of the trail. -/
def Trait.oblivious (ask : Answerer V R M) : Trait ask where
  holds x w := Run.Anonymous (fun _ => x ask) w
  pure b _ := .pure b
  throw halt _ := .throw halt
  record e w := ⟨.ok (), w.desk, w.memory, [.other e], fun _ _ => rfl⟩
  desk c w := ⟨.ok (w.desk c), w.desk, w.memory, [], fun _ _ => rfl⟩
  setDesk c d w := ⟨.ok (), (w.putDesk c d).desk, w.memory, [], fun _ _ => rfl⟩
  memory w := ⟨.ok w.memory, w.desk, w.memory, [], fun _ _ => rfl⟩
  update f w := ⟨.ok (), w.desk, f w.memory, [], fun _ _ => rfl⟩
  bind hx hf := hx.bind fun _ b v hv => hf b v hv

/-- Whatever a network does when it is asked, it takes no notice of the trail. -/
theorem Network.answer_oblivious (net : Network V R M) (depth : Nat) (r : Request) :
    (net.answer depth r).Oblivious := by
  induction depth generalizing r with
  | zero => exact fun _ => .throw _
  | succ depth ih =>
      rw [Network.answer]
      split
      · exact fun _ => .pure _
      · exact Trait.respond (F := .oblivious (net.answer depth)) ih r _

section Asking

variable {ask : Answerer V R M} (hask : ∀ r, (ask r).Oblivious)

include hask

namespace Tight

variable {t : Tight V R M} {r : Request} {w : World V R M}

/-- Where no client is cut off, a request is resolved in the same way for all of them. -/
theorem resolve_anonymous (huncut : ∀ client, ¬ t.Cut w { r with client }) :
    Run.Anonymous (β := Object V R r.family) (fun client => t.resolve ask { r with client }) w := by
  rcases Lookup.cases w r with hopen | ⟨kept, hsettled⟩ | hcorrupt
  · refine .after (v := started w r) (.other (.dispatched r.composer r.key))
      (y := fun _ => do
        let answer ← t.gather ask r t.members []
        depart r
        pure answer) (fun client past => ?_) ?_
    · have hopen' : Open (⟨w.desk, w.memory, past⟩ : World V R M) { r with client } := hopen
      rw [resolve_open t ask hopen' (huncut client), gather_client]
      rfl
    · exact (Trait.gather (F := .oblivious ask) hask t r _ _ _).bind fun _ answer v _ =>
        ((Trait.oblivious ask).depart v r).bind fun _ _ _ _ => .pure answer
  · exact ⟨.ok (.combined .intersect kept), w.desk, w.memory, [], fun client past =>
      t.resolve_settled ask (r := { r with client }) (w := ⟨w.desk, w.memory, past⟩) hsettled⟩
  · exact ⟨.error (.fault (.corruptAnswer r.key.kind)), w.desk, w.memory, [], fun client past =>
      t.resolve_corrupt ask (r := { r with client }) (w := ⟨w.desk, w.memory, past⟩) hcorrupt⟩

/-- A composer at rest answers a query in the same way for all clients. -/
theorem query_anonymous {net : Network V R M} (hw : Attended net r.composer ⟨w, []⟩) :
    Run.Anonymous (β := Object V R r.family)
      (fun client => (Composer.tight t).query ask { r with client }) w := by
  -- a query that is not under way is not handed to anyone
  have huncut : ∀ client, ¬ t.Cut (begun w r.composer) { r with client } := by
    intro client hcut
    refine hw.not_cut (t := t) (r := { r with client }) rfl rfl ?_
    simpa [Cut] using hcut
  refine .after (v := begun w r.composer) (.own (.requested r))
    (fun client past => t.noted_query_outcome ask) ?_
  exact (resolve_anonymous hask huncut).bind fun _ answer _ _ =>
    ((Trait.oblivious ask).closed r.composer _ t).bind fun _ _ _ _ =>
    (Run.Anonymous.record (.returned r ⟨r.family, answer⟩)).bind fun _ _ _ _ => .pure answer

end Tight

end Asking

section Networks

variable {net : Network V R M} {c : ComposerId} {t : Tight V R M}
  (ht : net.composer? c = some (.tight t))

include ht

/-- A composer at rest answers queries at several edges in the same way for all clients. -/
theorem Tight.queryAlong_anonymous {r : Request} (hr : r.composer = c) (depth : Nat)
    (term : TermId) (edges : List EdgeId) {w : World V R M} (hw : Attended net c ⟨w, []⟩) :
    Run.Anonymous (β := List (Object V R r.family))
      (fun client => t.queryAlong (net.answer depth) { r with client } term edges) w := by
  induction edges generalizing w with
  | nil => exact ⟨.ok [], w.desk, w.memory, [], fun _ _ => rfl⟩
  | cons edge rest ih =>
      simp only [queryAlong_cons]
      subst hr
      have hquery := query_anonymous (t := t) (r := r.about term edge)
        (net.answer_oblivious depth) hw
      refine hquery.bind fun client answer v hv => ?_
      -- the composer comes to rest after each query
      have hrests := (query_rests ht (r := { r.about term edge with client }) rfl rfl hw hv).1
      exact (ih hrests).bind fun _ others _ _ => .pure (answer :: others)

/-- Whatever clients asked of a network before, a tight composer gives every client the same answer,
or has none for the same reason. It asks its members the same questions in the same order and leaves
the same caches and the same memory. -/
theorem Tight.answer_ignores_asker {sessionDepth : Nat} {steps : List (Step M)} {memory : M}
    (hsession : ((net.session sessionDepth steps).outcome (.initial memory)).1 = .ok ())
    {r : Request} (hr : r.composer = c) (depth : Nat) :
    Run.Anonymous (β := Object V R r.family) (fun client => net.answer depth { r with client })
      (net.after sessionDepth steps memory) := by
  have hw := net.attended_after ht hsession
  cases depth with
  | zero => exact .throw _
  | succ depth =>
      subst hr
      simp only [Network.answer, ht]
      obtain ⟨_, family, term, edge, _, operand⟩ := r
      cases operand with
      | none => exact query_anonymous (net.answer_oblivious depth) hw
      | some operand =>
          simp only [Composer.respond]
          split
          · exact .pure AbstractObject.full
          · exact query_anonymous (r := ⟨_, family, operand, edge, ⟨0⟩, none⟩)
              (net.answer_oblivious depth) hw
          · exact query_anonymous (r := ⟨_, family, operand, _, ⟨0⟩, none⟩)
              (net.answer_oblivious depth) hw
          · exact (queryAlong_anonymous ht (r := ⟨_, family, term, edge, ⟨0⟩, none⟩) rfl depth
              operand _ hw).bind fun _ _ _ _ => .pure _

end Networks

namespace Circle

/-- After a question about one edge, the composer of the circle answers about another edge in the
same way for its own members as for everyone else. -/
theorem same_for_members :
    ((network.session 9 [.ask question]).outcome (.initial ())).1 = .ok () ∧
    Run.Anonymous (β := Object ValueLeaf RegionLeaf .value)
      (fun client => network.answer 9 { question with edge := ⟨1⟩, client })
      (network.after 9 [.ask question] ()) := by
  have hsession : ((network.session 9 [.ask question]).outcome (.initial ())).1 = .ok () := by
    decide +kernel
  exact ⟨hsession, Tight.answer_ignores_asker (c := ⟨0⟩) (t := composer)
    (r := { question with edge := ⟨1⟩ }) rfl hsession rfl 9⟩

end Circle

end JointAnalysis
