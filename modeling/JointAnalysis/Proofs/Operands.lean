import JointAnalysis.Proofs.Denotation
import JointAnalysis.Proofs.Reachability
import JointAnalysis.Proofs.Rest

/-!
# Questions about operands

A tight composer answers the question about an operand from the edges at which the operand may have
been evaluated. `Tight.operand_answer_covers` says that it misses none of them: what is answered
about the operand at such an edge is covered by the answer, and is answered again later, as long as
the cache is not cleared. The latter goes by `Retained`, which every move preserves.
`Forgetful.operand_answer_exceeded` shows why the cache must not be cleared.
-/

namespace JointAnalysis

open Lookup Tight

variable {V R M : Type} {net : Network V R M} {c : ComposerId} {t : Tight V R M}

/-- From one world to a later one, the cache of a composer was not cleared. -/
def World.Undisturbed (c : ComposerId) (w w' : World V R M) : Prop :=
  ∃ recent, w'.trail = recent ++ w.trail ∧ ∀ e ∈ recent, e.clears c = false

/-- What was kept for a query in a past world still is, if the cache was not cleared since. -/
def Retained (c : ComposerId) (past : World V R M) (r : Request)
    (kept : List (Object V R r.family)) (p : Moment V R M) : Prop :=
  ∃ recent, p.world.trail = recent ++ past.trail ∧
    ((∀ e ∈ recent, e.clears c = false) → Settled p.world r kept)

section Retention

variable {past w : World V R M} {r : Request} {kept : List (Object V R r.family)}

/-- A move adds to the trail. -/
theorem Move.extends_trail {p q : Moment V R M} (h : Move net c t p q) :
    ∃ new, q.world.trail = new ++ p.world.trail := by
  rcases h.trail_cases with htrail | ⟨e, _, htrail⟩ | ⟨e, _, _, _, _, htrail⟩
  · exact ⟨[], htrail⟩
  · exact ⟨[e], htrail⟩
  · exact ⟨[e, .cleared c], htrail⟩

/-- What is kept is retained to begin with. -/
theorem Retained.begin (h : Settled past r kept) : Retained c past r kept ⟨past, []⟩ :=
  ⟨[], rfl, fun _ => h⟩

/-- A move leaves what is retained, if the cache is to be retained. -/
theorem Retained.move (hretain : t.config.cachePolicy = .retain) (hr : r.composer = c)
    {p q : Moment V R M} (h : Move net c t p q) (hp : Retained c past r kept p) :
    Retained c past r kept q := by
  obtain ⟨recent, htrail, hkept⟩ := hp
  obtain ⟨new, hnew⟩ := h.extends_trail
  refine ⟨new ++ recent, by rw [hnew, htrail, List.append_assoc], fun hquiet => ?_⟩
  have hsettled := hkept fun e he => hquiet e (List.mem_append_right _ he)
  refine (h.settled_or_cleared hretain hr hsettled).resolve_right fun hcleared => ?_
  -- the move that clears the cache leaves an event that says so
  have hclears : (.cleared c : Event V R) ∈ new := by
    rw [hcleared.2, ← List.singleton_append] at hnew
    rw [← List.append_cancel_right hnew]
    exact List.mem_singleton_self _
  have hquiet' := hquiet _ (List.mem_append_left _ hclears)
  simp [Event.clears] at hquiet'

/-- A client who clears the cache leaves nothing to be retained. -/
theorem Retained.clear (h : Retained c past r kept ⟨w, []⟩) :
    Retained c past r kept ⟨w.clear c, []⟩ := by
  obtain ⟨recent, htrail, _⟩ := h
  refine ⟨.cleared c :: recent, congrArg (List.cons (Event.cleared c)) htrail, fun hquiet => ?_⟩
  have hcleared := hquiet (.cleared c) List.mem_cons_self
  simp [Event.clears] at hcleared

/-- What is retained is kept in a world until which the cache was not cleared. -/
theorem Retained.settled {s : List (Frame V R M)} (h : Retained c past r kept ⟨w, s⟩)
    (hquiet : past.Undisturbed c w) : Settled w r kept := by
  obtain ⟨recent, htrail, hkept⟩ := h
  obtain ⟨recent', htrail', hquiet⟩ := hquiet
  rw [List.append_cancel_right (htrail.symm.trans htrail')] at hkept
  exact hkept hquiet

end Retention

/-- A request is answered among others that a client asks in turn: after those before it, it is
answered with `o` in the world `w₁`, and those after it are answered then. -/
def Network.AnswersAmong (net : Network V R M) (depth : Nat) (requests : List Request)
    (w w₁ w' : World V R M) (q : Request) (o : Object V R q.family) : Prop :=
  ∃ before after w₀, requests = before ++ q :: after ∧
    (net.session depth (before.map .ask)).outcome w = (.ok (), w₀) ∧
    (net.answer depth q).outcome w₀ = (.ok o, w₁) ∧
    (net.session depth (after.map .ask)).outcome w₁ = (.ok (), w')

section Asking

variable (ht : net.composer? c = some (.tight t)) {w w' : World V R M} {depth : Nat} {r : Request}

/-- After a request that is answered a session goes on in the world that the answer left. -/
theorem Network.session_ask {q : Request} {o : Object V R q.family} {w₁ : World V R M}
    (h : (net.answer depth q).outcome w = (.ok o, w₁)) (steps : List (Step M)) :
    (net.session depth (.ask q :: steps)).outcome w = (net.session depth steps).outcome w₁ := by
  have hperform : (net.perform depth (.ask q)).outcome w = (.ok (), w₁) := Run.outcome_bind_ok h
  rw [session, Run.outcome_bind_ok hperform]

include ht

/-- What is retained is retained after a session that ended well. -/
theorem Network.session_retains (hretain : t.config.cachePolicy = .retain) (hr : r.composer = c)
    {kept : List (Object V R r.family)} {past : World V R M}
    (hw : Retained c past r kept ⟨w, []⟩) {steps : List (Step M)}
    (hsession : (net.session depth steps).outcome w = (.ok (), w')) :
    Retained c past r kept ⟨w', []⟩ := by
  obtain ⟨s, hretained, hend⟩ := Network.session_invariant ht
    (fun _ _ => Retained.move hretain hr) (fun w => Retained.clear) depth steps w hw
  rw [hsession] at hretained hend
  cases hend
  exact hretained

/-- Questions about a term at several edges are answered as a client's questions are. -/
theorem Tight.queryAlong_session (hr : r.composer = c) {term : TermId} {edges : List EdgeId}
    {answers : List (Object V R r.family)}
    (hok : (t.queryAlong (net.answer depth) r term edges).outcome w = (.ok answers, w')) :
    (net.session (depth + 1) ((edges.map (r.about term)).map .ask)).outcome w = (.ok (), w') := by
  induction edges generalizing w answers with
  | nil =>
      cases hok
      rfl
  | cons edge rest ih =>
      obtain ⟨answer, others, w₁, hfirst, hothers, -⟩ := queryAlong_cons_ok hok
      have hanswer : (net.answer (depth + 1) (r.about term edge)).outcome w = (.ok answer, w₁) := by
        rw [Network.answer_tight ht (r := r.about term edge) hr rfl]
        exact hfirst
      rw [List.map_cons, List.map_cons, Network.session_ask hanswer]
      exact ih hothers

/-- Each question about a term at one of several edges is answered among them. -/
theorem Tight.queryAlong_among (hr : r.composer = c) {term : TermId} {edges : List EdgeId}
    {answers : List (Object V R r.family)} {e : EdgeId} (he : e ∈ edges)
    (hok : (t.queryAlong (net.answer depth) r term edges).outcome w = (.ok answers, w')) :
    ∃ o ∈ answers, ∃ w₁, net.AnswersAmong (depth + 1) (edges.map (r.about term)) w w₁ w'
      (r.about term e) o := by
  induction edges generalizing w answers with
  | nil => cases he
  | cons edge rest ih =>
      obtain ⟨answer, others, w₁, hfirst, hothers, rfl⟩ := queryAlong_cons_ok hok
      have hanswer : (net.answer (depth + 1) (r.about term edge)).outcome w = (.ok answer, w₁) := by
        rw [Network.answer_tight ht (r := r.about term edge) hr rfl]
        exact hfirst
      rcases List.mem_cons.1 he with rfl | hlater
      · exact ⟨answer, List.mem_cons_self, w₁, [], _, w, rfl, rfl, hanswer,
          queryAlong_session ht hr hothers⟩
      · obtain ⟨o, ho, w₂, before, after, w₀, hsplit, hbefore, ho', hafter⟩ := ih hlater hothers
        refine ⟨o, List.mem_cons_of_mem _ ho, w₂, r.about term edge :: before, after, w₀, ?_, ?_,
          ho', hafter⟩
        · rw [List.map_cons, hsplit, List.cons_append]
        · rw [List.map_cons, Network.session_ask hanswer]
          exact hbefore

/-- A request about a term that was answered among others is answered in the same way later, whoever
asks, as long as the cache is not cleared after the first answer. -/
theorem Network.AnswersAmong.again (hretain : t.config.cachePolicy = .retain)
    (hw : Attended net c ⟨w, []⟩) {q : Request} (hq : q.composer = c) (hplain : q.operand = none)
    {requests : List Request} {w₁ : World V R M} {o : Object V R q.family}
    (h : net.AnswersAmong depth requests w w₁ w' q o) {laterDepth : Nat} {later : List (Step M)}
    {w₂ : World V R M} (hlater : (net.session laterDepth later).outcome w' = (.ok (), w₂))
    (hquiet : w₁.Undisturbed c w₂) (client : AnalysisId) (d : Nat) :
    ∃ w₃, (net.answer (d + 1) { q with client }).outcome w₂ = (.ok o, w₃) := by
  obtain ⟨before, after, w₀, -, hbefore, hanswer, hafter⟩ := h
  have hrest := Network.session_rests ht hw hbefore
  cases depth with
  | zero => cases hanswer
  | succ depth =>
      rw [Network.answer_tight ht hq hplain] at hanswer
      have hask : ∀ s, Idle s → ∀ r, (net.answer depth r).Returns net c t s :=
        fun s hs r => Network.answer_returns ht depth r hs
      obtain ⟨_, kept, rfl, hsettled, _⟩ := query_gathers hask
        (fun h m hm => h.analysis ht (List.mem_map_of_mem hm)) hq hrest hanswer
      have hretained := Network.session_retains ht hretain hq
        (Network.session_retains ht hretain hq (.begin (hsettled hretain)) hafter) hlater
      rw [Network.answer_tight ht (r := { q with client }) hq hplain]
      exact ⟨_, query_settled (r := { q with client }) hretain (hretained.settled hquiet)⟩

/-- The answer to a question covers the answers to the questions about terms to which it comes. -/
theorem Tight.answer_covers_part (hunion : t.config.operandMode = .union) (hr : r.composer = c)
    {answer : Object V R r.family} (hok : (net.answer depth r).outcome w = (.ok answer, w'))
    {term : TermId} {e : EdgeId} (he : r.about term e ∈ t.parts r) :
    ∃ o w₁, net.AnswersAmong depth (t.parts r) w w₁ w' (r.about term e) o ∧
      ∀ {E : Type} (plain : Plain V R r.family → Set E), o.denote plain ⊆ answer.denote plain := by
  cases depth with
  | zero => cases hok
  | succ depth =>
      have hrespond :
          net.answer (depth + 1) r = (Composer.tight t).respond (net.answer depth) r := by
        rw [Network.answer, hr, ht]
      rw [hrespond] at hok
      rcases t.respond_cases r with
        ⟨hparts, -⟩ | ⟨term', edge, hparts, hrespond⟩ | ⟨term', edges, hparts, hrespond⟩
      · rw [hparts] at he
        cases he
      · rw [hparts, List.mem_singleton] at he
        cases he
        rw [hrespond, ← Network.answer_tight ht (r := r.about term e) hr rfl] at hok
        exact ⟨answer, w', ⟨[], [], w, hparts, rfl, hok, rfl⟩, fun _ => subset_rfl⟩
      · rw [hparts] at he
        obtain ⟨e', he', hsame⟩ := List.mem_map.1 he
        cases hsame
        rw [hrespond] at hok
        obtain ⟨answers, w₂, hall, hpure⟩ := Run.outcome_bind_eq_ok hok
        cases hpure
        obtain ⟨o, ho, w₁, hamong⟩ := queryAlong_among ht hr he' hall
        rw [hparts, hunion]
        exact ⟨o, w₁, hamong, fun plain x hx =>
          (AbstractObject.mem_denote_union plain).2 ⟨o, ho, hx⟩⟩

end Asking

/-- In a program a term has another one for its operand. -/
def Program.HasOperand (p : Program) (term operand : TermId) : Prop :=
  (p.term? operand).isSome = true ∧ p.parent? operand = some term

/-- The program of a composer, if there is one, has the operand under the term. -/
def Tight.Accepts (t : Tight V R M) (term operand : TermId) : Prop :=
  ∀ p, t.program = some p → p.HasOperand term operand

section Sources

variable {g : TransitionSystem} {term operand : TermId} {edge : EdgeId}

/-- What is checked of an operand is that it exists and has the term for its parent. -/
theorem Program.isOperandOf_eq_ok {p : Program} :
    p.isOperandOf operand term = .ok true ↔ p.HasOperand term operand := by
  unfold isOperandOf parent Program.term HasOperand
  cases hterm : p.term? operand with
  | none => simp [bind, Except.bind]
  | some found => simp [bind, Except.bind, pure, Except.pure]

/-- An operand is looked for only where the program has it. -/
theorem Tight.isOperand_iff :
    Tight.source.isOperand t term operand = true ↔ t.Accepts term operand := by
  unfold source.isOperand Accepts
  cases hprogram : t.program with
  | none => simp
  | some p =>
      simp only [Option.some.injEq, forall_eq', ← Program.isOperandOf_eq_ok]
      cases p.isOperandOf operand term <;> simp

/-- A question about an operand comes to questions at the edges that are listed for it. -/
theorem Tight.parts_of_accepts {r : Request} (hoperand : r.operand = some operand)
    (hg : t.system = some g) (haccepts : t.Accepts r.term operand) :
    t.parts r = (g.operandEdges r.term operand r.edge).map (r.about operand) := by
  unfold parts source
  simp only [hoperand, isOperand_iff.2 haccepts, if_true, hg]
  cases g.operandEdges r.term operand r.edge with
  | nil => rfl
  | cons e rest => rfl

/-- Nothing is known about what the program does not have, and what no edge evaluates. -/
theorem Tight.source_unknown (hg : t.system = some g)
    (h : ¬ t.Accepts term operand ∨ g.operandEdges term operand edge = []) :
    t.source term operand edge = .unknown := by
  unfold source
  split
  · next haccepts =>
      have hedges := h.resolve_left (not_not.2 (isOperand_iff.1 haccepts))
      rw [hg]
      simp only [hedges]
  · rfl

end Sources

section Networks

variable (ht : net.composer? c = some (.tight t)) {g : TransitionSystem}
  (hg : t.system = some g) (hwell : g.WellFormed) {r : Request} (hr : r.composer = c)
  {operand : TermId} (hoperand : r.operand = some operand)

include ht hg hwell hr hoperand

/-- Nobody is asked, and nothing changes, where nothing is known about an operand. -/
theorem Tight.answer_unknown
    (h : ¬ t.Accepts r.term operand ∨ ∀ e, ¬ g.Evaluates operand r.edge e) (depth : Nat)
    (w : World V R M) : (net.answer (depth + 1) r).outcome w = (.ok .full, w) := by
  have hsource : t.source r.term operand r.edge = .unknown := by
    refine source_unknown hg (h.imp_right fun hnone => ?_)
    refine List.eq_nil_iff_forall_not_mem.2 fun e he => ?_
    exact hnone e ((TransitionSystem.mem_operandEdges hwell).1 he)
  rw [Network.answer, hr, ht]
  simp only [Composer.respond, hoperand, hsource]
  rfl

/-- A composer that retains its cache and unites what it knows about operands misses no evaluation
of an operand. For every edge at which the operand may have been evaluated, it asks itself about the
operand at the edge, the answer covers what it is answered there, and whoever asks about the operand
at the edge later gets the same, as long as the cache is not cleared after that. Where there is no
such edge, or the program does not have the operand under the term, the answer is the full object,
which covers everything, and nothing else happens. -/
theorem Tight.operand_answer_covers (hretain : t.config.cachePolicy = .retain)
    (hunion : t.config.operandMode = .union) {sessionDepth : Nat} {steps : List (Step M)}
    {memory : M}
    (hsession : ((net.session sessionDepth steps).outcome (.initial memory)).1 = .ok ()) :
    (t.Accepts r.term operand → ∀ depth answer w',
      (net.answer depth r).outcome (net.after sessionDepth steps memory) = (.ok answer, w') →
      ∀ e, g.Evaluates operand r.edge e → ∃ o w₁,
        net.AnswersAmong depth (t.parts r) (net.after sessionDepth steps memory) w₁ w'
          (r.about operand e) o ∧
        (∀ {E : Type} (plain : Plain V R r.family → Set E),
          o.denote plain ⊆ answer.denote plain) ∧
        ∀ laterDepth later w₂, (net.session laterDepth later).outcome w' = (.ok (), w₂) →
          w₁.Undisturbed c w₂ → ∀ client d, ∃ w₃,
            (net.answer (d + 1) { r.about operand e with client }).outcome w₂ = (.ok o, w₃)) ∧
    ((¬ t.Accepts r.term operand ∨ ∀ e, ¬ g.Evaluates operand r.edge e) →
      ∀ depth w, (net.answer (depth + 1) r).outcome w = (.ok .full, w)) := by
  refine ⟨fun haccepts depth answer w' hok e he => ?_,
    answer_unknown ht hg hwell hr hoperand⟩
  have hpart : r.about operand e ∈ t.parts r := by
    rw [parts_of_accepts hoperand hg haccepts]
    exact List.mem_map_of_mem ((TransitionSystem.mem_operandEdges hwell).2 he)
  obtain ⟨o, w₁, hamong, hcovers⟩ := answer_covers_part ht hunion hr hok hpart
  have hrest := Network.attended_after ht hsession
  exact ⟨o, w₁, hamong, hcovers, fun laterDepth later w₂ hlater hquiet =>
    hamong.again ht hretain hrest (q := r.about operand e) hr rfl hlater hquiet⟩

end Networks

namespace Loop

/-- A loop in which an operand is evaluated again: it is entered at one edge and gone round at
another one. -/
def system : TransitionSystem where
  parts := [⟨2⟩, ⟨1⟩, ⟨0⟩]
  edges := [⟨⟨2⟩, ⟨0⟩⟩, ⟨⟨0⟩, ⟨1⟩⟩, ⟨⟨1⟩, ⟨2⟩⟩, ⟨⟨2⟩, ⟨1⟩⟩]

/-- The program in which the one term is the operand of the other one. -/
def program : Program where
  terms := [⟨.expression, "x + x"⟩, ⟨.expression, "x"⟩]
  attachments := [⟨⟨0⟩, ⟨1⟩, 0⟩]

/-- A composer that has the transition system and the program from its parent. -/
def composer : Tight ValueLeaf RegionLeaf Unit where
  id := ⟨2⟩
  direction := .forward
  members := [⟨⟨1⟩, .constant "five" .forward (fun x => if x = ⟨1⟩ then some 5 else none) id⟩]
  parent := some ⟨0⟩
  config := {}
  system := some system
  program := some program

/-- The composer below a chain without members. -/
def network : Network ValueLeaf RegionLeaf Unit where
  composers := [.chain ⟨⟨0⟩, .forward, [], some system, some program⟩, .tight composer]
  identities := 3

/-- The question about the operand where the loop is left. -/
def question : Request where
  composer := ⟨1⟩
  family := .value
  term := ⟨0⟩
  edge := ⟨0⟩
  client := network.outsider
  operand := some ⟨1⟩

/-- The composer below the chain has the transition system and the program of the chain. What is
answered about the operand where the loop is gone round is covered. -/
theorem round_covered :
    (do
      let net ← Network.empty.addChain [] (some system) (some program)
      net.addTight (composer.members.map Member.analysis) (some ⟨0⟩) {} none none none) =
        .ok network ∧
    ((network.session 9 []).outcome (.initial ())).1 = .ok () ∧
    system.Evaluates ⟨1⟩ question.edge ⟨3⟩ ∧
    ∃ answer w', (network.answer 9 question).outcome (network.after 9 [] ()) = (.ok answer, w') ∧
      ∃ o w₁, network.AnswersAmong 9 (composer.parts question) (network.after 9 [] ()) w₁ w'
        (question.about ⟨1⟩ ⟨3⟩) o ∧
      ∀ plain : ValueLeaf → Set Int64, o.denote plain ⊆ answer.denote plain := by
  have hnet : network.composer? ⟨1⟩ = some (.tight composer) := rfl
  have hsession : ((network.session 9 []).outcome (.initial ())).1 = .ok () := rfl
  have hleads : system.Leads ⟨1⟩ ⟨2⟩ := .single (show ⟨⟨1⟩, ⟨2⟩⟩ ∈ system.edges by decide)
  have hround : system.Evaluates ⟨1⟩ question.edge ⟨3⟩ := ⟨_, _, rfl, rfl, rfl, hleads⟩
  have haccepts : composer.Accepts question.term ⟨1⟩ := by
    intro p hp
    cases hp
    exact ⟨rfl, rfl⟩
  have hok : ((network.answer 9 question).outcome (network.after 9 [] ())).1.toBool = true := by
    decide +kernel
  rcases hanswer : (network.answer 9 question).outcome (network.after 9 [] ())
    with ⟨halt | answer, w'⟩
  · rw [hanswer] at hok
    cases hok
  · have hcovers := Tight.operand_answer_covers hnet rfl (by decide) (r := question) rfl rfl rfl rfl
      hsession
    obtain ⟨o, w₁, hamong, hsubset, _⟩ := hcovers.1 haccepts 9 answer w' hanswer ⟨3⟩ hround
    exact ⟨rfl, hsession, hround, answer, w', rfl, o, w₁, hamong, hsubset⟩

end Loop

namespace Forgetful

/-- About the operand at the first edge, asks about another term, about which it asks back for the
operand. At the second edge it clears the cache before it asks about that term. -/
def forgetful : Analysis ValueLeaf RegionLeaf Unit where
  name := "forgetful"
  direction := .forward
  handles family := family = .value
  answer
    | .value, q =>
      if q.term = ⟨2⟩ then
        .ask (q.request .value ⟨1⟩) fun answer =>
          .give (.combined .intersect [answer, Value.constant 5])
      else if q.edge = ⟨1⟩ then .request (q.request .value ⟨2⟩)
      else .clear q.composer (.request { q.request .value ⟨2⟩ with edge := ⟨1⟩ })
    | family, _ => .unsupported "forgetful" family

/-- Two edges lead to the part at which the operand is located. -/
def system : TransitionSystem where
  parts := [⟨9⟩, ⟨1⟩, ⟨0⟩]
  edges := [⟨⟨1⟩, ⟨2⟩⟩, ⟨⟨0⟩, ⟨1⟩⟩, ⟨⟨0⟩, ⟨1⟩⟩]

/-- The composer of this analysis. -/
def composer : Tight ValueLeaf RegionLeaf Unit where
  id := ⟨1⟩
  direction := .forward
  members := [⟨⟨0⟩, forgetful⟩]
  parent := none
  config := {}
  system := some system
  program := none

/-- The network of this one composer. -/
def network : Network ValueLeaf RegionLeaf Unit := ⟨[.tight composer], 2⟩

/-- The question about the operand. -/
def question : Request where
  composer := ⟨0⟩
  family := .value
  term := ⟨0⟩
  edge := ⟨0⟩
  client := network.outsider
  operand := some ⟨1⟩

/-- The integers that a leaf lists. -/
def integers (leaf : ValueLeaf) : Set Int64 := {n | .int n ∈ leaf.listed}

/-- The forgetful analysis clears the cache while the question about the operand is answered. The
answer says that the operand is five, but what is answered afterwards at one of the two edges allows
every integer. -/
theorem operand_answer_exceeded :
    composer.config.cachePolicy = .retain ∧ composer.config.operandMode = .union ∧
    composer.system = some system ∧ composer.Accepts question.term ⟨1⟩ ∧
    system.Evaluates ⟨1⟩ question.edge ⟨1⟩ ∧ ∃ answer w' later w'',
      (network.answer 9 question).outcome (.initial ()) = (.ok answer, w') ∧
      (network.answer 9 (question.about ⟨1⟩ ⟨1⟩)).outcome w' = (.ok later, w'') ∧
      ¬ later.denote integers ⊆ answer.denote integers := by
  have hentered : system.Evaluates ⟨1⟩ question.edge ⟨1⟩ := ⟨_, _, rfl, rfl, rfl, .refl⟩
  have haccepts : composer.Accepts question.term ⟨1⟩ := by
    intro p hp
    cases hp
  -- seven is none of the answer's integers, and one of the later answer's
  let seven (leaf : ValueLeaf) : Bool := .int 7 ∈ leaf.listed
  have hseven : ∀ leaf, (7 : Int64) ∈ integers leaf ↔ seven leaf = true := by
    simp [integers, seven]
  have hfirst : ((network.answer 9 question).outcome (.initial ())).1.toOption.map
      (·.denotes seven) = some false := by decide +kernel
  have hsecond : ((network.answer 9 (question.about ⟨1⟩ ⟨1⟩)).outcome
      ((network.answer 9 question).outcome (.initial ())).2).1.toOption.map
      (·.denotes seven) = some true := by decide +kernel
  rcases hanswer : (network.answer 9 question).outcome (.initial ()) with ⟨halt | answer, w'⟩
  · rw [hanswer] at hfirst
    cases hfirst
  · rw [hanswer] at hfirst hsecond
    rcases hlater : (network.answer 9 (question.about ⟨1⟩ ⟨1⟩)).outcome w' with ⟨halt | later, w''⟩
    · rw [hlater] at hsecond
      cases hsecond
    · rw [hlater] at hsecond
      refine ⟨rfl, rfl, rfl, haccepts, hentered, answer, w', later, w'', rfl, hlater, ?_⟩
      intro hsubset
      have hmem := (AbstractObject.mem_denote_iff integers hseven later).2 (Option.some.inj hsecond)
      have hanswered := (AbstractObject.mem_denote_iff integers hseven answer).1 (hsubset hmem)
      cases hanswered.symm.trans (Option.some.inj hfirst)

end Forgetful

end JointAnalysis
