import JointAnalysis.Proofs.Deepening
import JointAnalysis.Proofs.DispatchBound
import Mathlib.Algebra.Order.BigOperators.Group.Finset

/-!
# Questions to a tight composer end

A tight composer comes to an end with every question, if its members ask it about finitely many
queries only and everyone else whom they ask comes to an end. While a resolution is under way, one
resolution less of its query can be started inside it, and what is nested comes back with the same
number of resolutions under way. So the number of resolutions that can still be started, summed over
all queries, goes down with the depth: `remaining_lt`. How often the members are asked is known from
`Tight.dispatches_at_most` and `Tight.asks_at_most`.
-/

namespace JointAnalysis

open Lookup Tight

variable {V R M β γ : Type}

/-- A computation comes to an end if its questions are followed deeply enough. -/
def Network.Ends (net : Network V R M) (f : Answerer V R M → Run V R M β) (w : World V R M) :
    Prop :=
  ∃ depth, ((f (net.answer depth)).outcome w).1 ≠ .error .exhausted

/-- Every question to a composer comes to an end. -/
def Network.EndsAlways (net : Network V R M) (d : ComposerId) : Prop :=
  ∀ r w, r.composer = d → net.Ends (fun ask => ask r) w

/-- All questions that a plan may ask are of some kind. -/
def Plan.Asks (kind : Request → Prop) : Plan V R M β → Prop
  | .give _ => True
  | .fail _ => True
  | .ask r next => kind r ∧ ∀ answer, (next answer).Asks kind
  | .recollect next => ∀ memory, (next memory).Asks kind
  | .remember _ next => next.Asks kind
  | .inspect _ _ next => ∀ state size, (next state size).Asks kind
  | .clear _ next => next.Asks kind

namespace Tight

/-- A request to a tight composer that comes to some of the given queries. -/
def Within (c : ComposerId) (t : Tight V R M) (keys : Finset QueryKey) (r : Request) : Prop :=
  r.composer = c ∧ ∀ q ∈ t.parts r, q.key ∈ keys

/-- Asked about one of finitely many queries, the members of a composer ask it about these only, and
whomever else they or the composer ask comes to an end. -/
structure Confined (net : Network V R M) (c : ComposerId) (t : Tight V R M)
    (keys : Finset QueryKey) : Prop where
  members : ∀ m ∈ t.members, ∀ r : Request, r.composer = c → r.key ∈ keys →
    m.analysis.handles r.family = true → (m.analysis.answer r.family (inquiry r m)).Asks
      fun asked => Within c t keys asked ∨ net.EndsAlways asked.composer
  parent : ∀ p, t.parent = some p → net.EndsAlways p

end Tight

section Ending

variable {net : Network V R M} {f g : Answerer V R M → Run V R M β} {w w' : World V R M}

/-- What comes to the same comes to an end. -/
theorem Network.Ends.after (h : ∀ ask, (f ask).outcome w = (g ask).outcome w')
    (hg : net.Ends g w') : net.Ends f w := by
  obtain ⟨depth, hdepth⟩ := hg
  exact ⟨depth, by rwa [h]⟩

/-- A computation with a known result comes to an end. -/
theorem Network.Ends.of_ok {b : β} (hf : ∀ ask, (f ask).outcome w = (.ok b, w')) :
    net.Ends f w := by
  refine ⟨0, ?_⟩
  rw [hf]
  intro hexhausted
  cases hexhausted

/-- A fault ends a computation. -/
theorem Network.Ends.of_fault {fault : Fault}
    (hf : ∀ ask, (f ask).outcome w = (.error (.fault fault), w')) : net.Ends f w := by
  refine ⟨0, ?_⟩
  rw [hf]
  intro hexhausted
  cases hexhausted

/-- A sequence comes to an end if its parts do. -/
theorem Network.Ends.bind {x : Answerer V R M → Run V R M β}
    {k : β → Answerer V R M → Run V R M γ} (hx : Steady x) (hk : ∀ b, Steady (k b))
    (hends : net.Ends x w)
    (hnext : ∀ depth b w', (x (net.answer depth)).outcome w = (.ok b, w') → net.Ends (k b) w') :
    net.Ends (fun ask => x ask >>= fun b => k b ask) w := by
  obtain ⟨depth, hdepth⟩ := hends
  rcases houtcome : (x (net.answer depth)).outcome w with ⟨halt | b, w'⟩
  · refine ⟨depth, ?_⟩
    rw [Run.outcome_bind_error houtcome]
    rw [houtcome] at hdepth
    exact fun h => hdepth (by cases h; rfl)
  · obtain ⟨deeper, hdeeper⟩ := hnext depth b w' houtcome
    refine ⟨max depth deeper, ?_⟩
    have hfirst := hx.stable (Nat.le_max_left depth deeper) hdepth
    rw [Run.outcome_bind_ok (hfirst.trans houtcome),
      (hk b).stable (Nat.le_max_right depth deeper) hdeeper]
    exact hdeeper

end Ending

/-- A composer is answering a query, with these numbers of resolutions under way. -/
structure Underway (c : ComposerId) (active : QueryKey → Nat) (w : World V R M) : Prop where
  depth_pos : 1 ≤ w.depth c
  active_eq : ∀ k, (w.cache c).active k = active k

/-- A computation comes to an end and leaves the same resolutions under way. -/
def Network.Finishes (net : Network V R M) (c : ComposerId) (active : QueryKey → Nat)
    (f : Answerer V R M → Run V R M β) (w : World V R M) : Prop :=
  net.Ends f w ∧
    ∀ depth b w', (f (net.answer depth)).outcome w = (.ok b, w') → Underway c active w'

section Finishing

variable {net : Network V R M} {c : ComposerId} {t : Tight V R M} {active : QueryKey → Nat}
  {w w' : World V R M}

/-- A computation that leaves the stack as it was leaves the same resolutions under way. -/
theorem Run.Returns.underway {x : Run V R M β} (hx : x.Returns net c t []) (hspares : net.Spares c)
    (hw : Underway c active w) {b : β} (hok : x.outcome w = (.ok b, w')) :
    Underway c active w' := by
  have hbase : w.depth c = 0 → ∀ k, active k = 0 :=
    fun h => absurd hw.depth_pos (by omega)
  have hstart : Balanced net c (w.depth c) active ⟨w, []⟩ :=
    ⟨trivial, rfl, fun k => (hw.active_eq k).le, fun _ k => hw.active_eq k⟩
  obtain ⟨s, hbalanced, hend⟩ := (hx w).invariant (fun _ _ => Balanced.move hbase) hstart
  rw [hok] at hbalanced hend
  cases hend
  have hdepth : w'.depth c = w.depth c := hbalanced.depth_eq
  exact ⟨hdepth ▸ hw.depth_pos, hbalanced.active_eq hspares⟩

/-- A sequence finishes if its parts do. -/
theorem Network.Finishes.bind {x : Answerer V R M → Run V R M β}
    {k : β → Answerer V R M → Run V R M γ} (hx : Steady x) (hk : ∀ b, Steady (k b))
    (hfirst : net.Finishes c active x w)
    (hnext : ∀ b w', Underway c active w' → net.Finishes c active (k b) w') :
    net.Finishes c active (fun ask => x ask >>= fun b => k b ask) w := by
  refine ⟨hfirst.1.bind hx hk fun depth b w' h => (hnext b w' (hfirst.2 depth b w' h)).1, ?_⟩
  intro depth b w'' hok
  rcases houtcome : (x (net.answer depth)).outcome w with ⟨halt | a, w'⟩
  · rw [Run.outcome_bind_error houtcome] at hok
    cases hok
  · rw [Run.outcome_bind_ok houtcome] at hok
    exact (hnext a w' (hfirst.2 depth a w' houtcome)).2 depth b w'' hok

/-- What comes to the same finishes. -/
theorem Network.Finishes.after {f g : Answerer V R M → Run V R M β}
    (hg : net.Finishes c active g w') (h : ∀ ask, (f ask).outcome w = (g ask).outcome w') :
    net.Finishes c active f w :=
  ⟨hg.1.after h, fun depth b w'' hok => hg.2 depth b w'' ((h _).symm.trans hok)⟩

/-- A computation with a known result finishes. -/
theorem Network.Finishes.of_ok {f : Answerer V R M → Run V R M β} {b : β}
    (hf : ∀ ask, (f ask).outcome w = (.ok b, w')) (hw : Underway c active w') :
    net.Finishes c active f w := by
  refine ⟨.of_ok hf, fun _ b' w'' hok => ?_⟩
  cases (hf _).symm.trans hok
  exact hw

/-- A fault finishes a computation. -/
theorem Network.Finishes.of_fault {f : Answerer V R M → Run V R M β} {fault : Fault}
    (hf : ∀ ask, (f ask).outcome w = (.error (.fault fault), w')) :
    net.Finishes c active f w := by
  refine ⟨.of_fault hf, fun _ b w'' hok => ?_⟩
  cases (hf _).symm.trans hok

end Finishing

section Walk

variable {net : Network V R M} {c : ComposerId} {t : Tight V R M} {keys : Finset QueryKey}
  {active : QueryKey → Nat} {w : World V R M} (ht : net.composer? c = some (.tight t))
  (hspares : net.Spares c)

include ht hspares

/-- A question that comes to an end leaves the same resolutions under way. -/
theorem Network.Ends.finishes {r : Request} (h : net.Ends (fun ask => ask r) w)
    (hw : Underway c active w) : net.Finishes c active (fun ask => ask r) w :=
  ⟨h, fun depth _ _ hok =>
    (Network.answer_returns ht depth r (s := []) trivial).underway hspares hw hok⟩

variable {kind : Request → Prop}
  (hask : ∀ r, kind r → ∀ w, Underway c active w → net.Ends (fun ask => ask r) w)

include hask

/-- A plan finishes if its questions come to an end. -/
theorem Plan.run_finishes (p : Plan V R M β) (hasks : p.Asks kind) (hp : p.Spares c)
    (hw : Underway c active w) : net.Finishes c active (fun ask => p.run ask) w := by
  induction p generalizing w with
  | give result => exact .of_ok (fun _ => rfl) hw
  | fail fault => exact .of_fault fun _ => rfl
  | ask r next ih =>
      exact .bind (.asking r) (fun b => (next b).run_steady)
        ((hask r hasks.1 w hw).finishes ht hspares hw)
        fun b w' hw' => ih b (hasks.2 b) (hp b) hw'
  | recollect next ih => exact (ih w.memory (hasks _) (hp _) hw).after fun _ => rfl
  | remember update next ih =>
      have hupdated : Underway c active { w with memory := update w.memory } :=
        ⟨hw.depth_pos, hw.active_eq⟩
      exact (ih hasks hp hupdated).after fun _ => rfl
  | inspect d key next ih => exact (ih _ _ (hasks _ _) (hp _ _) hw).after fun _ => rfl
  | clear d next ih =>
      have hdesk : (w.clear d).desk c = w.desk c := World.putCache_desk_of_ne _ _ (Ne.symm hp.1)
      have hcache : (w.clear d).cache c = w.cache c := congrArg Desk.cache hdesk
      have hcleared : Underway c active (w.clear d) := by
        refine ⟨?_, ?_⟩
        · rw [World.clear_depth]
          exact hw.depth_pos
        · rw [hcache]
          exact hw.active_eq
      exact (ih hasks hp.2 hcleared).after fun _ => rfl

/-- A member that is consulted finishes if its questions come to an end. -/
theorem Analysis.consult_finishes (a : Analysis V R M) {family : Family} {q : Inquiry}
    (hasks : (a.answer family q).Asks kind) (ha : (a.answer family q).Spares c)
    (hw : Underway c active w) :
    net.Finishes c active (fun ask => a.consult ask family q) w := by
  have hasked : Underway c active (w.note (.asked a.name family q)) :=
    ⟨hw.depth_pos, hw.active_eq⟩
  have hrun := Plan.run_finishes ht hspares hask _ hasks ha hasked
  refine (Network.Finishes.bind (Plan.run_steady _) (fun _ => .const _) hrun
    fun answer w' hw' => ?_).after fun _ => rfl
  have hanswered : Underway c active (w'.note (.answered a.name q ⟨family, answer⟩)) :=
    ⟨hw'.depth_pos, hw'.active_eq⟩
  exact .of_ok (fun _ => rfl) hanswered

omit ht hspares hask in
/-- Keeping answers finishes. -/
theorem Tight.keep_finishes {r : Request} (hr : r.composer = c)
    (answers : List (Object V R r.family)) (hw : Underway c active w) :
    net.Finishes c active (fun _ => keep r answers) w := by
  subst hr
  rcases Lookup.cases w r with hopen | ⟨kept, hsettled⟩ | hcorrupt
  · have hkeep := keep_open hopen answers
    cases hfinish : (w.cache r.composer).finish r.key
        ⟨r.family, .combined .intersect answers⟩ with
    | error fault =>
        rw [hfinish] at hkeep
        exact .of_fault fun _ => hkeep
    | ok cache =>
        rw [hfinish] at hkeep
        refine .of_ok (fun _ => hkeep) ⟨by simpa using hw.depth_pos, fun k => ?_⟩
        simpa [QueryCache.active_finish hfinish] using hw.active_eq k
  · exact .of_ok (fun _ => keep_settled hsettled answers) hw
  · exact .of_fault fun _ => keep_corrupt hcorrupt answers

/-- Asking the members in turn finishes if their questions come to an end. -/
theorem Tight.gather_finishes {r : Request} (hr : r.composer = c) (members : List (Member V R M))
    (hmembers : ∀ m ∈ members, m ∈ t.members)
    (hasks : ∀ m ∈ t.members, m.analysis.handles r.family = true →
      (m.analysis.answer r.family (inquiry r m)).Asks kind)
    (hparent : ∀ p, t.parent = some p → net.EndsAlways p)
    (answers : List (Object V R r.family)) (hw : Underway c active w) :
    net.Finishes c active (fun ask => t.gather ask r members answers) w := by
  induction members generalizing w answers with
  | nil =>
      refine .bind (t.inherited_steady r) (fun _ => .const _) ?_
        fun above w' hw' => keep_finishes hr _ hw'
      unfold inherited
      cases hp : t.parent with
      | none => exact .of_ok (fun _ => rfl) hw
      | some p =>
          refine .bind (.asking _) (fun _ => .const _)
            ((hparent p hp _ w rfl).finishes ht hspares hw) fun _ w' hw' => ?_
          exact .of_ok (fun _ => rfl) hw'
  | cons m rest ih =>
      have hrest := fun m hm => hmembers m (List.mem_cons_of_mem _ hm)
      cases hm : m.analysis.handles r.family with
      | false =>
          simp only [fun ask => gather_skip t ask rest answers hm]
          exact ih hrest answers hw
      | true =>
          rcases Lookup.cases w r with hopen | ⟨kept, hsettled⟩ | hcorrupt
          · subst hr
            have hmem := hmembers m List.mem_cons_self
            have hgather := fun ask => gather_open t ask rest answers hm hopen
            cases hmark : (w.cache r.composer).mark r.key m.id with
            | error fault =>
                simp only [hmark] at hgather
                exact .of_fault hgather
            | ok cache =>
                simp only [hmark] at hgather
                have hmarked : Underway r.composer active (w.putCache r.composer cache) := by
                  refine ⟨by simpa using hw.depth_pos, fun k => ?_⟩
                  simpa [QueryCache.active_mark hmark] using hw.active_eq k
                have hconsult := Analysis.consult_finishes ht hspares hask m.analysis
                  (hasks m hmem hm) (hspares.analysis ht (List.mem_map_of_mem hmem) _ _) hmarked
                exact .after (.bind (m.analysis.consult_steady _ _)
                  (fun answer => t.gather_steady r rest (answers ++ [answer])) hconsult
                  fun answer w' hw' => ih hrest _ hw') hgather
          · exact .of_ok (fun ask => gather_settled t ask rest answers hm hsettled) hw
          · exact .of_fault fun ask => gather_corrupt t ask rest answers hm hcorrupt

end Walk

/-- The number of resolutions of some queries that can still be started. -/
def Tight.remaining (t : Tight V R M) (keys : Finset QueryKey) (active : QueryKey → Nat) : Nat :=
  ∑ k ∈ keys, (t.config.reentrantResolutions + 1 - active k)

/-- Starting a resolution leaves fewer that can be started. -/
theorem Tight.remaining_lt {t : Tight V R M} {keys : Finset QueryKey} {active : QueryKey → Nat}
    {k : QueryKey} (hk : k ∈ keys) (hactive : active k ≤ t.config.reentrantResolutions) :
    t.remaining keys (fun j => if j = k then active k + 1 else active j) <
      t.remaining keys active := by
  refine Finset.sum_lt_sum (fun j _ => ?_) ⟨k, hk, ?_⟩
  · by_cases hj : j = k
    · subst hj
      simp only [if_true]
      omega
    · simp [hj]
  · simp only [if_true]
    omega

section Descent

variable {net : Network V R M} {c : ComposerId} {t : Tight V R M} {keys : Finset QueryKey}
  (ht : net.composer? c = some (.tight t)) (hspares : net.Spares c)
  (hconfined : t.Confined net c keys)

include ht hspares hconfined

/-- A query comes to an end if all questions do with fewer resolutions left to start. -/
theorem Tight.query_ends {r : Request} (hr : r.composer = c) (hkey : r.key ∈ keys)
    (w : World V R M)
    (hnested : ∀ active, t.remaining keys active < t.remaining keys (w.cache c).active →
      ∀ asked, Within c t keys asked → ∀ w', Underway c active w' →
        net.Ends (fun ask => ask asked) w') :
    net.Ends (fun ask => (Composer.tight t).query ask r) w := by
  subst hr
  refine .after (fun ask => t.noted_query_outcome ask)
    (.bind (t.resolve_steady r) (fun _ => .const _) ?_ fun _ _ _ _ => ?_)
  · rcases Lookup.cases (begun (w.note (.requested r)) r.composer) r with
      hopen | ⟨kept, hsettled⟩ | hcorrupt
    · by_cases hcut : t.Cut (begun (w.note (.requested r)) r.composer) r
      · exact .of_ok fun ask => resolve_cut t ask hopen hcut
      · have hactive : (w.cache r.composer).active r.key ≤ t.config.reentrantResolutions := by
          have hbound := (not_or.1 hcut).2
          rw [begun_cache, World.note_cache] at hbound
          omega
        -- inside the resolution one more of them is under way, so that less remains to be started
        have hstarted : Underway r.composer
            (fun j => if j = r.key then (w.cache r.composer).active r.key + 1
              else (w.cache r.composer).active j)
            (started (begun (w.note (.requested r)) r.composer) r) := by
          refine ⟨by simp, fun k => ?_⟩
          rw [started_cache, begun_cache, World.note_cache, QueryCache.active_enter]
        refine .after (fun ask => resolve_open t ask hopen hcut)
          (.bind (t.gather_steady r _ _) (fun _ => .const _)
            (gather_finishes ht hspares ?_ rfl t.members (fun _ h => h)
              (fun m hm hears => hconfined.members m hm r rfl hkey hears) hconfined.parent []
              hstarted).1
            fun _ _ _ _ => .of_ok fun _ => rfl)
        rintro asked (hwithin | hends) w' hw'
        · exact hnested _ (remaining_lt hkey hactive) asked hwithin w' hw'
        · exact hends asked w' rfl
    · exact .of_ok fun ask => resolve_settled t ask hsettled
    · exact .of_fault fun ask => resolve_corrupt t ask hcorrupt
  · exact .after (fun _ => Run.outcome_bind_ok (t.closed_outcome r.composer)) (.of_ok fun _ => rfl)

omit ht hspares hconfined in
/-- A question comes to an end if all its parts do, one after the other. -/
theorem Tight.respond_ends {r : Request} (inv : World V R M → Prop)
    (hends : ∀ q ∈ t.parts r, ∀ w, inv w → net.Ends (fun ask => (Composer.tight t).query ask q) w)
    (hinv : ∀ q ∈ t.parts r, ∀ depth w b w', inv w →
      ((Composer.tight t).query (net.answer depth) q).outcome w = (.ok b, w') → inv w')
    {w : World V R M} (hw : inv w) :
    net.Ends (fun ask => (Composer.tight t).respond ask r) w := by
  rcases t.respond_cases r with ⟨_, hrespond⟩ | ⟨term, edge, hparts, hrespond⟩ |
    ⟨term, edges, hparts, hrespond⟩
  · simp only [hrespond]
    exact .of_ok fun _ => rfl
  · simp only [hrespond]
    rw [hparts] at hends
    exact hends _ List.mem_cons_self w hw
  · simp only [hrespond]
    rw [hparts] at hends hinv
    have hsteady : ∀ edges, Steady fun ask => t.queryAlong ask r term edges :=
      fun edges => .mapM (fun edge => (Composer.tight t).query_steady (r.about term edge)) edges
    refine .bind (hsteady edges) (fun _ => .const _) ?_ fun _ _ _ _ => .of_ok fun _ => rfl
    clear hparts hrespond
    induction edges generalizing w with
    | nil => exact .of_ok fun _ => rfl
    | cons edge rest ih =>
        simp only [queryAlong_cons]
        have hmem : r.about term edge ∈ (edge :: rest).map (r.about term) := List.mem_cons_self
        refine .bind ((Composer.tight t).query_steady _)
          (fun _ => (hsteady rest).bind fun _ => .const _) (hends _ hmem w hw)
          fun depth b w' hok => ?_
        exact .bind (hsteady rest) (fun _ => .const _)
          (ih (hinv _ hmem depth w b w' hw hok)
            (fun q hq => hinv q (List.mem_cons_of_mem _ hq))
            fun q hq => hends q (List.mem_cons_of_mem _ hq))
          fun _ _ _ _ => .of_ok fun _ => rfl

omit hspares hconfined in
/-- A network comes to an end with a question if the composer does. -/
theorem Network.Ends.of_respond {r : Request} (hr : r.composer = c) {w : World V R M}
    (h : net.Ends (fun ask => (Composer.tight t).respond ask r) w) :
    net.Ends (fun ask => ask r) w := by
  obtain ⟨depth, hdepth⟩ := h
  refine ⟨depth + 1, ?_⟩
  show ((net.answer (depth + 1) r).outcome w).1 ≠ _
  rw [Network.answer, hr, ht]
  exact hdepth

/-- A question that comes up while the composer is answering another one comes to an end. -/
theorem Tight.nested_ends (active : QueryKey → Nat) {asked : Request}
    (hasked : Within c t keys asked) {w : World V R M} (hw : Underway c active w) :
    net.Ends (fun ask => ask asked) w := by
  -- the induction is on what remains and not on a depth: the question that comes up inside may be
  -- about any of the queries, in any world with the resolutions of the stack under way
  induction hremaining : t.remaining keys active using Nat.strong_induction_on
    generalizing active asked w with
  | _ n ih =>
      subst hremaining
      have hcomposer : ∀ q ∈ t.parts asked, q.composer = c :=
        fun q hq => (composer_of_mem_parts hq).trans hasked.1
      refine .of_respond ht hasked.1 (respond_ends (Underway c active) ?_ ?_ hw)
      · intro q hq w hw
        have hactive : (w.cache c).active = active := funext hw.active_eq
        refine query_ends ht hspares hconfined (hcomposer q hq) (hasked.2 q hq) w ?_
        rw [hactive]
        intro active' hlt asked' hasked' w' hw'
        exact ih _ hlt active' hasked' hw' rfl
      · intro q hq depth w b w' hw hok
        have hreturns : ((Composer.tight t).query (net.answer depth) q).Returns net c t [] :=
          Composer.query_returns (fun s hs r => Network.answer_returns ht depth r hs) ht
            (hcomposer q hq ▸ ht) trivial
        exact hreturns.underway hspares hw hok

/-- Every question about the given queries comes to an end, whatever the state of the network. -/
theorem Tight.answer_ends {r : Request} (hr : Within c t keys r) (w : World V R M) :
    net.Ends (fun ask => ask r) w := by
  refine .of_respond ht hr.1
    (respond_ends (fun _ => True) ?_ (fun _ _ _ _ _ _ _ _ => trivial) trivial)
  intro q hq w _
  refine query_ends ht hspares hconfined ((composer_of_mem_parts hq).trans hr.1) (hr.2 q hq) w ?_
  exact fun active _ asked hasked w' hw' =>
    nested_ends ht hspares hconfined active hasked hw'

/-- Asked about one of finitely many queries, about which alone its members ask it, a tight composer
comes to an end: followed deeply enough, the question has an answer or a fault, which does not
change when it is followed more deeply. And as long as the cache is not cleared, no query is
dispatched more often than one time more than the settings let it be resolved again, and no member
is asked about it more often. -/
theorem Tight.guard_bounds_queries (hids : (t.members.map (·.id)).Nodup) :
    (∀ r, Within c t keys r → ∀ w, ∃ depth outcome, outcome.1 ≠ .error .exhausted ∧
      ∀ deeper, depth ≤ deeper → (net.answer deeper r).outcome w = outcome) ∧
    ∀ depth steps memory k,
      AtMost c (t.config.reentrantResolutions + 1) (Event.dispatches c k)
        (net.after depth steps memory).trail ∧
      ∀ m ∈ t.members, AtMost c (t.config.reentrantResolutions + 1) (Event.asks c m.id k)
        (net.after depth steps memory).trail := by
  refine ⟨fun r hr w => ?_, fun depth steps memory k => ⟨?_, fun m _ => ?_⟩⟩
  · obtain ⟨depth, hdepth⟩ := answer_ends ht hspares hconfined hr w
    exact ⟨depth, _, hdepth, fun deeper hle => (Steady.asking r).stable hle hdepth⟩
  · exact dispatches_at_most ht depth steps memory k
  · exact asks_at_most ht depth steps memory hspares hids m.id k

end Descent

namespace Circle

/-- The queries that come up in the circle. -/
def keys : Finset QueryKey := {⟨⟨0⟩, ⟨0⟩, .value⟩, ⟨⟨1⟩, ⟨0⟩, .value⟩}

/-- The analyses in the circle clear no cache. -/
theorem network_spares : network.Spares ⟨0⟩ :=
  Network.spares_of_elementary
    (List.forall_mem_singleton.2 (List.forall_mem_map.2 elementary)) ⟨0⟩

/-- The analyses in the circle ask about the queries of the circle only. -/
theorem composer_confined : composer.Confined network ⟨0⟩ keys where
  parent p hp := by cases hp
  members m hm r hr hkey hears := by
    obtain ⟨c, family, term, edge, client, operand⟩ := r
    simp only [composer, List.mem_cons, List.not_mem_nil, or_false] at hm
    simp only [keys, Request.key, Finset.mem_insert, Finset.mem_singleton,
      QueryKey.mk.injEq] at hkey
    obtain rfl | rfl | rfl := hm <;> cases family <;>
      simp only [Analysis.echo, Analysis.constant, decide_eq_true_eq, reduceCtorEq] at hears
    · refine ⟨.inl ⟨hr, fun q hq => ?_⟩, fun _ => trivial⟩
      obtain rfl := List.mem_singleton.1 hq
      obtain ⟨rfl, rfl, _⟩ | ⟨rfl, rfl, _⟩ := hkey <;>
        simp [keys, Request.key, Inquiry.request, inquiry, Family.kind]
    · refine ⟨.inl ⟨hr, fun q hq => ?_⟩, fun _ => trivial⟩
      obtain rfl := List.mem_singleton.1 hq
      obtain ⟨rfl, rfl, _⟩ | ⟨rfl, rfl, _⟩ := hkey <;>
        simp [keys, Request.key, Inquiry.request, inquiry, Family.kind]
    · exact trivial

/-- The question about the circle comes to an end, and its query is dispatched at most twice. -/
theorem question_ends :
    (∀ w, ∃ depth outcome, outcome.1 ≠ .error .exhausted ∧
      ∀ deeper, depth ≤ deeper → (network.answer deeper question).outcome w = outcome) ∧
    AtMost ⟨0⟩ 2 (Event.dispatches ⟨0⟩ question.key)
      (network.after 9 [.ask question] ()).trail := by
  have hnet : network.composer? ⟨0⟩ = some (.tight composer) := rfl
  have hguard := guard_bounds_queries hnet network_spares composer_confined (by decide)
  exact ⟨hguard.1 question ⟨rfl, by decide⟩, (hguard.2 9 [.ask question] () question.key).1⟩

end Circle

end JointAnalysis
