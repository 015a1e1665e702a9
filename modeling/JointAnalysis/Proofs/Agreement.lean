import JointAnalysis.Proofs.Faithful
import JointAnalysis.Proofs.Walk

/-!
# Composers agree with the reference

A computation matches a result if it ends with this result, or is stopped because it went too deep.
In a faithful world in which nothing is being resolved that it leads to, answering a grounded
question matches the reference, however the caches are filled.
-/

namespace JointAnalysis

open Lookup Tight

variable {V R M β γ : Type}

/-- How a computation may be halted that should come to `result`: by the fault that `result` says,
and by the depth only if it is not `deep`. -/
def Halt.Fits (result : Except Halt β) (deep : Prop) : Halt → World V R M → Prop
  | .fault f, _ => result = .error (.fault f)
  | .exhausted, _ => ¬ deep

/-- A part is halted as the whole is, if its fault is that of the whole. -/
theorem Halt.Fits.lift {result : Except Halt β} {total : Except Halt γ} {deep deep' : Prop}
    {halt : Halt} {w w' : World V R M} (h : Halt.Fits result deep halt w)
    (herror : ∀ halt, result = .error halt → total = .error halt) (hdeep : deep' → deep) :
    Halt.Fits total deep' halt w' := by
  cases halt with
  | fault fault => exact herror _ h
  | exhausted => exact fun hd => h (hdeep hd)

/-- Started in `w`, a computation ends as `result` says and leaves a world of which `post` holds.
Only if it is not `deep` may it be stopped before. -/
def Run.Matches (x : Run V R M β) (w : World V R M) (result : Except Halt β)
    (post : World V R M → Prop) (deep : Prop) : Prop :=
  x.Ends (Halt.Fits result deep) w fun b w' => result = .ok b ∧ post w'

namespace Run.Matches

variable {x : Run V R M β} {w : World V R M} {result : Except Halt β}
  {post : World V R M → Prop} {deep : Prop}

/-- A computation that has a result has the one that it matches. -/
theorem eq_ok (hx : x.Matches w result post deep) {b : β} (hb : (x.outcome w).1 = .ok b) :
    result = .ok b :=
  (hx.ok (Prod.ext hb rfl)).1

/-- Less may be asked of the world, and more of the depth. -/
theorem weaken {post' : World V R M → Prop} {deep' : Prop} (hx : x.Matches w result post deep)
    (hpost : ∀ w', post w' → post' w') (hdeep : deep' → deep) :
    x.Matches w result post' deep' :=
  hx.mono (fun _ w' h => ⟨h.1, hpost w' h.2⟩) fun _ _ h => h.lift (fun _ h => h) hdeep

/-- A sequence matches what its second part matches, unless the first part has no result. -/
theorem followed {f : β → Run V R M γ} {total : Except Halt γ} {post' : World V R M → Prop}
    (hx : x.Matches w result post deep)
    (herror : ∀ halt, result = .error halt → total = .error halt)
    (hf : ∀ b w', result = .ok b → post w' → (f b).Matches w' total post' deep) :
    (x >>= f).Matches w total post' deep := by
  have hpart : x.Ends (Halt.Fits total deep) w fun b w' => result = .ok b ∧ post w' :=
    hx.mono (fun _ _ h => h) fun _ _ h => h.lift herror fun hd => hd
  exact hpart.bind fun b w' _ h => hf b w' h.1 h.2

/-- Computations in turn match results in turn. -/
theorem mapM {f : β → Run V R M γ} {g : β → Except Halt γ} {inv : World V R M → Prop}
    {l : List β} (h : ∀ b ∈ l, ∀ w, inv w → (f b).Matches w (g b) inv deep) (hw : inv w) :
    (l.mapM f).Matches w (l.mapM g) inv deep := by
  induction l generalizing w with
  | nil => exact .of_ok rfl ⟨rfl, hw⟩
  | cons b rest ih =>
      obtain ⟨hfirst, hrest⟩ := List.forall_mem_cons.1 h
      rw [List.mapM_cons, List.mapM_cons]
      refine (hfirst w hw).followed (fun halt herror => by rw [herror]; rfl) fun c w₁ hc hw₁ => ?_
      rw [hc]
      refine (ih hrest hw₁).followed (fun halt herror => ?_) fun cs w₂ hcs hw₂ =>
        .of_ok rfl ⟨?_, hw₂⟩
      · rw [herror]
        rfl
      · rw [hcs]
        rfl

end Run.Matches

/-- This is left of a stateless plan: it means what the whole plan means, and asks nothing else. -/
structure Plan.Remains (view : Oracle V R) (inv : World V R M → Prop) (whole rest : Plan V R M β)
    (w : World V R M) : Prop where
  holds : inv w
  stateless : rest.Stateless
  meaning_eq : rest.meaning view = whole.meaning view
  asks : ∀ q ∈ rest.questions view, q ∈ whole.questions view

section Plans

variable {ask : Answerer V R M} {view : Oracle V R} {inv : World V R M → Prop} {deep : Prop}
  (hinv : ∀ w w' : World V R M, w'.desk = w.desk → inv w → inv w')

include hinv

/-- A stateless plan matches its meaning, if the questions that it asks match what the oracle
answers. -/
theorem Plan.remains_guides (p : Plan V R M β)
    (hask : ∀ q ∈ p.questions view, ∀ w, inv w → (ask q).Matches w (view q) inv deep) :
    Plan.Guides (.any ask) (Halt.Fits (p.meaning view) deep) (p.Remains view inv)
      fun b w => p.meaning view = .ok b ∧ inv w where
  give _ _ h := ⟨h.meaning_eq.symm, h.holds⟩
  fail _ _ h := h.meaning_eq.symm
  ask r next w h := by
    have hanswer := hask r (h.asks r (by simp [questions])) w h.holds
    refine ⟨trivial, hanswer.mono (fun answer w' ho => ?_) fun _ _ hhalt =>
      hhalt.lift (fun halt herror => ?_) fun hd => hd⟩
    · refine ⟨ho.2, h.stateless answer, ?_, fun q hq => h.asks q ?_⟩
      · rw [← h.meaning_eq, meaning, ho.1]
        rfl
      · simp [questions, ho.1, hq]
    · rw [← h.meaning_eq, meaning, herror]
      rfl
  recollect _ _ h := h.stateless.elim
  remember _ _ w h := ⟨hinv w _ rfl h.holds, h.stateless, h.meaning_eq, h.asks⟩
  inspect _ _ _ _ h := h.stateless.elim
  clear _ _ _ h := h.stateless.elim

/-- Consulting an analysis matches the meaning of its plan. -/
theorem Analysis.consult_matches {a : Analysis V R M} {family : Family} {q : Inquiry}
    (ha : (a.answer family q).Stateless)
    (hask : ∀ r ∈ (a.answer family q).questions view, ∀ w, inv w →
      (ask r).Matches w (view r) inv deep)
    {w : World V R M} (hw : inv w) :
    (Trait.any ask).Meets (Halt.Fits ((a.answer family q).meaning view) deep)
      (fun ask => a.consult ask family q) w
      fun o w' => (a.answer family q).meaning view = .ok o ∧ inv w' :=
  .consult (Plan.remains_guides hinv _ hask)
    ⟨hinv w _ rfl hw, ha, rfl, fun _ hq => hq⟩ fun _ w' h => ⟨h.1, hinv w' _ rfl h.2⟩

end Plans

/-- The questions that a composer has answered for a question about a term when an oracle
answers. -/
def Composer.questions (oracle : Oracle V R) (r : Request) : Composer V R M → List Request
  | .chain x =>
    match x.speaker? r.family r.client with
    | none => []
    | some m => (m.analysis.answer r.family (inquiry r m)).questions oracle
  | .tight t =>
    (t.members.filter (·.analysis.handles r.family)).flatMap (fun m =>
      ((m.analysis.answer r.family (inquiry r m)).questions
        (oracle.facing .cut (r.own m.id))).filter (· ≠ r.own m.id)) ++
      t.parent.toList.map fun p => { r with composer := p, client := t.id, operand := none }
  | .relay x =>
    (x.analysis.answer r.family ⟨r.term, r.edge, r.composer, r.client⟩).questions oracle

/-- Questions are followed deep enough to answer this one as the reference does. -/
def Network.Deep (net : Network V R M) : Nat → Request → Prop
  | 0, _ => False
  | depth + 1, r => 0 < depth ∧ ∀ c, net.composer? r.composer = some c →
    ∀ q ∈ c.parts r, ∀ s ∈ c.questions net.reference q, net.Deep depth s

namespace Network

variable {net : Network V R M} {r : Request}

/-- What is deep enough stays so. -/
theorem Deep.succ {depth : Nat} (h : net.Deep depth r) : net.Deep (depth + 1) r := by
  induction depth generalizing r with
  | zero => exact h.elim
  | succ depth ih =>
      exact ⟨Nat.succ_pos depth, fun c hc q hq s hs => ih (h.2 c hc q hq s hs)⟩

/-- Following questions deeper is deep enough. -/
theorem Deep.mono {depth depth' : Nat} (h : net.Deep depth r) (hle : depth ≤ depth') :
    net.Deep depth' r := by
  induction hle with
  | refl => exact h
  | step _ ih => exact ih.succ

/-- The questions that are asked are among those that are raised. -/
theorem raises_of_mem_questions {c : Composer V R M} {q : Request}
    (hc : net.composer? r.composer = some c) (ho : r.operand = none) {oracle : Oracle V R}
    (hq : q ∈ c.questions oracle r) : net.Raises .cut r q := by
  cases c with
  | chain x =>
      simp only [Composer.questions] at hq
      split at hq
      · cases hq
      · next m hm => exact .speaker hc ho hm (Plan.mayAsk_of_mem_questions hq)
  | tight t =>
      rw [Composer.questions, List.mem_append, List.mem_flatMap, List.mem_map] at hq
      rcases hq with ⟨m, hm, hq⟩ | ⟨p, hp, rfl⟩
      · obtain ⟨hmember, hears⟩ := List.mem_filter.1 hm
        obtain ⟨hq, hown⟩ := List.mem_filter.1 hq
        exact .member hc ho hmember hears (Plan.mayAsk_of_mem_questions hq) fun _ =>
          of_decide_eq_true hown
      · exact .parent hc ho (Option.mem_toList.1 hp)
  | relay x => exact .relay hc ho (Plan.mayAsk_of_mem_questions hq)

/-- Some depth is enough for finitely many grounded questions if one is for each of them. -/
theorem exists_deep_of_forall {l : List Request} (h : ∀ q ∈ l, ∃ depth, net.Deep depth q) :
    ∃ depth, ∀ q ∈ l, net.Deep depth q := by
  induction l with
  | nil => exact ⟨0, by simp⟩
  | cons q rest ih =>
      obtain ⟨hfirst, hrest⟩ := List.forall_mem_cons.1 h
      obtain ⟨n, hn⟩ := hfirst
      obtain ⟨m, hm⟩ := ih hrest
      refine ⟨max n m, List.forall_mem_cons.2 ⟨hn.mono (Nat.le_max_left n m), fun s hs => ?_⟩⟩
      exact (hm s hs).mono (Nat.le_max_right n m)

/-- Some depth is enough for a grounded question. -/
theorem Grounded.exists_deep (h : net.Grounded r) : ∃ depth, net.Deep depth r := by
  induction h with
  | @intro r _ _ ih =>
      cases hc : net.composer? r.composer with
      | none => exact ⟨2, Nat.one_pos, fun c hc' => by rw [hc] at hc'; cases hc'⟩
      | some c =>
          by_cases ho : r.operand = none
          · obtain ⟨depth, hdepth⟩ := exists_deep_of_forall (l := c.questions net.reference r)
              fun q hq => ih q (raises_of_mem_questions hc ho hq)
            refine ⟨depth + 2, Nat.succ_pos depth, fun c' hc' q hq s hs => ?_⟩
            obtain rfl := Option.some.inj (hc.symm.trans hc')
            rw [c.parts_eq_self ho, List.mem_singleton] at hq
            subst hq
            exact (hdepth s hs).succ
          · -- the parts are answered at the same depth as the question
            obtain ⟨depth, hdepth⟩ := exists_deep_of_forall (l := c.parts r)
              fun q hq => ih q (.part hc ho hq)
            refine ⟨depth + 2, Nat.succ_pos depth, fun c' hc' q hq s hs => ?_⟩
            obtain rfl := Option.some.inj (hc.symm.trans hc')
            obtain ⟨hcomposer, hplain⟩ := Composer.of_mem_parts hq
            have hpart := (hdepth q hq).succ.2 c (by rw [hcomposer, hc]) q
              (by rw [c.parts_eq_self hplain]; exact List.mem_singleton_self q) s hs
            exact hpart.succ

end Network

/-- A member that asks the question that it was handed is answered at once, and no composer sees a
difference. -/
theorem Network.own_matches {net : Network V R M} {t : Tight V R M} {r : Request}
    (ht : net.composer? r.composer = some (.tight t)) (ho : r.operand = none) {w : World V R M}
    (hcycle : (w.cache r.composer).isCycle r.key r.client = true)
    (hdepth : 1 ≤ w.depth r.composer) (depth : Nat) :
    (net.answer depth r).Matches w (.ok .full)
      (fun w' => (∀ c, w'.cache c = w.cache c) ∧ ∀ c, w'.depth c = w.depth c) (0 < depth) := by
  cases depth with
  | zero => exact Nat.lt_irrefl 0
  | succ depth =>
      rw [Network.answer_tight ht rfl ho]
      have hcache : (begun (w.note (.requested r)) r.composer).cache r.composer =
          w.cache r.composer := by simp
      have hopen : Open (begun (w.note (.requested r)) r.composer) r := by
        obtain ⟨e, he, hstate⟩ := Option.map_eq_some_iff.1 (QueryCache.isCycle_iff.1 hcycle)
        refine QueryCache.state_ne_finished ?_
        simp [hcache, QueryCache.entryOrFresh, he, hstate]
      have hcut : t.Cut (begun (w.note (.requested r)) r.composer) r := by
        refine .inl ?_
        rw [hcache]
        exact hcycle
      refine .of_ok ((t.noted_query_outcome _).trans ((Run.outcome_bind_ok
        (resolve_cut t _ hopen hcut)).trans ((Run.outcome_bind_ok (t.closed_outcome _)).trans
        (Run.outcome_bind_ok (Run.outcome_record _ _))))) ⟨rfl, fun c => ?_, fun c => ?_⟩
      · rcases Network.concluded_cache (t := t) (begun (w.note (.requested r)) r.composer)
          r.composer c with h | ⟨_, hzero, _⟩
        · simpa using h
        · simp at hzero
          omega
      · exact Network.concluded_begun_depth (fun _ => rfl) c

section Walk

variable {net : Network V R M} {depth : Nat}
  (hask : ∀ q, net.Grounded q → ∀ w, net.Faithful w → net.Quiet w q →
    (net.answer depth q).Matches w (net.reference q) (net.Passes w) (net.Deep depth q))

include hask

namespace Tight

variable {t : Tight V R M} {r : Request} {w₀ w : World V R M} {deep : Prop}
  (hr : net.Grounded r) (ho : r.operand = none)
  (ht : net.composer? r.composer = some (.tight t)) (hdepth : 1 ≤ w₀.depth r.composer)
  (hquiet : net.Quiet w₀ r)

include hr ho ht hdepth hquiet

/-- A member that is handed the query answers what its plan comes to with the reference for the
oracle. -/
theorem member_matches {m : Member V R M} (hm : m ∈ t.members)
    (hears : m.analysis.handles r.family = true) (h : net.Resolving r w₀ w)
    (hcycle : (w.cache r.composer).isCycle r.key m.id = true) (hpos : deep → 0 < depth)
    (hdeep : deep → ∀ q ∈ (m.analysis.answer r.family (inquiry r m)).questions
      (net.reference.facing .cut (r.own m.id)), q ≠ r.own m.id → net.Deep depth q) :
    (Trait.any (net.answer depth)).Meets
      (Halt.Fits ((m.analysis.answer r.family (inquiry r m)).meaning
        (net.reference.facing .cut (r.own m.id))) deep)
      (fun ask => m.analysis.consult ask r.family (inquiry r m)) w fun o w' =>
        (m.analysis.answer r.family (inquiry r m)).meaning
          (net.reference.facing .cut (r.own m.id)) = .ok o ∧ net.Passes w w' := by
  have hstateless : (m.analysis.answer r.family (inquiry r m)).Stateless := by
    cases hr with
    | intro hstateless _ => exact hstateless ho _ ht m hm hears
  refine Analysis.consult_matches ?_ hstateless (fun q hq w' hw' => ?_) (Network.Keeps.refl
    h.keeps.faithful)
  · intro w' w'' hdesk hw'
    exact hw'.same (fun c => by rw [World.cache, hdesk, World.cache])
      fun c => by rw [World.depth, hdesk, World.depth]
  · obtain ⟨hresolving, hentry⟩ := h.passes hdepth hw'
    by_cases hown : q = r.own m.id
    · -- the mark of the member is still there, so it is recognised
      subst hown
      have hview : net.reference.facing .cut (r.own m.id) (r.own m.id) = .ok .full :=
        if_pos ⟨rfl, rfl⟩
      have hcycle' : (w'.cache r.composer).isCycle r.key m.id = true := by
        rw [QueryCache.isCycle_iff] at hcycle ⊢
        rw [hentry]
        exact hcycle
      have hdepth' : 1 ≤ w'.depth r.composer := by
        rw [hresolving.keeps.depth]
        exact hdepth
      rw [hview]
      exact (Network.own_matches (r := r.own m.id) ht rfl hcycle' hdepth' depth).weaken
        (fun w'' hw'' => hw'.same hw''.1 hw''.2) hpos
    · have hview : net.reference.facing .cut (r.own m.id) q = net.reference q :=
        if_neg fun h => hown h.2
      have hraises : net.Raises .cut r q :=
        .member ht ho hm hears (Plan.mayAsk_of_mem_questions hq) fun _ => hown
      have hground : net.Grounded q := hr.trans (.single hraises)
      rw [hview]
      exact (hask q hground w' hw'.faithful
        (hquiet.raised hr ho ht hraises hresolving.keeps)).weaken
        (fun _ hw'' => hw'.trans hw'') fun h => hdeep h q hq hown

omit hask hr ho ht hdepth hquiet in
/-- The query comes to what the reference says. While members are asked, the answers so far are the
beginning of it. -/
def referenceStages (net : Network V R M) (t : Tight V R M) (r : Request) (w₀ : World V R M) :
    Stages V R M r where
  begun w := w = w₀
  asking rest answers w := net.Resolving r w₀ w ∧ net.reference r = (do
    let more ← below .cut net.reference r rest
    let above ← t.above net.reference r
    pure (.combined .intersect (above ++ (answers ++ more))))
  gathered children w := net.Resolving r w₀ w ∧
    net.reference r = .ok (.combined .intersect children)
  resolved o w := net.reference r = .ok o ∧ net.Resolving r w₀ w ∧ ∃ kept, Settled w r kept
  answered o w := net.reference r = .ok o ∧ net.Passes w₀ w

/-- A resolution comes to what the reference says. -/
theorem reference_resolves (hw : net.Faithful w₀)
    (hdeep : deep → 0 < depth ∧ ∀ q ∈ (Composer.tight t).questions net.reference r,
      net.Deep depth q) :
    (referenceStages net t r w₀).Resolves (.any (net.answer depth))
      (Halt.Fits (net.reference r) deep) t where
  found w h := by
    subst h
    exact .of_sealed (hw.kept_reference hr ho ht) fun _ _ hkept => ⟨hkept, .refl hw⟩
  cut w h _ hcut := by
    subst h
    exact absurd hcut (not_cut_of_idle (hquiet r .refl ho))
  start w h hopen _ := by
    subst h
    refine ⟨.started hr ho ht hdepth hw (hquiet r .refl ho) hopen, ?_⟩
    rw [hr.reference_eq, Network.meaning, ht]
    simp only [Composer.meaning, ho, Tight.meaning, List.nil_append]
  skip m rest answers w hm h := by
    have htotal := h.2
    rw [below_skip hm] at htotal
    exact ⟨h.1, htotal⟩
  meanwhile m rest answers w h := .of_sealed (h.1.keeps.faithful.kept_reference hr ho ht)
    fun kept hsettled hkept => ⟨hkept, h.1, kept, hsettled⟩
  consult m hm hears rest answers w h hopen := by
    obtain ⟨hresolving, htotal⟩ := h
    rw [below_cons hears] at htotal
    obtain ⟨cache, hmark, hmarked, hcycle⟩ := hresolving.mark hr ho ht hdepth hopen m.id
    have hmember := member_matches hask hr ho ht hdepth hquiet hm hears hmarked hcycle
      (fun hd => (hdeep hd).1) fun hd q hq hown => (hdeep hd).2 q <| List.mem_append_left _ <|
        List.mem_flatMap.2 ⟨m, List.mem_filter.2 ⟨hm, hears⟩,
          List.mem_filter.2 ⟨hq, decide_eq_true hown⟩⟩
    rw [hmark]
    refine hmember.mono (fun answer w' ho => ⟨(hmarked.passes hdepth ho.2).1, ?_⟩)
      fun _ _ hhalt => hhalt.lift (fun halt herror => ?_) fun hd => hd
    · rw [htotal, ho.1]
      show (pure answer >>= fun _ => _) >>= (fun _ => _) = _
      simp
    · rw [htotal, herror]
      rfl
  orphan hp answers w h := by
    refine ⟨h.1, ?_⟩
    simpa [below, above, hp] using h.2
  inherit p hp answers w h := by
    have hraises : net.Raises .cut r { r with composer := p, client := t.id, operand := none } :=
      .parent ht ho hp
    have hanswer := hask _ (hr.trans (.single hraises)) w h.1.keeps.faithful
      (hquiet.raised hr ho ht hraises h.1.keeps)
    refine ⟨trivial, hanswer.mono (fun answer w' ho => ⟨(h.1.passes hdepth ho.2).1, ?_⟩)
      fun _ _ hhalt => hhalt.lift (fun halt herror => ?_) fun hd => ?_⟩
    · simpa [below, above, hp, ho.1] using h.2
    · simpa [below, above, hp, herror] using h.2
    · exact (hdeep hd).2 _ (List.mem_append_right _ (List.mem_map.2 ⟨p, by simp [hp], rfl⟩))
  kept children w h := .of_sealed (h.1.keeps.faithful.kept_reference hr ho ht)
    fun kept hsettled hkept => ⟨hkept, h.1, kept, hsettled⟩
  keep children w h hopen := by
    obtain ⟨cache, hfinish, hresolving, hsettled⟩ := h.1.finish hr ho ht hdepth hopen h.2
    rw [hfinish]
    exact ⟨h.2, hresolving, children, hsettled⟩
  leave o w h := by
    obtain ⟨hresult, hresolving, kept, hsettled⟩ := h
    exact ⟨hresult, hresolving.ended hr ho ht (hquiet r .refl ho) hsettled⟩

end Tight

/-- A question about a term is answered as the reference says. -/
theorem Composer.query_matches {c : Composer V R M} {r : Request} {w : World V R M}
    (hr : net.Grounded r) (ho : r.operand = none) (hc : net.composer? r.composer = some c)
    (hw : net.Faithful w) (hquiet : net.Quiet w r) :
    (c.query (net.answer depth) r).Matches w (net.reference r) (net.Passes w)
      (0 < depth ∧ ∀ q ∈ c.questions net.reference r, net.Deep depth q) := by
  have hinv : ∀ w₁ w₂ : World V R M, w₂.desk = w₁.desk → net.Passes w w₁ → net.Passes w w₂ := by
    intro w₁ w₂ hdesk h
    exact h.same (fun d => by rw [World.cache, hdesk, World.cache])
      fun d => by rw [World.depth, hdesk, World.depth]
  have hnoted : net.Passes w (w.note (.requested r)) := hinv w _ rfl (.refl hw)
  have hstateless : c.Stateless r := by
    cases hr with
    | intro hstateless _ => exact hstateless ho c hc
  -- outside a tight composer the plan is asked directly
  have hdirect : ∀ (a : Analysis V R M) q, (a.answer r.family q).Stateless →
      (∀ s ∈ (a.answer r.family q).questions net.reference, s ∈ c.questions net.reference r) →
      net.reference r = (a.answer r.family q).meaning net.reference →
      (Trait.any (net.answer depth)).Meets (Halt.Fits (net.reference r)
          (0 < depth ∧ ∀ q ∈ c.questions net.reference r, net.Deep depth q))
        (fun ask => a.consult ask r.family q) (w.note (.requested r))
        fun o w' => net.reference r = .ok o ∧ net.Passes w w' := by
    intro a q ha hquestions hmeaning
    rw [hmeaning]
    refine Analysis.consult_matches hinv ha (fun s hs w' hw' => ?_) hnoted
    have hraises := Network.raises_of_mem_questions hc ho (hquestions s hs)
    have hquiet' : net.Quiet w' s := by
      intro q hq hplain
      exact (hquiet.passes hr hw') q (.head hraises hq) hplain
    exact (hask s (hr.trans (.single hraises)) w' hw'.faithful hquiet').weaken
      (fun _ hw'' => hw'.trans hw'') fun hd => hd.2 s (hquestions s hs)
  have hfind : (Trait.any (net.answer depth)).Meets (Halt.Fits (net.reference r)
        (0 < depth ∧ ∀ q ∈ c.questions net.reference r, net.Deep depth q))
      (fun ask => c.find ask r) (w.note (.requested r))
      fun o w' => net.reference r = .ok o ∧ net.Passes w w' := by
    have hmeaning := hr.reference_eq
    rw [Network.meaning, hc] at hmeaning
    simp only [Composer.meaning, ho] at hmeaning
    cases c with
    | chain x =>
        simp only [Chain.meaning] at hmeaning
        refine .chain (fun hs => ?_) fun m hs => ?_
        · rw [hs] at hmeaning
          exact ⟨hmeaning, hnoted⟩
        · rw [hs] at hmeaning
          refine hdirect m.analysis _ (hstateless m hs) (fun s hs' => ?_) hmeaning
          rw [Composer.questions, hs]
          exact hs'
    | tight t =>
        have hbegun := hnoted.faithful.begun r.composer
        have hquiet' : net.Quiet (begun (w.note (.requested r)) r.composer) r := by
          intro q hq hplain hbusy
          exact hquiet q hq hplain ((World.busy_congr (by simp)).1 hbusy)
        have hdepth : 1 ≤ (begun (w.note (.requested r)) r.composer).depth r.composer := by
          rw [begun_depth]
          exact Nat.le_add_left 1 _
        exact (Tight.reference_resolves hask hr ho hc hdepth hquiet' hbegun
          fun hd => hd).meets_query rfl fun o w' h =>
            ⟨h.1, hnoted.trans (h.2.concluded hnoted.faithful)⟩
    | relay x => exact hdirect x.analysis _ hstateless (fun s hs => hs) hmeaning
  exact (Trait.Meets.query hfind fun o w' h => ⟨h.1, hinv w' _ rfl h.2⟩).2

/-- A question is answered as the reference says. -/
theorem Composer.respond_matches {c : Composer V R M} {r : Request} {w : World V R M}
    (hr : net.Grounded r) (hc : net.composer? r.composer = some c) (hw : net.Faithful w)
    (hquiet : net.Quiet w r) :
    (c.respond (net.answer depth) r).Matches w (net.reference r) (net.Passes w)
      (0 < depth ∧ ∀ q ∈ c.parts r, ∀ s ∈ c.questions net.reference q, net.Deep depth s) := by
  by_cases ho : r.operand = none
  · rw [Composer.respond, ho]
    refine (Composer.query_matches hask hr ho hc hw hquiet).weaken (fun _ h => h) fun hd => ?_
    refine ⟨hd.1, hd.2 r ?_⟩
    rw [c.parts_eq_self ho]
    exact List.mem_singleton_self r
  · have hpart : ∀ q ∈ c.parts r, ∀ w', net.Passes w w' →
        (c.query (net.answer depth) q).Matches w' (net.reference q) (net.Passes w)
          (0 < depth ∧ ∀ q ∈ c.parts r, ∀ s ∈ c.questions net.reference q, net.Deep depth s) := by
      intro q hq w' hw'
      obtain ⟨hcomposer, hplain⟩ := Composer.of_mem_parts hq
      have hraises : net.Raises .cut r q := .part hc ho hq
      have hquiet' : net.Quiet w' q := fun s hs =>
        hquiet.passes hr hw' s (.head hraises hs)
      have hquery := Composer.query_matches hask (hr.trans (.single hraises)) hplain
        (by rw [hcomposer]; exact hc) hw'.faithful hquiet'
      exact hquery.weaken (fun _ hw'' => hw'.trans hw'') fun hd => ⟨hd.1, hd.2 q hq⟩
    have hreference : net.reference r = c.meaning .cut net.reference r := by
      rw [hr.reference_eq, Network.meaning, hc]
    rcases c.operand_cases ho with ⟨_, hrespond, hmeaning⟩ |
      ⟨term, edge, hparts, hrespond, hmeaning⟩ | ⟨term, mode, edges, hparts, hrespond, hmeaning⟩
    · rw [hrespond, hreference, hmeaning]
      exact .of_ok rfl ⟨rfl, .refl hw⟩
    · rw [hrespond, hreference, hmeaning]
      exact hpart _ (by rw [hparts]; exact List.mem_singleton_self _) w (.refl hw)
    · rw [hrespond, hreference, hmeaning]
      have hedges : Run.Matches (β := List (Object V R r.family))
          (edges.mapM fun edge => c.query (net.answer depth) (r.about term edge)) w
          (edges.mapM fun edge => net.reference (r.about term edge)) (net.Passes w)
          (0 < depth ∧ ∀ q ∈ c.parts r, ∀ s ∈ c.questions net.reference q, net.Deep depth s) := by
        refine .mapM (fun edge hedge w' hw' => hpart _ ?_ w' hw') (.refl hw)
        rw [hparts]
        exact List.mem_map_of_mem hedge
      refine hedges.followed (fun halt herror => ?_) fun answers w' hresult hw' =>
        .of_ok rfl ⟨?_, hw'⟩
      · rw [herror]
        rfl
      · rw [hresult]
        rfl

end Walk

/-- In a faithful world in which nothing is being resolved to which it leads, a grounded question is
answered as the reference says, if questions are followed deep enough. -/
theorem Network.answer_matches (net : Network V R M) (depth : Nat) (r : Request)
    (hr : net.Grounded r) (w : World V R M) (hw : net.Faithful w) (hquiet : net.Quiet w r) :
    (net.answer depth r).Matches w (net.reference r) (net.Passes w) (net.Deep depth r) := by
  induction depth generalizing r w with
  | zero => exact id
  | succ depth ih =>
      rw [Network.answer]
      cases hc : net.composer? r.composer with
      | none =>
          refine .of_ok rfl ⟨?_, .refl hw⟩
          rw [hr.reference_eq, Network.meaning, hc]
      | some c =>
          refine (Composer.respond_matches ih hr hc hw hquiet).weaken (fun _ h => h) fun hd => ?_
          exact ⟨hd.1, hd.2 c hc⟩

end JointAnalysis
