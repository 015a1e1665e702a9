import JointAnalysis.Proofs.Comparison
import JointAnalysis.Proofs.Denotation
import JointAnalysis.Proofs.Provenance

/-!
# Objects that fit one frame

Two combinations can be compared and met only if they have equally many children, and these in turn
can be compared. A frame says how many children a combination has: to each place it assigns the
places of the children there. The two built-in objects and the plain ones fit at every place.
Objects that fit at one place can be compared, and their meet fits there again.

The answers of a composer whose members know constants and echo each other fit a frame. Its places
are the composers: an echo stands where an answer of the same composer may stand, and the answer of
the parent comes first. `Tight.answers_compare` is the result.
-/

namespace JointAnalysis

variable {M α β γ σ : Type}

namespace AbstractObject

/-- An object fits at a place of a frame: wherever it is a combination, it has one child for each
place inside, which fits there. -/
def Fits (frame : σ → List σ) (place : σ) (o : AbstractObject α) : Prop :=
  o.fold (β := σ → Prop) {
    full := fun _ => True
    empty := fun _ => True
    plain := fun _ _ => True
    combined := fun _ children place =>
      List.Forall₂ (fun inside fits => fits inside) (frame place) children } place

namespace Fits

variable {frame : σ → List σ} {place : σ}

/-- The full object fits everywhere. -/
theorem full : (.full : AbstractObject α).Fits frame place := trivial

/-- The empty object fits everywhere. -/
theorem empty : (.empty : AbstractObject α).Fits frame place := trivial

/-- A plain object fits everywhere. -/
theorem plain (x : α) : (.plain x : AbstractObject α).Fits frame place := trivial

/-- A combination fits if its children fit at the places inside. -/
theorem combined_iff {mode : Mode} {children : List (AbstractObject α)} :
    (.combined mode children : AbstractObject α).Fits frame place ↔
      List.Forall₂ (Fits frame) (frame place) children := by
  unfold Fits
  rw [fold_combined]
  exact List.forall₂_map_right_iff

end Fits

end AbstractObject

/-- Meets that are carried out in turn succeed if each of them does. -/
theorem Met.collect_ok {holds : σ → β → Prop} {places : List σ}
    {meets : List (Except Fault (Met β))}
    (h : List.Forall₂ (fun place meet => ∃ met : Met β, meet = .ok met ∧ holds place met.object)
      places meets) :
    ∃ met, Met.collect meets = .ok met ∧ List.Forall₂ holds places met.object := by
  induction h with
  | nil => exact ⟨_, rfl, .nil⟩
  | cons hfirst _ ih =>
      obtain ⟨first, rfl, hfirst⟩ := hfirst
      obtain ⟨others, hcollect, hothers⟩ := ih
      refine ⟨⟨first.object :: others.object, first.changed || others.changed⟩, ?_,
        .cons hfirst hothers⟩
      simp [Met.collect, hcollect, bind, Except.bind, pure, Except.pure]

/-- Plain objects compare and meet without a fault, and combinations are met child by child. -/
structure Comparison.Decided (c : Comparison (Except Fault) α) : Prop where
  equalSet : ∀ x y, ∃ same, c.equalSet x y = .ok same
  subSet : ∀ x y, ∃ part, c.subSet x y = .ok part
  meet : ∀ x y, ∃ met changed, c.meet x y = .ok ⟨.plain met, changed⟩
  isFull : ∀ x, ∃ full, c.isFull x = .ok full
  isEmpty : ∀ x, ∃ empty, c.isEmpty x = .ok empty
  pairwise : c.meetsPairwise = true

/-- The leaves of values compare and meet without a fault. -/
theorem Value.comparison_decided {V : Type} [ValueDomain V] (edge : EdgeId) :
    (Value.comparison edge : Comparison (Except Fault) V).Decided where
  equalSet _ _ := ⟨_, rfl⟩
  subSet _ _ := ⟨_, rfl⟩
  meet _ _ := ⟨_, _, rfl⟩
  isFull _ := ⟨_, rfl⟩
  isEmpty _ := ⟨_, rfl⟩
  pairwise := rfl

namespace AbstractObject

variable {c : Comparison (Except Fault) α} (hc : c.Decided)

include hc

/-- An object is full or not. -/
theorem isFull_ok (o : AbstractObject α) : ∃ full, o.isFull c = .ok full :=
  fold_ok ⟨_, rfl⟩ ⟨_, rfl⟩ hc.isFull (fun _ => ⟨_, rfl⟩) o

/-- An object is empty or not. -/
theorem isEmpty_ok (o : AbstractObject α) : ∃ empty, o.isEmpty c = .ok empty :=
  fold_ok ⟨_, rfl⟩ ⟨_, rfl⟩ hc.isEmpty (fun _ => ⟨_, rfl⟩) o

/-- An object denotes the same set as a plain one or not. -/
theorem equalSetPlain_ok (y : α) (o : AbstractObject α) :
    ∃ same, o.equalSetPlain c y = .ok same :=
  fold_ok (hc.isFull y) (hc.isEmpty y) (hc.equalSet · y) (fun _ => ⟨_, rfl⟩) o

/-- An object denotes a part of a plain one or not. -/
theorem subSetPlain_ok (y : α) (o : AbstractObject α) : ∃ part, o.subSetPlain c y = .ok part :=
  fold_ok (hc.isFull y) ⟨_, rfl⟩ (hc.subSet · y) (fun _ => ⟨_, rfl⟩) o

/-- A plain object denotes a part of an object or not. -/
theorem superSetPlain_ok (x : α) (o : AbstractObject α) :
    ∃ part, o.superSetPlain c x = .ok part :=
  fold_ok ⟨_, rfl⟩ (hc.isEmpty x) (hc.subSet x ·) (fun _ => ⟨_, rfl⟩) o

end AbstractObject

namespace AbstractObject.Fits

variable {frame : σ → List σ} {place : σ} {a b : AbstractObject α}

/-- Of objects that stand at the same places, what is made of each pair stands there too. -/
theorem pairs {places : List σ} {as bs : List (AbstractObject α)}
    (has : List.Forall₂ (Fits frame) places as) (hbs : List.Forall₂ (Fits frame) places bs)
    {holds : σ → γ → Prop} {f : AbstractObject α → AbstractObject α → γ}
    (hf : ∀ a ∈ as, ∀ {inside b}, a.Fits frame inside → b.Fits frame inside →
      holds inside (f a b)) :
    List.Forall₂ holds places (List.zipWith f as bs) := by
  induction has generalizing bs with
  | nil => exact .nil
  | @cons inside a places as ha has ih =>
      cases hbs with
      | @cons _ b _ bs hb hbs =>
          refine .cons (hf a List.mem_cons_self ha hb) (ih hbs fun a' ha' => ?_)
          exact hf a' (List.mem_cons_of_mem a ha')

/-- Combinations that fit at one place have equally many children, and a question that has an answer
for each pair of children has one for all of them. -/
theorem firstHit_pairs {as bs : List (AbstractObject α)} {mode mode' : Mode}
    (ha : (combined mode as).Fits frame place) (hb : (combined mode' bs).Fits frame place)
    {f : AbstractObject α → AbstractObject α → Except Fault Bool}
    (hf : ∀ a ∈ as, ∀ {inside b}, a.Fits frame inside → b.Fits frame inside →
      ∃ answer, f a b = .ok answer) (hit : Bool) :
    as.length = bs.length ∧ ∃ answer, firstHit hit (List.zipWith f as bs) = .ok answer := by
  have has := combined_iff.1 ha
  have hbs := combined_iff.1 hb
  exact ⟨has.length_eq.symm.trans hbs.length_eq, firstHit_ok hit (pairs has hbs hf)⟩

variable {c : Comparison (Except Fault) α} (hc : c.Decided)

include hc

/-- Two objects that fit at one place denote the same set or not. -/
theorem equalSet_ok (ha : a.Fits frame place) (hb : b.Fits frame place) :
    ∃ same, a.equalSet c b = .ok same := by
  induction a using byChildren generalizing place b with
  | full =>
      rw [equalSet]
      exact isFull_ok hc b
  | empty =>
      cases b <;> simp only [equalSet]
      · exact isFull_ok hc .empty
      all_goals exact isEmpty_ok hc _
  | plain x =>
      cases b <;> simp only [equalSet]
      · exact isFull_ok hc (.plain x)
      · exact isEmpty_ok hc (.plain x)
      · exact equalSetPlain_ok hc _ (.plain x)
      · exact equalSetPlain_ok hc x _
  | combined mode as ih =>
      cases b <;> simp only [equalSet]
      · exact isFull_ok hc _
      · exact isEmpty_ok hc _
      · exact equalSetPlain_ok hc _ _
      · obtain ⟨hlength, hanswer⟩ := firstHit_pairs ha hb (fun a ha _ _ => ih a ha) false
        rw [if_pos hlength, equalSetPairs_eq]
        exact hanswer

/-- One of two objects that fit at one place denotes a part of the other or not. -/
theorem subSet_ok (ha : a.Fits frame place) (hb : b.Fits frame place) :
    ∃ part, a.subSet c b = .ok part := by
  induction a using byChildren generalizing place b with
  | full =>
      cases b <;> simp only [subSet]
      · exact ⟨_, rfl⟩
      all_goals exact isFull_ok hc _
  | empty =>
      rw [subSet]
      exact ⟨_, rfl⟩
  | plain x =>
      cases b <;> simp only [subSet]
      · exact ⟨_, rfl⟩
      · exact isEmpty_ok hc (.plain x)
      · exact subSetPlain_ok hc _ (.plain x)
      · exact superSetPlain_ok hc x _
  | combined mode as ih =>
      cases b <;> simp only [subSet]
      · exact ⟨_, rfl⟩
      · exact isEmpty_ok hc _
      · exact subSetPlain_ok hc _ _
      · obtain ⟨hlength, hanswer⟩ := firstHit_pairs ha hb (fun a ha _ _ => ih a ha) mode.isUnion
        rw [if_pos hlength, subSetPairs_eq]
        exact hanswer

/-- A plain object narrowed to an object fits where the object fits. -/
theorem meetIntoPlain_ok (x : α) (hb : b.Fits frame place) :
    ∃ met, b.meetIntoPlain c x = .ok met ∧ met.object.Fits frame place := by
  induction b using byChildren generalizing place with
  | full => exact ⟨_, rfl, .plain x⟩
  | empty => exact ⟨_, rfl, .empty⟩
  | plain y =>
      obtain ⟨met, changed, hmet⟩ := hc.meet x y
      exact ⟨_, hmet, .plain met⟩
  | combined mode bs ih =>
      have hbs := combined_iff.1 hb
      have hmeets : List.Forall₂ (fun inside meet => ∃ met : Met (AbstractObject α),
          meet = .ok met ∧ met.object.Fits frame inside) (frame place)
          (bs.map (meetIntoPlain c x)) := by
        rw [← List.zipWith_self (f := fun b _ => meetIntoPlain c x b)]
        exact pairs hbs hbs fun b hb _ _ hfits _ => ih b hb hfits
      obtain ⟨met, hmet, hfits⟩ := Met.collect_ok hmeets
      refine ⟨⟨.combined mode met.object, true⟩, ?_, combined_iff.2 hfits⟩
      have hfold : meetIntoPlain c x (combined mode bs) =
          Met.collect (bs.map (meetIntoPlain c x)) >>= fun met =>
            pure ⟨.combined mode met.object, true⟩ := fold_combined _ mode bs
      rw [hfold, hmet]
      rfl

omit hc in
/-- The children of a combination can be met with objects that fit at their places. -/
theorem collect_ok {as others : List (AbstractObject α)} {mode : Mode}
    (ha : (combined mode as).Fits frame place)
    (hothers : List.Forall₂ (Fits frame) (frame place) others)
    (hmeet : ∀ a ∈ as, ∀ {inside b}, a.Fits frame inside → b.Fits frame inside →
      ∃ met, a.meet c b = .ok met ∧ met.object.Fits frame inside) :
    ∃ met, Met.collect (meetPairs c as others) = .ok met ∧
      (combined mode met.object).Fits frame place := by
  rw [meetPairs_eq]
  obtain ⟨met, hmet, hfits⟩ := Met.collect_ok (pairs (combined_iff.1 ha) hothers hmeet)
  exact ⟨met, hmet, combined_iff.2 hfits⟩

/-- Two objects that fit at one place can be met, and what comes out fits there. -/
theorem meet_ok (ha : a.Fits frame place) (hb : b.Fits frame place) :
    ∃ met, a.meet c b = .ok met ∧ met.object.Fits frame place := by
  induction a using byChildren generalizing place b with
  | full =>
      obtain ⟨whole, hwhole⟩ := isFull_ok hc b
      cases b <;> simp only [meet]
      · exact ⟨_, rfl, .full⟩
      all_goals exact ⟨⟨_, !whole⟩, by simp [hwhole, bind, Except.bind, pure, Except.pure], hb⟩
  | empty =>
      rw [meet]
      exact ⟨_, rfl, .empty⟩
  | plain x =>
      cases b <;> simp only [meet]
      · exact ⟨_, rfl, .plain x⟩
      · exact ⟨_, rfl, .empty⟩
      all_goals exact meetIntoPlain_ok hc x hb
  | combined mode as ih =>
      have has := combined_iff.1 ha
      -- a plain object is met with every child, a combination child by child
      cases b with
      | full => exact ⟨_, rfl, ha⟩
      | empty => exact ⟨_, rfl, .empty⟩
      | plain y =>
          have hothers : List.Forall₂ (Fits frame) (frame place)
              (List.replicate as.length (.plain y)) := by
            rw [← has.length_eq]
            induction frame place with
            | nil => exact .nil
            | cons inside places ih => exact .cons (.plain y) ih
          obtain ⟨met, hmet, hfits⟩ := collect_ok ha hothers fun a ha _ _ => ih a ha
          refine ⟨⟨.combined mode met.object, met.changed⟩, ?_, hfits⟩
          simp [meet, peers, hmet, bind, Except.bind, pure, Except.pure]
      | combined mode' bs =>
          have hbs := combined_iff.1 hb
          obtain ⟨met, hmet, hfits⟩ := collect_ok ha hbs fun a ha _ _ => ih a ha
          refine ⟨⟨.combined mode met.object, met.changed⟩, ?_, hfits⟩
          simp [meet, peers, hc.pairwise, has.length_eq.symm.trans hbs.length_eq, hmet, bind,
            Except.bind, pure, Except.pure]

end AbstractObject.Fits

/-- Among these members, all that handle values know constants or echo. -/
def Member.Elementary (members : List (Member ValueLeaf RegionLeaf M)) : Prop :=
  ∀ m ∈ members, m.analysis.handles .value = true → m.analysis.Elementary

namespace Network

/-- A composer is built from analyses that know constants or echo, and so is its parent. -/
inductive Elementary (net : Network ValueLeaf RegionLeaf M) : ComposerId → Prop where
  | chain {c : ComposerId} {x : Chain ValueLeaf RegionLeaf M}
    (hc : net.composer? c = some (.chain x)) (hmembers : Member.Elementary x.members) :
    Elementary net c
  | tight {c : ComposerId} {t : Tight ValueLeaf RegionLeaf M}
    (hc : net.composer? c = some (.tight t)) (hmembers : Member.Elementary t.members)
    (hparent : ∀ p, t.parent = some p → Elementary net p) : Elementary net c

variable {net : Network ValueLeaf RegionLeaf M} {c : ComposerId}

/-- The composers in whose places the children of an answer stand: first the parent, and then the
composer itself for each member that handles values. -/
def frame (net : Network ValueLeaf RegionLeaf M) (c : ComposerId) : List ComposerId :=
  match net.composer? c with
  | some (.tight t) =>
    t.parent.toList ++ (t.members.filter (·.analysis.handles .value)).map fun _ => c
  | _ => []

/-- Every value that a composer answered fits at its place. -/
def Fitting (net : Network ValueLeaf RegionLeaf M) (trail : List (Event ValueLeaf RegionLeaf)) :
    Prop :=
  ∀ (r : Request) (o : Value ValueLeaf), net.Elementary r.composer →
    .returned r ⟨.value, o⟩ ∈ trail → o.Fits net.frame r.composer

/-- A composer that is built from analyses exists. -/
theorem Elementary.isSome (h : net.Elementary c) : (net.composer? c).isSome = true := by
  cases h with
  | chain hc => simp [hc]
  | tight hc => simp [hc]

/-- What a member gives fits at the place of the composer. -/
theorem Fitting.gave {past : List (Event ValueLeaf RegionLeaf)} (h : net.Fitting past)
    (hc : net.Elementary c) {m : Member ValueLeaf RegionLeaf M} (hm : m.analysis.Elementary)
    {term : TermId} {edge : EdgeId} {o : Object ValueLeaf RegionLeaf .value}
    (ho : m.Gave net past c term edge o) : o.Fits net.frame c := by
  obtain ⟨id, analysis⟩ := m
  obtain ⟨_, hyields⟩ := ho
  cases hm with
  | constant name direction values tally =>
      simp only [Plan.Yields] at hyields
      subst hyields
      split
      · exact .plain _
      · exact .plain _
  | echo name redirect tally =>
      -- the echo is the composer's answer to a question about a term
      obtain ⟨answer, htold, rfl⟩ := hyields
      exact h _ _ hc (htold rfl hc.isSome)

/-- What a tight composer gathers fits at its place. -/
theorem Fitting.gathered {past : List (Event ValueLeaf RegionLeaf)} (h : net.Fitting past)
    {t : Tight ValueLeaf RegionLeaf M} (ht : net.composer? c = some (.tight t))
    (hmembers : Member.Elementary t.members) (hparent : ∀ p, t.parent = some p → net.Elementary p)
    {term : TermId} {edge : EdgeId} {children : List (Object ValueLeaf RegionLeaf .value)}
    (hchildren : t.Gathered net past c term edge children) :
    (AbstractObject.combined .intersect children).Fits net.frame c := by
  have hc : net.Elementary c := .tight ht hmembers hparent
  obtain ⟨above, answers, rfl, habove, hanswers⟩ := hchildren
  rw [AbstractObject.Fits.combined_iff, frame, ht]
  refine List.rel_append ?_ ?_
  · unfold Tight.Inherited at habove
    cases hp : t.parent with
    | none =>
        rw [hp] at habove
        obtain rfl := habove
        exact .nil
    | some p =>
        rw [hp] at habove
        obtain ⟨answer, rfl, htold⟩ := habove
        have hanswer := h _ answer (hparent p hp) (htold rfl (hparent p hp).isSome)
        exact .cons hanswer .nil
  · rw [List.forall₂_map_left_iff]
    have hkinds : ∀ m ∈ t.members.filter (·.analysis.handles .value), m.analysis.Elementary := by
      intro m hm
      obtain ⟨hmember, hears⟩ := List.mem_filter.1 hm
      exact hmembers m hmember hears
    exact ((List.forall₂_and_left _ _).2 ⟨hkinds, hanswers⟩).imp fun m o hm => h.gave hc hm.1 hm.2

/-- A value that a composer may give fits at its place. -/
theorem Fitting.justified {past : List (Event ValueLeaf RegionLeaf)} (h : net.Fitting past)
    (hc : net.Elementary c) {term : TermId} {edge : EdgeId} {client : AnalysisId}
    {operand : Option TermId} {composer : Composer ValueLeaf RegionLeaf M}
    (hcomposer : net.composer? c = some composer) {o : Object ValueLeaf RegionLeaf .value}
    (ho : composer.Justifies net past ⟨c, .value, term, edge, client, operand⟩ o) :
    o.Fits net.frame c := by
  cases hc with
  | @chain _ x hx hmembers =>
      have hc : net.Elementary c := .chain hx hmembers
      rw [hx] at hcomposer
      cases hcomposer
      unfold Composer.Justifies at ho
      cases hs : x.speaker? .value client with
      | none =>
          simp only [hs] at ho
          obtain rfl := ho
          exact .full
      | some m =>
          simp only [hs] at ho
          obtain ⟨hm, hears⟩ := Chain.speaker?_eq_some hs
          exact h.gave hc (hmembers m hm hears) ho
  | @tight _ t ht hmembers hparent =>
      rw [ht] at hcomposer
      cases hcomposer
      rcases ho with rfl | ⟨children, rfl, hgathered⟩
      · exact .full
      · exact h.gathered ht hmembers hparent hgathered

end Network

/-- In a world that is accounted for, every value that a composer answered fits at its place. -/
theorem World.Accounted.fitting {net : Network ValueLeaf RegionLeaf M}
    {w : World ValueLeaf RegionLeaf M} (hw : w.Accounted net) : net.Fitting w.trail := by
  suffices h : ∀ trail, trail <:+ w.trail → net.Fitting trail from h w.trail List.suffix_rfl
  intro trail
  induction trail with
  | nil =>
      intro _ r o _ hevent
      cases hevent
  | cons event past ih =>
      intro hsuffix r o hc hevent
      have hpast : net.Fitting past := ih ((List.suffix_cons event past).trans hsuffix)
      rcases List.mem_cons.1 hevent with rfl | hevent
      · obtain ⟨composer, answer, hcomposer, heq, hjustified⟩ := hw.given _ _ _ hsuffix
        obtain ⟨c, family, term, edge, client, operand⟩ := r
        cases heq
        exact hpast.justified hc hcomposer hjustified
      · exact hpast r o hc hevent

/-- A value that a composer answered at some time in some session, or that was met from such
values. -/
inductive Network.Obtained (net : Network ValueLeaf RegionLeaf M) (c : ComposerId) :
    Value ValueLeaf → Prop where
  | answer (depth : Nat) (steps : List (Step M)) (memory : M) {r : Request} {o : Value ValueLeaf}
    (hr : r.composer = c)
    (ho : .returned r ⟨.value, o⟩ ∈ (net.after depth steps memory).trail) : Obtained net c o
  | met {a b : Value ValueLeaf} (edge : EdgeId) {met : Met (Value ValueLeaf)}
    (ha : Obtained net c a) (hb : Obtained net c b)
    (hmet : a.meet (Value.comparison edge) b = (.ok met : Except Fault _)) :
    Obtained net c met.object

/-- What a composer answers after a session that ended well was obtained from it. -/
theorem Network.Obtained.of_answer {net : Network ValueLeaf RegionLeaf M} {c : ComposerId}
    (hc : (net.composer? c).isSome = true) {depth : Nat} {steps : List (Step M)} {memory : M}
    (hsteps : ((net.session depth steps).outcome (.initial memory)).1 = .ok ()) {term : TermId}
    {edge : EdgeId} {client : AnalysisId} {o : Value ValueLeaf}
    (ho : ((net.answer depth ⟨c, .value, term, edge, client, none⟩).outcome
      (net.after depth steps memory)).1 = .ok o) : net.Obtained c o := by
  have hanswer : (net.answer depth ⟨c, .value, term, edge, client, none⟩).outcome
      (net.after depth steps memory) = (.ok o, net.after depth (steps ++ [.ask _]) memory) :=
    Prod.ext ho (Network.after_ask hsteps _).symm
  have htold := ((net.answer_accounts depth _ _ (net.after_accounted depth steps memory)).ok
    hanswer).2
  exact .answer depth (steps ++ [.ask _]) memory rfl (htold rfl hc)

/-- What was obtained from a composer that is built from constants and echoes fits at its place. -/
theorem Network.Obtained.fits {net : Network ValueLeaf RegionLeaf M} {c : ComposerId}
    (hc : net.Elementary c) {a : Value ValueLeaf} (ha : net.Obtained c a) : a.Fits net.frame c := by
  induction ha with
  | answer depth steps memory hr ho =>
      subst hr
      exact (net.after_accounted depth steps memory).fitting _ _ hc ho
  | met edge _ _ hmet iha ihb =>
      obtain ⟨met, hmeet, hfits⟩ := iha.meet_ok (Value.comparison_decided edge) ihb
      rw [hmet] at hmeet
      cases hmeet
      exact hfits

/-- Any two values that were obtained from a tight composer can be compared at every edge and met,
if its members know constants or echo and its parent is of that kind, and what is met from them is
such a value again. Combinations of different lengths never come together. -/
theorem Tight.answers_compare {net : Network ValueLeaf RegionLeaf M} {c : ComposerId}
    {t : Tight ValueLeaf RegionLeaf M} (ht : net.composer? c = some (.tight t))
    (hmembers : Member.Elementary t.members) (hparent : ∀ p, t.parent = some p → net.Elementary p)
    {a b : Value ValueLeaf} (ha : net.Obtained c a) (hb : net.Obtained c b) (edge : EdgeId) :
    (∃ same, a.equalSet (Value.comparison edge) b = (.ok same : Except Fault Bool)) ∧
    (∃ part, a.subSet (Value.comparison edge) b = (.ok part : Except Fault Bool)) ∧
    ∃ met, a.meet (Value.comparison edge) b = (.ok met : Except Fault _) ∧
      net.Obtained c met.object := by
  have hc : net.Elementary c := .tight ht hmembers hparent
  have hdecided := Value.comparison_decided (V := ValueLeaf) edge
  refine ⟨(ha.fits hc).equalSet_ok hdecided (hb.fits hc),
    (ha.fits hc).subSet_ok hdecided (hb.fits hc), ?_⟩
  obtain ⟨met, hmet, _⟩ := (ha.fits hc).meet_ok hdecided (hb.fits hc)
  exact ⟨met, hmet, .met edge ha hb hmet⟩

namespace Circle

/-- A composer above the circle that knows another constant. -/
def above : Tight ValueLeaf RegionLeaf Unit where
  id := ⟨5⟩
  direction := .forward
  members := [⟨⟨4⟩, .constant "seven" .forward (fun _ => some 7) id⟩]
  parent := none
  config := {}
  system := none
  program := none

/-- The circle below that composer. -/
def nested : Network ValueLeaf RegionLeaf Unit :=
  ⟨[.tight above, .tight { composer with parent := some ⟨0⟩ }], 6⟩

/-- A question from outside about one of the terms of the circle. -/
def nestedQuestion (term : Nat) : Request := ⟨⟨1⟩, .value, ⟨term⟩, ⟨0⟩, nested.outsider, none⟩

/-- What is answered about a term, after a question about the first one. -/
def nestedAnswer (term : Nat) : Except Halt (Value ValueLeaf) :=
  ((nested.answer 9 (nestedQuestion term)).outcome
    (nested.after 9 [.ask (nestedQuestion 0)] ())).1

/-- The answers about the two terms of the circle, one of which stands inside the other, can be
compared and met. -/
theorem answers_met :
    ∃ outer inner, nestedAnswer 0 = .ok outer ∧ nestedAnswer 1 = .ok inner ∧
    (∃ same, outer.equalSet (Value.comparison ⟨0⟩) inner = (.ok same : Except Fault Bool)) ∧
    (∃ part, outer.subSet (Value.comparison ⟨0⟩) inner = (.ok part : Except Fault Bool)) ∧
    ∃ met, outer.meet (Value.comparison ⟨0⟩) inner = (.ok met : Except Fault _) ∧
      nested.Obtained ⟨1⟩ met.object := by
  have hok : ∀ {β : Type} {x : Except Halt β}, x.toBool = true → ∃ o, x = .ok o := by
    intro β x hx
    cases x with
    | error halt => cases hx
    | ok o => exact ⟨o, rfl⟩
  obtain ⟨outer, houter⟩ : ∃ outer, nestedAnswer 0 = .ok outer := hok (by decide +kernel)
  obtain ⟨inner, hinner⟩ : ∃ inner, nestedAnswer 1 = .ok inner := hok (by decide +kernel)
  have hmembers : Member.Elementary composer.members := fun m hm _ => elementary m hm
  have habove : Member.Elementary above.members := by
    intro m hm _
    obtain rfl := List.mem_singleton.1 hm
    dsimp only
    exact .constant _ _ _ _
  have hparent : ∀ p, some ⟨0⟩ = some p → nested.Elementary p := by
    rintro p ⟨⟩
    exact .tight (t := above) rfl habove (by rintro p ⟨⟩)
  obtain ⟨_, hsession⟩ : ∃ u,
      ((nested.session 9 [.ask (nestedQuestion 0)]).outcome (.initial ())).1 = .ok u :=
    hok (by decide +kernel)
  exact ⟨outer, inner, houter, hinner,
    Tight.answers_compare (t := { composer with parent := some ⟨0⟩ }) rfl hmembers hparent
      (.of_answer rfl hsession houter) (.of_answer rfl hsession hinner) ⟨0⟩⟩

end Circle

end JointAnalysis
