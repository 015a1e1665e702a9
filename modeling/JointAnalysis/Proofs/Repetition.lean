import JointAnalysis.Proofs.Interpretation
import JointAnalysis.Proofs.Literal
import JointAnalysis.Proofs.Silence
import Mathlib.Logic.Relation

/-!
# Meeting the same object again

A second meet with the same object ought to change nothing. If it changes nothing for the plain
objects of a family (`Comparison.Repeatable`), then it changes nothing at all, as long as two
combinations are met child by child: `AbstractObject.meet_again`. So values, places in the code and
regions come to rest at once. Locations are not met so. With a location that is no combination a
second meet changes nothing, but a combination is met as a whole into every part of what the first
meet left. Then the meets either leave nothing to be narrowed, or they never come to rest.
-/

namespace JointAnalysis

variable {α β σ V R L : Type}

/-- The meets that are collected change nothing if and only if none of them does. -/
theorem Met.collect_eq_unchanged {l : List σ} {meet : σ → Except Fault (Met β)} {f : σ → β} :
    Met.collect (l.map meet) = .ok ⟨l.map f, false⟩ ↔ ∀ i ∈ l, meet i = .ok ⟨f i, false⟩ := by
  induction l with
  | nil => simp [Met.collect, pure, Except.pure]
  | cons i rest ih =>
      rw [List.map_cons, List.map_cons, Met.collect, List.forall_mem_cons, ← ih]
      constructor
      · intro h
        obtain ⟨⟨first, changed⟩, hfirst, hafter⟩ := bind_eq_ok h
        obtain ⟨⟨others, changed'⟩, hrest, hpure⟩ := bind_eq_ok hafter
        injection hpure with hmet
        injection hmet with hobjects hchanged
        injection hobjects with hhead htail
        obtain ⟨hfalse, hfalse'⟩ := Bool.or_eq_false_iff.1 hchanged
        subst hhead htail hfalse hfalse'
        exact ⟨hfirst, hrest⟩
      · rintro ⟨hfirst, hrest⟩
        rw [hfirst, hrest]
        rfl

/-- The objects that are collected are those of the meets, position by position. -/
theorem Met.collect_zip {l : List σ} {meet : σ → Except Fault (Met β)} {met : Met (List β)}
    (h : Met.collect (l.map meet) = .ok met) :
    met.object.length = l.length ∧
      ∀ q ∈ met.object.zip l, ∃ changed, meet q.2 = .ok ⟨q.1, changed⟩ := by
  induction l generalizing met with
  | nil =>
      cases h
      exact ⟨rfl, by simp⟩
  | cons i rest ih =>
      rw [List.map_cons, Met.collect] at h
      obtain ⟨first, hfirst, hafter⟩ := bind_eq_ok h
      obtain ⟨others, hrest, hpure⟩ := bind_eq_ok hafter
      cases hpure
      obtain ⟨hlength, hothers⟩ := ih hrest
      exact ⟨by simp [hlength], List.forall_mem_cons.2 ⟨⟨first.changed, hfirst⟩, hothers⟩⟩

/-- Pairing all members of a list with one and the same thing. -/
theorem zip_replicate_length (l : List σ) (b : β) :
    l.zip (List.replicate l.length b) = l.map fun i => (i, b) := by
  induction l with
  | nil => rfl
  | cons i rest ih =>
      rw [List.length_cons, List.replicate_succ, List.zip_cons_cons, ih, List.map_cons]

/-- Meeting an object with `b` reports no change and changes nothing. -/
def Stays (c : Comparison (Except Fault) α) (b o : AbstractObject α) : Prop :=
  o.meet c b = .ok ⟨o, false⟩

/-- A plain object that is met with itself stays, and what is left of a plain object stays when it
is met with the same object again. -/
structure Comparison.Repeatable (c : Comparison (Except Fault) α) : Prop where
  self : ∀ x, c.meet x x = .ok ⟨.plain x, false⟩
  again : ∀ {x y met}, c.meet x y = .ok met →
    met.object = .empty ∨ ∃ z, met.object = .plain z ∧ c.meet z y = .ok ⟨.plain z, false⟩

/-- Repeated meets change nothing if plain objects are met without asking anyone and these meets
leave nothing or what stays. -/
theorem Comparison.Repeatable.of_pure {c : Comparison (Except Fault) α}
    {meet : α → α → Met (AbstractObject α)} (hmeet : ∀ x y, c.meet x y = .ok (meet x y))
    (hself : ∀ x, meet x x = ⟨.plain x, false⟩)
    (hagain : ∀ x y, (meet x y).object = .empty ∨
      ∃ z, (meet x y).object = .plain z ∧ meet z y = ⟨.plain z, false⟩) : c.Repeatable where
  self x := by rw [hmeet, hself]
  again := by
    intro x y met h
    obtain rfl : meet x y = met := Except.ok.inj ((hmeet x y).symm.trans h)
    obtain hempty | ⟨z, hz, hstays⟩ := hagain x y
    · exact .inl hempty
    · exact .inr ⟨z, hz, by rw [hmeet, hstays]⟩

namespace AbstractObject

variable {c : Comparison (Except Fault) α}

/-- Everything stays when it is met with the full object. -/
theorem stays_full (o : AbstractObject α) : Stays c .full o := by
  cases o <;> rfl

/-- The empty object stays. -/
theorem stays_empty (b : AbstractObject α) : Stays c b .empty := by
  cases b <;> rfl

variable (c) in
/-- The meets with an object go child by child wherever two combinations are met. -/
def MetEvenly (b : AbstractObject α) : Prop := c.meetsPairwise = true ∨ b.combination? = none

/-- The children of a combination are met with as many objects, and evenly if the combination is. -/
theorem MetEvenly.peers {b : AbstractObject α} (hb : b.MetEvenly c) {count : Nat}
    {others : List (AbstractObject α)} (h : peers c count b = .ok others) :
    count = others.length ∧ ∀ o ∈ others, o.MetEvenly c := by
  unfold AbstractObject.peers at h
  split at h
  · next hpairwise =>
      split at h
      · next hlength =>
          cases h
          exact ⟨hlength, fun _ _ => .inl hpairwise⟩
      · cases h
  · cases h
    refine ⟨List.length_replicate.symm, fun o ho => ?_⟩
    rwa [List.eq_of_mem_replicate ho]

/-- Going child by child, combinations of equal length are met with each other's children. -/
theorem peers_children (h : c.meetsPairwise = true) {count : Nat} {mode : Mode}
    {children : List (AbstractObject α)} (hlength : count = children.length) :
    peers c count (.combined mode children) = .ok children := by
  unfold peers
  rw [h]
  exact if_pos hlength

/-- Without going child by child, a combination is met with the other object itself. -/
theorem peers_whole (h : c.meetsPairwise = false) (count : Nat) (b : AbstractObject α) :
    peers c count b = .ok (List.replicate count b) := by
  unfold peers
  rw [h]
  rfl

/-- A combination is met with any object but the two built-in ones by its children. -/
theorem meet_combined {mode : Mode} {as : List (AbstractObject α)} {b : AbstractObject α}
    (hfull : b ≠ .full) (hempty : b ≠ .empty) :
    meet c (.combined mode as) b = (do
      let others ← peers c as.length b
      let met ← Met.collect ((as.zip others).map fun p => p.1.meet c p.2)
      pure ⟨.combined mode met.object, met.changed⟩) := by
  cases b with
  | full => exact absurd rfl hfull
  | empty => exact absurd rfl hempty
  | _ =>
      simp only [meet, meetPairs_eq, ← List.map_uncurry_zip_eq_zipWith]
      rfl

/-- A combination stays if and only if its children do when they are met with their peers. -/
theorem stays_combined {mode : Mode} {as others : List (AbstractObject α)} {b : AbstractObject α}
    (hfull : b ≠ .full) (hempty : b ≠ .empty) (hpeers : peers c as.length b = .ok others)
    (hlength : as.length = others.length) :
    Stays c b (.combined mode as) ↔ ∀ p ∈ as.zip others, Stays c p.2 p.1 := by
  have hfirst : (as.zip others).map Prod.fst = as := List.map_fst_zip hlength.le
  unfold Stays
  rw [meet_combined hfull hempty, hpeers, ← Met.collect_eq_unchanged, hfirst]
  constructor
  · intro h
    obtain ⟨_, hothers, h⟩ := bind_eq_ok h
    cases hothers
    obtain ⟨⟨objects, changed⟩, hcollect, hpure⟩ := bind_eq_ok h
    cases hpure
    exact hcollect
  · intro h
    simp only [bind, Except.bind, h]
    rfl

/-- What is left of a combination stays if what is left of its children does. -/
theorem stays_of_peers {mode : Mode} {as others : List (AbstractObject α)} {b : AbstractObject α}
    {met : Met (List (AbstractObject α))} (hfull : b ≠ .full) (hempty : b ≠ .empty)
    (hpeers : peers c as.length b = .ok others) (hlength : as.length = others.length)
    (hagain : ∀ p ∈ as.zip others, ∀ {m}, p.1.meet c p.2 = .ok m → Stays c p.2 m.object)
    (h : Met.collect ((as.zip others).map fun p => p.1.meet c p.2) = .ok met) :
    Stays c b (.combined mode met.object) := by
  obtain ⟨hcount, hobjects⟩ := Met.collect_zip h
  have hcount : met.object.length = others.length := by
    rw [hcount, List.length_zip, hlength, Nat.min_self]
  refine (stays_combined hfull hempty (by rwa [hcount, ← hlength]) hcount).2 fun q hq => ?_
  rw [← List.map_snd_zip hlength.ge, List.zip_map_right] at hq
  obtain ⟨⟨o, p⟩, hmem, rfl⟩ := List.mem_map.1 hq
  obtain ⟨changed, hmeet⟩ := hobjects _ hmem
  exact hagain p (List.of_mem_zip hmem).2 hmeet

/-- An object stays when it is met evenly with itself. -/
theorem stays_self (hc : c.Repeatable) {b : AbstractObject α} (hb : b.MetEvenly c) :
    Stays c b b := by
  induction b using byChildren with
  | full => exact stays_full _
  | empty => exact stays_empty _
  | plain x => exact hc.self x
  | combined mode children ih =>
      have hpairwise : c.meetsPairwise = true := hb.resolve_right (by simp [combination?])
      refine (stays_combined (by simp) (by simp) (peers_children hpairwise rfl) rfl).2 ?_
      intro p hp
      rw [List.zip, List.zipWith_self] at hp
      obtain ⟨o, ho, rfl⟩ := List.mem_map.1 hp
      exact ih o ho (.inl hpairwise)

/-- What is left of a plain object that is met evenly with an object stays. -/
theorem stays_of_meetIntoPlain (hc : c.Repeatable) {x : α} {b : AbstractObject α}
    (hb : b.MetEvenly c) {met : Met (AbstractObject α)} (h : b.meetIntoPlain c x = .ok met) :
    Stays c b met.object := by
  induction b using byChildren generalizing met with
  | full =>
      cases h
      exact stays_full _
  | empty =>
      cases h
      exact stays_empty _
  | plain y =>
      obtain hempty | ⟨z, hz, hagain⟩ := hc.again h
      · rw [hempty]
        exact stays_empty _
      · rw [hz]
        exact hagain
  | combined mode children ih =>
      have hpairwise : c.meetsPairwise = true := hb.resolve_right (by simp [combination?])
      rw [meetIntoPlain, fold_combined] at h
      obtain ⟨collected, hcollect, hpure⟩ := bind_eq_ok h
      cases hpure
      obtain ⟨hlength, hobjects⟩ := Met.collect_zip hcollect
      have hpeers : peers c collected.object.length (.combined mode children) = .ok children :=
        peers_children hpairwise hlength
      refine (stays_combined (by simp) (by simp) hpeers hlength).2 fun q hq => ?_
      obtain ⟨changed, hmeet⟩ := hobjects q hq
      exact ih q.2 (List.of_mem_zip hq).2 (.inl hpairwise) hmeet

/-- What is left of an object that is met evenly with another one stays. -/
theorem meet_again (hc : c.Repeatable) {a b : AbstractObject α} (hb : b.MetEvenly c)
    {met : Met (AbstractObject α)} (h : a.meet c b = .ok met) : Stays c b met.object := by
  induction a using byChildren generalizing b met with
  | full =>
      rw [meet_full_left] at h
      obtain ⟨whole, -, hpure⟩ := bind_eq_ok h
      cases hpure
      exact stays_self hc hb
  | empty =>
      cases b <;> cases h <;> exact stays_empty _
  | plain x =>
      rw [meet_plain_left] at h
      exact stays_of_meetIntoPlain hc hb h
  | combined mode as ih =>
      by_cases hfull : b = .full
      · subst hfull
        exact stays_full _
      by_cases hempty : b = .empty
      · subst hempty
        cases h
        exact stays_empty _
      rw [meet_combined hfull hempty] at h
      obtain ⟨others, hpeers, h⟩ := bind_eq_ok h
      obtain ⟨collected, hcollect, hpure⟩ := bind_eq_ok h
      cases hpure
      obtain ⟨hlength, hothers⟩ := hb.peers hpeers
      refine stays_of_peers hfull hempty hpeers hlength (fun p hp m hmeet => ?_) hcollect
      obtain ⟨hfirst, hsecond⟩ := List.of_mem_zip hp
      exact ih p.1 hfirst (hothers p.2 hsecond) hmeet

/-- Whether an object is built of empty objects and combinations only, so that nothing in it can be
narrowed. -/
def isHollow : AbstractObject α → Bool :=
  fold {
    full := false
    empty := true
    plain := fun _ => false
    combined := fun _ answers => answers.all id }

/-- A combination is hollow if its children are. -/
theorem isHollow_combined {mode : Mode} {children : List (AbstractObject α)} :
    isHollow (.combined mode children) = true ↔ ∀ o ∈ children, o.isHollow = true := by
  rw [isHollow, fold_combined]
  simp

/-- A combination that is not hollow has a child that is not. -/
theorem exists_not_hollow {mode : Mode} {children : List (AbstractObject α)}
    (h : isHollow (.combined mode children) = false) : ∃ o ∈ children, o.isHollow = false := by
  by_contra hnone
  refine Bool.false_ne_true (h.symm.trans (isHollow_combined.2 fun o ho => ?_))
  exact Bool.eq_true_of_not_eq_false fun hfalse => hnone ⟨o, ho, hfalse⟩

section Whole

variable (hwhole : c.meetsPairwise = false) {mode : Mode} {bs : List (AbstractObject α)}

include hwhole

/-- Without going child by child, every child of a combination is met with all of another one. -/
theorem meet_whole {mode' : Mode} {as : List (AbstractObject α)} :
    meet c (.combined mode' as) (.combined mode bs) = (do
      let met ← Met.collect (as.map (·.meet c (.combined mode bs)))
      pure ⟨.combined mode' met.object, met.changed⟩) := by
  rw [meet_combined (by simp) (by simp), peers_whole hwhole]
  simp only [bind, Except.bind, zip_replicate_length, List.map_map]
  rfl

/-- An object stays when it is met with all of a combination if and only if it is hollow. -/
theorem stays_iff_hollow {o : AbstractObject α} :
    Stays c (.combined mode bs) o ↔ o.isHollow = true := by
  induction o using byChildren with
  | full =>
      refine ⟨fun h => ?_, fun h => by cases h⟩
      rw [Stays, meet_full_left] at h
      obtain ⟨whole, -, hpure⟩ := bind_eq_ok h
      cases hpure
  | empty => exact ⟨fun _ => rfl, fun _ => stays_empty _⟩
  | plain x =>
      refine ⟨fun h => ?_, fun h => by cases h⟩
      rw [Stays, meet_plain_left, meetIntoPlain, fold_combined] at h
      obtain ⟨collected, -, hpure⟩ := bind_eq_ok h
      cases hpure
  | combined mode' children ih =>
      rw [stays_combined (by simp) (by simp) (peers_whole hwhole _ _) List.length_replicate.symm,
        zip_replicate_length, List.forall_mem_map, isHollow_combined]
      exact forall₂_congr ih

end Whole

end AbstractObject

section Rounds

open AbstractObject

/-- One more meet with `b`. -/
def Round (c : Comparison (Except Fault) α) (b o o' : AbstractObject α) : Prop :=
  ∃ changed, o.meet c b = .ok ⟨o', changed⟩

/-- Meeting a plain object into another object leaves it as it is in some place. -/
inductive Grips (c : Comparison (Except Fault) α) (x : α) : AbstractObject α → Prop where
  | full : Grips c x .full
  | plain {y : α} (h : c.meet x y = .ok ⟨.plain x, false⟩) : Grips c x (.plain y)
  | child {mode : Mode} {children : List (AbstractObject α)} {o : AbstractObject α}
      (ho : o ∈ children) (h : Grips c x o) : Grips c x (.combined mode children)

/-- Some part of an object outlasts all meets with `b`: a full object that becomes `b`, or a plain
object that is left as it is in some place of `b`. -/
inductive Persists (c : Comparison (Except Fault) α) (b : AbstractObject α) :
    AbstractObject α → Prop where
  | full (h : b.isHollow = false) : Persists c b .full
  | plain {x : α} (h : Grips c x b) : Persists c b (.plain x)
  | child {mode : Mode} {children : List (AbstractObject α)} {o : AbstractObject α}
      (ho : o ∈ children) (h : Persists c b o) : Persists c b (.combined mode children)

namespace Persists

variable {c : Comparison (Except Fault) α} {b o : AbstractObject α}

/-- What has a part that outlasts all meets is not hollow. -/
theorem not_hollow (h : Persists c b o) : o.isHollow = false := by
  induction h with
  | full _ => rfl
  | plain _ => rfl
  | child ho _ ih =>
      refine Bool.eq_false_of_not_eq_true fun hollow => ?_
      rw [isHollow_combined.1 hollow _ ho] at ih
      cases ih

/-- The parts of `b` that are not hollow outlast the meets with `b`. -/
theorem of_part (hc : c.Repeatable) (hb : b.isHollow = false)
    (hpart : ∀ {x}, Grips c x o → Grips c x b) (ho : o.isHollow = false) : Persists c b o := by
  induction o using byChildren with
  | full => exact .full hb
  | empty => cases ho
  | plain y => exact .plain (hpart (.plain (hc.self y)))
  | combined mode children ih =>
      obtain ⟨child, hchild, hhollow⟩ := exists_not_hollow ho
      exact .child hchild (ih child hchild (fun hx => hpart (.child hchild hx)) hhollow)

/-- What is left of a plain object that is gripped outlasts the meets with `b`. -/
theorem of_grips {x : α} (hb : Grips c x b) (ho : Grips c x o) {met : Met (AbstractObject α)}
    (h : o.meetIntoPlain c x = .ok met) : Persists c b met.object := by
  induction ho generalizing met with
  | full =>
      cases h
      exact .plain hb
  | plain hkept =>
      have hmet := hkept.symm.trans h
      cases hmet
      exact .plain hb
  | child hchild _ ih =>
      rw [meetIntoPlain, fold_combined] at h
      obtain ⟨collected, hcollect, hpure⟩ := bind_eq_ok h
      cases hpure
      obtain ⟨mets, -, hmakes, rfl⟩ := Met.collect_eq_ok hcollect
      obtain ⟨met, hmet, hmeet⟩ := hmakes _ hchild
      exact .child (List.mem_map_of_mem hmet) (ih hmeet)

/-- What is left of a plain object that is met with a part of `b` outlasts the meets with `b`,
unless it is hollow. -/
theorem of_meetIntoPlain (hc : c.Repeatable) {x : α} (hpart : ∀ {z}, Grips c z o → Grips c z b)
    {met : Met (AbstractObject α)} (h : o.meetIntoPlain c x = .ok met)
    (hmet : met.object.isHollow = false) : Persists c b met.object := by
  induction o using byChildren generalizing met with
  | full =>
      cases h
      exact .plain (hpart .full)
  | empty =>
      cases h
      cases hmet
  | plain y =>
      obtain hempty | ⟨z, hz, hagain⟩ := hc.again h
      · rw [hempty] at hmet
        cases hmet
      · rw [hz]
        exact .plain (hpart (.plain hagain))
  | combined mode children ih =>
      rw [meetIntoPlain, fold_combined] at h
      obtain ⟨collected, hcollect, hpure⟩ := bind_eq_ok h
      cases hpure
      obtain ⟨mets, hmade, -, rfl⟩ := Met.collect_eq_ok hcollect
      obtain ⟨_, hleft, hhollow⟩ := exists_not_hollow hmet
      obtain ⟨m, hm, rfl⟩ := List.mem_map.1 hleft
      obtain ⟨child, hchild, hmeet⟩ := hmade m hm
      exact .child hleft (ih child hchild (fun hz => hpart (.child hchild hz)) hmeet hhollow)

section Whole

variable {mode : Mode} {bs : List (AbstractObject α)} (hwhole : c.meetsPairwise = false)

include hwhole

/-- A part that outlasts all meets outlasts the next one. -/
theorem round (hc : c.Repeatable) {o' : AbstractObject α} (h : Persists c (.combined mode bs) o)
    (hround : Round c (.combined mode bs) o o') : Persists c (.combined mode bs) o' := by
  obtain ⟨changed, hmeet⟩ := hround
  induction h generalizing o' changed with
  | full hhollow =>
      rw [meet_full_left] at hmeet
      obtain ⟨whole, -, hpure⟩ := bind_eq_ok hmeet
      cases hpure
      exact of_part hc hhollow id hhollow
  | plain hgrips =>
      rw [meet_plain_left] at hmeet
      exact of_grips hgrips hgrips hmeet
  | child hchild _ ih =>
      rw [meet_whole hwhole] at hmeet
      obtain ⟨collected, hcollect, hpure⟩ := bind_eq_ok hmeet
      cases hpure
      obtain ⟨mets, -, hmakes, rfl⟩ := Met.collect_eq_ok hcollect
      obtain ⟨met, hmet, hchildmeet⟩ := hmakes _ hchild
      exact .child (List.mem_map_of_mem hmet) (ih _ hchildmeet)

/-- What a meet leaves outlasts all further meets in some part, unless it is hollow. -/
theorem of_meet (hc : c.Repeatable) {met : Met (AbstractObject α)}
    (h : o.meet c (.combined mode bs) = .ok met) (hmet : met.object.isHollow = false) :
    Persists c (.combined mode bs) met.object := by
  induction o using byChildren generalizing met with
  | full =>
      rw [meet_full_left] at h
      obtain ⟨whole, -, hpure⟩ := bind_eq_ok h
      cases hpure
      exact of_part hc hmet id hmet
  | empty =>
      cases h
      cases hmet
  | plain x =>
      rw [meet_plain_left] at h
      exact of_meetIntoPlain hc id h hmet
  | combined mode' children ih =>
      rw [meet_whole hwhole] at h
      obtain ⟨collected, hcollect, hpure⟩ := bind_eq_ok h
      cases hpure
      obtain ⟨mets, hmade, -, rfl⟩ := Met.collect_eq_ok hcollect
      obtain ⟨_, hleft, hhollow⟩ := exists_not_hollow hmet
      obtain ⟨m, hm, rfl⟩ := List.mem_map.1 hleft
      obtain ⟨child, hchild, hmeet⟩ := hmade m hm
      exact .child hleft (ih child hchild hmeet hhollow)

/-- After a meet with all of a combination that leaves something to be narrowed, no number of
further meets ever leaves an object that stays. -/
theorem never_stays (hc : c.Repeatable) {met : Met (AbstractObject α)}
    (h : o.meet c (.combined mode bs) = .ok met) (hmet : met.object.isHollow = false)
    {o' : AbstractObject α}
    (hrounds : Relation.ReflTransGen (Round c (.combined mode bs)) met.object o') :
    ¬Stays c (.combined mode bs) o' := by
  have hpersists : Persists c (.combined mode bs) o' := by
    induction hrounds with
    | refl => exact of_meet hwhole hc h hmet
    | tail _ hround ih => exact ih.round hwhole hc hround
  rw [stays_iff_hollow hwhole, hpersists.not_hollow]
  simp

end Whole

end Persists

end Rounds

/-- Meeting a leaf with itself, or a second time with the same leaf, changes nothing. -/
structure LeafRepeats (meet : L → L → Met L) : Prop where
  self : ∀ x, meet x x = ⟨x, false⟩
  again : ∀ x y, meet (meet x y).object y = ⟨(meet x y).object, false⟩

/-- At an edge, repeated meets of the leaves of both kinds change nothing. -/
structure Repeats (V R : Type) [ValueDomain V] [RegionDomain V R] (edge : EdgeId) : Prop where
  value : LeafRepeats (ValueDomain.meet (V := V) edge)
  region : LeafRepeats (RegionDomain.meet (R := R) edge)

section Families

open AbstractObject

variable [ValueDomain V] [RegionDomain V R] {edge : EdgeId}

/-- A slot stays if its region does, and if its index does where the other slot has one. -/
theorem Slot.meet_eq_self {s t : Slot V R}
    (hregion : Stays (MemRegion.comparison edge) t.region s.region)
    (hindex : ∀ j, t.index = some j → ∃ i, s.index = some i ∧ Stays (Value.comparison edge) j i) :
    Slot.meet (m := Except Fault) .silent edge s t = .ok ⟨s, false⟩ := by
  obtain ⟨region, index⟩ := s
  rw [Slot.meet, Arbiter.meet_silent, hregion]
  cases hj : t.index with
  | none => cases index <;> rfl
  | some j =>
      obtain ⟨i, rfl, hi⟩ := hindex j hj
      unfold Stays at hi
      simp only [bind, Except.bind, Arbiter.meet_silent, hi]
      rfl

/-- A plain location that is a slot stays if the slot does. -/
theorem Cell.meet_eq_self {s : Slot V R} {y : Cell V R}
    (hrelation : Cell.resultRelation edge (.slot s) y = none)
    (hslot : Slot.meet (m := Except Fault) .silent edge s y.toSlot = .ok ⟨s, false⟩) :
    Cell.meet (m := Except Fault) .silent edge (.slot s) y = .ok ⟨.plain (.slot s), false⟩ := by
  have hslot : Slot.meet (m := Except Fault) .silent edge (Cell.slot s).toSlot y.toSlot =
      .ok ⟨s, false⟩ := hslot
  rw [Cell.meet, hrelation]
  simp only [bind, Except.bind, hslot]
  rfl

omit [ValueDomain V] in
/-- A slot whose region stays when it is met with the storage for a result is not apart from the
place of that result. -/
theorem Cell.resultRelation_of_stays {f : FunctionName} {s : Slot V R}
    (hstays : Stays (MemRegion.comparison edge) (.plain (.result f)) s.region) :
    Cell.resultRelation edge (.slot s) (.result f) = none := by
  cases hrelation : Cell.resultRelation edge (.slot s) (.result f) with
  | none => rfl
  | some answer =>
      obtain ⟨-, y, hregion, hapart⟩ := Cell.apart_eq_some hrelation
      have hback : y.resultRelation edge (.result f) = some false :=
        (y.resultRelation_comm _).trans hapart
      rw [hregion] at hstays
      have hkept : y.meet edge (.result f) = ⟨.plain y, false⟩ := Except.ok.inj hstays
      simp [Storage.meet, hback] at hkept

namespace LeafRepeats

/-- Repeated meets of value leaves change nothing. -/
theorem values (h : LeafRepeats (ValueDomain.meet (V := V) edge)) :
    (Value.comparison (m := Except Fault) (V := V) edge).Repeatable :=
  .of_pure (fun _ _ => rfl) (fun x => by simp only [h.self x]) fun x y =>
    .inr ⟨(ValueDomain.meet edge x y).object, rfl, by simp only [h.again x y]⟩

omit [ValueDomain V]

variable (h : LeafRepeats (RegionDomain.meet (R := R) edge))

include h

/-- A plain region that is met with itself stays. -/
theorem storage_self (x : Storage R) : x.meet edge x = ⟨.plain x, false⟩ := by
  cases x with
  | result f => simp [Storage.meet, Storage.resultRelation]
  | leaf r => simp [Storage.meet, Storage.resultRelation, h.self r]

/-- What is left of a plain region stays when it is met with the same plain region again. -/
theorem storage_again (x y : Storage R) :
    (x.meet edge y).object = .empty ∨
      ∃ z, (x.meet edge y).object = .plain z ∧ z.meet edge y = ⟨.plain z, false⟩ := by
  have hkept : x.meet edge y = ⟨.plain x, false⟩ → (x.meet edge y).object = .empty ∨
      ∃ z, (x.meet edge y).object = .plain z ∧ z.meet edge y = ⟨.plain z, false⟩ :=
    fun hx => .inr ⟨x, by rw [hx], hx⟩
  cases hrelation : x.resultRelation edge y with
  | some same =>
      cases same with
      | false => exact .inl (by simp only [Storage.meet, hrelation])
      | true => exact hkept (by simp only [Storage.meet, hrelation])
  | none =>
      cases x with
      | result f =>
          cases y with
          | result g => cases hrelation
          | leaf r =>
              by_cases hempty : RegionDomain.isEmpty edge r = true
              · exact .inl (by simp only [Storage.meet, hrelation, if_pos hempty])
              · exact hkept (by simp only [Storage.meet, hrelation, if_neg hempty])
      | leaf r =>
          cases y with
          | result g =>
              by_cases hfull : RegionDomain.isFull edge r = true
              · refine .inr ⟨.result g, ?_, h.storage_self _⟩
                simp only [Storage.meet, hrelation, if_pos hfull]
              · exact hkept (by simp only [Storage.meet, hrelation, if_neg hfull])
          | leaf t =>
              refine .inr ⟨.leaf (RegionDomain.meet edge r t).object, rfl, ?_⟩
              simp only [Storage.meet, Storage.resultRelation, h.again r t]

/-- Repeated meets of plain regions change nothing. -/
theorem regions : (MemRegion.comparison (m := Except Fault) (R := R) edge).Repeatable :=
  .of_pure (fun _ _ => rfl) h.storage_self h.storage_again

end LeafRepeats

namespace CodePoint

variable [DecidableEq β]

/-- A field that is narrowed by itself stays. -/
theorem common_self (x : Option β) : common? x x = some ⟨x, false⟩ := by
  cases x <;> simp [common?]

/-- What is left of a field stays when it is narrowed by the same field again. -/
theorem common_again {x y : Option β} {met : Met (Option β)} (h : common? x y = some met) :
    common? met.object y = some ⟨met.object, false⟩ := by
  cases y with
  | none => cases met.object <;> rfl
  | some b =>
      cases x with
      | none =>
          cases h
          exact common_self _
      | some a =>
          by_cases hab : a = b
          · subst hab
            simp only [common?, if_true, Option.some.injEq] at h
            subst h
            exact common_self _
          · simp [common?, hab] at h

/-- A place that is met with itself stays. -/
theorem meet_self (p : CodePoint) : p.meet p = ⟨.plain p, false⟩ := by
  simp only [meet, common_self, Bool.or_self]

/-- What is left of a place stays when it is met with the same place again. -/
theorem meet_again (p q : CodePoint) :
    (p.meet q).object = .empty ∨
      ∃ r, (p.meet q).object = .plain r ∧ r.meet q = ⟨.plain r, false⟩ := by
  cases hpart : common? p.part q.part with
  | none => exact .inl (by simp only [meet, hpart])
  | some part =>
      cases hterm : common? p.term q.term with
      | none => exact .inl (by simp only [meet, hpart, hterm])
      | some term =>
          refine .inr ⟨⟨part.object, term.object⟩, by simp only [meet, hpart, hterm], ?_⟩
          simp only [meet, common_again hpart, common_again hterm, Bool.or_self]

end CodePoint

/-- Repeated meets of places change nothing. -/
theorem CodeLoc.repeatable : (CodeLoc.comparison (m := Except Fault)).Repeatable :=
  .of_pure (fun _ _ => rfl) CodePoint.meet_self CodePoint.meet_again

/-- The combinations of all families but locations are met child by child. -/
theorem Family.meetsPairwise_iff {m : Type → Type} [Monad m] [MonadExceptOf Fault m]
    (family : Family) (arbiter : Arbiter m V R) (edge : EdgeId) :
    (family.comparison arbiter edge).meetsPairwise = true ↔ family ≠ .memLoc := by
  cases family <;> simp [comparison, Value.comparison, CodeLoc.comparison, MemRegion.comparison,
    MemLoc.comparison]

/-- Values, places in the code and regions come to rest in one step, if the leaves of the family do:
what a meet left stays when it is met with the same object again, whether the objects are met
themselves or through an arbiter who answers nothing. -/
theorem Family.rests_after_meet {family : Family} (hfamily : family ≠ .memLoc)
    (hvalue : family = .value → LeafRepeats (ValueDomain.meet (V := V) edge))
    (hregion : family = .memRegion → LeafRepeats (RegionDomain.meet (R := R) edge))
    {a b : Object V R family} {met : Met (Object V R family)}
    (hmeet : a.meet (family.own edge) b = .ok met) :
    met.object.meet (family.own edge) b = .ok ⟨met.object, false⟩ ∧
      AnyObject.meet .silent edge ⟨family, met.object⟩ ⟨family, b⟩ =
        (.ok ⟨⟨family, met.object⟩, false⟩ : Except Fault (Met (AnyObject V R))) := by
  have hrepeatable : (family.own (V := V) (R := R) edge).Repeatable := by
    cases family with
    | value => exact (hvalue rfl).values
    | codeLoc => exact CodeLoc.repeatable
    | memRegion => exact (hregion rfl).regions
    | memLoc => exact absurd rfl hfamily
  have hpairwise : (family.own (V := V) (R := R) edge).meetsPairwise = true :=
    (family.meetsPairwise_iff .silent edge).2 hfamily
  have hrests : met.object.meet (family.own edge) b = .ok ⟨met.object, false⟩ :=
    AbstractObject.meet_again hrepeatable (.inl hpairwise) hmeet
  refine ⟨hrests, ?_⟩
  rw [AnyObject.meet_silent, hrests]
  rfl

namespace Repeats

variable (h : Repeats V R edge)

include h

/-- A slot that is met with itself stays. -/
theorem slot_self (s : Slot V R) :
    Slot.meet (m := Except Fault) .silent edge s s = .ok ⟨s, false⟩ :=
  Slot.meet_eq_self (stays_self h.region.regions (.inl rfl)) fun j hj =>
    ⟨j, hj, stays_self h.value.values (.inl rfl)⟩

/-- What is left of a slot stays, and so does its region. -/
theorem slot_again {s t : Slot V R} {met : Met (Slot V R)}
    (hmeet : Slot.meet (m := Except Fault) .silent edge s t = .ok met) :
    Stays (MemRegion.comparison edge) t.region met.object.region ∧
      Slot.meet (m := Except Fault) .silent edge met.object t = .ok ⟨met.object, false⟩ := by
  obtain ⟨region, hregion, hindex⟩ := bind_eq_ok hmeet
  have hstays : Stays (MemRegion.comparison edge) t.region region.object :=
    meet_again h.region.regions (.inl rfl) hregion
  cases hj : t.index with
  | none =>
      simp only [hj] at hindex
      cases hindex
      exact ⟨hstays, Slot.meet_eq_self hstays (by simp [hj])⟩
  | some j =>
      cases hi : s.index with
      | none =>
          simp only [hi, hj] at hindex
          cases hindex
          refine ⟨hstays, Slot.meet_eq_self hstays fun k hk => ⟨j, rfl, ?_⟩⟩
          obtain rfl : j = k := Option.some.inj (hj.symm.trans hk)
          exact stays_self h.value.values (.inl rfl)
      | some i =>
          simp only [hi, hj] at hindex
          obtain ⟨index, hvalue, hpure⟩ := bind_eq_ok hindex
          cases hpure
          refine ⟨hstays, Slot.meet_eq_self hstays fun k hk => ⟨index.object, rfl, ?_⟩⟩
          obtain rfl : j = k := Option.some.inj (hj.symm.trans hk)
          exact meet_again h.value.values (.inl rfl) hvalue

/-- Repeated meets of plain locations change nothing. -/
theorem locs :
    (MemLoc.comparison (.silent : Arbiter (Except Fault) V R) edge).Repeatable where
  self x := by
    cases x with
    | result f =>
        have hsame : Cell.resultRelation edge (.result f : Cell V R) (.result f) = some true := by
          simp [Cell.resultRelation]
        simp only [MemLoc.comparison, Cell.meet, hsame]
        rfl
    | slot s => exact Cell.meet_eq_self (y := .slot s) rfl (h.slot_self s)
  again := by
    intro x y met hmeet
    have hkept := hmeet
    simp only [MemLoc.comparison, Cell.meet] at hmeet
    split at hmeet
    · cases hmeet
      exact .inr ⟨x, rfl, hkept⟩
    · cases hmeet
      exact .inl rfl
    · obtain ⟨slot, hslot, hpure⟩ := bind_eq_ok hmeet
      obtain ⟨hregion, hagain⟩ := h.slot_again hslot
      split at hpure
      · cases hpure
        exact .inr ⟨_, rfl, hkept⟩
      · cases hpure
        refine .inr ⟨.slot slot.object, rfl, Cell.meet_eq_self ?_ hagain⟩
        cases y with
        | result f => exact Cell.resultRelation_of_stays hregion
        | slot t => rfl

/-- Meeting a location a second time with a location that is no combination changes nothing. With a
combination it changes nothing if the first meet left an object that is hollow. Otherwise no number
of further meets ever leaves an object that stays as it is. -/
theorem locations_rest {a b : Object V R .memLoc} {met : Met (Object V R .memLoc)}
    (hmeet : a.meet (Family.own .memLoc edge) b = .ok met) :
    (b.combination? = none →
      met.object.meet (Family.own .memLoc edge) b = .ok ⟨met.object, false⟩) ∧
    (b.combination? ≠ none →
      (met.object.isHollow = true →
        met.object.meet (Family.own .memLoc edge) b = .ok ⟨met.object, false⟩) ∧
      (met.object.isHollow = false →
        ∀ o, Relation.ReflTransGen (Round (Family.own .memLoc edge) b) met.object o →
          o.meet (Family.own .memLoc edge) b ≠ .ok ⟨o, false⟩)) := by
  refine ⟨fun hnone => meet_again h.locs (.inr hnone) hmeet, fun hsome => ?_⟩
  cases b with
  | combined mode bs =>
      exact ⟨(stays_iff_hollow rfl).2, fun hhollow o hrounds =>
        Persists.never_stays rfl h.locs hmeet hhollow hrounds⟩
  | _ => exact absurd rfl hsome

end Repeats

end Families

/-- Repeated meets in a flat lattice change nothing. -/
theorem Flat.meet_repeats [DecidableEq α] : LeafRepeats (Flat.meet (α := α)) where
  self x := by cases x <;> simp [Flat.meet]
  again x y := by
    cases x with
    | bottom => cases y <;> rfl
    | top => cases y <;> simp [Flat.meet]
    | exactly a =>
        cases y with
        | exactly b => by_cases hab : a = b <;> simp [Flat.meet, hab]
        | _ => rfl

/-- A set of literals stays when it is met with one that holds all of them. -/
theorem LiteralSet.meet_of_holds {s t : LiteralSet} (h : ∀ l ∈ s.literals, t.holds l = true) :
    s.meet t = ⟨s, false⟩ := by
  rw [meet, List.filter_eq_self.2 h, subSet, List.all_eq_true.2 h]
  rfl

/-- Repeated meets of sets of literals change nothing. -/
theorem LiteralSet.meet_repeats : LeafRepeats LiteralSet.meet where
  self _ := meet_of_holds fun l hl => List.any_eq_true.2 ⟨l, hl, l.agrees_self⟩
  again _ _ := meet_of_holds fun _ hl => (List.mem_filter.1 hl).2

/-- A set of sites stays when it is met with one that holds all of them. -/
theorem SiteSet.meet_of_mem {s t : SiteSet} (h : ∀ n ∈ s.names, n ∈ t.names) :
    s.meet t = ⟨s, false⟩ := by
  have hholds : ∀ n ∈ s.names, decide (n ∈ t.names) = true := fun n hn => decide_eq_true (h n hn)
  rw [meet, List.filter_eq_self.2 hholds, subSet, List.all_eq_true.2 hholds]
  rfl

/-- Repeated meets of sets of sites change nothing. -/
theorem SiteSet.meet_repeats : LeafRepeats SiteSet.meet where
  self _ := meet_of_mem fun _ hn => hn
  again _ _ := meet_of_mem fun _ hn => of_decide_eq_true (List.mem_filter.1 hn).2

/-- Repeated meets of value leaves change nothing. -/
theorem ValueLeaf.meet_repeats : LeafRepeats ValueLeaf.meet where
  self x := by
    cases x with
    | flat a _ => simp only [ValueLeaf.meet, Flat.meet_repeats.self a]
    | literals s _ => simp only [ValueLeaf.meet, LiteralSet.meet_repeats.self s]
    | symbol _ => rfl
  again x y := by
    cases x with
    | flat a _ =>
        cases y with
        | flat b _ => simp only [ValueLeaf.meet, Flat.meet_repeats.again a b]
        | _ => rfl
    | literals s _ =>
        cases y with
        | literals t _ => simp only [ValueLeaf.meet, LiteralSet.meet_repeats.again s t]
        | _ => rfl
    | symbol _ => cases y <;> rfl

/-- Repeated meets of region leaves change nothing. -/
theorem RegionLeaf.meet_repeats : LeafRepeats RegionLeaf.meet where
  self x := by
    cases x with
    | placed a _ _ => simp only [RegionLeaf.meet, Flat.meet_repeats.self a]
    | sites s _ => simp only [RegionLeaf.meet, SiteSet.meet_repeats.self s]
    | block _ => rfl
  again x y := by
    cases x with
    | placed a _ _ =>
        cases y with
        | placed b _ _ => simp only [RegionLeaf.meet, Flat.meet_repeats.again a b]
        | _ => rfl
    | sites s _ =>
        cases y with
        | sites t _ => simp only [RegionLeaf.meet, SiteSet.meet_repeats.again s t]
        | _ => rfl
    | block _ => cases y <;> rfl

/-- Repeated meets of the leaves of this library change nothing. -/
theorem leaves_repeat (edge : EdgeId) : Repeats ValueLeaf RegionLeaf edge :=
  ⟨ValueLeaf.meet_repeats, RegionLeaf.meet_repeats⟩

/-- A region somewhere, the heap, or what the result of a function and everything have in common. -/
def someRegion : Object ValueLeaf RegionLeaf .memRegion :=
  .combined .union [MemRegion.anywhere, MemRegion.named "heap",
    .combined .intersect [.plain (.result ⟨"main"⟩), .full]]

/-- What the result of a function, everything, and the heap or that result have in common. -/
def resultRegion : Object ValueLeaf RegionLeaf .memRegion :=
  .combined .intersect [.plain (.result ⟨"main"⟩), .full,
    .combined .union [MemRegion.named "heap", .plain (.result ⟨"main"⟩)]]

/-- What is left of the first of these regions when it is met with the second. -/
def metRegion : Object ValueLeaf RegionLeaf .memRegion :=
  .combined .union [.plain (.result ⟨"main"⟩), MemRegion.named "heap",
    .combined .intersect [.empty, .plain (.result ⟨"main"⟩)]]

/-- Two combinations of different modes are met child by child once, and then they come to rest. -/
theorem someRegion_met_again :
    someRegion.meet (Family.own .memRegion ⟨0⟩) resultRegion = .ok ⟨metRegion, true⟩ ∧
      metRegion.meet (Family.own .memRegion ⟨0⟩) resultRegion = .ok ⟨metRegion, false⟩ := by
  have hmeet : someRegion.meet (Family.own .memRegion ⟨0⟩) resultRegion =
      .ok ⟨metRegion, true⟩ := rfl
  exact ⟨hmeet, (Family.rests_after_meet (by simp) (by simp)
    (fun _ => (leaves_repeat ⟨0⟩).region) hmeet).1⟩

/-- The whole heap. -/
def heap : Object ValueLeaf RegionLeaf .memLoc := .plain (.slot ⟨MemRegion.named "heap", none⟩)

/-- A slot of the heap. -/
def heapSlot (n : Int64) : Object ValueLeaf RegionLeaf .memLoc :=
  .plain (.slot ⟨MemRegion.named "heap", some (Value.constant n)⟩)

/-- The heap or the result of a function is narrowed to a slot once and stays. The heap alone never
comes to rest when it is met with an intersection of itself. -/
theorem heap_met_again :
    (AbstractObject.meet (Family.own .memLoc ⟨0⟩)
        (.combined .union [heap, .plain (.result ⟨"main"⟩)]) (heapSlot 3) =
          .ok ⟨.combined .union [heapSlot 3, .empty], true⟩ ∧
      AbstractObject.meet (Family.own .memLoc ⟨0⟩) (.combined .union [heapSlot 3, .empty])
        (heapSlot 3) = .ok ⟨.combined .union [heapSlot 3, .empty], false⟩) ∧
    ∀ o, Relation.ReflTransGen (Round (Family.own .memLoc ⟨0⟩) (.combined .intersect [heap]))
        (.combined .intersect [heap]) o →
      o.meet (Family.own .memLoc ⟨0⟩) (.combined .intersect [heap]) ≠ .ok ⟨o, false⟩ := by
  have hnarrowed : AbstractObject.meet (Family.own .memLoc ⟨0⟩)
      (.combined .union [heap, .plain (.result ⟨"main"⟩)]) (heapSlot 3) =
        .ok ⟨.combined .union [heapSlot 3, .empty], true⟩ := rfl
  have hnested : heap.meet (Family.own .memLoc ⟨0⟩) (.combined .intersect [heap]) =
      .ok ⟨.combined .intersect [heap], true⟩ := rfl
  refine ⟨⟨hnarrowed, ((leaves_repeat ⟨0⟩).locations_rest hnarrowed).1 rfl⟩, ?_⟩
  exact (((leaves_repeat ⟨0⟩).locations_rest hnested).2 (by simp [AbstractObject.combination?])).2
    rfl

end JointAnalysis
