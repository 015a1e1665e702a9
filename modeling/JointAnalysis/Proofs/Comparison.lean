import JointAnalysis.Object.Comparison
import JointAnalysis.Proofs.Denotation
import Mathlib.Tactic.Common

/-!
# Taking answers in turn

Questions about combinations are put to the children in turn. Here is what the answer to such a
question says about the answers of the children, and what a combination that was met child by child
is made of. Pairs of children are the members of `as.zip bs`. The last lemmas say by which rule
objects of each shape are compared.
-/

namespace JointAnalysis

variable {α β : Type}

/-- What comes after a question is carried out if the question is answered. -/
theorem bind_eq_ok {x : Except Fault α} {f : α → Except Fault β} {b : β} (h : x >>= f = .ok b) :
    ∃ a, x = .ok a ∧ f a = .ok b := by
  cases x with
  | error fault => cases h
  | ok a => exact ⟨a, rfl, h⟩

/-- A question that is asked only after another one was granted is granted if both are. -/
theorem both_of_ok {x y : Except Fault Bool}
    (h : (do if ← x then y else pure false) = Except.ok true) : x = .ok true ∧ y = .ok true := by
  obtain ⟨answer, hx, h⟩ := bind_eq_ok h
  cases answer with
  | false => cases h
  | true => exact ⟨hx, h⟩

section Turns

variable {hit : Bool} {asks : List (Except Fault Bool)}

/-- The answer for a hit is given by someone. -/
theorem exists_of_firstHit (h : firstHit hit asks = .ok hit) : .ok hit ∈ asks := by
  induction asks with
  | nil => cases hit <;> cases h
  | cons ask rest ih =>
      cases ask with
      | error fault => cases h
      | ok answer =>
          by_cases hanswer : answer = hit
          · rw [hanswer]
            exact List.mem_cons_self
          · refine List.mem_cons_of_mem _ (ih ?_)
            simpa [firstHit, hanswer, bind, Except.bind] using h

/-- The other answer is given by all. -/
theorem forall_of_firstHit (h : firstHit hit asks = .ok !hit) : ∀ ask ∈ asks, ask = .ok !hit := by
  induction asks with
  | nil =>
      intro ask hask
      cases hask
  | cons first rest ih =>
      cases first with
      | error fault => cases h
      | ok answer =>
          by_cases hanswer : answer = hit
          · simp [firstHit, hanswer, bind, Except.bind, pure, Except.pure] at h
          · have hrest : firstHit hit rest = .ok !hit := by
              simpa [firstHit, hanswer, bind, Except.bind] using h
            refine List.forall_mem_cons.2 ⟨?_, ih hrest⟩
            rw [Bool.eq_not_of_ne hanswer]

/-- If all give the other answer, it is the answer. -/
theorem firstHit_of_forall (h : ∀ ask ∈ asks, ask = .ok !hit) : firstHit hit asks = .ok !hit := by
  induction asks with
  | nil => rfl
  | cons first rest ih =>
      obtain ⟨hfirst, hrest⟩ := List.forall_mem_cons.1 h
      rw [firstHit, hfirst]
      cases hit <;> exact ih hrest

/-- Asking in turn has an answer if all that are asked answer. -/
theorem firstHit_ok (hit : Bool) {places : List α}
    (h : List.Forall₂ (fun _ ask => ∃ b, ask = .ok b) places asks) :
    ∃ b, firstHit hit asks = .ok b := by
  induction h with
  | nil => exact ⟨_, rfl⟩
  | cons hfirst _ ih =>
      obtain ⟨b, rfl⟩ := hfirst
      obtain ⟨result, hresult⟩ := ih
      by_cases hb : b = hit
      · exact ⟨hit, by simp [firstHit, hb, bind, Except.bind, pure, Except.pure]⟩
      · exact ⟨result, by simpa [firstHit, hb, bind, Except.bind] using hresult⟩

variable {f : α → β → Except Fault Bool} {as : List α} {bs : List β}

/-- The answer for a hit is given for some pair. -/
theorem exists_pair_of_firstHit (h : firstHit hit (List.zipWith f as bs) = .ok hit) :
    ∃ p ∈ as.zip bs, f p.1 p.2 = .ok hit := by
  rw [← List.map_uncurry_zip_eq_zipWith] at h
  exact List.mem_map.1 (exists_of_firstHit h)

/-- The other answer is given for all pairs. -/
theorem forall_pair_of_firstHit (h : firstHit hit (List.zipWith f as bs) = .ok !hit) :
    ∀ p ∈ as.zip bs, f p.1 p.2 = .ok !hit := by
  rw [← List.map_uncurry_zip_eq_zipWith] at h
  exact fun p hp => forall_of_firstHit h _ (List.mem_map_of_mem hp)

end Turns

/-- Meets that are collected were carried out one by one, and a change is reported if one of them
reported it. -/
theorem Met.collect_eq_ok {l : List α} {meet : α → Except Fault (Met β)} {met : Met (List β)}
    (h : Met.collect (l.map meet) = .ok met) :
    ∃ mets : List (Met β), (∀ m ∈ mets, ∃ i ∈ l, meet i = .ok m) ∧
      (∀ i ∈ l, ∃ m ∈ mets, meet i = .ok m) ∧
      met = ⟨mets.map (·.object), mets.any (·.changed)⟩ := by
  induction l generalizing met with
  | nil =>
      cases h
      exact ⟨[], by simp, by simp, rfl⟩
  | cons i rest ih =>
      rw [List.map_cons, Met.collect] at h
      obtain ⟨first, hfirst, hafter⟩ := bind_eq_ok h
      obtain ⟨others, hrest, hpure⟩ := bind_eq_ok hafter
      cases hpure
      obtain ⟨mets, hmade, hmakes, rfl⟩ := ih hrest
      refine ⟨first :: mets, List.forall_mem_cons.2 ⟨⟨i, List.mem_cons_self, hfirst⟩, ?_⟩,
        List.forall_mem_cons.2 ⟨⟨first, List.mem_cons_self, hfirst⟩, ?_⟩, rfl⟩
      · intro m hm
        obtain ⟨k, hk, hmeet⟩ := hmade m hm
        exact ⟨k, List.mem_cons_of_mem i hk, hmeet⟩
      · intro k hk
        obtain ⟨m, hm, hmeet⟩ := hmakes k hk
        exact ⟨m, List.mem_cons_of_mem first hm, hmeet⟩

namespace AbstractObject

/-- What goes through two lists position by position is `List.zipWith`. -/
theorem zipWith_of_pairs {γ : Type} {f : AbstractObject α → AbstractObject α → γ}
    {pairs : List (AbstractObject α) → List (AbstractObject α) → List γ}
    (hnil : ∀ bs, pairs [] bs = []) (hnil' : ∀ a as, pairs (a :: as) [] = [])
    (hcons : ∀ a as b bs, pairs (a :: as) (b :: bs) = f a b :: pairs as bs)
    (as bs : List (AbstractObject α)) : pairs as bs = List.zipWith f as bs := by
  induction as generalizing bs with
  | nil => exact hnil bs
  | cons a as ih =>
      cases bs with
      | nil => exact hnil' a as
      | cons b bs => rw [hcons, ih, List.zipWith_cons_cons]

variable (c : Comparison (Except Fault) α) (as bs : List (AbstractObject α))

/-- The answers of `mayEqual` for two lists, taken together. -/
theorem mayEqualPairs_eq : mayEqualPairs c as bs = List.zipWith (mayEqual c) as bs :=
  zipWith_of_pairs (fun _ => rfl) (fun _ _ => rfl) (fun _ _ _ _ => rfl) as bs

/-- The answers of `mustEqual` for two lists, taken together. -/
theorem mustEqualPairs_eq : mustEqualPairs c as bs = List.zipWith (mustEqual c) as bs :=
  zipWith_of_pairs (fun _ => rfl) (fun _ _ => rfl) (fun _ _ _ _ => rfl) as bs

/-- The answers of `equalSet` for two lists, taken together. -/
theorem equalSetPairs_eq : equalSetPairs c as bs = List.zipWith (equalSet c) as bs :=
  zipWith_of_pairs (fun _ => rfl) (fun _ _ => rfl) (fun _ _ _ _ => rfl) as bs

/-- The answers of `subSet` for two lists, taken together. -/
theorem subSetPairs_eq : subSetPairs c as bs = List.zipWith (subSet c) as bs :=
  zipWith_of_pairs (fun _ => rfl) (fun _ _ => rfl) (fun _ _ _ _ => rfl) as bs

/-- The meets of two lists, taken together. -/
theorem meetPairs_eq : meetPairs c as bs = List.zipWith (meet c) as bs :=
  zipWith_of_pairs (fun _ => rfl) (fun _ _ => rfl) (fun _ _ _ _ => rfl) as bs

/-- The full object becomes what it is met with. -/
theorem meet_full_left (b : AbstractObject α) :
    meet c .full b = (do pure ⟨b, !(← b.isFull c)⟩) := by
  cases b <;> rfl

/-- A plain object is narrowed to what it is met with. -/
theorem meet_plain_left (x : α) (b : AbstractObject α) :
    meet c (.plain x) b = b.meetIntoPlain c x := by
  cases b <;> rfl

/-- An object is compared with a plain one by its plain parts. -/
theorem mayEqual_plain (o : AbstractObject α) (y : α) :
    o.mayEqual c (.plain y) = o.mayEqualPlain c y := by
  cases o <;> rfl

/-- Combinations of equally many children may be equal if pairs of children may. -/
theorem mayEqual_combined {mode mode' : Mode} {as bs : List (AbstractObject α)}
    (h : as.length = bs.length) :
    mayEqual c (.combined mode as) (.combined mode' bs) =
      firstHit mode.isUnion ((as.zip bs).map fun p => p.1.mayEqual c p.2) := by
  rw [mayEqual, if_pos h, mayEqualPairs_eq, ← List.map_uncurry_zip_eq_zipWith]
  rfl

/-- Certain equality with a plain object is found by the plain parts. -/
theorem mustEqual_plain (o : AbstractObject α) (y : α) :
    o.mustEqual c (.plain y) = o.mustEqualPlain c y := by
  cases o <;> rfl

/-- Combinations of equally many children are compared for certain equality by pairs of children,
and others are not certainly equal. -/
theorem mustEqual_combined {mode mode' : Mode} {as bs : List (AbstractObject α)} :
    mustEqual c (.combined mode as) (.combined mode' bs) =
      if as.length = bs.length then
        firstHit (!mode.isUnion) ((as.zip bs).map fun p => p.1.mustEqual c p.2)
      else .ok false := by
  rw [mustEqual, mustEqualPairs_eq, ← List.map_uncurry_zip_eq_zipWith]
  rfl

/-- An object is compared for equality with a plain one by its plain parts. -/
theorem equalSet_plain (o : AbstractObject α) (y : α) :
    o.equalSet c (.plain y) = o.equalSetPlain c y := by
  cases o <;> rfl

/-- Combinations of equally many children are compared for equality by pairs of children, and others
cannot be compared. -/
theorem equalSet_combined {mode mode' : Mode} {as bs : List (AbstractObject α)} :
    equalSet c (.combined mode as) (.combined mode' bs) =
      if as.length = bs.length then
        firstHit false ((as.zip bs).map fun p => p.1.equalSet c p.2)
      else .error (.unequalCounts (.relation .equalSet) as.length bs.length) := by
  rw [equalSet, equalSetPairs_eq, ← List.map_uncurry_zip_eq_zipWith]
  rfl

/-- The full object is a part of what is full. -/
theorem subSet_full_left (b : AbstractObject α) : subSet c .full b = b.isFull c := by
  cases b <;> rfl

/-- What is empty is a part of the empty object. -/
theorem subSet_empty_right (a : AbstractObject α) : a.subSet c .empty = a.isEmpty c := by
  cases a <;> rfl

/-- An object is a part of a plain one by its plain parts. -/
theorem subSet_plain (o : AbstractObject α) (y : α) :
    o.subSet c (.plain y) = o.subSetPlain c y := by
  cases o <;> rfl

/-- A plain object is a part of an object by the plain parts of that object. -/
theorem subSet_of_plain (o : AbstractObject α) (x : α) :
    subSet c (.plain x) o = o.superSetPlain c x := by
  cases o <;> rfl

/-- Combinations of equally many children are compared for inclusion by pairs of children, and
others cannot be compared. -/
theorem subSet_combined {mode mode' : Mode} {as bs : List (AbstractObject α)} :
    subSet c (.combined mode as) (.combined mode' bs) =
      if as.length = bs.length then
        firstHit mode.isUnion ((as.zip bs).map fun p => p.1.subSet c p.2)
      else .error (.unequalCounts (.relation .subSet) as.length bs.length) := by
  rw [subSet, subSetPairs_eq, ← List.map_uncurry_zip_eq_zipWith]
  rfl

/-- A fold that asks the children in turn has an answer. -/
theorem fold_ok {f : ObjectFold α (Except Fault Bool)} (hfull : ∃ b, f.full = .ok b)
    (hempty : ∃ b, f.empty = .ok b) (hplain : ∀ x, ∃ b, f.plain x = .ok b)
    (hcombined : ∀ mode, ∃ hit, f.combined mode = firstHit hit) (o : AbstractObject α) :
    ∃ b, o.fold f = .ok b := by
  refine fold_holds (fun x : Except Fault Bool => ∃ b, x = .ok b) hfull hempty hplain ?_ o
  intro mode answers h
  obtain ⟨hit, hmode⟩ := hcombined mode
  rw [hmode]
  exact firstHit_ok hit (List.forall₂_same.2 h)

end AbstractObject

end JointAnalysis
