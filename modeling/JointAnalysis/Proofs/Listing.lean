import JointAnalysis.Proofs.Knowledge

/-!
# The literals of a value as a set

A value lists no constant twice, and which constants a combination lists is determined by those that
its children list. The literal that stands for a constant may depend on the order of the children,
since an intersection takes it from the first concrete child; the constants do not, at whatever
level the order is changed, and neither does the truth of the value. `Value.SameLiterals.combined`
is the step: children may be replaced by others that list the same constants, and may change places.
-/

namespace JointAnalysis

namespace AbstractObject

variable {α : Type}

/-- The second object is the first one up to the order of children, at any level. -/
inductive Reordered : AbstractObject α → AbstractObject α → Prop where
  | refl (o : AbstractObject α) : Reordered o o
  | trans {a b c : AbstractObject α} (h : Reordered a b) (h' : Reordered b c) : Reordered a c
  /-- The children of a combination change places. -/
  | places {mode : Mode} {as bs : List (AbstractObject α)} (h : as.Perm bs) :
      Reordered (.combined mode as) (.combined mode bs)
  /-- The order changes inside one child of a combination. -/
  | inside {mode : Mode} {a b : AbstractObject α} (before after : List (AbstractObject α))
      (h : Reordered a b) :
      Reordered (.combined mode (before ++ a :: after)) (.combined mode (before ++ b :: after))

/-- All entries of a list agree on a value if there are some and each has it. -/
theorem common_eq_some {β : Type} [DecidableEq β] {entries : List (Option β)} {b : β} :
    common? entries = some b ↔ entries ≠ [] ∧ ∀ entry ∈ entries, entry = some b := by
  constructor
  · intro h
    refine ⟨?_, eq_of_common h⟩
    rintro rfl
    cases h
  · rintro ⟨hsome, hall⟩
    cases entries with
    | nil => exact absurd rfl hsome
    | cons first rest =>
        obtain ⟨rfl, hrest⟩ := List.forall_mem_cons.1 hall
        rw [common?, if_pos (by simpa using hrest)]

end AbstractObject

namespace Value

/-- No two literals of a list are the same constant. -/
def Separate (ls : List Literal) : Prop := ls.Pairwise fun a b => a.agrees b = false

/-- A literal that is not listed yet can be added. -/
theorem Separate.concat {kept : List Literal} {l : Literal} (h : Separate kept)
    (hl : ¬ lists kept l = true) : Separate (kept ++ [l]) := by
  refine List.pairwise_append.2 ⟨h, List.pairwise_singleton _ _, ?_⟩
  intro a ha b hb
  rw [List.mem_singleton.1 hb]
  exact Bool.eq_false_iff.2 fun hagrees => hl (lists_iff.2 ⟨a, ha, hagrees⟩)

/-- Going on with a list, what is kept stays separate. -/
theorem Separate.foldl {kept : List Literal} (h : Separate kept) (ls : List Literal) :
    Separate (ls.foldl (fun kept l => if lists kept l then kept else kept ++ [l]) kept) := by
  induction ls generalizing kept with
  | nil => exact h
  | cons l rest ih =>
      rw [List.foldl_cons]
      split
      · exact ih h
      · next hl => exact ih (h.concat hl)

/-- What repeats no earlier constant is separate. -/
theorem separate_distinct (ls : List Literal) : Separate (distinct ls) :=
  Separate.foldl List.Pairwise.nil ls

/-- What a combination lists is separate, whatever its children list. -/
theorem Knowledge.separate_combine (mode : Mode) (children : List Knowledge) :
    Separate (combine mode children).literals := by
  cases mode with
  | union => exact separate_distinct _
  | intersect =>
      rw [combine]
      split
      · exact List.Pairwise.nil
      · exact separate_distinct _

variable {V : Type} [ValueDomain V]

/-- What a value lists is separate. -/
theorem separate_literals (v : Value V) : Separate (literals v) := by
  cases v with
  | full | empty => exact List.Pairwise.nil
  | plain x => exact separate_distinct _
  | combined mode children =>
      rw [literals, knowledge_combined]
      exact Knowledge.separate_combine mode _

/-- A value decides a condition if it is concrete, lists something, and all that it lists decides
alike. -/
theorem truth_iff {v : Value V} {b : Bool} :
    truth v = some b ↔
      isConcrete v = true ∧ (∃ l, lists (literals v) l = true) ∧
        ∀ l, lists (literals v) l = true → l.truth = some b := by
  have hsome : (literals v).map Literal.truth ≠ [] ↔ ∃ l, lists (literals v) l = true := by
    rw [Ne, List.map_eq_nil_iff, eq_nil_iff, not_forall_not]
  have hall : (∀ entry ∈ (literals v).map Literal.truth, entry = some b) ↔
      ∀ l, lists (literals v) l = true → l.truth = some b := by
    rw [List.forall_mem_map]
    constructor
    · intro h l hl
      obtain ⟨k, hk, hkl⟩ := lists_iff.1 hl
      rw [← Literal.truth_eq_of_agrees hkl]
      exact h k hk
    · intro h k hk
      exact h k (lists_iff.2 ⟨k, hk, k.agrees_self⟩)
  rw [truth, ← hsome, ← hall, ← AbstractObject.common_eq_some]
  cases isConcrete v <;> simp

/-- Two values are both concrete or both not, and list the same constants. -/
structure SameLiterals (v w : Value V) : Prop where
  concrete : isConcrete v = isConcrete w
  listed : ∀ l, lists (literals v) l = lists (literals w) l

namespace SameLiterals

variable {v w : Value V}

/-- A value lists what it lists. -/
theorem rfl : SameLiterals v v := ⟨Eq.refl _, fun _ => Eq.refl _⟩

/-- Listing the same constants does not depend on the order. -/
theorem symm (h : SameLiterals v w) : SameLiterals w v :=
  ⟨h.concrete.symm, fun l => (h.listed l).symm⟩

/-- What lists the same constants as a third value lists the same constants. -/
theorem trans {u : Value V} (h : SameLiterals u v) (h' : SameLiterals v w) : SameLiterals u w :=
  ⟨h.concrete.trans h'.concrete, fun l => (h.listed l).trans (h'.listed l)⟩

/-- Values that list the same constants decide a condition alike. -/
theorem truth_eq (h : SameLiterals v w) : truth v = truth w := by
  refine Option.ext fun b => ?_
  simp only [truth_iff, h.concrete, h.listed]

/-- What one combination lists, another one of the same mode lists, if their children list the same
constants. -/
theorem combined_le (mode : Mode) {as bs : List (Value V)}
    (hto : ∀ a ∈ as, ∃ b ∈ bs, SameLiterals a b) (hfrom : ∀ b ∈ bs, ∃ a ∈ as, SameLiterals a b) :
    (isConcrete (.combined mode as) = true → isConcrete (.combined mode bs) = true) ∧
      ∀ l, lists (literals (.combined mode as)) l = true →
        lists (literals (.combined mode bs)) l = true := by
  cases mode with
  | union =>
      simp only [isConcrete_union, lists_union]
      constructor
      · intro hconcrete b hb
        obtain ⟨a, ha, hab⟩ := hfrom b hb
        rw [← hab.concrete]
        exact hconcrete a ha
      · rintro l ⟨a, ha, hl⟩
        obtain ⟨b, hb, hab⟩ := hto a ha
        exact ⟨b, hb, hab.listed l ▸ hl⟩
  | intersect =>
      simp only [isConcrete_intersect, lists_intersect]
      have hsome : (∃ a ∈ as, isConcrete a = true) → ∃ b ∈ bs, isConcrete b = true := by
        rintro ⟨a, ha, hconcrete⟩
        obtain ⟨b, hb, hab⟩ := hto a ha
        exact ⟨b, hb, hab.concrete ▸ hconcrete⟩
      refine ⟨hsome, ?_⟩
      rintro l ⟨hconcrete, hall⟩
      refine ⟨hsome hconcrete, fun b hb hknown => ?_⟩
      obtain ⟨a, ha, hab⟩ := hfrom b hb
      rw [← hab.listed]
      exact hall a ha (hab.concrete.trans hknown)

/-- Combinations of one mode list the same constants if their children do, in whatever order. -/
theorem combined {mode : Mode} {as bs : List (Value V)}
    (hto : ∀ a ∈ as, ∃ b ∈ bs, SameLiterals a b) (hfrom : ∀ b ∈ bs, ∃ a ∈ as, SameLiterals a b) :
    SameLiterals (.combined mode as) (.combined mode bs) := by
  obtain ⟨hconcrete, hlisted⟩ := combined_le mode hto hfrom
  obtain ⟨hconcrete', hlisted'⟩ := combined_le mode
    (fun b hb => (hfrom b hb).imp fun a ha => ⟨ha.1, ha.2.symm⟩)
    (fun a ha => (hto a ha).imp fun b hb => ⟨hb.1, hb.2.symm⟩)
  exact ⟨Bool.eq_iff_iff.2 ⟨hconcrete, hconcrete'⟩,
    fun l => Bool.eq_iff_iff.2 ⟨hlisted l, hlisted' l⟩⟩

/-- Every child of a combination lists what some child lists after one of them was replaced by
another one that lists the same constants. -/
theorem exists_mem {a b c : Value V} {before after : List (Value V)} (hab : SameLiterals a b)
    (hc : c ∈ before ++ a :: after) : ∃ d ∈ before ++ b :: after, SameLiterals c d := by
  rcases List.mem_append.1 hc with hbefore | hhere
  · exact ⟨c, List.mem_append_left _ hbefore, .rfl⟩
  · rcases List.mem_cons.1 hhere with rfl | hafter
    · exact ⟨b, List.mem_append_right _ List.mem_cons_self, hab⟩
    · exact ⟨c, List.mem_append_right _ (List.mem_cons_of_mem _ hafter), .rfl⟩

/-- The order of children, at any level, does not matter for the constants that a value lists. -/
theorem of_reordered (h : AbstractObject.Reordered v w) : SameLiterals v w := by
  induction h with
  | refl o => exact .rfl
  | trans _ _ ih ih' => exact ih.trans ih'
  | places hperm =>
      exact combined (fun a ha => ⟨a, hperm.mem_iff.1 ha, .rfl⟩)
        fun b hb => ⟨b, hperm.mem_iff.2 hb, .rfl⟩
  | inside before after _ ih =>
      refine combined (fun c hc => ih.exists_mem hc) fun d hd => ?_
      obtain ⟨c, hc, hdc⟩ := ih.symm.exists_mem hd
      exact ⟨c, hc, hdc.symm⟩

end SameLiterals

/-- No value lists a constant twice. A union lists what one of its children lists. An intersection
lists what all its concrete children list, if it has some. So the order of children, at any level,
does not matter for the constants that a value lists, for whether it is concrete, and for how it
decides a condition. -/
theorem literals_exact (V : Type) [ValueDomain V] :
    (∀ v : Value V, (literals v).Pairwise fun a b => a.agrees b = false) ∧
    (∀ (children : List (Value V)) (l : Literal),
      lists (literals (.combined .union children)) l = true ↔
        ∃ o ∈ children, lists (literals o) l = true) ∧
    (∀ (children : List (Value V)) (l : Literal),
      lists (literals (.combined .intersect children)) l = true ↔
        (∃ o ∈ children, isConcrete o = true) ∧
          ∀ o ∈ children, isConcrete o = true → lists (literals o) l = true) ∧
    ∀ v w : Value V, v.Reordered w →
      isConcrete v = isConcrete w ∧ (∀ l, lists (literals v) l = lists (literals w) l) ∧
        truth v = truth w := by
  refine ⟨separate_literals, fun _ _ => lists_union, fun _ _ => lists_intersect, ?_⟩
  intro v w h
  have hsame : SameLiterals v w := .of_reordered h
  exact ⟨hsame.concrete, hsame.listed, hsame.truth_eq⟩

/-- What `certainlyTwo` says, in another order. -/
def unsignedTwo : Value ValueLeaf :=
  .combined .intersect [.plain (.literals ⟨[.uint 2, .str "two"], true⟩ none),
    .combined .union [constant 2, constant 1], unknown]

/-- The order decides which literal stands for the two, and nothing else. -/
theorem certainlyTwo_reordered :
    (certainlyTwo.Reordered unsignedTwo ∧ literals certainlyTwo = [.int 2] ∧
      literals unsignedTwo = [.uint 2]) ∧
    isConcrete certainlyTwo = isConcrete unsignedTwo ∧
      (∀ l, lists (literals certainlyTwo) l = lists (literals unsignedTwo) l) ∧
        truth certainlyTwo = truth unsignedTwo := by
  have hreordered : certainlyTwo.Reordered unsignedTwo :=
    .trans (.inside [] _ (.places (List.Perm.swap _ _ []))) (.places (List.Perm.swap _ _ _))
  exact ⟨⟨hreordered, rfl, rfl⟩, (literals_exact ValueLeaf).2.2.2 _ _ hreordered⟩

end Value

end JointAnalysis
