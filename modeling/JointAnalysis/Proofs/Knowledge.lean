import JointAnalysis.Domain.Values
import JointAnalysis.Proofs.Denotation
import JointAnalysis.Proofs.Literal

/-!
# What is known about the literals of a value

Up to being the same constant, a union lists what one of its children lists, and an intersection
lists what all of its concrete children list: `Value.lists_union` and `Value.lists_intersect`. So a
concrete value lists every literal that it denotes, if its leaves do, and where all literals decide
a condition alike the value decides it rightly.

A value that is not concrete may list literals too, though only if it is a union: it lists those of
its concrete alternatives.
-/

namespace JointAnalysis

/-- A value on which all entries of a list agree is that of each entry. -/
theorem AbstractObject.eq_of_common {β : Type} [DecidableEq β] {entries : List (Option β)} {b : β}
    (h : common? entries = some b) : ∀ entry ∈ entries, entry = some b := by
  cases entries with
  | nil => cases h
  | cons first rest =>
      rw [common?] at h
      split at h
      · next hall =>
          subst h
          exact List.forall_mem_cons.2
            ⟨rfl, fun entry hentry => of_decide_eq_true (List.all_eq_true.1 hall entry hentry)⟩
      · cases h

namespace Value

section Lists

variable {ls : List Literal} {k l : Literal}

/-- A list holds a constant if one of its literals is that constant. -/
theorem lists_iff : lists ls l = true ↔ ∃ k ∈ ls, k.agrees l = true := List.any_eq_true

/-- Whether a list holds a constant does not depend on the literal for it. -/
theorem lists_congr (h : k.agrees l = true) : lists ls k = lists ls l := by
  refine Bool.eq_iff_iff.2 ?_
  rw [lists_iff, lists_iff]
  constructor
  · rintro ⟨m, hm, hmk⟩
    exact ⟨m, hm, Literal.agrees_trans hmk h⟩
  · rintro ⟨m, hm, hml⟩
    exact ⟨m, hm, Literal.agrees_trans hml (Literal.agrees_symm h)⟩

/-- A list without literals holds no constant, and no other list does so. -/
theorem eq_nil_iff : ls = [] ↔ ∀ l, ¬lists ls l = true := by
  constructor
  · rintro rfl l h
    cases h
  · intro h
    refine List.eq_nil_iff_forall_not_mem.2 fun l hl => h l ?_
    exact lists_iff.2 ⟨l, hl, l.agrees_self⟩

/-- What is kept of a list after some literals holds the constants of both. -/
theorem lists_foldl (kept ls : List Literal) (l : Literal) :
    lists (ls.foldl (fun kept l => if lists kept l then kept else kept ++ [l]) kept) l =
      (lists kept l || lists ls l) := by
  induction ls generalizing kept with
  | nil => simp [lists]
  | cons first rest ih =>
      rw [List.foldl_cons, ih]
      by_cases hkept : lists kept first = true
      · -- The literal is left out, since the same constant was kept before.
        rw [if_pos hkept]
        by_cases hfirst : first.agrees l = true
        · rw [← lists_congr hfirst, hkept, Bool.true_or, Bool.true_or]
        · simp [lists, hfirst]
      · rw [if_neg hkept]
        simp [lists, Bool.or_assoc]

/-- Leaving out what repeats an earlier constant leaves out no constant. -/
@[simp]
theorem lists_distinct (ls : List Literal) (l : Literal) : lists (distinct ls) l = lists ls l :=
  lists_foldl [] ls l

/-- A filter that does not tell apart literals of one constant keeps or drops the constant. -/
theorem lists_filter {p : Literal → Bool} (hp : ∀ k, k.agrees l = true → p k = p l) :
    lists (ls.filter p) l = true ↔ lists ls l = true ∧ p l = true := by
  rw [lists_iff, lists_iff]
  constructor
  · rintro ⟨k, hk, hkl⟩
    obtain ⟨hmem, hkept⟩ := List.mem_filter.1 hk
    exact ⟨⟨k, hmem, hkl⟩, hp k hkl ▸ hkept⟩
  · rintro ⟨⟨k, hk, hkl⟩, hl⟩
    exact ⟨k, List.mem_filter.2 ⟨hk, (hp k hkl).trans hl⟩, hkl⟩

/-- An intersection lists what all that is concrete in it lists, if something is. -/
theorem Knowledge.lists_intersect {children : List Knowledge} :
    lists (combine .intersect children).literals l = true ↔
      (∃ k ∈ children, k.concrete = true) ∧
        ∀ k ∈ children, k.concrete = true → lists k.literals l = true := by
  have hfilter : ∀ k, k ∈ children.filter (·.concrete) ↔ k ∈ children ∧ k.concrete = true :=
    fun k => List.mem_filter
  cases hconcrete : children.filter (·.concrete) with
  | nil =>
      constructor
      · intro h
        simp only [combine, hconcrete] at h
        cases h
      · rintro ⟨⟨k, hk⟩, -⟩
        rw [← hfilter, hconcrete] at hk
        cases hk
  | cons first rest =>
      -- The literals come from the first concrete child, and the other ones filter them.
      rw [hconcrete] at hfilter
      have hsome : ∃ k ∈ children, k.concrete = true :=
        ⟨first, (hfilter first).1 List.mem_cons_self⟩
      have hrest : ∀ k, k.agrees l = true →
          (rest.all fun child => lists child.literals k) =
            rest.all fun child => lists child.literals l := by
        intro k hkl
        simp only [lists_congr hkl]
      have hall : (lists first.literals l = true ∧ ∀ k ∈ rest, lists k.literals l = true) ↔
          ∀ k ∈ first :: rest, lists k.literals l = true := by
        rw [List.forall_mem_cons]
      simp only [combine, hconcrete, lists_distinct, lists_filter hrest, List.all_eq_true]
      rw [hall]
      simp only [hfilter, and_imp, hsome, true_and]

end Lists

variable {V : Type} [ValueDomain V] {children : List (Value V)} {l : Literal}

/-- What is known about a combination is known from its children. -/
theorem knowledge_combined (mode : Mode) (children : List (Value V)) :
    knowledge (.combined mode children) = .combine mode (children.map knowledge) :=
  AbstractObject.fold_combined _ mode children

/-- A union is concrete if all its children are. -/
theorem isConcrete_union :
    isConcrete (.combined .union children) = true ↔ ∀ o ∈ children, isConcrete o = true := by
  simp [isConcrete, knowledge_combined, Knowledge.combine]

/-- A union lists what one of its children lists. -/
theorem lists_union :
    lists (literals (.combined .union children)) l = true ↔
      ∃ o ∈ children, lists (literals o) l = true := by
  simp only [literals, knowledge_combined, Knowledge.combine, lists_distinct, lists_iff,
    List.flatMap_map, List.mem_flatMap]
  constructor
  · rintro ⟨k, ⟨o, ho, hk⟩, hkl⟩
    exact ⟨o, ho, k, hk, hkl⟩
  · rintro ⟨o, ho, k, hk, hkl⟩
    exact ⟨k, ⟨o, ho, hk⟩, hkl⟩

/-- An intersection is concrete if one of its children is. -/
theorem isConcrete_intersect :
    isConcrete (.combined .intersect children) = true ↔ ∃ o ∈ children, isConcrete o = true := by
  rw [isConcrete, knowledge_combined, Knowledge.combine]
  cases hconcrete : (children.map knowledge).filter (·.concrete) with
  | nil => simpa [isConcrete] using hconcrete
  | cons first rest =>
      have hfirst : first ∈ (children.map knowledge).filter (·.concrete) :=
        hconcrete ▸ List.mem_cons_self
      obtain ⟨hmem, hknown⟩ := List.mem_filter.1 hfirst
      obtain ⟨o, ho, rfl⟩ := List.mem_map.1 hmem
      exact ⟨fun _ => ⟨o, ho, hknown⟩, fun _ => rfl⟩

/-- An intersection lists what all its concrete children list, if it has some. -/
theorem lists_intersect :
    lists (literals (.combined .intersect children)) l = true ↔
      (∃ o ∈ children, isConcrete o = true) ∧
        ∀ o ∈ children, isConcrete o = true → lists (literals o) l = true := by
  rw [literals, knowledge_combined, Knowledge.lists_intersect, List.forall_mem_map]
  simp only [List.mem_map, exists_exists_and_eq_and]
  rfl

/-- A concrete value lists every constant that it denotes, if its leaves do. -/
theorem lists_of_mem_denote {denotes : V → Set Literal}
    (hleaf : ∀ x : V, ValueDomain.isConcrete x = true → ∀ l ∈ denotes x,
      lists (ValueDomain.literals x) l = true)
    {v : Value V} (hv : isConcrete v = true) (hl : l ∈ v.denote denotes) :
    lists (literals v) l = true := by
  induction v using AbstractObject.byChildren with
  | full => cases hv
  | empty => cases hv
  | plain x =>
      have hlisted : lists (ValueDomain.literals x) l = true := hleaf x hv l hl
      rwa [← lists_distinct] at hlisted
  | combined mode children ih =>
      cases mode with
      | union =>
          obtain ⟨o, ho, hmem⟩ := (AbstractObject.mem_denote_union _).1 hl
          exact lists_union.2 ⟨o, ho, ih o ho (isConcrete_union.1 hv o ho) hmem⟩
      | intersect =>
          have hall := (AbstractObject.mem_denote_intersect _).1 hl
          exact lists_intersect.2 ⟨isConcrete_intersect.1 hv, fun o ho hconcrete =>
            ih o ho hconcrete (hall o ho)⟩

/-- If a value decides a condition, it is concrete and all its literals decide alike. -/
theorem truth_eq_some {v : Value V} {b : Bool} (h : truth v = some b) :
    isConcrete v = true ∧ ∀ k ∈ literals v, k.truth = some b := by
  rw [truth] at h
  split at h
  · next hconcrete =>
      exact ⟨hconcrete, fun k hk => AbstractObject.eq_of_common h _ (List.mem_map_of_mem hk)⟩
  · cases h

/-- Every literal that a concrete value denotes is the same constant as one that it lists, and it
decides a condition as the value does, if this is so for the literals that concrete leaves list. -/
theorem concrete_lists_denoted {denotes : V → Set Literal}
    (hleaf : ∀ x : V, ValueDomain.isConcrete x = true → ∀ l ∈ denotes x,
      ∃ k ∈ ValueDomain.literals x, l.agrees k = true)
    (v : Value V) :
    (isConcrete v = true → ∀ l ∈ v.denote denotes, ∃ k ∈ literals v, l.agrees k = true) ∧
      ∀ b, truth v = some b → ∀ l ∈ v.denote denotes, l.truth = some b := by
  have hlisted : isConcrete v = true → ∀ l ∈ v.denote denotes,
      ∃ k ∈ literals v, l.agrees k = true := by
    intro hv l hl
    have hlists : lists (literals v) l = true := by
      refine lists_of_mem_denote (fun x hx l hl => ?_) hv hl
      obtain ⟨k, hk, hlk⟩ := hleaf x hx l hl
      exact lists_iff.2 ⟨k, hk, Literal.agrees_symm hlk⟩
    obtain ⟨k, hk, hkl⟩ := lists_iff.1 hlists
    exact ⟨k, hk, Literal.agrees_symm hkl⟩
  refine ⟨hlisted, fun b hb l hl => ?_⟩
  obtain ⟨hconcrete, halike⟩ := truth_eq_some hb
  obtain ⟨k, hk, hlk⟩ := hlisted hconcrete l hl
  rw [Literal.truth_eq_of_agrees hlk]
  exact halike k hk

end Value

/-- The literals that a leaf of a value stands for. -/
def ValueLeaf.constants : ValueLeaf → Set Literal
  | .flat .bottom _ => ∅
  | .flat (.exactly n) _ => {l | l.agrees (.int n) = true}
  | .flat .top _ => Set.univ
  | .literals s _ => {l | s.concrete = true → s.holds l = true}
  | .symbol _ => Set.univ

/-- A concrete leaf lists the literals that it stands for. -/
theorem ValueLeaf.exists_listed (x : ValueLeaf) (hx : x.isConcrete = true) :
    ∀ l ∈ x.constants, ∃ k ∈ x.listed, l.agrees k = true := by
  intro l hl
  cases x with
  | flat value base =>
      cases value with
      | exactly n => exact ⟨.int n, List.mem_singleton_self _, hl⟩
      | _ => cases hx
  | literals s base => exact List.any_eq_true.1 (hl hx)
  | symbol name => cases hx

namespace Value

/-- One or two, which is also two without a sign or some text. -/
def certainlyTwo : Value ValueLeaf :=
  .combined .intersect [.combined .union [constant 1, constant 2],
    .plain (.literals ⟨[.uint 2, .str "two"], true⟩ none), unknown]

/-- The value denotes the unsigned two, lists it as a signed one, and is true as it is. -/
theorem certainlyTwo_lists_two :
    (isConcrete certainlyTwo = true ∧ truth certainlyTwo = some true ∧
      .uint 2 ∈ certainlyTwo.denote ValueLeaf.constants) ∧
    (∃ k ∈ literals certainlyTwo, Literal.agrees (.uint 2) k = true) ∧
      Literal.truth (.uint 2) = some true := by
  have htwo : .uint 2 ∈ certainlyTwo.denote ValueLeaf.constants := by
    refine (AbstractObject.mem_denote_intersect _).2 ?_
    refine List.forall_mem_cons.2 ⟨?_, List.forall_mem_cons.2 ⟨fun _ => by decide,
      List.forall_mem_singleton.2 trivial⟩⟩
    exact (AbstractObject.mem_denote_union _).2 ⟨constant 2, by simp, rfl⟩
  obtain ⟨hlisted, htruth⟩ := concrete_lists_denoted ValueLeaf.exists_listed certainlyTwo
  exact ⟨⟨rfl, rfl, htwo⟩, hlisted rfl _ htwo, htruth true rfl _ htwo⟩

variable {V : Type}

/-- The alternatives of a value: the value itself and, if it is a union, the alternatives of its
children. -/
inductive Alternative : Value V → Value V → Prop where
  | self (v : Value V) : Alternative v v
  | child {children : List (Value V)} {o v : Value V} (ho : o ∈ children)
      (h : Alternative o v) : Alternative (.combined .union children) v

variable [ValueDomain V]

/-- A leaf lists literals only if it is concrete. -/
def Reserved (x : V) : Prop := ValueDomain.isConcrete x = false → ValueDomain.literals x = []

/-- A value whose leaves are reserved lists what its concrete alternatives list. -/
theorem lists_iff_alternative {v : Value V} {l : Literal} (hv : v.Consists Reserved) :
    lists (literals v) l = true ↔
      ∃ o, Alternative v o ∧ isConcrete o = true ∧ lists (literals o) l = true := by
  constructor
  · intro hl
    induction hv with
    | full => cases hl
    | empty => cases hl
    | @plain x hx =>
        refine ⟨.plain x, .self _, Bool.eq_true_of_not_eq_false fun hunknown => ?_, hl⟩
        have hlisted : lists (distinct (ValueDomain.literals x)) l = true := hl
        rw [hx hunknown] at hlisted
        cases hlisted
    | @combined mode children _ ih =>
        cases mode with
        | union =>
            obtain ⟨o, ho, hol⟩ := lists_union.1 hl
            obtain ⟨w, halternative, hw⟩ := ih o ho hol
            exact ⟨w, .child ho halternative, hw⟩
        | intersect =>
            -- An intersection that lists anything has a concrete child, and so it is concrete.
            have hconcrete := isConcrete_intersect.2 (lists_intersect.1 hl).1
            exact ⟨_, .self _, hconcrete, hl⟩
  · rintro ⟨o, halternative, -, hl⟩
    clear hv
    induction halternative with
    | self v => exact hl
    | child ho _ ih => exact lists_union.2 ⟨_, ho, ih hl⟩

/-- A value that is not concrete and whose leaves are reserved lists exactly what its concrete
alternatives list. So it lists nothing if these list nothing, and always if it is no union. -/
theorem unknown_lists_alternatives {v : Value V} (hv : v.Consists Reserved)
    (hunknown : isConcrete v = false) :
    (∀ l, lists (literals v) l = true ↔
      ∃ o, Alternative v o ∧ isConcrete o = true ∧ lists (literals o) l = true) ∧
    (literals v = [] ↔ ∀ o, Alternative v o → isConcrete o = true → literals o = []) ∧
    ((∀ children, v ≠ .combined .union children) → literals v = []) := by
  have hnothing : literals v = [] ↔
      ∀ o, Alternative v o → isConcrete o = true → literals o = [] := by
    simp only [eq_nil_iff, lists_iff_alternative hv]
    constructor
    · intro h o halternative hconcrete l hl
      exact h l ⟨o, halternative, hconcrete, hl⟩
    · rintro h l ⟨o, halternative, hconcrete, hl⟩
      exact h o halternative hconcrete l hl
  refine ⟨fun l => lists_iff_alternative hv, hnothing, fun hplain => hnothing.2 ?_⟩
  intro o halternative hconcrete
  cases halternative with
  | self => exact absurd hconcrete (by simp [hunknown])
  | child ho _ => exact absurd rfl (hplain _)

/-- Five or any value. -/
def perhapsFive : Value ValueLeaf :=
  .combined .union [.combined .intersect [constant 5, unknown], unknown]

/-- The value that may be anything lists five all the same, by its first alternative. -/
theorem perhapsFive_lists_five :
    isConcrete perhapsFive = false ∧ literals perhapsFive = [.int 5] ∧
      ∃ o, Alternative perhapsFive o ∧ isConcrete o = true ∧
        lists (literals o) (.int 5) = true := by
  have hflat : ∀ (value : Flat Int64) (base : Option TermId),
      Reserved (ValueLeaf.flat value base) := by
    intro value base hunknown
    cases value with
    | exactly n => cases hunknown
    | _ => rfl
  have hreserved : perhapsFive.Consists Reserved := by
    simp [perhapsFive, constant, unknown, hflat]
  exact ⟨rfl, rfl, ((unknown_lists_alternatives hreserved rfl).1 (.int 5)).1 rfl⟩

end Value

end JointAnalysis
