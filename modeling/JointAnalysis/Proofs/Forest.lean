import JointAnalysis.Program.Forest
import Mathlib.Data.List.Nodup
import Mathlib.Data.List.Perm.Subperm
import Mathlib.Logic.Relation

/-!
# Programs stay forests

A client adds terms to a program and attaches them to each other. Whatever it does, in whatever
order, and whatever is refused on the way, the program is a forest: `Program.forest_ofEdits`. The
step that needs an argument is an attachment, where the refusal of circles rests on the walk from
the new parent up to the top. Read `lineage_climbs` first: in a forest the terms on such a walk are
all different, so that it reaches the top before it has made more steps than there are terms.
-/

namespace JointAnalysis

/-- Something that a client does to a program. -/
inductive Edit where
  | term (kind : TermKind) (label : String)
  | literal (value : Literal)
  | attach (parent child : TermId)

namespace Program

variable {p : Program} {parent child s t above : TermId}

/-- The program has a term with this identifier. -/
def Has (p : Program) (t : TermId) : Prop := t.index < p.terms.length

instance : Decidable (p.Has t) := inferInstanceAs (Decidable (_ < _))

/-- The program with `child` as one more operand of `parent`, whether or not this makes sense. -/
def link (p : Program) (parent child : TermId) : Program :=
  { p with attachments := p.attachments ++ [⟨parent, child, (p.operandList parent).length⟩] }

/-- The program after an edit, whether or not it was refused. -/
def edit (p : Program) : Edit → Program
  | .term kind label => (p.addTerm kind label).2
  | .literal value => (p.addLiteral value).2
  | .attach parent child => (p.attach parent child).2

/-- What edits, one after the other, make of the program without terms. -/
def ofEdits (edits : List Edit) : Program := edits.foldl edit empty

/-- The term `t` is attached under `s`. -/
def Attaches (p : Program) (s t : TermId) : Prop := ∃ position, ⟨s, t, position⟩ ∈ p.attachments

/-- The term `s` is the parent of `t`, or the parent of its parent, and so on. -/
def Ancestor (p : Program) : TermId → TermId → Prop := Relation.TransGen p.Attaches

/-- The term `s` is `t` itself or one of its ancestors. -/
def AtOrAbove (p : Program) : TermId → TermId → Prop := Relation.ReflTransGen p.Attaches

/-- The attachments under a term, in the order in which they were made. -/
def attachedTo (p : Program) (t : TermId) : List Attachment := p.attachments.filter (·.parent = t)

/-- The attachments of a program make a forest, and those under one term are numbered. -/
structure Forest (p : Program) : Prop where
  /-- Terms of the program are attached under terms of the program. -/
  known : ∀ a ∈ p.attachments, p.Has a.parent ∧ p.Has a.child
  /-- No term is attached twice. -/
  single : (p.attachments.map (·.child)).Nodup
  /-- No term is its own ancestor. -/
  acyclic : ∀ t, ¬ p.Ancestor t t
  /-- The positions under a term count up from zero. -/
  numbered : ∀ t, (p.attachedTo t).map (·.position) = List.range (p.attachedTo t).length

section Requests

/-- A term that exists is found. -/
theorem term_of_has (h : p.Has t) : ∃ found, p.term t = .ok found := by
  refine ⟨p.terms.get ⟨t.index, h⟩, ?_⟩
  unfold term term?
  rw [List.getElem?_eq_getElem h]
  rfl

/-- A term that does not exist is reported. -/
theorem term_of_not_has (h : ¬ p.Has t) : p.term t = .error (.unknownTerm t) := by
  unfold term term?
  rw [List.getElem?_eq_none (Nat.le_of_not_lt h)]

/-- The parent of a term that exists. -/
theorem parent_of_has (h : p.Has t) : p.parent t = .ok (p.parent? t) := by
  obtain ⟨found, hfound⟩ := term_of_has h
  unfold Program.parent
  rw [hfound]
  rfl

/-- A term that does not exist is reported when its parent is asked for. -/
theorem parent_of_not_has (h : ¬ p.Has t) : p.parent t = .error (.unknownTerm t) := by
  unfold Program.parent
  rw [term_of_not_has h]
  rfl

/-- Only of a term that exists the parent is told. -/
theorem parent_eq_ok {answer : Option TermId} (h : p.parent t = .ok answer) :
    p.Has t ∧ p.parent? t = answer := by
  by_cases ht : p.Has t
  · rw [parent_of_has ht] at h
    exact ⟨ht, Except.ok.inj h⟩
  · rw [parent_of_not_has ht] at h
    cases h

/-- What comes of asking for an attachment, one condition after the other. -/
theorem attach_eq (p : Program) (parent child : TermId) :
    p.attach parent child =
      if p.Has child then
        match p.parent? child with
        | some above => (.error (.alreadyParented child above), p)
        | none =>
          if p.Has parent then
            if child ∈ p.lineage parent then (.error (.cyclicTerm child parent), p)
            else (.ok (), p.link parent child)
          else (.error (.unknownTerm parent), p)
      else (.error (.unknownTerm child), p) := by
  unfold attach
  by_cases hchild : p.Has child
  · rw [parent_of_has hchild, if_pos hchild]
    cases p.parent? child with
    | some above => rfl
    | none =>
        by_cases hparent : p.Has parent
        · obtain ⟨found, hfound⟩ := term_of_has hparent
          rw [hfound, if_pos hparent]
          rfl
        · rw [term_of_not_has hparent, if_neg hparent]
  · rw [parent_of_not_has hchild, if_neg hchild]

end Requests

/-- What is attached after one more attachment was made. -/
theorem attaches_link :
    (p.link parent child).Attaches s t ↔ p.Attaches s t ∨ s = parent ∧ t = child := by
  simp only [Attaches, link, List.mem_append, List.mem_singleton, Attachment.mk.injEq, exists_or,
    exists_and_left, exists_eq, and_true]

/-- A path that uses one more attachment leads to its parent first and goes on from its child. -/
theorem ancestor_link (h : (p.link parent child).Ancestor s t) :
    p.Ancestor s t ∨ p.AtOrAbove s parent ∧ p.AtOrAbove child t := by
  induction h with
  | single hstep =>
      rcases attaches_link.1 hstep with hold | ⟨hparent, hchild⟩
      · exact .inl (.single hold)
      · subst hparent hchild
        exact .inr ⟨.refl, .refl⟩
  | tail _ hstep ih =>
      rcases attaches_link.1 hstep with hold | ⟨hparent, hchild⟩
      · rcases ih with hpath | ⟨hbefore, hafter⟩
        · exact .inl (hpath.tail hold)
        · exact .inr ⟨hbefore, hafter.tail hold⟩
      · subst hparent hchild
        rcases ih with hpath | ⟨hbefore, _⟩
        · exact .inr ⟨hpath.to_reflTransGen, .refl⟩
        · exact .inr ⟨hbefore, .refl⟩

/-- The number of operands is the number of attachments. -/
theorem length_operandList (p : Program) (t : TermId) :
    (p.operandList t).length = (p.attachedTo t).length := by
  unfold operandList
  rw [List.length_map, List.length_mergeSort]
  rfl

/-- What is attached to a term after one more attachment was made. -/
theorem attachedTo_link :
    (p.link parent child).attachedTo t =
      p.attachedTo t ++ if parent = t then [⟨parent, child, (p.attachedTo t).length⟩] else [] := by
  unfold attachedTo link
  rw [List.filter_append, length_operandList]
  by_cases h : parent = t
  · subst h
    simp [attachedTo]
  · simp [h]

/-- The program without terms is a forest. -/
theorem forest_empty : empty.Forest where
  known a ha := by cases ha
  single := List.nodup_nil
  acyclic t h := by
    obtain ⟨s, ⟨position, hmem⟩, _⟩ := Relation.TransGen.head'_iff.1 h
    cases hmem
  numbered t := rfl

namespace Forest

/-- Another term leaves a forest. -/
theorem addTerm (h : p.Forest) (kind : TermKind) (label : String) :
    (p.addTerm kind label).2.Forest where
  known a ha := by
    obtain ⟨hparent, hchild⟩ := h.known a ha
    simp only [Has, Program.addTerm, List.length_append, List.length_singleton] at hparent hchild ⊢
    omega
  single := h.single
  acyclic := h.acyclic
  numbered := h.numbered

/-- Attaching a term that has no parent leaves a forest, unless the term is the new parent or one of
its ancestors. -/
theorem link (h : p.Forest) (hparent : p.Has parent) (hchild : p.Has child)
    (hfree : ∀ above, ¬ p.Attaches above child) (hcircle : ¬ p.AtOrAbove child parent) :
    (p.link parent child).Forest where
  known a ha := by
    rcases List.mem_append.1 ha with hold | hnew
    · exact h.known a hold
    · rw [List.mem_singleton.1 hnew]
      exact ⟨hparent, hchild⟩
  single := by
    show ((p.attachments ++ [_]).map _).Nodup
    rw [List.map_append, List.nodup_append]
    refine ⟨h.single, List.nodup_singleton _, ?_⟩
    intro t ht t' ht' heq
    obtain ⟨a, ha, hat⟩ := List.mem_map.1 ht
    obtain rfl : t' = child := List.mem_singleton.1 ht'
    exact hfree a.parent ⟨a.position, by rw [← heq, ← hat]; exact ha⟩
  acyclic t hcycle := by
    rcases ancestor_link hcycle with hold | ⟨hbefore, hafter⟩
    · exact h.acyclic t hold
    · exact hcircle (hafter.trans hbefore)
  numbered t := by
    rw [attachedTo_link]
    split
    · rw [List.map_append, List.length_append, h.numbered t]
      exact List.range_succ.symm
    · rw [List.append_nil]
      exact h.numbered t

/-- Attachments that make a forest are allowed. -/
theorem of_link (h : (p.link parent child).Forest) :
    p.Has parent ∧ p.Has child ∧ (∀ above, ¬ p.Attaches above child) ∧
      ¬ p.AtOrAbove child parent := by
  have hnew : (p.link parent child).Attaches parent child := attaches_link.2 (.inr ⟨rfl, rfl⟩)
  obtain ⟨position, hmem⟩ := hnew
  obtain ⟨hparent, hchild⟩ := h.known _ hmem
  refine ⟨hparent, hchild, ?_, ?_⟩
  · rintro above ⟨position', hmem'⟩
    have hnodup : (p.attachments.map (·.child) ++ [child]).Nodup := by
      simpa only [Program.link, List.map_append, List.map_cons, List.map_nil] using h.single
    have hlisted : child ∈ p.attachments.map (·.child) := List.mem_map.2 ⟨_, hmem', rfl⟩
    exact (List.nodup_append.1 hnodup).2.2 child hlisted child (List.mem_singleton_self _) rfl
  · intro hcircle
    have hpath : (p.link parent child).AtOrAbove child parent :=
      Relation.ReflTransGen.mono (fun _ _ hstep => attaches_link.2 (.inl hstep)) _ _ hcircle
    exact h.acyclic child (Relation.TransGen.tail' hpath ⟨position, hmem⟩)

end Forest

/-- Where no term is attached twice, the parent that is found is the one under which the term is
attached. -/
theorem parent?_of_single (hsingle : (p.attachments.map (·.child)).Nodup) :
    p.parent? t = some s ↔ p.Attaches s t := by
  unfold parent?
  rw [Option.map_eq_some_iff]
  constructor
  · intro hfound
    obtain ⟨a, ha, hparent⟩ := hfound
    have hchild : a.child = t := by simpa using List.find?_some ha
    subst hparent hchild
    exact ⟨a.position, List.mem_of_find?_eq_some ha⟩
  · intro hattached
    obtain ⟨position, hmem⟩ := hattached
    cases hfind : p.attachments.find? (·.child = t) with
    | none =>
        have hnone := List.find?_eq_none.1 hfind _ hmem
        simp at hnone
    | some a =>
        -- the attachment that is found first is the only one of the term
        have hchild : a.child = t := by simpa using List.find?_some hfind
        have hsame : a = ⟨s, t, position⟩ :=
          List.inj_on_of_nodup_map hsingle (List.mem_of_find?_eq_some hfind) hmem hchild
        exact ⟨a, rfl, by rw [hsame]⟩

namespace Forest

section Walking

variable (h : p.Forest)

include h

/-- The parent that is found is the one under which the term is attached. -/
theorem parent?_eq_some : p.parent? t = some s ↔ p.Attaches s t := parent?_of_single h.single

/-- A term has no parent if it is not attached. -/
theorem parent?_eq_none : p.parent? t = none ↔ ∀ s, ¬ p.Attaches s t := by
  constructor
  · intro hnone s hattached
    rw [h.parent?_eq_some.2 hattached] at hnone
    cases hnone
  · intro hfree
    cases hparent : p.parent? t with
    | none => rfl
    | some s => exact absurd (h.parent?_eq_some.1 hparent) (hfree s)

/-- Parents exist, and so do the terms that have them. -/
theorem has_of_parent (hp : p.parent? t = some above) : p.Has above ∧ p.Has t := by
  obtain ⟨position, hmem⟩ := h.parent?_eq_some.1 hp
  exact h.known _ hmem

/-- At or above a term without parent there is the term itself. -/
theorem atOrAbove_top (hp : p.parent? t = none) : p.AtOrAbove s t ↔ s = t := by
  constructor
  · intro hpath
    rcases Relation.ReflTransGen.cases_tail hpath with heq | ⟨b, _, hlast⟩
    · exact heq.symm
    · exact absurd hlast (h.parent?_eq_none.1 hp b)
  · intro heq
    subst heq
    exact .refl

/-- At or above a term with a parent there is the term itself and what is at or above the parent. -/
theorem atOrAbove_up (hp : p.parent? t = some above) :
    p.AtOrAbove s t ↔ s = t ∨ p.AtOrAbove s above := by
  have hattached : p.Attaches above t := h.parent?_eq_some.1 hp
  constructor
  · intro hpath
    rcases Relation.ReflTransGen.cases_tail hpath with heq | ⟨b, hbefore, hlast⟩
    · exact .inl heq.symm
    · have hb : b = above := Option.some.inj ((h.parent?_eq_some.2 hlast).symm.trans hp)
      exact .inr (hb ▸ hbefore)
  · intro hcases
    rcases hcases with heq | hpath
    · subst heq
      exact .refl
    · exact hpath.tail hattached

/-- A walk upwards passes through terms at or above the first one. -/
theorem atOrAbove_of_mem_ascend {steps : Nat} (hs : s ∈ p.ascend steps t) : p.AtOrAbove s t := by
  induction steps generalizing t with
  | zero =>
      rw [ascend, List.mem_singleton] at hs
      subst hs
      exact .refl
  | succ steps ih =>
      unfold ascend at hs
      split at hs
      · rw [List.mem_singleton] at hs
        subst hs
        exact .refl
      · next above hp =>
          rcases List.mem_cons.1 hs with heq | hlater
          · subst heq
            exact .refl
          · exact (h.atOrAbove_up hp).2 (.inr (ih hlater))

/-- A term does not stand at or above its own parent. -/
theorem not_atOrAbove_parent (hp : p.parent? t = some above) : ¬ p.AtOrAbove t above :=
  fun hpath => h.acyclic t (Relation.TransGen.tail' hpath (h.parent?_eq_some.1 hp))

/-- A walk upwards passes through no term twice. -/
theorem nodup_ascend (steps : Nat) (t : TermId) : (p.ascend steps t).Nodup := by
  induction steps generalizing t with
  | zero => exact List.nodup_singleton t
  | succ steps ih =>
      unfold ascend
      split
      · exact List.nodup_singleton t
      · next above hp =>
          refine List.nodup_cons.2 ⟨?_, ih above⟩
          intro hagain
          exact h.not_atOrAbove_parent hp (h.atOrAbove_of_mem_ascend hagain)

end Walking

end Forest

/-- Going from a term to its parent, and on as long as there is one, passes through these terms. -/
inductive Climbs (p : Program) : TermId → List TermId → Prop
  | top {t : TermId} (hp : p.parent? t = none) : Climbs p t [t]
  | up {t above : TermId} {passed : List TermId} (hp : p.parent? t = some above)
    (rest : Climbs p above passed) : Climbs p t (t :: passed)

/-- A walk with a limited number of steps reaches the top, or it uses them up and everything on it
has a parent. -/
theorem climbs_ascend (p : Program) (steps : Nat) (t : TermId) :
    p.Climbs t (p.ascend steps t) ∨
      (p.ascend steps t).length = steps + 1 ∧ ∀ s ∈ p.ascend steps t, p.parent? s ≠ none := by
  induction steps generalizing t with
  | zero =>
      cases hp : p.parent? t with
      | none => exact .inl (.top hp)
      | some above => exact .inr ⟨rfl, by simp [ascend, hp]⟩
  | succ steps ih =>
      unfold ascend
      cases hp : p.parent? t with
      | none => exact .inl (.top hp)
      | some above =>
          rcases ih above with hclimbs | ⟨hlength, hall⟩
          · exact .inl (.up hp hclimbs)
          · refine .inr ⟨congrArg (· + 1) hlength, ?_⟩
            intro s hs
            rcases List.mem_cons.1 hs with heq | hlater
            · subst heq
              simp [hp]
            · exact hall s hlater

namespace Forest

variable (h : p.Forest)

include h

omit h in
/-- Different terms that exist are no more than there are terms. -/
theorem length_le_terms {l : List TermId} (hnodup : l.Nodup) (hl : ∀ s ∈ l, p.Has s) :
    l.length ≤ p.terms.length := by
  have hsubset : l ⊆ (List.range p.terms.length).map TermId.mk := by
    intro s hs
    exact List.mem_map.2 ⟨s.index, List.mem_range.2 (hl s hs), rfl⟩
  simpa using (List.Nodup.subperm hnodup hsubset).length_le

/-- The walk from a term reaches the top in as many steps as there are terms. -/
theorem lineage_climbs (t : TermId) : p.Climbs t (p.lineage t) := by
  refine (p.climbs_ascend p.terms.length t).resolve_right ?_
  intro hcut
  obtain ⟨hlength, hall⟩ := hcut
  -- everything on a walk that was cut off has a parent and so exists, which is one term too many
  have hexist : ∀ s ∈ p.ascend p.terms.length t, p.Has s := by
    intro s hs
    obtain ⟨above, hp⟩ := Option.ne_none_iff_exists'.1 (hall s hs)
    exact (h.has_of_parent hp).2
  have hle := length_le_terms (h.nodup_ascend p.terms.length t) hexist
  omega

/-- A walk to the top passes through a term and all its ancestors. -/
theorem mem_of_climbs {passed : List TermId} (hclimbs : p.Climbs t passed) :
    s ∈ passed ↔ p.AtOrAbove s t := by
  induction hclimbs with
  | top hp => rw [List.mem_singleton, h.atOrAbove_top hp]
  | up hp _ ih => rw [List.mem_cons, h.atOrAbove_up hp, ih]

/-- The lineage of a term is the term with all its ancestors. -/
theorem mem_lineage : s ∈ p.lineage t ↔ p.AtOrAbove s t := h.mem_of_climbs (h.lineage_climbs t)

/-- An attachment leaves a forest, whether it is made or refused. -/
theorem attach (parent child : TermId) : (p.attach parent child).2.Forest := by
  rw [attach_eq]
  split
  · next hchild =>
      split
      · exact h
      · next hfree =>
          split
          · next hparent =>
              split
              · exact h
              · next hcircle =>
                  exact h.link hparent hchild (h.parent?_eq_none.1 hfree)
                    (fun hpath => hcircle (h.mem_lineage.2 hpath))
          · exact h
  · exact h

/-- An edit leaves a forest. -/
theorem edit (e : Edit) : (p.edit e).Forest := by
  cases e with
  | term kind label => exact h.addTerm kind label
  | literal value => exact h.addTerm _ _
  | attach parent child => exact h.attach parent child

/-- Edits leave a forest. -/
theorem edits (edits : List Edit) : (edits.foldl Program.edit p).Forest := by
  induction edits generalizing p with
  | nil => exact h
  | cons e rest ih => exact ih (h.edit e)

/-- A term is the child of one attachment at most. -/
theorem length_incoming_le_one (t : TermId) :
    (p.attachments.filter (·.child = t)).length ≤ 1 := by
  have hcount : (p.attachments.map (·.child)).count t ≤ 1 :=
    List.nodup_iff_count_le_one.1 h.single t
  rw [List.count_eq_length_filter, List.filter_map, List.length_map] at hcount
  simpa [Function.comp_def, beq_eq_decide] using hcount

end Forest

/-- Whatever edits make is a forest. -/
theorem forest_ofEdits (edits : List Edit) : (ofEdits edits).Forest := forest_empty.edits edits

end Program

end JointAnalysis
