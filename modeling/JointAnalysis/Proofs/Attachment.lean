import JointAnalysis.Proofs.Forest

/-!
# Which attachments are made

Before a term is attached, it is searched for on the way up from its new parent. `Search` is this
loop: it follows parents as long as there are any and does not count its steps. In a forest it ends
and visits no term twice, and its outcome is what the limited walk of `Program.attach` comes to:
`Program.stays_forest`. `Program.attach_decides` says which attachments are made, namely those after
which the program is still a forest, and which error is reported for the others.
-/

namespace JointAnalysis

namespace Program

variable {p : Program} {parent child s t above : TermId}

/-- The search for `child` on the way up from a term, made when `child` is to be attached under
`parent`: the terms that it visits in turn, and how it ends. It goes on to the parent of the term
that it visits, if this is not `child`, exists and has a parent. There is no other limit. -/
inductive Search (p : Program) (parent child : TermId) :
    TermId → List TermId → Except StructureError Unit → Prop
  | found : Search p parent child child [child] (.error (.cyclicTerm child parent))
  | lost {t : TermId} {e : StructureError} (hne : t ≠ child) (hp : p.parent t = .error e) :
    Search p parent child t [t] (.error e)
  | top {t : TermId} (hne : t ≠ child) (hp : p.parent t = .ok none) :
    Search p parent child t [t] (.ok ())
  | up {t above : TermId} {visited : List TermId} {outcome : Except StructureError Unit}
    (hne : t ≠ child) (hp : p.parent t = .ok (some above))
    (rest : Search p parent child above visited outcome) :
    Search p parent child t (t :: visited) outcome

namespace Forest

variable (h : p.Forest) {visited : List TermId} {outcome : Except StructureError Unit}

include h

omit h in
/-- Where a walk reaches the top, the search ends. -/
theorem search_of_climbs {passed : List TermId} (hclimbs : p.Climbs t passed) :
    ∃ visited outcome, p.Search parent child t visited outcome := by
  induction hclimbs with
  | @top t hp =>
      by_cases hne : t = child
      · subst hne
        exact ⟨_, _, .found⟩
      · by_cases ht : p.Has t
        · exact ⟨_, _, .top hne (by rw [parent_of_has ht, hp])⟩
        · exact ⟨_, _, .lost hne (parent_of_not_has ht)⟩
  | @up t above passed hp _ ih =>
      by_cases hne : t = child
      · subst hne
        exact ⟨_, _, .found⟩
      · by_cases ht : p.Has t
        · obtain ⟨visited, outcome, hsearch⟩ := ih
          exact ⟨_, _, .up hne (by rw [parent_of_has ht, hp]) hsearch⟩
        · exact ⟨_, _, .lost hne (parent_of_not_has ht)⟩

/-- The search visits terms at or above the first one. -/
theorem atOrAbove_of_visited (hsearch : p.Search parent child t visited outcome)
    (hs : s ∈ visited) : p.AtOrAbove s t := by
  induction hsearch with
  | found =>
      rw [List.mem_singleton.1 hs]
      exact .refl
  | lost | top =>
      rw [List.mem_singleton.1 hs]
      exact .refl
  | up _ hp _ ih =>
      rcases List.mem_cons.1 hs with heq | hlater
      · rw [heq]
        exact .refl
      · exact (h.atOrAbove_up (parent_eq_ok hp).2).2 (.inr (ih hlater))

/-- The search visits no term twice. -/
theorem nodup_visited (hsearch : p.Search parent child t visited outcome) : visited.Nodup := by
  induction hsearch with
  | found => exact List.nodup_singleton _
  | lost | top => exact List.nodup_singleton _
  | up _ hp hrest ih =>
      refine List.nodup_cons.2 ⟨?_, ih⟩
      intro hagain
      exact h.not_atOrAbove_parent (parent_eq_ok hp).2 (h.atOrAbove_of_visited hrest hagain)

/-- How the search that starts at a term ends: it finds what it looks for if this is at or above the
term. Otherwise it reaches the top, unless the first term is missing already. -/
theorem search_cases (hsearch : p.Search parent child t visited outcome) :
    p.AtOrAbove child t ∧ outcome = .error (.cyclicTerm child parent) ∨
      ¬ p.AtOrAbove child t ∧
        (p.Has t ∧ outcome = .ok () ∨ ¬ p.Has t ∧ outcome = .error (.unknownTerm t)) := by
  induction hsearch with
  | found => exact .inl ⟨.refl, rfl⟩
  | @lost t e hne hp =>
      have ht : ¬ p.Has t := by
        intro ht
        rw [parent_of_has ht] at hp
        cases hp
      have htop : p.parent? t = none := by
        cases hparent : p.parent? t with
        | none => rfl
        | some above => exact absurd (h.has_of_parent hparent).2 ht
      rw [parent_of_not_has ht] at hp
      cases hp
      refine .inr ⟨?_, .inr ⟨ht, rfl⟩⟩
      rw [h.atOrAbove_top htop]
      exact Ne.symm hne
  | @top t hne hp =>
      obtain ⟨ht, htop⟩ := parent_eq_ok hp
      refine .inr ⟨?_, .inl ⟨ht, rfl⟩⟩
      rw [h.atOrAbove_top htop]
      exact Ne.symm hne
  | @up t above visited outcome hne hp _ ih =>
      obtain ⟨ht, hparent⟩ := parent_eq_ok hp
      have hup : p.AtOrAbove child t ↔ p.AtOrAbove child above := by
        rw [h.atOrAbove_up hparent]
        exact or_iff_right (Ne.symm hne)
      rw [hup]
      rcases ih with hfound | ⟨hnot, ⟨_, hok⟩ | ⟨hmissing, _⟩⟩
      · exact .inl hfound
      · exact .inr ⟨hnot, .inl ⟨ht, hok⟩⟩
      · exact absurd (h.has_of_parent hparent).1 hmissing

/-- Below a term that exists there are only terms that exist. -/
theorem has_of_atOrAbove (hs : p.Has s) (hpath : p.AtOrAbove s t) : p.Has t := by
  rcases Relation.ReflTransGen.cases_tail hpath with heq | ⟨b, _, position, hmem⟩
  · rw [heq]
    exact hs
  · exact (h.known _ hmem).2

/-- Where the child has no parent, the search decides about the attachment. -/
theorem attach_of_search (hsearch : p.Search parent child parent visited outcome)
    (hfree : p.parent child = .ok none) :
    p.attach parent child = (outcome, if outcome.isOk then p.link parent child else p) := by
  obtain ⟨hchild, hnone⟩ := parent_eq_ok hfree
  rw [attach_eq, if_pos hchild, hnone]
  show (if p.Has parent then _ else _) = _
  rcases h.search_cases hsearch with ⟨hcircle, hfound⟩ | ⟨hnot, ⟨hparent, hok⟩ | ⟨hparent, hlost⟩⟩
  · rw [hfound, if_pos (h.has_of_atOrAbove hchild hcircle), if_pos (h.mem_lineage.2 hcircle)]
    rfl
  · rw [hok, if_pos hparent, if_neg (fun hmem => hnot (h.mem_lineage.1 hmem))]
    rfl
  · rw [hlost, if_neg hparent]
    rfl

end Forest

/-- Whatever a client does to a program, no term is attached twice, none is its own ancestor, and
the attachments under a term have the positions from zero on, each once. The search for circles
therefore ends, whatever is to be attached to what; it visits no term twice, and it decides about
the attachment of a term that has no parent. -/
theorem stays_forest (edits : List Edit) :
    let p := ofEdits edits
    (∀ t, (p.attachments.filter (·.child = t)).length ≤ 1) ∧
    (∀ t, ¬ p.Ancestor t t) ∧
    (∀ t, (p.attachedTo t).map (·.position) = List.range (p.attachedTo t).length) ∧
    ∀ parent child,
      (∃ visited outcome, p.Search parent child parent visited outcome) ∧
      ∀ visited outcome, p.Search parent child parent visited outcome →
        visited.Nodup ∧
        (p.parent child = .ok none →
          p.attach parent child =
            (outcome, if outcome.isOk then p.link parent child else p)) := by
  intro p
  have h : p.Forest := forest_ofEdits edits
  refine ⟨h.length_incoming_le_one, h.acyclic, h.numbered, ?_⟩
  intro parent child
  refine ⟨Forest.search_of_climbs (h.lineage_climbs parent), ?_⟩
  intro visited outcome hsearch
  exact ⟨h.nodup_visited hsearch, h.attach_of_search hsearch⟩

/-- A statement with an expression that has a literal, and another literal. -/
def nested : List Edit :=
  [.term .statement "s", .term .expression "e", .literal (.int 1), .literal (.int 2),
    .attach ⟨0⟩ ⟨1⟩, .attach ⟨1⟩ ⟨2⟩]

/-- From the literal the search goes up to the statement, which therefore cannot be attached
there. -/
theorem nested_searched :
    let p := ofEdits nested
    p.Search ⟨2⟩ ⟨0⟩ ⟨2⟩ [⟨2⟩, ⟨1⟩, ⟨0⟩] (.error (.cyclicTerm ⟨0⟩ ⟨2⟩)) ∧
      p.parent ⟨0⟩ = .ok none ∧ p.attach ⟨2⟩ ⟨0⟩ = (.error (.cyclicTerm ⟨0⟩ ⟨2⟩), p) := by
  intro p
  have hsearch : p.Search ⟨2⟩ ⟨0⟩ ⟨2⟩ [⟨2⟩, ⟨1⟩, ⟨0⟩] (.error (.cyclicTerm ⟨0⟩ ⟨2⟩)) :=
    .up (by decide) rfl (.up (by decide) rfl .found)
  have hfree : p.parent ⟨0⟩ = .ok none := rfl
  obtain ⟨-, -, -, hdecides⟩ := stays_forest nested
  exact ⟨hsearch, hfree, ((hdecides ⟨2⟩ ⟨0⟩).2 _ _ hsearch).2 hfree⟩

/-- An attachment that can be made: both terms exist, the child has no parent, and it is neither the
new parent nor one of the ancestors of the new parent. -/
structure Accepts (p : Program) (parent child : TermId) : Prop where
  hasParent : p.Has parent
  hasChild : p.Has child
  free : ∀ above, ¬ p.Attaches above child
  distinct : child ≠ parent
  outside : ¬ p.Ancestor child parent

/-- Why an attachment cannot be made. Of several reasons the first one is given. -/
inductive Refuses (p : Program) (parent child : TermId) : StructureError → Prop
  | noChild (hchild : ¬ p.Has child) : Refuses p parent child (.unknownTerm child)
  | parented {above : TermId} (hchild : p.Has child) (habove : p.Attaches above child) :
    Refuses p parent child (.alreadyParented child above)
  | noParent (hchild : p.Has child) (hfree : ∀ above, ¬ p.Attaches above child)
    (hparent : ¬ p.Has parent) : Refuses p parent child (.unknownTerm parent)
  | circle (hchild : p.Has child) (hfree : ∀ above, ¬ p.Attaches above child)
    (hparent : p.Has parent) (hcircle : child = parent ∨ p.Ancestor child parent) :
    Refuses p parent child (.cyclicTerm child parent)

/-- A term is at or above another one if it is that term or one of its ancestors. -/
theorem atOrAbove_iff : p.AtOrAbove s t ↔ s = t ∨ p.Ancestor s t := by
  unfold AtOrAbove Ancestor
  rw [Relation.reflTransGen_iff_eq_or_transGen, eq_comm]

/-- Every attachment can be made, or there is a reason why it cannot. -/
theorem accepts_or_refuses (p : Program) (parent child : TermId) :
    p.Accepts parent child ∨ ∃ e, p.Refuses parent child e := by
  by_cases hchild : p.Has child
  · by_cases hfree : ∀ above, ¬ p.Attaches above child
    · by_cases hparent : p.Has parent
      · by_cases hcircle : child = parent ∨ p.Ancestor child parent
        · exact .inr ⟨_, .circle hchild hfree hparent hcircle⟩
        · obtain ⟨hdistinct, houtside⟩ := not_or.1 hcircle
          exact .inl ⟨hparent, hchild, hfree, hdistinct, houtside⟩
      · exact .inr ⟨_, .noParent hchild hfree hparent⟩
    · obtain ⟨above, habove⟩ := not_forall_not.1 hfree
      exact .inr ⟨_, .parented hchild habove⟩
  · exact .inr ⟨_, .noChild hchild⟩

namespace Forest

variable (h : p.Forest)

include h

/-- An attachment that can be made is made. -/
theorem attach_of_accepts (haccepts : p.Accepts parent child) :
    p.attach parent child = (.ok (), p.link parent child) := by
  have hcircle : child ∉ p.lineage parent := by
    rw [h.mem_lineage, atOrAbove_iff]
    exact not_or.2 ⟨haccepts.distinct, haccepts.outside⟩
  rw [attach_eq, if_pos haccepts.hasChild, h.parent?_eq_none.2 haccepts.free]
  show (if p.Has parent then _ else _) = _
  rw [if_pos haccepts.hasParent, if_neg hcircle]

/-- An attachment that cannot be made is refused for the reason that there is. -/
theorem attach_of_refuses {e : StructureError} (hrefuses : p.Refuses parent child e) :
    p.attach parent child = (.error e, p) := by
  rw [attach_eq]
  cases hrefuses with
  | noChild hchild => rw [if_neg hchild]
  | parented hchild habove => rw [if_pos hchild, h.parent?_eq_some.2 habove]
  | noParent hchild hfree hparent =>
      rw [if_pos hchild, h.parent?_eq_none.2 hfree]
      show (if p.Has parent then _ else _) = _
      rw [if_neg hparent]
  | circle hchild hfree hparent hcircle =>
      rw [if_pos hchild, h.parent?_eq_none.2 hfree]
      show (if p.Has parent then _ else _) = _
      rw [if_pos hparent, if_pos (h.mem_lineage.2 (atOrAbove_iff.2 hcircle))]

/-- The attachments that can be made are those that leave a forest. -/
theorem accepts_iff : p.Accepts parent child ↔ (p.link parent child).Forest := by
  constructor
  · intro haccepts
    refine h.link haccepts.hasParent haccepts.hasChild haccepts.free ?_
    rw [atOrAbove_iff]
    exact not_or.2 ⟨haccepts.distinct, haccepts.outside⟩
  · intro hlink
    obtain ⟨hparent, hchild, hfree, hcircle⟩ := of_link hlink
    rw [atOrAbove_iff, not_or] at hcircle
    exact ⟨hparent, hchild, hfree, hcircle.1, hcircle.2⟩

end Forest

/-- Whatever a client did to a program before, an attachment is made if and only if both terms
exist, the child has no parent, and the child is neither the new parent nor an ancestor of it; these
are the attachments that leave a forest. The program is then the old one with the child as the last
operand of the parent. Any other attachment leaves the program as it was, and the error names the
first condition that is not met: that the child exists, that it has no parent, that the parent
exists, and that there is no circle. -/
theorem attach_decides (edits : List Edit) (parent child : TermId) :
    let p := ofEdits edits
    (∀ p', p.attach parent child = (.ok (), p') ↔
      p.Accepts parent child ∧ p' = p.link parent child) ∧
    (∀ e p', p.attach parent child = (.error e, p') ↔
      p.Refuses parent child e ∧ p' = p) ∧
    (¬ p.Accepts parent child → p.edit (.attach parent child) = p) ∧
    (p.Accepts parent child ↔ (p.link parent child).Forest) := by
  intro p
  have h : p.Forest := forest_ofEdits edits
  refine ⟨?_, ?_, ?_, h.accepts_iff⟩
  · intro p'
    constructor
    · intro hok
      rcases p.accepts_or_refuses parent child with haccepts | ⟨e, hrefuses⟩
      · rw [h.attach_of_accepts haccepts] at hok
        exact ⟨haccepts, (Prod.mk.inj hok).2.symm⟩
      · rw [h.attach_of_refuses hrefuses] at hok
        cases hok
    · intro hboth
      obtain ⟨haccepts, rfl⟩ := hboth
      exact h.attach_of_accepts haccepts
  · intro e p'
    constructor
    · intro herror
      rcases p.accepts_or_refuses parent child with haccepts | ⟨e', hrefuses⟩
      · rw [h.attach_of_accepts haccepts] at herror
        cases herror
      · rw [h.attach_of_refuses hrefuses] at herror
        cases herror
        exact ⟨hrefuses, rfl⟩
    · intro hboth
      obtain ⟨hrefuses, rfl⟩ := hboth
      exact h.attach_of_refuses hrefuses
  · intro hnot
    obtain ⟨e, hrefuses⟩ := (p.accepts_or_refuses parent child).resolve_left hnot
    exact congrArg Prod.snd (h.attach_of_refuses hrefuses)

/-- The statement cannot be attached under the literal that stands below it, and the program stays
as it is. The other literal can be attached to the statement, which leaves a forest. -/
theorem nested_decided :
    let p := ofEdits nested
    (p.attach ⟨2⟩ ⟨0⟩ = (.error (.cyclicTerm ⟨0⟩ ⟨2⟩), p) ∧
      p.Refuses ⟨2⟩ ⟨0⟩ (.cyclicTerm ⟨0⟩ ⟨2⟩)) ∧
    p.attach ⟨0⟩ ⟨3⟩ = (.ok (), p.link ⟨0⟩ ⟨3⟩) ∧ p.Accepts ⟨0⟩ ⟨3⟩ ∧
      (p.link ⟨0⟩ ⟨3⟩).Forest := by
  intro p
  have hrefused : p.attach ⟨2⟩ ⟨0⟩ = (.error (.cyclicTerm ⟨0⟩ ⟨2⟩), p) := rfl
  have hmade : p.attach ⟨0⟩ ⟨3⟩ = (.ok (), p.link ⟨0⟩ ⟨3⟩) := rfl
  obtain ⟨-, hrefuses, -⟩ := attach_decides nested ⟨2⟩ ⟨0⟩
  obtain ⟨hmakes, -, -, hforest⟩ := attach_decides nested ⟨0⟩ ⟨3⟩
  have haccepts : p.Accepts ⟨0⟩ ⟨3⟩ := ((hmakes _).1 hmade).1
  exact ⟨⟨hrefused, ((hrefuses _ _).1 hrefused).1⟩, hmade, haccepts, hforest.1 haccepts⟩

end Program

end JointAnalysis
