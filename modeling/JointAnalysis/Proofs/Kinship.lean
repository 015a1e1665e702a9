import JointAnalysis.Proofs.Attachment

/-!
# Parents and operands

A program can be read from the child, by its parent, and from the parent, by its list of operands.
Both readings go back to the attachments that were made, and nothing else: the operands of a term
are what was attached to it, in the order in which this was done. `Program.parents_match_operands`
says so of every program that edits make. The positions that are kept with the attachments are used
only to sort them. They restore the order in which the operands were attached, however the
attachments are listed: `Forest.operandList_of_relisted`.
-/

namespace JointAnalysis

namespace Program

variable {p p' q : Program} {parent child s t : TermId}

/-- The parent and the child that an edit attaches to each other, if it does. -/
def made (p : Program) : Edit → Option (TermId × TermId)
  | .attach parent child =>
    match (p.attach parent child).1 with
    | .ok _ => some (parent, child)
    | .error _ => none
  | _ => none

/-- The parents and the children that edits attach to each other, one after the other. -/
def madeBy (p : Program) : List Edit → List (TermId × TermId)
  | [] => []
  | e :: rest => (p.made e).toList ++ (p.edit e).madeBy rest

/-- What edits attach to the term `t`, in their order, if they start from the program without
terms. -/
def offspring (edits : List Edit) (t : TermId) : List TermId :=
  ((empty.madeBy edits).filter (·.1 = t)).map (·.2)

/-- The parents and the children of all attachments, in the order in which they were made. -/
def links (p : Program) : List (TermId × TermId) := p.attachments.map fun a => (a.parent, a.child)

/-- The same terms with the same attachments, listed in whatever order. -/
structure Relisted (p q : Program) : Prop where
  terms : q.terms = p.terms
  attachments : q.attachments.Perm p.attachments

/-- What is attached to a term can be read off the links. -/
theorem map_child_attachedTo (p : Program) (t : TermId) :
    (p.attachedTo t).map (·.child) = (p.links.filter (·.1 = t)).map (·.2) := by
  unfold attachedTo links
  rw [List.filter_map, List.map_map]
  rfl

/-- The operands of a term that exists. -/
theorem operands_of_has (h : p.Has t) : p.operands t = .ok (p.operandList t) := by
  obtain ⟨found, hfound⟩ := term_of_has h
  unfold operands
  rw [hfound]
  rfl

/-- A term that does not exist is reported when its operands are asked for. -/
theorem operands_of_not_has (h : ¬ p.Has t) : p.operands t = .error (.unknownTerm t) := by
  unfold operands
  rw [term_of_not_has h]
  rfl

/-- Only of a term that exists the operands are told. -/
theorem operands_eq_ok {answer : List TermId} (h : p.operands t = .ok answer) :
    p.Has t ∧ p.operandList t = answer := by
  by_cases ht : p.Has t
  · rw [operands_of_has ht] at h
    exact ⟨ht, Except.ok.inj h⟩
  · rw [operands_of_not_has ht] at h
    cases h

/-- What is told about operands depends on the terms that there are and on what is attached. -/
theorem operands_congr (hterms : p'.terms = p.terms) (h : p'.operandList t = p.operandList t) :
    p'.operands t = p.operands t := by
  unfold operands term term?
  rw [hterms, h]

/-- What is told about parents depends on the terms that there are and on what is attached. -/
theorem parent_congr (hterms : p'.terms = p.terms) (h : p'.parent? t = p.parent? t) :
    p'.parent t = p.parent t := by
  unfold Program.parent term term?
  rw [hterms, h]

/-- A term is an operand of its parent. -/
theorem isOperandOf_iff : p.isOperandOf t s = .ok true ↔ p.parent t = .ok (some s) := by
  unfold isOperandOf
  cases p.parent t with
  | error e => simp [bind, Except.bind]
  | ok answer => simp [bind, Except.bind, pure, Except.pure]

namespace Forest

variable (h : p.Forest)

include h

/-- However the attachments are listed, the operands of a term are sorted back into the order in
which they were attached, since no two of them have the same position. -/
theorem operandList_of_relisted (hq : p.Relisted q) (t : TermId) :
    q.operandList t = (p.attachedTo t).map (·.child) := by
  have hinjective : ∀ a b, a ∈ p.attachedTo t → b ∈ p.attachedTo t → a.position ≤ b.position →
      b.position ≤ a.position → a = b := by
    have hnodup : ((p.attachedTo t).map (·.position)).Nodup := by
      rw [h.numbered t]
      exact List.nodup_range
    intro a b ha hb hle hge
    exact List.inj_on_of_nodup_map hnodup ha hb (Nat.le_antisymm hle hge)
  have hordered : (p.attachedTo t).Pairwise (·.position ≤ ·.position) := by
    rw [← List.pairwise_map (f := Attachment.position), h.numbered t]
    exact List.pairwise_le_range
  have hlisted : (q.attachments.filter (·.parent = t)).Perm (p.attachedTo t) :=
    hq.attachments.filter _
  have hperm := (List.mergeSort_perm (q.attachments.filter (·.parent = t))
    (·.position ≤ ·.position)).trans hlisted
  have hsorted : ∀ listed : List Attachment,
      (listed.mergeSort (·.position ≤ ·.position)).Pairwise
        fun a b => decide (a.position ≤ b.position) = true :=
    List.pairwise_mergeSort (by simpa using fun _ _ _ => Nat.le_trans) (by simp [Nat.le_total])
  refine congrArg (List.map (·.child)) (List.Perm.eq_of_pairwise ?_
    ((hsorted _).imp of_decide_eq_true) hordered hperm)
  exact fun a b ha hb => hinjective a b (hperm.mem_iff.1 ha) hb

/-- The operands of a term are what is attached to it, in the order of the attachments. -/
theorem operandList_eq (t : TermId) : p.operandList t = (p.attachedTo t).map (·.child) :=
  h.operandList_of_relisted ⟨rfl, .refl _⟩ t

/-- However the attachments are listed, the parent of a term is the same, since there is at most
one. -/
theorem parent?_of_relisted (hq : p.Relisted q) (t : TermId) : q.parent? t = p.parent? t := by
  have hsingle : (q.attachments.map (·.child)).Nodup :=
    (hq.attachments.map (·.child)).nodup_iff.2 h.single
  refine Option.ext fun s => ?_
  rw [parent?_of_single hsingle, h.parent?_eq_some]
  simp only [Attaches, hq.attachments.mem_iff]

/-- Nothing that is told about parents and operands depends on how the attachments are listed. -/
theorem told_of_relisted (hq : p.Relisted q) :
    q.operands = p.operands ∧ q.parent = p.parent ∧ q.isOperandOf = p.isOperandOf := by
  have hparent : q.parent = p.parent :=
    funext fun t => parent_congr hq.terms (h.parent?_of_relisted hq t)
  refine ⟨funext fun t => operands_congr hq.terms ?_, hparent, ?_⟩
  · rw [h.operandList_of_relisted hq, h.operandList_eq]
  · unfold isOperandOf
    rw [hparent]

/-- A term is among the operands of another one if it is attached to it. -/
theorem mem_operandList : s ∈ p.operandList t ↔ p.Attaches t s := by
  rw [h.operandList_eq, List.mem_map]
  constructor
  · rintro ⟨a, ha, rfl⟩
    obtain ⟨hmem, hparent⟩ := List.mem_filter.1 ha
    obtain rfl : a.parent = t := of_decide_eq_true hparent
    exact ⟨a.position, hmem⟩
  · rintro ⟨position, hmem⟩
    exact ⟨_, List.mem_filter.2 ⟨hmem, decide_eq_true rfl⟩, rfl⟩

/-- No term is among the operands of another one twice. -/
theorem nodup_operandList (t : TermId) : (p.operandList t).Nodup := by
  rw [h.operandList_eq]
  exact h.single.sublist (List.filter_sublist.map _)

/-- An attachment that is made adds one link. -/
theorem attach_eq_ok (hattach : p.attach parent child = (.ok (), p')) :
    p' = p.link parent child := by
  rcases p.accepts_or_refuses parent child with haccepts | ⟨e, hrefuses⟩
  · rw [h.attach_of_accepts haccepts] at hattach
    exact (Prod.mk.inj hattach).2.symm
  · rw [h.attach_of_refuses hrefuses] at hattach
    cases hattach

/-- An edit adds the link that it makes. -/
theorem links_edit (e : Edit) : (p.edit e).links = p.links ++ (p.made e).toList := by
  cases e with
  | term kind label => exact (List.append_nil _).symm
  | literal value => exact (List.append_nil _).symm
  | attach parent child =>
      rcases p.accepts_or_refuses parent child with haccepts | ⟨e, hrefuses⟩
      · simp only [Program.edit, made, h.attach_of_accepts haccepts]
        exact List.map_append
      · simp only [Program.edit, made, h.attach_of_refuses hrefuses]
        exact (List.append_nil _).symm

/-- Edits add the links that they make. -/
theorem links_edits (edits : List Edit) :
    (edits.foldl Program.edit p).links = p.links ++ p.madeBy edits := by
  induction edits generalizing p with
  | nil => exact (List.append_nil _).symm
  | cons e rest ih =>
      calc (rest.foldl Program.edit (p.edit e)).links
          = (p.edit e).links ++ (p.edit e).madeBy rest := ih (h.edit e)
        _ = (p.links ++ (p.made e).toList) ++ (p.edit e).madeBy rest := by rw [h.links_edit e]
        _ = p.links ++ p.madeBy (e :: rest) := List.append_assoc _ _ _

/-- The parent that is told is the term to which the child is attached. -/
theorem parent_eq_some : p.parent t = .ok (some s) ↔ p.Attaches s t := by
  rw [← h.parent?_eq_some]
  constructor
  · intro htold
    exact (parent_eq_ok htold).2
  · intro hparent
    rw [parent_of_has (h.has_of_parent hparent).2, hparent]

/-- A term is told to have a parent if it is told to be among the operands of that parent. -/
theorem parent_iff_operands :
    p.parent t = .ok (some s) ↔
      p.Has s ∧ ∃ operands, p.operands s = .ok operands ∧ t ∈ operands := by
  rw [h.parent_eq_some]
  constructor
  · intro hattached
    obtain ⟨position, hmem⟩ := hattached
    have hs : p.Has s := (h.known _ hmem).1
    exact ⟨hs, _, operands_of_has hs, h.mem_operandList.2 ⟨position, hmem⟩⟩
  · rintro ⟨_, operands, hoperands, hmem⟩
    obtain ⟨_, rfl⟩ := operands_eq_ok hoperands
    exact h.mem_operandList.1 hmem

section Link

variable (hattach : p.attach parent child = (.ok (), p'))

include hattach

/-- An attachment that is made leaves a forest. -/
theorem forest_of_attach : p'.Forest := by
  have hforest := h.attach parent child
  rw [hattach] at hforest
  exact hforest

/-- What is attached after an attachment. -/
theorem attaches_of_attach : p'.Attaches s t ↔ p.Attaches s t ∨ s = parent ∧ t = child := by
  rw [h.attach_eq_ok hattach]
  exact attaches_link

/-- An attachment adds no terms. -/
theorem terms_of_attach : p'.terms = p.terms := by
  rw [h.attach_eq_ok hattach]
  rfl

/-- An attachment gives the parent one more operand, the last one, and no other term any. -/
theorem operandList_of_attach (t : TermId) :
    p'.operandList t = p.operandList t ++ if parent = t then [child] else [] := by
  rw [(h.forest_of_attach hattach).operandList_eq, h.operandList_eq, h.attach_eq_ok hattach,
    attachedTo_link, List.map_append]
  split <;> rfl

/-- An attachment changes the parent of the child only. -/
theorem parent?_of_attach (hne : t ≠ child) : p'.parent? t = p.parent? t := by
  refine Option.ext fun s => ?_
  rw [(h.forest_of_attach hattach).parent?_eq_some, h.parent?_eq_some,
    h.attaches_of_attach hattach]
  exact or_iff_left fun hnew => hne hnew.2

end Link

end Forest

/-- The links of a program are those that edits made. -/
theorem links_ofEdits (edits : List Edit) : (ofEdits edits).links = empty.madeBy edits :=
  forest_empty.links_edits edits

/-- Whatever a client does to a program, the operands of a term are what was attached to it, in the
order of the attachments and each once. A term has another one for its parent if and only if that
one exists and has it among its operands, and if and only if it is said to be an operand of it. None
of this depends on the order in which the attachments are listed. An attachment makes the child the
last operand of the parent; it changes neither the operands of other terms nor the parents of other
terms, nor whose operands they are. -/
theorem parents_match_operands (edits : List Edit) :
    let p := ofEdits edits
    (∀ t, p.Has t → p.operands t = .ok (offspring edits t) ∧ (offspring edits t).Nodup) ∧
    (∀ c t,
      (p.parent c = .ok (some t) ↔
        p.Has t ∧ ∃ operands, p.operands t = .ok operands ∧ c ∈ operands) ∧
      (p.parent c = .ok (some t) ↔ p.isOperandOf c t = .ok true)) ∧
    (∀ q, p.Relisted q →
      q.operands = p.operands ∧ q.parent = p.parent ∧ q.isOperandOf = p.isOperandOf) ∧
    ∀ parent child p', p.attach parent child = (.ok (), p') →
      p'.operands parent = .ok (offspring edits parent ++ [child]) ∧
      p'.parent child = .ok (some parent) ∧
      (∀ t, t ≠ parent → p'.operands t = p.operands t) ∧
      ∀ c, c ≠ child → p'.parent c = p.parent c ∧ ∀ t, p'.isOperandOf c t = p.isOperandOf c t := by
  intro p
  have h : p.Forest := forest_ofEdits edits
  have hoffspring : ∀ t, p.operandList t = offspring edits t := by
    intro t
    rw [h.operandList_eq, map_child_attachedTo, links_ofEdits]
    rfl
  refine ⟨?_, fun c t => ⟨h.parent_iff_operands, isOperandOf_iff.symm⟩,
    fun q => h.told_of_relisted, ?_⟩
  · intro t ht
    rw [operands_of_has ht, ← hoffspring t]
    exact ⟨rfl, h.nodup_operandList t⟩
  · intro parent child p' hattach
    have hterms : p'.terms = p.terms := h.terms_of_attach hattach
    have hnew : p'.Attaches parent child := (h.attaches_of_attach hattach).2 (.inr ⟨rfl, rfl⟩)
    obtain ⟨position, hmem⟩ := hnew
    have h' : p'.Forest := h.forest_of_attach hattach
    refine ⟨?_, h'.parent_eq_some.2 ⟨position, hmem⟩, ?_, ?_⟩
    · rw [operands_of_has (h'.known _ hmem).1, h.operandList_of_attach hattach, if_pos rfl,
        hoffspring]
    · intro t hne
      refine operands_congr hterms ?_
      rw [h.operandList_of_attach hattach, if_neg (Ne.symm hne), List.append_nil]
    · intro c hne
      have hparent : p'.parent c = p.parent c :=
        parent_congr hterms (h.parent?_of_attach hattach hne)
      refine ⟨hparent, fun t => ?_⟩
      unfold isOperandOf
      rw [hparent]

/-- Terms that are attached to two others in turns, once in vain. -/
def interleaved : List Edit :=
  [.term .statement "s", .term .expression "e", .literal (.int 1), .literal (.int 2),
    .literal (.int 3), .attach ⟨0⟩ ⟨2⟩, .attach ⟨1⟩ ⟨3⟩, .attach ⟨1⟩ ⟨2⟩, .attach ⟨0⟩ ⟨1⟩]

/-- The attempt leaves no trace, and one more operand of the second term none in the first. The
operands are the same if the attachments are listed backwards. -/
theorem interleaved_operands :
    let p := ofEdits interleaved
    (p.Has ⟨0⟩ ∧ p.operands ⟨0⟩ = .ok [⟨2⟩, ⟨1⟩]) ∧ p.isOperandOf ⟨2⟩ ⟨0⟩ = .ok true ∧
    (∃ p', p.attach ⟨1⟩ ⟨4⟩ = (.ok (), p') ∧ p'.operands ⟨1⟩ = .ok [⟨3⟩, ⟨4⟩] ∧
      p'.operands ⟨0⟩ = p.operands ⟨0⟩) ∧
    p.Relisted ⟨p.terms, p.attachments.reverse⟩ ∧
      (⟨p.terms, p.attachments.reverse⟩ : Program).operands ⟨0⟩ = .ok [⟨2⟩, ⟨1⟩] := by
  intro p
  obtain ⟨htold, hsame, hlisted, hattached⟩ := parents_match_operands interleaved
  have hfirst : p.Has ⟨0⟩ := by decide
  have hoperands : p.operands ⟨0⟩ = .ok [⟨2⟩, ⟨1⟩] := (htold ⟨0⟩ hfirst).1
  have hparent : p.parent ⟨2⟩ = .ok (some ⟨0⟩) :=
    (hsame ⟨2⟩ ⟨0⟩).1.2 ⟨hfirst, _, hoperands, List.mem_cons_self⟩
  have hattach : p.attach ⟨1⟩ ⟨4⟩ = (.ok (), p.link ⟨1⟩ ⟨4⟩) := rfl
  obtain ⟨hnew, _, hothers, _⟩ := hattached _ _ _ hattach
  have hreverse : p.Relisted ⟨p.terms, p.attachments.reverse⟩ := ⟨rfl, List.reverse_perm _⟩
  refine ⟨⟨hfirst, hoperands⟩, (hsame ⟨2⟩ ⟨0⟩).2.1 hparent,
    ⟨_, hattach, hnew, hothers ⟨0⟩ (by decide)⟩, hreverse, ?_⟩
  rw [(hlisted _ hreverse).1, hoperands]

end Program

end JointAnalysis
