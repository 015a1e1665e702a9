import JointAnalysis.Program.Transition
import Mathlib.Data.List.Nodup
import Mathlib.Data.List.Perm.Subperm
import Mathlib.Data.List.Sort
import Mathlib.Logic.Relation

/-!
# Reachability in transition systems

The search for the parts from which a part can be reached goes backwards over all edges, as many
times as there are parts. Read `stepsBack_closed` first: a pass that adds nothing shows that nothing
is missing, and every other pass adds a part, of which there are only so many. The edges that enter
the parts found are sorted and listed once each, so that the order of the search is lost:
`enteringAt_congr`. `mem_operandEdges` says which edges the question about an operand leads to, and
`operand_edges_reach` says all of it about every system that a client can build.
-/

namespace JointAnalysis

/-- Something that a client adds to a transition system. -/
inductive Addition where
  | part (term : TermId)
  | edge (source target : PartId)

namespace TransitionSystem

variable {g : TransitionSystem} {seen : List PartId} {p q : PartId}

/-- An edge leads from one part to another. -/
def Steps (g : TransitionSystem) (p q : PartId) : Prop := ⟨p, q⟩ ∈ g.edges

/-- A path of zero or more edges leads from one part to another. -/
def Leads (g : TransitionSystem) : PartId → PartId → Prop := Relation.ReflTransGen g.Steps

/-- All edges connect parts that exist. -/
def WellFormed (g : TransitionSystem) : Prop :=
  ∀ edge ∈ g.edges, edge.source.index < g.parts.length ∧ edge.target.index < g.parts.length

instance : Decidable g.WellFormed := inferInstanceAs (Decidable (∀ edge ∈ g.edges, _ ∧ _))

/-- The system without parts is well formed. -/
theorem wellFormed_empty : empty.WellFormed := by
  intro edge hedge
  cases hedge

/-- Another part leaves a system well formed. -/
theorem WellFormed.addPart (h : g.WellFormed) (term : TermId) : (g.addPart term).2.WellFormed := by
  intro edge hedge
  obtain ⟨hsource, htarget⟩ := h edge hedge
  simp only [TransitionSystem.addPart, List.length_append, List.length_singleton]
  omega

/-- Another edge leaves a system well formed, since it has to connect parts that exist. -/
theorem WellFormed.addEdge (h : g.WellFormed) (p q : PartId) : (g.addEdge p q).2.WellFormed := by
  have hexists : ∀ part, g.checkPart part = .ok () → part.index < g.parts.length := by
    intro part hpart
    unfold checkPart location? at hpart
    split at hpart
    · next hsome => exact (List.getElem?_eq_some_iff.1 hsome).1
    · cases hpart
  unfold TransitionSystem.addEdge
  split
  · exact h
  · exact h
  · next hp hq =>
      intro edge hedge
      rcases List.mem_append.1 hedge with hold | hnew
      · exact h edge hold
      · rw [List.mem_singleton.1 hnew]
        exact ⟨hexists p hp, hexists q hq⟩

/-- The system after an addition, whether or not it was refused. -/
def add (g : TransitionSystem) : Addition → TransitionSystem
  | .part term => (g.addPart term).2
  | .edge source target => (g.addEdge source target).2

/-- What additions, one after the other, make of the system without parts. -/
def ofAdditions (additions : List Addition) : TransitionSystem := additions.foldl add empty

/-- An addition leaves a system well formed. -/
theorem WellFormed.add (h : g.WellFormed) (addition : Addition) : (g.add addition).WellFormed := by
  cases addition with
  | part term => exact h.addPart term
  | edge source target => exact h.addEdge source target

/-- Additions leave a system well formed. -/
theorem WellFormed.additions (h : g.WellFormed) (additions : List Addition) :
    (additions.foldl TransitionSystem.add g).WellFormed := by
  induction additions generalizing g with
  | nil => exact h
  | cons addition rest ih => exact ih (h.add addition)

section Scanning

variable (edge : Transition) (rest edges : List Transition) (found : List PartId)

/-- The edges are taken in turn. -/
theorem scan_cons : scan (edge :: rest) found = scan rest (extend edge found) := rfl

/-- What one edge adds is its source. -/
theorem extend_cases :
    extend edge found = found ∨
      edge.target ∈ found ∧ edge.source ∉ found ∧ extend edge found = found ++ [edge.source] := by
  unfold extend
  split
  · next h => exact .inr ⟨h.1, h.2, rfl⟩
  · exact .inl rfl

/-- After an edge into a part that was found, its source is found too. -/
theorem source_mem_extend (h : edge.target ∈ found) : edge.source ∈ extend edge found := by
  by_cases hsource : edge.source ∈ found
  · simp [extend, hsource]
  · simp [extend, h, hsource]

/-- Nothing that was found is lost. -/
theorem prefix_scan : found <+: scan edges found := by
  induction edges generalizing found with
  | nil => exact List.prefix_rfl
  | cons edge rest ih =>
      rw [scan_cons]
      refine List.IsPrefix.trans ?_ (ih (extend edge found))
      rcases extend_cases edge found with h | ⟨_, _, h⟩
      · exact ⟨[], by rw [h, List.append_nil]⟩
      · rw [h]
        exact List.prefix_append found _

variable {edges found}

/-- No part is found twice. -/
theorem nodup_scan (h : found.Nodup) : (scan edges found).Nodup := by
  induction edges generalizing found with
  | nil => exact h
  | cons edge rest ih =>
      rw [scan_cons]
      apply ih
      rcases extend_cases edge found with heq | ⟨_, hnew, heq⟩
      · rw [heq]
        exact h
      · rw [heq]
        exact List.nodup_append.2 ⟨h, List.nodup_singleton _, by grind⟩

/-- Whatever holds of the parts found so far, and of the source of an edge whenever of its target,
holds of all parts that are found. -/
theorem scan_invariant {P : PartId → Prop}
    (hedges : ∀ edge ∈ edges, P edge.target → P edge.source) (hfound : ∀ p ∈ found, P p) :
    ∀ p ∈ scan edges found, P p := by
  induction edges generalizing found with
  | nil => exact hfound
  | cons edge rest ih =>
      rw [scan_cons]
      refine ih (fun e he => hedges e (List.mem_cons_of_mem _ he)) ?_
      rcases extend_cases edge found with heq | ⟨htarget, _, heq⟩
      · rw [heq]
        exact hfound
      · rw [heq]
        intro p hp
        rcases List.mem_append.1 hp with hold | hnew
        · exact hfound p hold
        · rw [List.mem_singleton.1 hnew]
          exact hedges edge List.mem_cons_self (hfound _ htarget)

/-- The sources of edges into parts found before are found. -/
theorem source_mem_scan {edge : Transition} (hedge : edge ∈ edges) (htarget : edge.target ∈ found) :
    edge.source ∈ scan edges found := by
  induction edges generalizing found with
  | nil => cases hedge
  | cons first rest ih =>
      rw [scan_cons]
      rcases List.mem_cons.1 hedge with rfl | hlater
      · exact (prefix_scan rest _).subset (source_mem_extend _ found htarget)
      · refine ih hlater ?_
        rcases extend_cases first found with heq | ⟨_, _, heq⟩
        · rw [heq]
          exact htarget
        · rw [heq]
          exact List.mem_append_left _ htarget

end Scanning

/-- Nothing leads into these parts from elsewhere. -/
def Closed (g : TransitionSystem) (seen : List PartId) : Prop :=
  ∀ edge ∈ g.edges, edge.target ∈ seen → edge.source ∈ seen

/-- A pass that adds nothing shows that nothing is missing. -/
theorem closed_of_stepBack_eq (h : g.stepBack seen = seen) : g.Closed seen := by
  intro edge hedge htarget
  rw [← h]
  exact source_mem_scan hedge htarget

/-- Where nothing is missing, further passes add nothing. -/
theorem stepsBack_eq_self (h : g.stepBack seen = seen) (steps : Nat) :
    g.stepsBack steps seen = seen := by
  induction steps with
  | zero => rfl
  | succ steps ih => rw [stepsBack, h, ih]

/-- What holds of the first parts, and of the source of an edge whenever of its target, holds of all
parts that are found in some passes. -/
theorem stepsBack_invariant {P : PartId → Prop}
    (hedges : ∀ edge ∈ g.edges, P edge.target → P edge.source) (steps : Nat)
    (hseen : ∀ p ∈ seen, P p) : ∀ p ∈ g.stepsBack steps seen, P p := by
  induction steps generalizing seen with
  | zero => exact hseen
  | succ steps ih => exact ih (scan_invariant hedges hseen)

/-- Nothing that was found is lost in further passes. -/
theorem subset_stepsBack (steps : Nat) : seen ⊆ g.stepsBack steps seen := by
  induction steps generalizing seen with
  | zero => exact List.Subset.refl seen
  | succ steps ih => exact List.Subset.trans (prefix_scan g.edges seen).subset ih

/-- Different parts that exist are no more than there are parts. -/
theorem length_le_parts (hnodup : seen.Nodup) (hseen : ∀ p ∈ seen, p.index < g.parts.length) :
    seen.length ≤ g.parts.length := by
  have hsubset : seen ⊆ (List.range g.parts.length).map PartId.mk := by
    intro p hp
    exact List.mem_map.2 ⟨p.index, List.mem_range.2 (hseen p hp), rfl⟩
  simpa using (List.Nodup.subperm hnodup hsubset).length_le

/-- Enough passes find everything: as long as something is missing, each of them adds a part, and
there are only so many. -/
theorem stepsBack_closed (hg : g.WellFormed) {steps : Nat} (hnodup : seen.Nodup)
    (hseen : ∀ p ∈ seen, p.index < g.parts.length)
    (hsteps : g.parts.length < seen.length + steps) : g.Closed (g.stepsBack steps seen) := by
  induction steps generalizing seen with
  | zero =>
      have hle := length_le_parts hnodup hseen
      omega
  | succ steps ih =>
      have hgrows : seen <+: g.stepBack seen := prefix_scan g.edges seen
      by_cases hsame : g.stepBack seen = seen
      · rw [stepsBack_eq_self hsame]
        exact closed_of_stepBack_eq hsame
      · have hlonger : seen.length < (g.stepBack seen).length := by
          refine Nat.lt_of_le_of_ne hgrows.length_le fun hlength => hsame ?_
          exact (hgrows.eq_of_length hlength).symm
        have hexist : ∀ p ∈ g.stepBack seen, p.index < g.parts.length :=
          scan_invariant (fun edge hedge _ => (hg edge hedge).1) hseen
        exact ih (nodup_scan hnodup) hexist (by omega)

/-- Everything that leads into closed parts is among them. -/
theorem Closed.mem_of_leads (h : g.Closed seen) (hpath : g.Leads q p) (hp : p ∈ seen) :
    q ∈ seen := by
  induction hpath using Relation.ReflTransGen.head_induction_on with
  | refl => exact hp
  | head hstep _ ih => exact h _ hstep ih

/-- Where nothing is missing, a pass adds nothing. -/
theorem Closed.stepBack_eq (h : g.Closed seen) : g.stepBack seen = seen := by
  have hsame : ∀ edges, (∀ edge ∈ edges, edge ∈ g.edges) → scan edges seen = seen := by
    intro edges
    induction edges with
    | nil => exact fun _ => rfl
    | cons edge rest ih =>
        intro hedges
        obtain ⟨hfirst, hrest⟩ := List.forall_mem_cons.1 hedges
        rw [scan_cons]
        rcases extend_cases edge seen with heq | ⟨htarget, hnew, _⟩
        · rw [heq]
          exact ih hrest
        · exact absurd (h edge hfirst htarget) hnew
  exact hsame g.edges fun _ hedge => hedge

/-- Passes may be made in two parts. -/
theorem stepsBack_add (first second : Nat) :
    g.stepsBack (first + second) seen = g.stepsBack second (g.stepsBack first seen) := by
  induction first generalizing seen with
  | zero => rw [Nat.zero_add, stepsBack]
  | succ first ih =>
      rw [show first + 1 + second = (first + second) + 1 from by omega, stepsBack, stepsBack]
      exact ih

/-- No part is found twice in some passes. -/
theorem nodup_stepsBack (hnodup : seen.Nodup) (steps : Nat) : (g.stepsBack steps seen).Nodup := by
  induction steps generalizing seen with
  | zero => exact hnodup
  | succ steps ih => exact ih (nodup_scan hnodup)

/-- The search finds no part twice. -/
theorem nodup_reaching (g : TransitionSystem) (p : PartId) : (g.reaching p).Nodup :=
  nodup_stepsBack (List.nodup_singleton p) _

/-- When the search ends, nothing is missing. -/
theorem closed_reaching (hg : g.WellFormed) (hp : p.index < g.parts.length) :
    g.Closed (g.reaching p) :=
  stepsBack_closed hg (List.nodup_singleton p) (by simpa using hp) (by simp)

/-- The search ends when it does because it is over: any number of further passes add nothing. -/
theorem stepsBack_eq_reaching (hg : g.WellFormed) (hp : p.index < g.parts.length) {steps : Nat}
    (hsteps : g.parts.length ≤ steps) : g.stepsBack steps [p] = g.reaching p := by
  obtain ⟨more, rfl⟩ := Nat.exists_eq_add_of_le hsteps
  rw [stepsBack_add]
  exact stepsBack_eq_self (closed_reaching hg hp).stepBack_eq more

/-- The search finds the parts from which a path leads to the given one, and no others. -/
theorem mem_reaching (hg : g.WellFormed) (hp : p.index < g.parts.length) :
    q ∈ g.reaching p ↔ g.Leads q p := by
  constructor
  · exact stepsBack_invariant (P := (g.Leads · p)) (fun edge hedge hpath => .head hedge hpath) _
      (by simpa using .refl) q
  · intro hpath
    exact (closed_reaching hg hp).mem_of_leads hpath
      (subset_stepsBack _ (List.mem_singleton_self p))

/-- An operand may have been evaluated at the edge `e` before execution passes the edge `e₀`: `e`
enters a part at which the operand is located, and from there a path leads to the source of
`e₀`. -/
def Evaluates (g : TransitionSystem) (operand : TermId) (e₀ e : EdgeId) : Prop :=
  ∃ asked edge, g.edge? e₀ = some asked ∧ g.edge? e = some edge ∧
    g.location? edge.target = some operand ∧ g.Leads edge.target asked.source

section Listing

variable {operand : TermId} {visited visited' : List PartId} {e : EdgeId}

/-- The edges that enter a part are those that have it for a target. -/
theorem mem_entering : e ∈ g.entering p ↔ ∃ edge, g.edge? e = some edge ∧ edge.target = p := by
  simp only [entering, List.mem_filter, List.mem_map, List.mem_range, Option.any_eq_true,
    decide_eq_true_eq, and_iff_right_iff_imp, forall_exists_index, and_imp]
  intro edge hedge _
  exact ⟨e.index, (List.getElem?_eq_some_iff.1 hedge).1, rfl⟩

/-- The edges are sorted by insertion. -/
theorem ascending_eq (es : List EdgeId) :
    ascending es = es.insertionSort (·.index ≤ ·.index) := by
  have hplace : ∀ (e : EdgeId) (es : List EdgeId),
      place e es = es.orderedInsert (·.index ≤ ·.index) e := by
    intro e es
    induction es with
    | nil => rfl
    | cons d rest ih => rw [place, ih, List.orderedInsert_cons]
  induction es with
  | nil => rfl
  | cons e rest ih => exact (congrArg (place e) ih).trans (hplace e _)

/-- What is listed without repetitions is what was there. -/
theorem mem_eraseReps {es : List EdgeId} : e ∈ es.eraseReps ↔ e ∈ es := by
  -- the loop holds back the last edge and the ones before it
  have hloop : ∀ (es before : List EdgeId) (last : EdgeId),
      e ∈ List.eraseRepsBy.loop (· == ·) last es before ↔ e ∈ before ∨ e = last ∨ e ∈ es := by
    intro es
    induction es with
    | nil => simp [List.eraseRepsBy.loop, or_comm]
    | cons next rest ih =>
        intro before last
        by_cases hsame : last = next
        · simp [List.eraseRepsBy.loop, hsame, ih]
        · rw [List.eraseRepsBy.loop, beq_eq_false_iff_ne.2 hsame, ih]
          simp [or_assoc, or_left_comm]
  cases es with
  | nil => rfl
  | cons first rest => simp [List.eraseReps, List.eraseRepsBy, hloop]

/-- Where the edges ascend, they ascend strictly without repetitions. -/
theorem pairwise_eraseReps {es : List EdgeId} (h : es.Pairwise (·.index ≤ ·.index)) :
    es.eraseReps.Pairwise (·.index < ·.index) := by
  have hloop : ∀ (es before : List EdgeId) (last : EdgeId),
      (last :: es).Pairwise (·.index ≤ ·.index) →
      (before.reverse ++ [last]).Pairwise (·.index < ·.index) →
        (List.eraseRepsBy.loop (· == ·) last es before).Pairwise (·.index < ·.index) := by
    intro es
    induction es with
    | nil =>
        intro before last _ hbefore
        simpa [List.eraseRepsBy.loop] using hbefore
    | cons next rest ih =>
        intro before last hes hbefore
        obtain ⟨hleast, hrest⟩ := List.pairwise_cons.1 hes
        by_cases hsame : last = next
        · subst hsame
          simpa [List.eraseRepsBy.loop] using ih before last hrest hbefore
        · have hless : last.index < next.index :=
            Nat.lt_of_le_of_ne (hleast next List.mem_cons_self) fun h =>
              hsame (congrArg EdgeId.mk h)
          have hnext : ((last :: before).reverse ++ [next]).Pairwise (·.index < ·.index) := by
            rw [List.reverse_cons]
            refine List.pairwise_append.2 ⟨hbefore, List.pairwise_singleton _ _, ?_⟩
            grind
          rw [List.eraseRepsBy.loop, beq_eq_false_iff_ne.2 hsame]
          exact ih (last :: before) next hrest hnext
  cases es with
  | nil => exact .nil
  | cons first rest => exact hloop rest [] first h (List.pairwise_singleton _ _)

/-- The edges that are listed enter a visited part at which the operand is located. -/
theorem mem_enteringAt : e ∈ g.enteringAt operand visited ↔
    ∃ edge, g.edge? e = some edge ∧ edge.target ∈ visited ∧
      g.location? edge.target = some operand := by
  simp only [enteringAt, mem_eraseReps, ascending_eq, List.mem_insertionSort, List.mem_flatMap,
    List.mem_filter, decide_eq_true_eq, mem_entering]
  constructor
  · rintro ⟨_, ⟨hvisited, hlocation⟩, edge, hedge, rfl⟩
    exact ⟨edge, hedge, hvisited, hlocation⟩
  · rintro ⟨edge, hedge, hvisited, hlocation⟩
    exact ⟨edge.target, ⟨hvisited, hlocation⟩, edge, hedge, rfl⟩

/-- The edges are listed in ascending order, each of them once. -/
theorem pairwise_enteringAt (g : TransitionSystem) (operand : TermId) (visited : List PartId) :
    (g.enteringAt operand visited).Pairwise (·.index < ·.index) := by
  have htotal : Std.Total (fun a b : EdgeId => a.index ≤ b.index) :=
    ⟨fun a b => Nat.le_total a.index b.index⟩
  have htrans : IsTrans EdgeId (fun a b => a.index ≤ b.index) := ⟨fun _ _ _ => Nat.le_trans⟩
  unfold enteringAt
  rw [ascending_eq]
  exact pairwise_eraseReps (List.pairwise_insertionSort _ _)

/-- In which order the parts were visited, and how often, does not matter. -/
theorem enteringAt_congr (h : ∀ p, p ∈ visited ↔ p ∈ visited') :
    g.enteringAt operand visited = g.enteringAt operand visited' := by
  have hirrefl : Std.Irrefl (fun a b : EdgeId => a.index < b.index) :=
    ⟨fun a => Nat.lt_irrefl a.index⟩
  have hantisymm : Std.Antisymm (fun a b : EdgeId => a.index < b.index) :=
    ⟨fun _ _ hab hba => absurd hba (Nat.lt_asymm hab)⟩
  refine List.Pairwise.eq_of_mem_iff (pairwise_enteringAt g operand visited)
    (pairwise_enteringAt g operand visited') fun e => ?_
  rw [mem_enteringAt, mem_enteringAt]
  simp only [h]

end Listing

/-- Without an edge to pass there are no edges to list. -/
theorem operandEdges_of_none {term operand : TermId} {e₀ : EdgeId} (h : g.edge? e₀ = none) :
    g.operandEdges term operand e₀ = [] := by
  unfold operandEdges
  rw [h]

/-- The edges are listed for the parts from which the source of the edge can be reached. -/
theorem operandEdges_of_some {term operand : TermId} {e₀ : EdgeId} {asked : Transition}
    (h : g.edge? e₀ = some asked) :
    g.operandEdges term operand e₀ = g.enteringAt operand (g.reaching asked.source) := by
  unfold operandEdges
  rw [h]

/-- The edges that are listed for an operand are those at which it may have been evaluated. -/
theorem mem_operandEdges (hg : g.WellFormed) {term operand : TermId} {e₀ e : EdgeId} :
    e ∈ g.operandEdges term operand e₀ ↔ g.Evaluates operand e₀ e := by
  unfold Evaluates
  cases hasked : g.edge? e₀ with
  | none => simp [operandEdges_of_none hasked]
  | some asked =>
      have hsource : asked.source.index < g.parts.length :=
        (hg asked (List.mem_of_getElem? hasked)).1
      rw [operandEdges_of_some hasked, mem_enteringAt]
      simp only [mem_reaching hg hsource]
      constructor
      · rintro ⟨edge, hedge, hpath, hlocation⟩
        exact ⟨asked, edge, rfl, hedge, hlocation, hpath⟩
      · rintro ⟨_, edge, hsame, hedge, hlocation, hpath⟩
        cases hsame
        exact ⟨edge, hedge, hpath, hlocation⟩

/-- The edges are listed in ascending order, each of them once. -/
theorem pairwise_operandEdges (g : TransitionSystem) (term operand : TermId) (e₀ : EdgeId) :
    (g.operandEdges term operand e₀).Pairwise (·.index < ·.index) := by
  cases hasked : g.edge? e₀ with
  | none =>
      rw [operandEdges_of_none hasked]
      exact .nil
  | some asked =>
      rw [operandEdges_of_some hasked]
      exact g.pairwise_enteringAt operand _

/-- Whatever parts and edges a client adds to a transition system, and whatever is refused on the
way: the edges that are listed for an operand come in ascending order, each of them once; they are
those that enter a part at which the operand is located and from which a path of zero or more edges
leads to the source of the edge that is asked about; there are none if that edge does not exist, and
it does not matter for which term the operand was evaluated. The search behind it is over when it
ends, and finds each part from which the source can be reached once. Any other search that finds
these parts, in whatever order and however often, leads to the same list. -/
theorem operand_edges_reach (additions : List Addition) (term operand : TermId) (e₀ : EdgeId) :
    let g := ofAdditions additions
    (g.operandEdges term operand e₀).Pairwise (·.index < ·.index) ∧
    (∀ e, e ∈ g.operandEdges term operand e₀ ↔ g.Evaluates operand e₀ e) ∧
    (g.edge? e₀ = none → g.operandEdges term operand e₀ = []) ∧
    (∀ other, g.operandEdges other operand e₀ = g.operandEdges term operand e₀) ∧
    ∀ asked, g.edge? e₀ = some asked →
      (∀ steps, g.parts.length ≤ steps →
        g.stepsBack steps [asked.source] = g.reaching asked.source) ∧
      (g.reaching asked.source).Nodup ∧
      (∀ q, q ∈ g.reaching asked.source ↔ g.Leads q asked.source) ∧
      ∀ visited, (∀ q, q ∈ visited ↔ g.Leads q asked.source) →
        g.operandEdges term operand e₀ = g.enteringAt operand visited := by
  intro g
  have hg : g.WellFormed := wellFormed_empty.additions additions
  refine ⟨g.pairwise_operandEdges term operand e₀, fun e => mem_operandEdges hg,
    operandEdges_of_none, fun other => rfl, ?_⟩
  intro asked hasked
  have hsource : asked.source.index < g.parts.length :=
    (hg asked (List.mem_of_getElem? hasked)).1
  refine ⟨fun steps hsteps => stepsBack_eq_reaching hg hsource hsteps, g.nodup_reaching _,
    fun q => mem_reaching hg hsource, fun visited hvisited => ?_⟩
  rw [operandEdges_of_some hasked]
  exact enteringAt_congr fun q => (mem_reaching hg hsource).trans (hvisited q).symm

-- two parts in a circle and a loop at the first; the last edge is refused
example : (ofAdditions [.part ⟨1⟩, .part ⟨0⟩, .edge ⟨0⟩ ⟨1⟩, .edge ⟨1⟩ ⟨0⟩, .edge ⟨0⟩ ⟨0⟩,
    .edge ⟨0⟩ ⟨7⟩]).operandEdges ⟨0⟩ ⟨1⟩ ⟨0⟩ = [⟨1⟩, ⟨2⟩] := by decide

end TransitionSystem

end JointAnalysis
