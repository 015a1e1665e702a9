import JointAnalysis.Analyses.Simple
import JointAnalysis.Proofs.Outcome

/-!
# Sessions with a network

A client asks a network one question after the other. In between it may clear caches, and the memory
of the analyses may change. A session ends early when a question has no answer: a fault is never
caught.
-/

namespace JointAnalysis

variable {V R M : Type}

/-- Something that a client does. -/
inductive Step (M : Type) where
  | ask (request : Request)
  | clear (composer : ComposerId)
  | revise (update : M → M)

namespace Network

/-- Take one step, following nested questions at most `depth` deep. -/
def perform (net : Network V R M) (depth : Nat) : Step M → Run V R M Unit
  | .ask r => do
    let _ ← net.answer depth r
    pure ()
  | .clear c => Run.clear c
  | .revise update => modify fun w => { w with memory := update w.memory }

/-- Take all steps in turn. -/
def session (net : Network V R M) (depth : Nat) : List (Step M) → Run V R M Unit
  | [] => pure ()
  | step :: rest => do
    net.perform depth step
    net.session depth rest

/-- The world after a session with a network that nobody has asked before. -/
def after (net : Network V R M) (depth : Nat) (steps : List (Step M)) (memory : M) : World V R M :=
  ((net.session depth steps).outcome (.initial memory)).2

/-- A session may be taken in two parts. -/
theorem session_append (net : Network V R M) (depth : Nat) (first second : List (Step M)) :
    net.session depth (first ++ second) =
      net.session depth first >>= fun _ => net.session depth second := by
  induction first with
  | nil => simp [session]
  | cons step rest ih => simp [session, ih]

/-- After a session that ended well and one more question, the world is the one that the answer to
the question left. -/
theorem after_ask {net : Network V R M} {depth : Nat} {steps : List (Step M)} {memory : M}
    (h : ((net.session depth steps).outcome (.initial memory)).1 = .ok ()) (r : Request) :
    net.after depth (steps ++ [.ask r]) memory =
      ((net.answer depth r).outcome (net.after depth steps memory)).2 := by
  have hsteps : (net.session depth steps).outcome (.initial memory) =
      (.ok (), net.after depth steps memory) := Prod.ext h rfl
  rw [after, session_append, Run.outcome_bind_ok hsteps, session, perform, Run.outcome_bind,
    Run.outcome_bind]
  rcases (net.answer depth r).outcome (net.after depth steps memory) with ⟨halt | o, w⟩
  · rfl
  · rfl

end Network

namespace Circle

/-- Two analyses that send each other in a circle, composed with one that knows a constant. -/
def composer : Tight ValueLeaf RegionLeaf Unit where
  id := ⟨3⟩
  direction := .forward
  members := [
    ⟨⟨0⟩, .echo "left" (fun x => if x = ⟨0⟩ then some ⟨1⟩ else none) id⟩,
    ⟨⟨1⟩, .echo "right" (fun x => if x = ⟨1⟩ then some ⟨0⟩ else none) id⟩,
    ⟨⟨2⟩, .constant "five" .forward (fun x => if x = ⟨0⟩ then some 5 else none) id⟩]
  parent := none
  config := {}
  system := none
  program := none

/-- The network of this one composer. -/
def network : Network ValueLeaf RegionLeaf Unit := ⟨[.tight composer], 4⟩

/-- A question from outside, about the term whose value is known. -/
def question : Request where
  composer := ⟨0⟩
  family := .value
  term := ⟨0⟩
  edge := ⟨0⟩
  client := network.outsider

end Circle

end JointAnalysis
