import JointAnalysis.Proofs.Walk

/-!
# Following questions more deeply

A network follows nested questions to a given depth. Following them more deeply changes nothing
about what a computation comes to, unless it was not deep enough: `Network.answer_below`. The
argument goes through everything that asks questions, by the trait of `Steady` computations: what
asks in a steady way comes to the same when its questions are answered more deeply.
-/

namespace JointAnalysis

variable {V R M β γ : Type}

/-- Where one computation does not run out of depth, another one comes to the same. -/
def Run.Below (x y : Run V R M β) : Prop :=
  ∀ w, (x.outcome w).1 = .error .exhausted ∨ x.outcome w = y.outcome w

/-- A computation that comes to the same when its questions are answered more deeply. -/
def Steady (f : Answerer V R M → Run V R M β) : Prop :=
  ∀ ask deeper, (∀ r, (ask r).Below (deeper r)) → (f ask).Below (f deeper)

/-- Where it starts, a computation comes to the same when its questions are answered more deeply
than by `ask`. -/
def Trait.steady (ask : Answerer V R M) : Trait ask where
  holds f w := ∀ deeper, (∀ r, (ask r).Below (deeper r)) →
    ((f ask).outcome w).1 = .error .exhausted ∨ (f ask).outcome w = (f deeper).outcome w
  pure _ _ _ _ := .inr rfl
  throw _ _ _ _ := .inr rfl
  record _ _ _ _ := .inr rfl
  desk _ _ _ _ := .inr rfl
  setDesk _ _ _ _ _ := .inr rfl
  memory _ _ _ := .inr rfl
  update _ _ _ _ := .inr rfl
  bind {β γ x f w} hx hf := by
    intro deeper h
    rcases houtcome : (x ask).outcome w with ⟨halt | b, w'⟩
    · rcases hx deeper h with hshort | hsame
      · rw [houtcome] at hshort
        cases hshort
        rw [Run.outcome_bind_error houtcome]
        exact .inl rfl
      · rw [Run.outcome_bind_error houtcome, Run.outcome_bind_error (hsame.symm.trans houtcome)]
        exact .inr rfl
    · rcases hx deeper h with hshort | hsame
      · rw [houtcome] at hshort
        cases hshort
      · rw [Run.outcome_bind_ok houtcome, Run.outcome_bind_ok (hsame.symm.trans houtcome)]
        exact hf b w' houtcome deeper h

/-- A computation is steady if it is so with every answerer and wherever it starts. -/
theorem steady_iff {f : Answerer V R M → Run V R M β} :
    Steady f ↔ ∀ ask w, (Trait.steady ask).holds f w :=
  ⟨fun h ask w deeper hdeeper => h ask deeper hdeeper w,
    fun h ask deeper hdeeper w => h ask w deeper hdeeper⟩

/-- A single question comes to the same when it is answered more deeply. -/
theorem Trait.steady_asking (ask : Answerer V R M) (r : Request) (w : World V R M) :
    (Trait.steady ask).holds (fun ask => ask r) w :=
  fun _ h => h r w

namespace Steady

/-- What asks nothing is steady. -/
theorem const (x : Run V R M β) : Steady fun _ => x :=
  fun _ _ _ _ => .inr rfl

/-- A single question is steady. -/
theorem asking (r : Request) : Steady fun ask : Answerer V R M => ask r :=
  steady_iff.2 fun ask => Trait.steady_asking ask r

/-- A sequence is steady if its parts are. -/
theorem bind {x : Answerer V R M → Run V R M β} {f : β → Answerer V R M → Run V R M γ}
    (hx : Steady x) (hf : ∀ b, Steady (f b)) : Steady fun ask => x ask >>= fun b => f b ask :=
  steady_iff.2 fun ask w => (Trait.steady ask).bind (steady_iff.1 hx ask w)
    fun b w' _ => steady_iff.1 (hf b) ask w'

/-- A list of computations is steady if each of them is. -/
theorem mapM {f : β → Answerer V R M → Run V R M γ} (hf : ∀ b, Steady (f b)) (l : List β) :
    Steady fun ask => l.mapM (f · ask) := by
  induction l with
  | nil => exact const _
  | cons b rest ih =>
      simp only [List.mapM_cons]
      exact (hf b).bind fun _ => ih.bind fun _ => const _

end Steady

section Asking

variable (t : Tight V R M) (r : Request)

/-- Carrying out a plan is steady. -/
theorem Plan.run_steady (p : Plan V R M β) : Steady fun ask => p.run ask :=
  steady_iff.2 fun ask => Trait.run (Trait.steady_asking ask) p

/-- Consulting an analysis is steady. -/
theorem Analysis.consult_steady (a : Analysis V R M) (family : Family) (q : Inquiry) :
    Steady fun ask => a.consult ask family q :=
  steady_iff.2 fun ask => Trait.consult (Trait.steady_asking ask) a family q

/-- Asking the parent is steady. -/
theorem Tight.inherited_steady : Steady fun ask => t.inherited ask r :=
  steady_iff.2 fun ask => Trait.inherited (Trait.steady_asking ask) t r

/-- Asking the members is steady. -/
theorem Tight.gather_steady (members : List (Member V R M))
    (answers : List (Object V R r.family)) : Steady fun ask => t.gather ask r members answers :=
  steady_iff.2 fun ask => Trait.gather (Trait.steady_asking ask) t r members answers

/-- Resolving a request is steady. -/
theorem Tight.resolve_steady : Steady fun ask => t.resolve ask r :=
  steady_iff.2 fun ask => Trait.resolve (Trait.steady_asking ask) t r

/-- Answering a question about a term is steady. -/
theorem Composer.query_steady (c : Composer V R M) : Steady fun ask => c.query ask r :=
  steady_iff.2 fun ask => Trait.query (Trait.steady_asking ask) r c

/-- Answering a question is steady. -/
theorem Composer.respond_steady (c : Composer V R M) : Steady fun ask => c.respond ask r :=
  steady_iff.2 fun ask => Trait.respond (Trait.steady_asking ask) r c

end Asking

namespace Network

variable (net : Network V R M)

/-- Following questions one level deeper changes no answer. -/
theorem answer_below (depth : Nat) (r : Request) :
    (net.answer depth r).Below (net.answer (depth + 1) r) := by
  induction depth generalizing r with
  | zero => exact fun _ => .inl rfl
  | succ depth ih =>
      rw [answer, answer]
      split
      · exact fun _ => .inr rfl
      · -- one level deeper at the outside is one level deeper for everyone who is asked inside
        exact Composer.respond_steady r _ _ _ ih

end Network

/-- What is deep enough stays as it is when questions are followed more deeply. -/
theorem Steady.stable {net : Network V R M} {f : Answerer V R M → Run V R M β} {w : World V R M}
    (hf : Steady f) {depth deeper : Nat}
    (hle : depth ≤ deeper)
    (hdepth : ((f (net.answer depth)).outcome w).1 ≠ .error .exhausted) :
    (f (net.answer deeper)).outcome w = (f (net.answer depth)).outcome w := by
  induction hle with
  | refl => rfl
  | step hle ih =>
      rcases hf _ _ (net.answer_below _) w with hshort | hsame
      · rw [ih] at hshort
        exact absurd hshort hdepth
      · rw [← hsame, ih]

end JointAnalysis
