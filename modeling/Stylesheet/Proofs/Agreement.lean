import Stylesheet.Proofs.Replica

/-!
# Runs that may panic

A program that asks for what may not exist either goes on with it or panics (`demand`).  Such a
program agrees with one that never asks if both do the same from every state of which something
holds, and if that holds of the state they lead to (`Agrees`).  Then it does not panic from such a
state: it ends as the other one does (`Agrees.eq_unharmed`).

Agreement is a `Simulates` whose states are equal, so it is passed on in the same ways; loops are
the one case with a lemma of its own, because their answers are lists (`agrees_unfold`).
-/
namespace Stylesheet

/-- How a program may fail that asks for what may not exist. -/
inductive Fault (ε : Type)
  /-- Something that is asked for does not exist. -/
  | panic
  /-- An error that a program may have that never asks. -/
  | error (e : ε)

/-- What has to exist. -/
def demand {ε σ α : Type} (a : Option α) : EStateM (Fault ε) σ α :=
  match a with
  | some a => pure a
  | none => throw .panic

/-- The end of a run that cannot panic, as one of a run that could. -/
def unharmed {ε σ α : Type} : EStateM.Result ε σ α → EStateM.Result (Fault ε) σ α
  | .ok a s => .ok a s
  | .error e s => .error (.error e) s

/-- What comes of a program that may fail but not panic. -/
def attempt {ε ε' σ α : Type} (p : EStateM (Fault ε) σ α) :
    EStateM (Fault ε') σ (Except ε α) := fun s =>
  match p s with
  | .ok a t => .ok (.ok a) t
  | .error (.error e) t => .ok (.error e) t
  | .error .panic t => .error .panic t

/-- What a program answers, with the state as it was before. -/
def probe {ε σ α : Type} (p : EStateM ε σ α) : EStateM ε σ α := fun s =>
  match p s with
  | .ok a _ => .ok a s
  | .error e _ => .error e s

section
variable {ε ε' σ α : Type}

theorem attempt_apply (p : EStateM (Fault ε) σ α) (s : σ) :
    (attempt p : EStateM (Fault ε') σ (Except ε α)) s =
      match p s with
      | .ok a t => .ok (.ok a) t
      | .error (.error e) t => .ok (.error e) t
      | .error .panic t => .error .panic t := rfl

theorem probe_apply (p : EStateM ε σ α) (s : σ) :
    probe p s =
      match p s with
      | .ok a _ => .ok a s
      | .error e _ => .error e s := rfl

end

/-- A run that could panic fails with the error of one that cannot. -/
def Raised {ε : Type} (e : ε) (f : Fault ε) : Prop :=
  f = .error e

section
variable {ε ε' σ α α' : Type} {alike alike' : σ → σ → Prop} {answer answer' : α → α' → Prop}
  {error : ε → ε' → Prop}

theorem Matched.mono {r : EStateM.Result ε σ α} {r' : EStateM.Result ε' σ α'}
    (h : Matched alike answer error r r') (hanswer : ∀ a b, answer a b → answer' a b)
    (halike : ∀ s t, alike s t → alike' s t) : Matched alike' answer' error r r' := by
  cases h with
  | ok answers states => exact .ok (hanswer _ _ answers) (halike _ _ states)
  | error errors states => exact .error errors (halike _ _ states)

end

/-! ### Agreement -/

/-- A state that is the same as another one, and of which something holds. -/
structure InStep {σ : Type} (good : σ → Prop) (s t : σ) : Prop where
  same : t = s
  good : good s

/-- From a state of which something holds, the second program does what the first one does, and
never panics; and the same holds of the state it leads to. -/
abbrev Agrees {ε σ α : Type} (good : σ → Prop) (p : EStateM ε σ α) (q : EStateM (Fault ε) σ α) :
    Prop :=
  Simulates (InStep good) Eq Raised p q

section
variable {ε σ α β : Type} {good : σ → Prop} {p : EStateM ε σ α} {q : EStateM (Fault ε) σ α} {s : σ}

theorem matched_ok {a : α} (h : good s) :
    Matched (InStep good) Eq Raised (.ok a s : EStateM.Result ε σ α) (.ok a s) :=
  .ok rfl ⟨rfl, h⟩

theorem matched_error {e : ε} (h : good s) :
    Matched (InStep good) Eq Raised (.error e s : EStateM.Result ε σ α) (.error (.error e) s) :=
  .error rfl ⟨rfl, h⟩

/-- It is enough to run both from one state. -/
theorem agrees_of_runs (h : ∀ s, good s → Matched (InStep good) Eq Raised (p s) (q s)) :
    Agrees good p q := by
  rintro _ s ⟨rfl, hs⟩
  exact h s hs

theorem Agrees.matched (h : Agrees good p q) (hs : good s) :
    Matched (InStep good) Eq Raised (p s) (q s) :=
  h s s ⟨rfl, hs⟩

/-- The ends of two runs that agree. -/
theorem Agrees.runs (h : Agrees good p q) (hs : good s) :
    (∃ a t, p s = .ok a t ∧ q s = .ok a t ∧ good t) ∨
      ∃ e t, p s = .error e t ∧ q s = .error (.error e) t ∧ good t := by
  have hrun := h.matched hs
  generalize p s = r, q s = r' at hrun ⊢
  cases hrun with
  | ok answers states =>
    rw [answers, states.same]
    exact .inl ⟨_, _, rfl, rfl, states.good⟩
  | error errors states =>
    rw [show _ = _ from errors, states.same]
    exact .inr ⟨_, _, rfl, rfl, states.good⟩

theorem Agrees.eq_unharmed (h : Agrees good p q) (hs : good s) :
    q s = unharmed (p s) ∧ good (stateOf (p s)) := by
  rcases h.runs hs with ⟨a, t, hp, hq, ht⟩ | ⟨e, t, hp, hq, ht⟩
  · rw [hp, hq]
    exact ⟨rfl, ht⟩
  · rw [hp, hq]
    exact ⟨rfl, ht⟩

theorem agrees_map {f : α → β} (h : Agrees good p q) : Agrees good (f <$> p) (f <$> q) :=
  simulates_after h fun _ => simulates_pure rfl

theorem size_of_inStep {size : σ → Nat} (s t : σ) (h : InStep good s t) : size t = size s := by
  rw [h.same]

/-- A loop whose rounds agree. -/
theorem agrees_unfold {size : σ → Nat} {step : β → EStateM ε σ (List α × Option β)}
    {step' : β → EStateM (Fault ε) σ (List α × Option β)}
    (h : ∀ b, Agrees good (step b) (step' b)) (b : β) :
    Agrees good (unfold size step b) (unfold size step' b) := by
  have hround : ∀ b,
      Simulates (InStep good) (fun r r' => r' = (r.1.map id, r.2)) Raised (step b) (step' b) := by
    intro b s t hs
    refine (h b s t hs).mono ?_ fun _ _ => id
    rintro r _ rfl
    rw [List.map_id]
  intro s t hs
  refine (simulates_unfold size_of_inStep hround b s t hs).mono ?_ fun _ _ => id
  rintro as _ rfl
  exact (List.map_id as).symm

end

end Stylesheet
