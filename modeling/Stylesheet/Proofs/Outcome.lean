import Stylesheet.Progress

/-!
# What a run ends in

A run over a state ends in an answer or in an error, and in a state either way.  `Ends` says what
holds of the two ends of a run.  It is computed through a program from its end to its beginning
(`ends_bind` and the lemmas for the single steps), and it has one rule for each of the two
combinators of `Progress`: `Ends.unfold` takes an invariant of what was found so far, and
`Ends.recurse` takes what a rule may expect of itself.
-/
namespace Stylesheet

variable {ε σ α β : Type}

/-! ### Single steps -/

theorem bind_apply (p : EStateM ε σ α) (f : α → EStateM ε σ β) (s : σ) :
    (p >>= f) s = match p s with
      | .ok a t => f a t
      | .error e t => .error e t := rfl

theorem pure_apply (a : α) (s : σ) : (pure a : EStateM ε σ α) s = .ok a s := rfl

theorem get_apply (s : σ) : (get : EStateM ε σ σ) s = .ok s s := rfl

theorem modify_apply (f : σ → σ) (s : σ) :
    (modify f : EStateM ε σ PUnit) s = .ok ⟨⟩ (f s) := rfl

theorem map_apply (f : α → β) (p : EStateM ε σ α) (s : σ) :
    (f <$> p) s = match p s with
      | .ok a t => .ok (f a) t
      | .error e t => .error e t := by
  show EStateM.map f p s = _
  unfold EStateM.map
  cases p s <;> rfl

/-- Where two runs one after the other give an answer, both do. -/
theorem exists_of_bind {p : EStateM ε σ α} {f : α → EStateM ε σ β} {s u : σ} {b : β}
    (h : (p >>= f) s = .ok b u) : ∃ a t, p s = .ok a t ∧ f a t = .ok b u := by
  rw [bind_apply] at h
  cases hp : p s with
  | ok a t =>
    rw [hp] at h
    exact ⟨a, t, rfl, h⟩
  | error e t =>
    rw [hp] at h
    cases h

/-- The state a run ends in. -/
def stateOf : EStateM.Result ε σ α → σ
  | .ok _ t => t
  | .error _ t => t

/-- Whether a run gives an answer that passes a test. -/
def answers (r : EStateM.Result ε σ α) (p : α → σ → Bool) : Bool :=
  match r with
  | .ok a t => p a t
  | .error _ _ => false

theorem exists_of_answers {r : EStateM.Result ε σ α} {p : α → σ → Bool}
    (h : answers r p = true) : ∃ a t, r = .ok a t ∧ p a t = true := by
  cases r with
  | ok a t => exact ⟨a, t, rfl, h⟩
  | error e t => cases h

/-- Whether a run gives an error that passes a test. -/
def fails (r : EStateM.Result ε σ α) (p : ε → σ → Bool) : Bool :=
  match r with
  | .ok _ _ => false
  | .error e t => p e t

theorem exists_of_fails {r : EStateM.Result ε σ α} {p : ε → σ → Bool}
    (h : fails r p = true) : ∃ e t, r = .error e t ∧ p e t = true := by
  cases r with
  | ok a t => cases h
  | error e t => exact ⟨e, t, rfl, h⟩

/-! ### Both ends of a run -/

/-- The run of `p` from `s` ends in an answer with `post` or in an error with `fail`. -/
def Ends (p : EStateM ε σ α) (s : σ) (post : α → σ → Prop) (fail : ε → σ → Prop) : Prop :=
  match p s with
  | .ok a t => post a t
  | .error e t => fail e t

section
variable {p : EStateM ε σ α} {s t : σ} {post post' : α → σ → Prop} {fail fail' : ε → σ → Prop}

theorem Ends.of_ok (h : Ends p s post fail) {a : α} (hp : p s = .ok a t) : post a t := by
  rw [Ends, hp] at h
  exact h

theorem Ends.of_error (h : Ends p s post fail) {e : ε} (hp : p s = .error e t) : fail e t := by
  rw [Ends, hp] at h
  exact h

theorem Ends.mono (h : Ends p s post fail) (hpost : ∀ a t, post a t → post' a t)
    (hfail : ∀ e t, fail e t → fail' e t) : Ends p s post' fail' := by
  unfold Ends at h ⊢
  split
  · next a t hp => rw [hp] at h; exact hpost a t h
  · next e t hp => rw [hp] at h; exact hfail e t h

/-- What is known of an answer that a run is known to give. -/
theorem Ends.and_of_ok (h : Ends p s post fail) (hok : ∀ a t, p s = .ok a t → post' a t) :
    Ends p s (fun a t => post a t ∧ post' a t) fail := by
  unfold Ends at h ⊢
  split
  · next a t hp => rw [hp] at h; exact ⟨h, hok a t hp⟩
  · next e t hp => rw [hp] at h; exact h

theorem ends_stateOf {inv : σ → Prop} :
    Ends p s (fun _ => inv) (fun _ => inv) ↔ inv (stateOf (p s)) := by
  unfold Ends stateOf
  cases p s <;> exact Iff.rfl

theorem ends_bind {f : α → EStateM ε σ β} {post : β → σ → Prop} :
    Ends (p >>= f) s post fail ↔ Ends p s (fun a t => Ends (f a) t post fail) fail := by
  unfold Ends
  rw [bind_apply]
  cases p s <;> exact Iff.rfl

theorem ends_pure {a : α} : Ends (pure a : EStateM ε σ α) s post fail ↔ post a s := Iff.rfl

theorem ends_get {post : σ → σ → Prop} :
    Ends (get : EStateM ε σ σ) s post fail ↔ post s s := Iff.rfl

theorem ends_modify {f : σ → σ} {post : PUnit → σ → Prop} :
    Ends (modify f : EStateM ε σ PUnit) s post fail ↔ post ⟨⟩ (f s) := Iff.rfl

end

/-! ### Loops and rules that use themselves -/

/-- **What a round keeps, a loop keeps.**  `inv` speaks of what was found so far, of what the next
round is given, and of the state; a round that is the last, or that leaves as much to read as it
found, has to give the postcondition. -/
theorem Ends.unfold {size : σ → Nat} {step : β → EStateM ε σ (List α × Option β)}
    (inv : List α → β → σ → Prop) {post : List α → σ → Prop} {fail : ε → σ → Prop}
    (round : ∀ found b s, inv found b s → Ends (step b) s
      (fun r t => match r.2 with
        | none => post (found ++ r.1) t
        | some b' => if size t < size s then inv (found ++ r.1) b' t else post (found ++ r.1) t)
      fail)
    {b : β} {s : σ} (start : inv [] b s) : Ends (unfold size step b) s post fail := by
  suffices loop : ∀ n found b s, size s = n → inv found b s →
      Ends (Stylesheet.unfold size step b) s (fun more => post (found ++ more)) fail from
    loop (size s) [] b s rfl start
  intro n
  induction n using Nat.strongRecOn with
  | ind n ih =>
    intro found b s hn hinv
    have hround := round found b s hinv
    unfold Ends at hround ⊢
    rw [unfold_apply]
    cases hstep : step b s with
    | error e t => rw [hstep] at hround; exact hround
    | ok r t =>
      obtain ⟨now, next⟩ := r
      rw [hstep] at hround
      cases next with
      | none => exact hround
      | some b' =>
        simp only at hround ⊢
        by_cases hlt : size t < size s
        · rw [if_pos hlt] at hround ⊢
          have hmore := ih (size t) (hn ▸ hlt) (found ++ now) b' t rfl hround
          unfold Ends at hmore
          cases hrest : Stylesheet.unfold size step b' t with
          | error e u => rw [hrest] at hmore; exact hmore
          | ok more u => rw [hrest] at hmore; simpa using hmore
        · rw [if_neg hlt] at hround ⊢
          exact hround

/-- **What a rule gives whenever it is given it, the rule that uses itself gives.** -/
theorem Ends.recurse {size : σ → Nat} {stuck : EStateM ε σ α}
    {rule : EStateM ε σ α → EStateM ε σ α} (pre : σ → Prop) {post : σ → α → σ → Prop}
    {fail : σ → ε → σ → Prop}
    (stuck_ends : ∀ s, pre s → Ends stuck s (post s) (fail s))
    (rule_ends : ∀ p, (∀ s, pre s → Ends p s (post s) (fail s)) →
      ∀ s, pre s → Ends (rule p) s (post s) (fail s))
    {s : σ} (start : pre s) : Ends (recurse size stuck rule) s (post s) (fail s) := by
  induction hn : size s using Nat.strongRecOn generalizing s with
  | ind n ih =>
    unfold Ends
    rw [recurse_apply]
    refine rule_ends _ (fun t ht => ?_) s start
    unfold Ends
    by_cases hlt : size t < size s
    · simp only [if_pos hlt]
      exact ih (size t) (hn ▸ hlt) ht rfl
    · simp only [if_neg hlt]
      exact stuck_ends t ht

/-- Loops whose rounds agree as long as an invariant holds agree. -/
theorem unfold_congr {size : σ → Nat} {step step' : β → EStateM ε σ (List α × Option β)}
    (inv : σ → Prop)
    (round : ∀ b s, inv s → step b s = step' b s ∧
      Ends (step' b) s (fun _ => inv) (fun _ _ => True))
    (b : β) {s : σ} (start : inv s) : unfold size step b s = unfold size step' b s := by
  induction hn : size s using Nat.strongRecOn generalizing b s with
  | ind n ih =>
    obtain ⟨hstep, hinv⟩ := round b s start
    rw [unfold_apply, unfold_apply, hstep]
    cases hr : step' b s with
    | error e t => rfl
    | ok r t =>
      obtain ⟨found, next⟩ := r
      cases next with
      | none => rfl
      | some b' =>
        simp only
        by_cases hlt : size t < size s
        · rw [if_pos hlt, if_pos hlt, ih (size t) (hn ▸ hlt) b' (hinv.of_ok hr) rfl]
        · rw [if_neg hlt, if_neg hlt]

end Stylesheet
