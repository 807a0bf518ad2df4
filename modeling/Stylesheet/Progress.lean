/-!
# Loops and rules that use up their input

Reading repeats and nests: a list of statements goes on as long as there are statements, and a
block may hold blocks. Both end because each round and each nested rule leaves less to read than it
found. The two combinators here make that the only reason: they compare the size of what is left
and go no further where it has not shrunk. A rule that always uses something up never notices.

`unfold` repeats a step and collects what it yields. `recurse` gives a rule to itself.
-/

namespace Stylesheet

variable {ε σ α β : Type}

/-- Repeats a step, collecting what it yields, until it yields nothing to go on with. A step that
leaves as much to read as it found is the last one. -/
def unfold (size : σ → Nat) (step : β → EStateM ε σ (List α × Option β)) (b : β) :
    EStateM ε σ (List α) := fun s =>
  match step b s with
  | .error e s' => .error e s'
  | .ok (found, none) s' => .ok found s'
  | .ok (found, some b') s' =>
    if size s' < size s then
      match unfold size step b' s' with
      | .error e s'' => .error e s''
      | .ok more s'' => .ok (found ++ more) s''
    else
      .ok found s'
termination_by s => size s

/-- A rule that refers to itself. Where less is left to read than at its start it may be used again;
elsewhere `stuck` stands in for it. -/
def recurse (size : σ → Nat) (stuck : EStateM ε σ α)
    (rule : EStateM ε σ α → EStateM ε σ α) : EStateM ε σ α := fun s =>
  rule (fun s' => if size s' < size s then recurse size stuck rule s' else stuck s') s
termination_by s => size s

theorem unfold_apply (size : σ → Nat) (step : β → EStateM ε σ (List α × Option β)) (b : β) (s : σ) :
    unfold size step b s =
      match step b s with
      | .error e s' => .error e s'
      | .ok (found, none) s' => .ok found s'
      | .ok (found, some b') s' =>
        if size s' < size s then
          match unfold size step b' s' with
          | .error e s'' => .error e s''
          | .ok more s'' => .ok (found ++ more) s''
        else
          .ok found s' := by
  rw [unfold]

theorem recurse_apply (size : σ → Nat) (stuck : EStateM ε σ α)
    (rule : EStateM ε σ α → EStateM ε σ α) (s : σ) :
    recurse size stuck rule s =
      rule (fun s' => if size s' < size s then recurse size stuck rule s' else stuck s') s := by
  rw [recurse]

/-- Repeats a step as long as it answers `true`. -/
def repeatWhile (size : σ → Nat) (step : EStateM ε σ Bool) : EStateM ε σ Unit := do
  let _ ← unfold size (fun _ => do
    let again ← step
    return ([()], if again then some () else none)) ()

end Stylesheet
