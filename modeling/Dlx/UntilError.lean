/-!
# Stopping at the first error

Much of the assembler goes along a list and stops at the first element that is wrong, with what came
before it still in hand. `untilError` does so for outcomes that stand on their own, `runUntil` for
steps that pass a state on.
-/

namespace Dlx

variable {ε σ α : Type}

/-- The results in front of the first error, and that error. -/
def untilError (outcomes : List (Except ε α)) : List α × Option ε :=
  outcomes.foldr
    (fun outcome after =>
      match outcome with
      | .ok a => (a :: after.1, after.2)
      | .error e => ([], some e))
    ([], none)

/-- Runs a step along a list up to the first error: the state in front of it, and the error. -/
def runUntil (step : σ → α → Except ε σ) : σ → List α → σ × Option ε
  | s, [] => (s, none)
  | s, a :: rest =>
    match step s a with
    | .ok s' => runUntil step s' rest
    | .error e => (s, some e)

end Dlx
