/-!
# Pools of tasks

A pool runs a list of tasks, a limited number of them at a time. Tasks are admitted in order. An
admitted task first looks whether the pool has been cancelled: it then gives up, and its outcome is
the cancellation. Otherwise it works, and ends with a result or with an error. The first error that
is recorded is the pool's error, and recording it cancels the pool.

Between its end and the record of its outcome, a task may still count as one that runs, or no
longer. `Pool.keepsRoom` says which: task groups in which a task gives its room back only after its
error has been kept have it set. It is an assumption about the group, and what depends on it says
so.

A schedule is a list of events; `Pool.step` says which events can happen and what they do.
`Pool.runSerial` is the schedule that admits a task only when the one before it has been recorded,
which every pool allows.
-/

namespace Dlx

/-- What is fixed while a pool runs: the outcome of each task's work, the error of a task that gives
up, whether the pool is cancelled from outside, how many tasks may run at a time, and whether a task
that has ended is one of them until its outcome is recorded. -/
structure Pool (ε α : Type) where
  work : Nat → Except ε α
  cancellation : ε
  cancelled : Bool
  limit : Nat
  keepsRoom : Bool

namespace Pool

inductive Event where
  /-- The next task is admitted. -/
  | enter
  /-- An admitted task looks whether the pool has been cancelled. -/
  | check (task : Nat)
  /-- A task ends its work. -/
  | finish (task : Nat)
  /-- The outcome of a task that has ended is recorded. -/
  | record (task : Nat)
  deriving DecidableEq, Repr

/-- A pool between two events: tasks that wait, that have been admitted, that work, and that have
ended with an outcome; the results recorded so far, and the first error. -/
structure State (ε α : Type) where
  waiting : List Nat
  admitted : List Nat
  working : List Nat
  ended : List (Nat × Except ε α)
  results : List (Nat × α)
  error : Option ε

variable {ε α : Type}

def State.start (tasks : Nat) : State ε α :=
  ⟨List.range tasks, [], [], [], [], none⟩

/-- The tasks that have been admitted and not been recorded. -/
def State.running (s : State ε α) : List Nat :=
  s.admitted ++ s.working ++ s.ended.map Prod.fst

def State.isDone (s : State ε α) : Bool :=
  s.waiting.isEmpty && s.running.isEmpty

/-- The state with an outcome of a task recorded; an error counts only when there is none yet. -/
def State.settle (s : State ε α) (task : Nat) : Except ε α → State ε α
  | .ok result => { s with results := s.results ++ [(task, result)] }
  | .error e => { s with error := s.error.or (some e) }

/-- How much of the room is taken. -/
def occupied (p : Pool ε α) (s : State ε α) : Nat :=
  if p.keepsRoom then s.running.length else s.admitted.length + s.working.length

/-- The next task is admitted when there is room. -/
def enter (p : Pool ε α) (s : State ε α) : Option (State ε α) :=
  match s.waiting with
  | [] => none
  | task :: rest =>
    if p.occupied s < max p.limit 1 then
      some { s with waiting := rest, admitted := s.admitted ++ [task] }
    else none

/-- An admitted task gives up when the pool has been cancelled, and works otherwise. -/
def check (p : Pool ε α) (s : State ε α) (task : Nat) : Option (State ε α) :=
  if task ∈ s.admitted then
    let admitted := s.admitted.erase task
    if p.cancelled || s.error.isSome then
      some { s with admitted, ended := s.ended ++ [(task, .error p.cancellation)] }
    else some { s with admitted, working := s.working ++ [task] }
  else none

def finish (p : Pool ε α) (s : State ε α) (task : Nat) : Option (State ε α) :=
  if task ∈ s.working then
    some { s with working := s.working.erase task, ended := s.ended ++ [(task, p.work task)] }
  else none

def record (s : State ε α) (task : Nat) : Option (State ε α) :=
  match s.ended.lookup task with
  | none => none
  | some outcome =>
    some ({ s with ended := s.ended.eraseP (fun e => task == e.1) }.settle task outcome)

/-- What an event does, when it can happen. -/
def step (p : Pool ε α) (s : State ε α) : Event → Option (State ε α)
  | .enter => p.enter s
  | .check task => p.check s task
  | .finish task => p.finish s task
  | .record task => record s task

def run (p : Pool ε α) (s : State ε α) (schedule : List Event) : Option (State ε α) :=
  schedule.foldlM p.step s

/-- The results in the order of the tasks, or the error. -/
def State.outcome (tasks : Nat) (s : State ε α) : Except ε (List α) :=
  match s.error with
  | some e => .error e
  | none => .ok ((List.range tasks).filterMap (fun task => s.results.lookup task))

/-! ## One task at a time -/

/-- The event that brings one task to its end before the next is admitted. -/
def nextEvent (s : State ε α) : Event :=
  match s.ended, s.working, s.admitted with
  | e :: _, _, _ => .record e.1
  | [], task :: _, _ => .finish task
  | [], [], task :: _ => .check task
  | [], [], [] => .enter

/-- Runs a pool one task at a time, for at most `fuel` events. -/
def serialFrom (p : Pool ε α) : (fuel : Nat) → State ε α → State ε α
  | 0, s => s
  | fuel + 1, s =>
    match p.step s (nextEvent s) with
    | some s' => serialFrom p fuel s'
    | none => s

/-- The outcome of running a pool one task at a time: a task has four events at the most. -/
def runSerial (p : Pool ε α) (tasks : Nat) : Except ε (List α) :=
  (p.serialFrom (4 * tasks) (State.start tasks)).outcome tasks

end Pool

end Dlx
