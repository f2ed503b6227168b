import Dlx.Assembly.Pool
import Dlx.Proofs.Outcome

/-!
# Schedules

A pool can run its tasks in many orders. A schedule is one of them, event by event.

* `Pool.Step`: everything that an event can do
* `Pool.Turn`: the same, seen from the tasks that run
* `Pool.Sound`: what holds between any two events
* `Pool.InOrder`: what holds besides when there is room for one task only, and a task keeps it until
  its outcome is recorded
* `Pool.exists_run_isDone`, `Pool.length_add_left_le`: every schedule can be brought to its end, and
  none goes on forever

A task gives up only after an error has been recorded, so that giving up is never the first error,
unless the pool was cancelled from outside.
-/

namespace Dlx

namespace Pool

variable {ε α : Type} {p : Pool ε α} {s s' : State ε α} {tasks : Nat}

/-! ## One event -/

/-- The tasks that have not been recorded, those that wait last. -/
def State.pending (s : State ε α) : List Nat :=
  s.running ++ s.waiting

/-- What an event can do. -/
inductive Step (p : Pool ε α) (s : State ε α) : State ε α → Prop where
  | enter {task : Nat} {rest : List Nat} (hwaiting : s.waiting = task :: rest)
      (hroom : p.occupied s < max p.limit 1) :
      Step p s { s with waiting := rest, admitted := s.admitted ++ [task] }
  | giveUp {task : Nat} (htask : task ∈ s.admitted)
      (hcancelled : p.cancelled = true ∨ s.error.isSome = true) :
      Step p s
        { s with
          admitted := s.admitted.erase task
          ended := s.ended ++ [(task, .error p.cancellation)] }
  | work {task : Nat} (htask : task ∈ s.admitted) :
      Step p s { s with admitted := s.admitted.erase task, working := s.working ++ [task] }
  | finish {task : Nat} (htask : task ∈ s.working) :
      Step p s { s with working := s.working.erase task, ended := s.ended ++ [(task, p.work task)] }
  | record {task : Nat} {outcome : Except ε α} {front back : List (Nat × Except ε α)}
      (hended : s.ended = front ++ (task, outcome) :: back) :
      Step p s ({ s with ended := front ++ back }.settle task outcome)

theorem step_of_record {task : Nat} (h : record s task = some s') : Step p s s' := by
  unfold record at h
  split at h
  · cases h
  · rename_i outcome hlookup
    cases h
    rcases List.lookup_eq_some_iff.1 hlookup with ⟨front, back, hended, hfront⟩
    -- What is erased is the entry that was found: no entry in front of it has the same task.
    have herase : s.ended.eraseP (fun e => task == e.1) = front ++ back := by
      have hother : ∀ e ∈ front, ¬ (task == e.1) = true := by
        intro e he
        simpa using hfront e he
      rw [hended, List.eraseP_append_right _ hother, List.eraseP_cons_of_pos (by simp)]
    rw [herase]
    exact .record hended

theorem step_of_step {event : Event} (h : p.step s event = some s') : Step p s s' := by
  cases event with
  | enter =>
      change p.enter s = some s' at h
      unfold enter at h
      split at h
      · cases h
      · rename_i task rest hwaiting
        split at h
        · rename_i hroom
          cases h
          exact .enter hwaiting hroom
        · cases h
  | check task =>
      change p.check s task = some s' at h
      unfold check at h
      split at h
      · rename_i htask
        dsimp only at h
        split at h
        · rename_i hcancelled
          cases h
          exact .giveUp htask (by simpa using hcancelled)
        · cases h
          exact .work htask
      · cases h
  | finish task =>
      change p.finish s task = some s' at h
      unfold finish at h
      split at h
      · rename_i htask
        cases h
        exact .finish htask
      · cases h
  | record task => exact step_of_record h

/-! ## What an event changes -/

/-- Settling a task moves no other one. -/
theorem State.settle_keeps (s : State ε α) (task : Nat) (outcome : Except ε α) :
    (s.settle task outcome).waiting = s.waiting ∧ (s.settle task outcome).running = s.running ∧
      (s.settle task outcome).ended = s.ended := by
  cases outcome with
  | error e => exact ⟨rfl, rfl, rfl⟩
  | ok result => exact ⟨rfl, rfl, rfl⟩

theorem State.count_running (s : State ε α) (task : Nat) :
    s.running.count task =
      s.admitted.count task + s.working.count task + (s.ended.map Prod.fst).count task := by
  rw [State.running, List.count_append, List.count_append]

/-- The three ways in which an event touches the tasks that run: one is admitted, one moves on, or
one is recorded. Only the last of them changes the results or the error. -/
inductive Turn (p : Pool ε α) (s s' : State ε α) : Prop where
  | admits (task : Nat) (hwaiting : s.waiting = task :: s'.waiting)
      (hrunning : s'.running.Perm (task :: s.running)) (hroom : p.occupied s < max p.limit 1)
      (hresults : s'.results = s.results) (herror : s'.error = s.error)
  | moves (hwaiting : s'.waiting = s.waiting) (hrunning : s'.running.Perm s.running)
      (hresults : s'.results = s.results) (herror : s'.error = s.error)
  | records (task : Nat) (outcome : Except ε α) (hended : (task, outcome) ∈ s.ended)
      (hwaiting : s'.waiting = s.waiting) (hrunning : s.running.Perm (task :: s'.running))
      (hresults : s'.results = (s.settle task outcome).results)
      (herror : s'.error = (s.settle task outcome).error)

theorem Step.turn (h : Step p s s') : Turn p s s' := by
  -- Lists of tasks are compared by how often they hold a task.
  cases h with
  | @enter task rest hwaiting hroom =>
      refine .admits task hwaiting (List.perm_iff_count.2 fun other => ?_) hroom rfl rfl
      simp only [List.count_cons, State.count_running, List.count_append, List.count_nil]
      omega
  | @giveUp task htask hcancelled =>
      refine .moves rfl (List.perm_iff_count.2 fun other => ?_) rfl rfl
      have herase := (List.perm_cons_erase htask).count_eq other
      simp only [List.count_cons, State.count_running, List.map_append, List.count_append,
        List.map_cons, List.map_nil, List.count_nil] at herase ⊢
      omega
  | @work task htask =>
      refine .moves rfl (List.perm_iff_count.2 fun other => ?_) rfl rfl
      have herase := (List.perm_cons_erase htask).count_eq other
      simp only [List.count_cons, State.count_running, List.count_append, List.count_nil]
        at herase ⊢
      omega
  | @finish task htask =>
      refine .moves rfl (List.perm_iff_count.2 fun other => ?_) rfl rfl
      have herase := (List.perm_cons_erase htask).count_eq other
      simp only [List.count_cons, State.count_running, List.map_append, List.count_append,
        List.map_cons, List.map_nil, List.count_nil] at herase ⊢
      omega
  | @record task outcome front back hended =>
      have hmem : (task, outcome) ∈ s.ended := by simp [hended]
      have hrunning : s.running.Perm
          (task ::
            (({ s with ended := front ++ back } : State ε α).settle task outcome).running) := by
        refine List.perm_iff_count.2 fun other => ?_
        rw [(State.settle_keeps _ task outcome).2.1]
        simp only [List.count_cons, State.count_running, hended, List.map_append, List.count_append,
          List.map_cons]
        omega
      refine .records task outcome hmem (State.settle_keeps _ task outcome).1 hrunning ?_ ?_
      · cases outcome with
        | error e => rfl
        | ok result => rfl
      · cases outcome with
        | error e => rfl
        | ok result => rfl

/-- A task that has ended did its work, or it gave up because the pool was cancelled. -/
theorem Step.mem_ended (h : Step p s s') {e : Nat × Except ε α} (he : e ∈ s'.ended) :
    e ∈ s.ended ∨ e.2 = p.work e.1 ∨
      e.2 = .error p.cancellation ∧ (p.cancelled = true ∨ s.error.isSome = true) := by
  cases h with
  | enter | work => exact .inl he
  | giveUp htask hcancelled =>
      rcases List.mem_append.1 he with hold | hnew
      · exact .inl hold
      · cases List.mem_singleton.1 hnew
        exact .inr (.inr ⟨rfl, hcancelled⟩)
  | finish htask =>
      rcases List.mem_append.1 he with hold | hnew
      · exact .inl hold
      · cases List.mem_singleton.1 hnew
        exact .inr (.inl rfl)
  | @record task outcome front back hended =>
      rw [(State.settle_keeps _ task outcome).2.2] at he
      rw [hended]
      exact .inl ((List.sublist_cons_self _ _).append_left front |>.subset he)

/-! ## Between two events -/

/-- What holds of a pool between two events. -/
structure Sound (p : Pool ε α) (tasks : Nat) (s : State ε α) : Prop where
  known : ∀ task ∈ s.pending, task < tasks
  kept : s.error = none → ∀ task < tasks, task ∈ s.pending ∨ ∃ result, (task, result) ∈ s.results
  ended : ∀ e ∈ s.ended, e.2 = p.work e.1 ∨
    e.2 = .error p.cancellation ∧ (p.cancelled = true ∨ s.error.isSome = true)
  results : ∀ r ∈ s.results, p.work r.1 = .ok r.2
  error : ∀ e, s.error = some e →
    e = p.cancellation ∧ p.cancelled = true ∨ ∃ task < tasks, p.work task = .error e

theorem sound_start (p : Pool ε α) (tasks : Nat) : Sound p tasks (State.start tasks) where
  known := by
    intro task htask
    simpa [State.pending, State.running, State.start] using htask
  kept := by
    intro _ task htask
    left
    simpa [State.pending, State.running, State.start] using htask
  ended := by
    intro e he
    cases he
  results := by
    intro r hr
    cases hr
  error := by
    intro e he
    cases he

/-- The tasks that have not been recorded: an event leaves them as they are, or records one of
them. -/
theorem Turn.pending (h : Turn p s s') :
    s'.pending.Perm s.pending ∧ s'.results = s.results ∧ s'.error = s.error ∨
      ∃ task outcome, (task, outcome) ∈ s.ended ∧ s.pending.Perm (task :: s'.pending) ∧
        s'.results = (s.settle task outcome).results ∧
          s'.error = (s.settle task outcome).error := by
  cases h with
  | admits task hwaiting hrunning hroom hresults herror =>
      refine .inl ⟨?_, hresults, herror⟩
      rw [State.pending, State.pending, hwaiting]
      exact (hrunning.append_right _).trans List.perm_middle.symm
  | moves hwaiting hrunning hresults herror =>
      refine .inl ⟨?_, hresults, herror⟩
      rw [State.pending, State.pending, hwaiting]
      exact hrunning.append_right _
  | records task outcome hended hwaiting hrunning hresults herror =>
      refine .inr ⟨task, outcome, hended, ?_, hresults, herror⟩
      rw [State.pending, State.pending, hwaiting]
      exact hrunning.append_right _

/-- An error that has been recorded stays. -/
theorem Turn.isSome_error (h : Turn p s s') (herror : s.error.isSome = true) :
    s'.error = s.error := by
  rcases h.pending with ⟨-, -, hsame⟩ | ⟨task, outcome, -, -, -, hrecorded⟩
  · exact hsame
  · rcases Option.isSome_iff_exists.1 herror with ⟨e, he⟩
    cases outcome with
    | error e' => rw [hrecorded, State.settle, he, Option.some_or]
    | ok result => exact hrecorded

theorem Sound.mem_ended (h : Sound p tasks s) (hstep : Step p s s') {e : Nat × Except ε α}
    (he : e ∈ s'.ended) :
    e.2 = p.work e.1 ∨ e.2 = .error p.cancellation ∧
      (p.cancelled = true ∨ s'.error.isSome = true) := by
  have hkeeps : s.error.isSome = true → s'.error.isSome = true := by
    intro herror
    rw [hstep.turn.isSome_error herror]
    exact herror
  rcases hstep.mem_ended he with hold | hwork | ⟨hgaveUp, hcancelled⟩
  · exact (h.ended e hold).imp_right fun hgaveUp => ⟨hgaveUp.1, hgaveUp.2.imp_right hkeeps⟩
  · exact .inl hwork
  · exact .inr ⟨hgaveUp, hcancelled.imp_right hkeeps⟩

theorem Sound.step (h : Sound p tasks s) (hstep : Step p s s') : Sound p tasks s' := by
  rcases hstep.turn.pending with ⟨hperm, hresults, herror⟩ |
    ⟨task, outcome, hended, hperm, hresults, herror⟩
  · refine ⟨?_, ?_, fun e he => h.mem_ended hstep he, ?_, ?_⟩
    · intro task htask
      exact h.known task (hperm.mem_iff.1 htask)
    · rw [hresults, herror]
      intro hnone task htask
      exact (h.kept hnone task htask).imp_left hperm.mem_iff.2
    · rw [hresults]
      exact h.results
    · rw [herror]
      exact h.error
  · have hpending : ∀ other, other ∈ s.pending ↔ other = task ∨ other ∈ s'.pending := by
      intro other
      rw [hperm.mem_iff, List.mem_cons]
    have hknown : ∀ other ∈ s'.pending, other < tasks := by
      intro other hother
      exact h.known other ((hpending other).2 (.inr hother))
    have htask : task < tasks := h.known task ((hpending task).2 (.inl rfl))
    cases outcome with
    | ok result =>
        change s'.results = s.results ++ [(task, result)] at hresults
        change s'.error = s.error at herror
        -- A result can only come from work: giving up ends in an error.
        have hwork : p.work task = .ok result := by
          rcases h.ended _ hended with hwork | ⟨hgaveUp, -⟩
          · exact hwork.symm
          · cases hgaveUp
        refine ⟨hknown, ?_, fun e he => h.mem_ended hstep he, ?_, ?_⟩
        · rw [hresults, herror]
          intro hnone other hother
          rcases h.kept hnone other hother with hthere | ⟨old, hold⟩
          · rcases (hpending other).1 hthere with rfl | hstill
            · exact .inr ⟨result, by simp⟩
            · exact .inl hstill
          · exact .inr ⟨old, List.mem_append_left _ hold⟩
        · rw [hresults]
          intro r hr
          rcases List.mem_append.1 hr with hold | hnew
          · exact h.results r hold
          · cases List.mem_singleton.1 hnew
            exact hwork
        · rw [herror]
          exact h.error
    | error e =>
        change s'.results = s.results at hresults
        change s'.error = s.error.or (some e) at herror
        refine ⟨hknown, ?_, fun e he => h.mem_ended hstep he, ?_, ?_⟩
        · rw [herror]
          intro hnone
          simp at hnone
        · rw [hresults]
          exact h.results
        · intro e' he'
          cases hfirst : s.error with
          | some first =>
              rw [herror, hfirst, Option.some_or] at he'
              exact h.error e' (hfirst.trans he')
          | none =>
              -- The first error: nothing has been recorded that could have made the task give up.
              rw [herror, hfirst, Option.none_or] at he'
              cases he'
              rcases h.ended _ hended with hwork | ⟨hgaveUp, hcancelled⟩
              · exact .inr ⟨task, htask, hwork.symm⟩
              · have hcancelled : p.cancelled = true := by simpa [hfirst] using hcancelled
                exact .inl ⟨Except.error.inj hgaveUp, hcancelled⟩

/-- What every event preserves holds at the end of every schedule. -/
theorem run_induction {motive : State ε α → Prop} {schedule : List Event}
    (hrun : p.run s schedule = some s') (hstart : motive s)
    (hstep : ∀ {a b : State ε α}, motive a → Step p a b → motive b) : motive s' := by
  induction schedule generalizing s with
  | nil =>
      cases hrun
      exact hstart
  | cons event rest ih =>
      rw [run, List.foldlM_cons] at hrun
      rcases Option.bind_eq_some_iff.1 hrun with ⟨next, hnext, hrest⟩
      exact ih hrest (hstep hstart (step_of_step hnext))

theorem sound_of_run {schedule : List Event} (hrun : p.run (State.start tasks) schedule = some s) :
    Sound p tasks s :=
  run_induction hrun (sound_start p tasks) Sound.step

/-! ## The end of a schedule -/

theorem State.pending_of_isDone (h : s.isDone = true) : s.pending = [] := by
  have hboth : s.waiting = [] ∧ s.running = [] := by simpa [State.isDone] using h
  rw [State.pending, hboth.1, hboth.2, List.append_nil]

theorem forall₂_filterMap {β γ : Type} {f : β → Option γ} {r : β → γ → Prop} {xs : List β}
    (h : ∀ x ∈ xs, ∃ y, f x = some y ∧ r x y) : List.Forall₂ r xs (xs.filterMap f) := by
  induction xs with
  | nil => exact .nil
  | cons x xs ih =>
      rcases h x List.mem_cons_self with ⟨y, hy, hxy⟩
      rw [List.filterMap_cons_some hy]
      exact .cons hxy (ih fun x' hx' => h x' (List.mem_cons_of_mem x hx'))

/-- A pool that is done without an error has the results of all its tasks, in their order. -/
theorem Sound.outcome_of_none (h : Sound p tasks s) (hdone : s.isDone = true)
    (hnone : s.error = none) :
    ∃ results, List.Forall₂ (fun task result => p.work task = .ok result)
        (List.range tasks) results ∧
      s.outcome tasks = .ok results := by
  have hfound : ∀ task ∈ List.range tasks, ∃ result, s.results.lookup task = some result ∧
      p.work task = .ok result := by
    intro task htask
    have hrecorded : ∃ result, (task, result) ∈ s.results := by
      rcases h.kept hnone task (List.mem_range.1 htask) with hpending | hresult
      · rw [State.pending_of_isDone hdone] at hpending
        cases hpending
      · exact hresult
    rcases hrecorded with ⟨result, hresult⟩
    rcases exists_lookup_of_mem hresult with ⟨found, hlookup, hmem⟩
    exact ⟨found, hlookup, h.results _ hmem⟩
  exact ⟨_, forall₂_filterMap hfound, by rw [State.outcome, hnone]⟩

theorem State.outcome_of_error {e : ε} (h : s.error = some e) (tasks : Nat) :
    s.outcome tasks = .error e := by
  rw [State.outcome, h]

/-! ## Room for one task -/

/-- What holds between two events of a pool that has room for one task: the tasks that have not been
recorded are the last ones, and those in front of them have succeeded, or the first of them that
failed has left its error. -/
structure InOrder (p : Pool ε α) (tasks : Nat) (s : State ε α) : Prop where
  alone : s.running.length ≤ 1
  rest : ∃ count, s.pending = (List.range tasks).drop count ∧
    (s.error = none → ∀ task < count, ∃ result, p.work task = .ok result)
  first : ∀ e, s.error = some e →
    ∃ task, p.work task = .error e ∧ ∀ earlier < task, ∃ result, p.work earlier = .ok result

theorem inOrder_start (p : Pool ε α) (tasks : Nat) : InOrder p tasks (State.start tasks) where
  alone := Nat.zero_le 1
  rest := ⟨0, rfl, fun _ task htask => absurd htask (Nat.not_lt_zero task)⟩
  first := by
    intro e he
    cases he

theorem eq_of_perm_of_length_le_one {xs ys : List Nat} (h : xs.Perm ys) (hlength : ys.length ≤ 1) :
    xs = ys := by
  match ys, hlength with
  | [], _ => exact List.perm_nil.1 h
  | [task], _ => exact List.perm_singleton.1 h

theorem eq_of_drop_range {count task : Nat} {rest : List Nat}
    (h : (List.range tasks).drop count = task :: rest) :
    task = count ∧ rest = (List.range tasks).drop (count + 1) := by
  have hhead : (List.range tasks)[count]? = some task := by
    rw [← Nat.add_zero count, ← List.getElem?_drop, h]
    rfl
  have htail : rest = (List.range tasks).drop (count + 1) := by
    rw [← List.tail_drop, h, List.tail_cons]
  rcases List.getElem?_eq_some_iff.1 hhead with ⟨hlt, hget⟩
  exact ⟨by simpa using hget.symm, htail⟩

/-- An event that records nothing leaves a pool with room for one task in order. -/
theorem InOrder.of_same (h : InOrder p tasks s) (halone : s'.running.length ≤ 1)
    (hpending : s'.pending = s.pending) (herror : s'.error = s.error) : InOrder p tasks s' where
  alone := halone
  rest := by
    rw [hpending, herror]
    exact h.rest
  first := by
    rw [herror]
    exact h.first

/-- The task that is recorded is the first of those that have not been, so its error can only be the
first one. -/
theorem InOrder.of_recorded {task : Nat} {outcome : Except ε α} (h : InOrder p tasks s)
    (hwork : s.error = none → outcome = p.work task) (hrunning : s.running = [task])
    (hnone : s'.running = []) (hwaiting : s'.waiting = s.waiting)
    (herror : s'.error = (s.settle task outcome).error) :
    InOrder p tasks s' := by
  rcases h.rest with ⟨count, hpending, hsucceeded⟩
  -- One task runs, and the tasks that are left are in order, so it is the first of these.
  have hnext : task = count ∧ s.waiting = (List.range tasks).drop (count + 1) := by
    refine eq_of_drop_range ?_
    rw [← hpending, State.pending, hrunning, List.singleton_append]
  rcases hnext with ⟨rfl, hrest⟩
  have hpending' : s'.pending = (List.range tasks).drop (task + 1) := by
    rw [State.pending, hnone, hwaiting, List.nil_append, hrest]
  have halone : s'.running.length ≤ 1 := by
    rw [hnone]
    exact Nat.zero_le 1
  cases outcome with
  | ok result =>
      change s'.error = s.error at herror
      refine ⟨halone, ⟨task + 1, hpending', ?_⟩, ?_⟩
      · rw [herror]
        intro hfirst other hother
        rcases Nat.lt_succ_iff_lt_or_eq.1 hother with hearlier | rfl
        · exact hsucceeded hfirst other hearlier
        · exact ⟨result, (hwork hfirst).symm⟩
      · rw [herror]
        exact h.first
  | error e =>
      change s'.error = s.error.or (some e) at herror
      refine ⟨halone, ⟨task + 1, hpending', ?_⟩, ?_⟩
      · rw [herror]
        intro hnever
        simp at hnever
      · intro e' he'
        -- Only the first error is kept, so this one counts if there was none before.
        cases hfirst : s.error with
        | some first =>
            rw [herror, hfirst, Option.some_or] at he'
            exact h.first e' (hfirst.trans he')
        | none =>
            rw [herror, hfirst, Option.none_or] at he'
            cases he'
            exact ⟨task, (hwork hfirst).symm, hsucceeded hfirst⟩

theorem occupied_of_keepsRoom (hkeeps : p.keepsRoom = true) (s : State ε α) :
    p.occupied s = s.running.length := by
  rw [occupied, if_pos hkeeps]

theorem InOrder.step (hkeeps : p.keepsRoom = true) (hlimit : p.limit ≤ 1)
    (hopen : p.cancelled = false) (hsound : Sound p tasks s) (h : InOrder p tasks s)
    (hstep : Step p s s') : InOrder p tasks s' := by
  have halone := h.alone
  cases hstep.turn with
  | admits task hwaiting hrunning hroom hresults herror =>
      -- There is room only when no task runs, so the tasks that are left stay in their order.
      have hnone : s.running = [] := by
        rw [occupied_of_keepsRoom hkeeps] at hroom
        refine List.length_eq_zero_iff.1 ?_
        omega
      rw [hnone, List.perm_singleton] at hrunning
      refine h.of_same ?_ ?_ herror
      · rw [hrunning, List.length_singleton]
      · rw [State.pending, State.pending, hrunning, hnone, hwaiting, List.singleton_append,
          List.nil_append]
  | moves hwaiting hrunning hresults herror =>
      have hsame : s'.running = s.running := eq_of_perm_of_length_le_one hrunning halone
      refine h.of_same ?_ ?_ herror
      · rw [hsame]
        exact halone
      · rw [State.pending, State.pending, hsame, hwaiting]
  | records task outcome hended hwaiting hrunning hresults herror =>
      have hlength := hrunning.length_eq
      rw [List.length_cons] at hlength
      have hnone : s'.running = [] := by
        refine List.length_eq_zero_iff.1 ?_
        omega
      rw [hnone, List.perm_singleton] at hrunning
      refine h.of_recorded ?_ hrunning hnone hwaiting herror
      intro hfirst
      rcases hsound.ended _ hended with hwork | ⟨-, hcancelled⟩
      · exact hwork
      · simp [hopen, hfirst] at hcancelled

/-- A pool with room for one task, which a task keeps until its outcome is recorded, records its
tasks in their order. -/
theorem inOrder_of_run {schedule : List Event} (hkeeps : p.keepsRoom = true) (hlimit : p.limit ≤ 1)
    (hopen : p.cancelled = false) (hrun : p.run (State.start tasks) schedule = some s) :
    InOrder p tasks s := by
  have hboth : Sound p tasks s ∧ InOrder p tasks s := by
    refine run_induction (motive := fun s => Sound p tasks s ∧ InOrder p tasks s) hrun
      ⟨sound_start p tasks, inOrder_start p tasks⟩ ?_
    rintro a b ⟨hsound, hinOrder⟩ hstep
    exact ⟨hsound.step hstep, hinOrder.step hkeeps hlimit hopen hsound hstep⟩
  exact hboth.2

-- A task that gives its room back as soon as it ends can be overtaken on the way to its record.
example :
    ((⟨fun task => .error task, 7, false, 1, false⟩ : Pool Nat Unit).run (.start 2)
      [.enter, .check 0, .finish 0, .enter, .check 1, .finish 1, .record 1, .record 0]).map
          State.error =
        some (some 1) := by
  decide

/-! ## Every schedule ends -/

/-- How many events are left at the most: four for a task that waits, and one less for each that it
has had. -/
def State.left (s : State ε α) : Nat :=
  4 * s.waiting.length + 3 * s.admitted.length + 2 * s.working.length + s.ended.length

theorem Step.left_lt (h : Step p s s') : s'.left < s.left := by
  -- An event takes a task out of one list, with its weight there, and puts it into the next one,
  -- with one less.
  cases h with
  | enter hwaiting hroom =>
      simp only [State.left, hwaiting, List.length_append, List.length_cons, List.length_nil]
      omega
  | giveUp htask hcancelled =>
      have hpos := List.length_pos_of_mem htask
      simp only [State.left, List.length_erase_of_mem htask, List.length_append, List.length_cons,
        List.length_nil]
      omega
  | work htask =>
      have hpos := List.length_pos_of_mem htask
      simp only [State.left, List.length_erase_of_mem htask, List.length_append, List.length_cons,
        List.length_nil]
      omega
  | finish htask =>
      have hpos := List.length_pos_of_mem htask
      simp only [State.left, List.length_erase_of_mem htask, List.length_append, List.length_cons,
        List.length_nil]
      omega
  | @record task outcome front back hended =>
      cases outcome with
      | error e | ok result =>
          simp only [State.settle, State.left, hended, List.length_append, List.length_cons]
          omega

theorem length_add_left_le {schedule : List Event} (hrun : p.run s schedule = some s') :
    schedule.length + s'.left ≤ s.left := by
  induction schedule generalizing s with
  | nil =>
      cases hrun
      exact Nat.le_of_eq (Nat.zero_add _)
  | cons event rest ih =>
      rw [run, List.foldlM_cons] at hrun
      rcases Option.bind_eq_some_iff.1 hrun with ⟨next, hnext, hrest⟩
      have hlt := (step_of_step hnext).left_lt
      have hle := ih hrest
      rw [List.length_cons]
      omega

/-- A pool that is not done has an event that can happen: that of a task that runs, or else there is
room. -/
theorem isSome_step_nextEvent (p : Pool ε α) (h : s.isDone = false) :
    (p.step s (nextEvent s)).isSome = true := by
  rcases s with ⟨waiting, admitted, working, ended, results, error⟩
  -- From the last stage to the first: a stage that is not empty has an event, and where no task
  -- runs there is room for one that waits.
  cases ended with
  | cons e rest =>
      rcases e with ⟨task, outcome⟩
      simp [nextEvent, step, record]
  | nil =>
      cases working with
      | cons task rest => simp [nextEvent, step, finish]
      | nil =>
          cases admitted with
          | cons task rest =>
              simp only [nextEvent, step, check, List.mem_cons_self, ↓reduceIte]
              split
              · rfl
              · rfl
          | nil =>
              cases waiting with
              | nil => simp [State.isDone, State.running] at h
              | cons task rest =>
                  have hroom : 0 < max p.limit 1 := by omega
                  simp [nextEvent, step, enter, occupied, State.running, hroom]

theorem State.isDone_of_left (h : s.left = 0) : s.isDone = true := by
  have hnone : s.waiting = [] ∧ s.admitted = [] ∧ s.working = [] ∧ s.ended = [] := by
    simpa [State.left, and_assoc] using h
  simp [State.isDone, State.running, hnone]

/-- Running one task at a time is a schedule, and it comes to an end. -/
theorem exists_run_serialFrom {fuel : Nat} (h : s.left ≤ fuel) :
    ∃ schedule, p.run s schedule = some (p.serialFrom fuel s) ∧
      (p.serialFrom fuel s).isDone = true := by
  induction fuel generalizing s with
  | zero => exact ⟨[], rfl, State.isDone_of_left (Nat.le_zero.1 h)⟩
  | succ fuel ih =>
      rw [serialFrom]
      cases hnext : p.step s (nextEvent s) with
      | none =>
          -- Nothing can happen, so the pool is done.
          refine ⟨[], rfl, Bool.of_not_eq_false fun hopen => ?_⟩
          have hsome := isSome_step_nextEvent p hopen
          rw [hnext] at hsome
          cases hsome
      | some next =>
          have hlt := (step_of_step hnext).left_lt
          rcases ih (s := next) (by omega) with ⟨schedule, hrun, hdone⟩
          refine ⟨nextEvent s :: schedule, ?_, hdone⟩
          rw [run, List.foldlM_cons, hnext]
          exact hrun

/-- Every schedule can be brought to its end. -/
theorem exists_run_isDone (p : Pool ε α) (s : State ε α) :
    ∃ rest s', p.run s rest = some s' ∧ s'.isDone = true := by
  rcases exists_run_serialFrom (p := p) (Nat.le_refl s.left) with ⟨rest, hrun, hdone⟩
  exact ⟨rest, _, hrun, hdone⟩

theorem State.left_start (tasks : Nat) : (State.start tasks : State ε α).left = 4 * tasks := by
  simp [State.left, State.start]

/-- The outcome of running one task at a time is that of a schedule. -/
theorem exists_run_runSerial (p : Pool ε α) (tasks : Nat) :
    ∃ schedule s, p.run (State.start tasks) schedule = some s ∧ s.isDone = true ∧
      p.runSerial tasks = s.outcome tasks := by
  rcases exists_run_serialFrom (p := p) (Nat.le_of_eq (State.left_start tasks)) with
    ⟨schedule, hrun, hdone⟩
  exact ⟨schedule, _, hrun, hdone, rfl⟩

end Pool

end Dlx
