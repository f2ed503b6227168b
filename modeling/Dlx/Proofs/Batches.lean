import Dlx.Proofs.Schedules
import Dlx.Proofs.Streaming

/-!
# Batches of sources

What a batch ends with does not depend on the order of its events, as far as it can: where all
sources are assembled, their results stand in the order of the sources, and where some fail, the
error is that of a source that fails.

* `Batch.EndsWith`: the outcomes of all schedules that have been brought to their end
* `Batch.EndsWith.cases`: what they can be
* `batch_schedule_independent`: what they are for given sources
-/

namespace Dlx

/-- A source is assembled to one result. -/
theorem Source.assembles_rightUnique {catalog : Catalog} :
    Relator.RightUnique (Source.Assembles catalog) := by
  intro source result result' h h'
  exact Except.ok.inj (h.symm.trans h')

namespace Batch

variable {catalog : Catalog} {sources : List Source} {jobs : Int} {cancelled : Bool}

theorem work_of_getElem? {task : Nat} {source : Source} (h : sources[task]? = some source) :
    work catalog sources task = (assemble catalog source.name source.text).mapError .assembly := by
  rw [work, h]

theorem work_eq_ok {task : Nat} {source : Source} (h : sources[task]? = some source)
    {result : Assembly} :
    work catalog sources task = .ok result ↔ source.Assembles catalog result := by
  rw [work_of_getElem? h, mapError_eq_ok]
  rfl

/-- What the tasks of a batch give is what its sources are assembled to. -/
theorem forall₂_work_iff {results : List Assembly} :
    List.Forall₂ (fun task result => work catalog sources task = .ok result)
        (List.range sources.length) results ↔
      List.Forall₂ (Source.Assembles catalog) sources results := by
  simp only [List.forall₂_iff_get, List.length_range, List.get_eq_getElem, List.getElem_range]
  refine and_congr_right fun hlength => forall_congr' fun i => forall_congr' fun hi =>
    forall_congr' fun _ => ?_
  exact work_eq_ok (List.getElem?_eq_getElem hi)

/-- The error of a task of a batch is that of its source. -/
theorem exists_source_of_work {task : Nat} (htask : task < sources.length) {e : BatchError}
    (h : work catalog sources task = .error e) :
    ∃ source ∈ sources, ∃ error, assemble catalog source.name source.text = .error error ∧
      e = .assembly error := by
  rw [work_of_getElem? (List.getElem?_eq_getElem htask)] at h
  rcases mapError_eq_error.1 h with ⟨error, herror, rfl⟩
  exact ⟨sources[task], List.getElem_mem htask, error, herror, rfl⟩

/-- What a batch can end with: the outcome of a schedule that has been brought to its end. -/
def EndsWith (catalog : Catalog) (jobs : Int) (cancelled : Bool) (sources : List Source)
    (outcome : Except BatchError (List Assembly)) : Prop :=
  ∃ schedule s, (pool catalog jobs cancelled sources).run (.start sources.length) schedule =
      some s ∧
    s.isDone = true ∧ s.outcome sources.length = outcome

theorem endsWith_assembleAll (catalog : Catalog) (jobs : Int) (cancelled : Bool)
    (sources : List Source) :
    EndsWith catalog jobs cancelled sources (assembleAll catalog jobs cancelled sources) := by
  rcases Pool.exists_run_runSerial (pool catalog jobs cancelled sources) sources.length with
    ⟨schedule, s, hrun, hdone, houtcome⟩
  exact ⟨schedule, s, hrun, hdone, houtcome.symm⟩

theorem EndsWith.cases {outcome : Except BatchError (List Assembly)}
    (h : EndsWith catalog jobs cancelled sources outcome) :
    (∃ results, List.Forall₂ (Source.Assembles catalog) sources results ∧ outcome = .ok results) ∨
      (cancelled = true ∧ outcome = .error .cancelled) ∨
      ∃ source ∈ sources, ∃ error, assemble catalog source.name source.text = .error error ∧
        outcome = .error (.assembly error) := by
  rcases h with ⟨schedule, s, hrun, hdone, rfl⟩
  have hsound := Pool.sound_of_run hrun
  cases herror : s.error with
  | none =>
      rcases hsound.outcome_of_none hdone herror with ⟨results, hresults, houtcome⟩
      exact .inl ⟨results, forall₂_work_iff.1 hresults, houtcome⟩
  | some e =>
      rw [Pool.State.outcome_of_error herror]
      rcases hsound.error e herror with ⟨he, hcancelled⟩ | ⟨task, htask, hwork⟩
      · exact .inr (.inl ⟨hcancelled, congrArg Except.error he⟩)
      · rcases exists_source_of_work htask hwork with ⟨source, hsource, error, hfails, rfl⟩
        exact .inr (.inr ⟨source, hsource, error, hfails, rfl⟩)

/-- With room for one source, a batch ends with the error of the first source that fails. -/
theorem EndsWith.eq_first {outcome : Except BatchError (List Assembly)}
    (h : EndsWith catalog jobs false sources outcome) (hjobs : jobs ≤ 1) {front back : List Source}
    {source : Source} {error : AssemblyError} (hsources : sources = front ++ source :: back)
    (hfront : ∀ earlier ∈ front, ∃ result, earlier.Assembles catalog result)
    (hfails : assemble catalog source.name source.text = .error error) :
    outcome = .error (.assembly error) := by
  have hsource : sources[front.length]? = some source := by simp [hsources]
  have hwork : work catalog sources front.length = .error (.assembly error) := by
    rw [work_of_getElem? hsource, hfails]
    rfl
  have hearlier : ∀ task < front.length, ∃ result, work catalog sources task = .ok result := by
    intro task htask
    have hget : sources[task]? = some front[task] := by
      rw [hsources, List.getElem?_append_left htask, List.getElem?_eq_getElem htask]
    rcases hfront front[task] (List.getElem_mem htask) with ⟨result, hresult⟩
    exact ⟨result, (work_eq_ok hget).2 hresult⟩
  rcases h with ⟨schedule, s, hrun, hdone, rfl⟩
  cases herror : s.error with
  | none =>
      rcases (Pool.sound_of_run hrun).outcome_of_none hdone herror with ⟨results, hresults, -⟩
      have hmem : front.length ∈ List.range sources.length := by simp [hsources]
      rcases exists_mem_of_forall₂ hresults hmem with ⟨result, -, hresult⟩
      cases hwork.symm.trans hresult
  | some e =>
      have hlimit : (pool catalog jobs false sources).limit ≤ 1 := by
        change jobs.toNat ≤ 1
        omega
      rcases (Pool.inOrder_of_run rfl hlimit rfl hrun).first e herror with ⟨task, htask, hbefore⟩
      -- The first task that fails is the one of the first source that fails.
      have hfirst : task = front.length := by
        rcases Nat.lt_trichotomy task front.length with hlt | heq | hgt
        · rcases hearlier task hlt with ⟨result, hresult⟩
          cases htask.symm.trans hresult
        · exact heq
        · rcases hbefore front.length hgt with ⟨result, hresult⟩
          cases hwork.symm.trans hresult
      rw [hfirst] at htask
      rw [Pool.State.outcome_of_error herror, Except.error.inj (htask.symm.trans hwork)]

end Batch

/-- What a batch that is not cancelled ends with, whatever the order of its events. The outcome that
the command uses is that of a schedule; no schedule is stuck or goes on forever. Where all sources
are assembled, the results stand in the order of the sources; where some fail, there are no results,
and the error is that of a source that fails; with room for one source at a time, it is the first of
them. -/
theorem batch_schedule_independent (catalog : Catalog) (jobs : Int) (sources : List Source) :
    Batch.EndsWith catalog jobs false sources (Batch.assembleAll catalog jobs false sources) ∧
    (∀ schedule s, (Batch.pool catalog jobs false sources).run (.start sources.length) schedule =
        some s →
      schedule.length ≤ 4 * sources.length ∧
        ∃ rest s', (Batch.pool catalog jobs false sources).run s rest = some s' ∧
          s'.isDone = true) ∧
    ∀ outcome, Batch.EndsWith catalog jobs false sources outcome →
      (∀ results, List.Forall₂ (Source.Assembles catalog) sources results → outcome = .ok results) ∧
      ((∃ source ∈ sources, ∃ error, assemble catalog source.name source.text = .error error) →
        ∃ source ∈ sources, ∃ error, assemble catalog source.name source.text = .error error ∧
          outcome = .error (.assembly error)) ∧
      (jobs ≤ 1 → ∀ front source back error, sources = front ++ source :: back →
        (∀ earlier ∈ front, ∃ result, earlier.Assembles catalog result) →
        assemble catalog source.name source.text = .error error →
          outcome = .error (.assembly error)) := by
  refine ⟨Batch.endsWith_assembleAll catalog jobs false sources, ?_, ?_⟩
  · intro schedule s hrun
    refine ⟨?_, Pool.exists_run_isDone _ s⟩
    have hleft := Pool.length_add_left_le hrun
    rw [Pool.State.left_start] at hleft
    omega
  · intro outcome hends
    refine ⟨?_, ?_, ?_⟩
    · intro results hresults
      rcases hends.cases with ⟨results', hresults', rfl⟩ | ⟨hnever, -⟩ |
        ⟨source, hsource, error, hfails, -⟩
      · exact congrArg Except.ok
          (List.right_unique_forall₂' Source.assembles_rightUnique hresults' hresults)
      · cases hnever
      · rcases exists_mem_of_forall₂ hresults hsource with ⟨result, -, hresult⟩
        cases hfails.symm.trans hresult
    · rintro ⟨source, hsource, error, hfails⟩
      rcases hends.cases with ⟨results, hresults, -⟩ | ⟨hnever, -⟩ | hfailed
      · rcases exists_mem_of_forall₂ hresults hsource with ⟨result, -, hresult⟩
        cases hfails.symm.trans hresult
      · cases hnever
      · exact hfailed
    · intro hjobs front source back error hsources hfront hfails
      exact hends.eq_first hjobs hsources hfront hfails

/-- Three sources, the last two of which cannot be assembled. -/
def sampleBatch : List Source :=
  [⟨utf8 "a", utf8 "nop\n"⟩, ⟨utf8 "b", utf8 "add r1\n"⟩, ⟨utf8 "c", utf8 "j nowhere\n"⟩]

/-- A schedule of two tasks at a time: the third task ends while the second one works. -/
def sampleSchedule : List Pool.Event :=
  [.enter, .enter, .check 1, .check 0, .finish 0, .record 0, .enter, .check 2, .finish 2, .finish 1,
    .record 2, .record 1]

/-- The error of the second source, and that of the third. -/
def sampleErrors : AssemblyError × AssemblyError :=
  (.at ⟨utf8 "b", 1, 0, ⟨.malformedOperand, utf8 "add r1"⟩⟩,
    .at ⟨utf8 "c", 1, 0, ⟨.unresolvedLabel, utf8 "nowhere"⟩⟩)

theorem sampleBatch_schedule_independent :
    assemble .builtin (utf8 "b") (utf8 "add r1\n") = .error sampleErrors.1 ∧
      assemble .builtin (utf8 "c") (utf8 "j nowhere\n") = .error sampleErrors.2 ∧
      Batch.EndsWith .builtin 2 false sampleBatch (.error (.assembly sampleErrors.2)) ∧
      Batch.assembleAll .builtin 1 false sampleBatch = .error (.assembly sampleErrors.1) := by
  have hsecond : assemble .builtin (utf8 "b") (utf8 "add r1\n") = .error sampleErrors.1 := by
    decide +kernel
  refine ⟨hsecond, by decide +kernel, ?_, ?_⟩
  · have hrun : ((Batch.pool .builtin 2 false sampleBatch).run (.start 3) sampleSchedule).map
        (fun s => (s.isDone, s.error)) = some (true, some (.assembly sampleErrors.2)) := by
      decide +kernel
    rcases Option.map_eq_some_iff.1 hrun with ⟨s, hs, hpair⟩
    exact ⟨sampleSchedule, s, hs, congrArg Prod.fst hpair,
      Pool.State.outcome_of_error (congrArg Prod.snd hpair) 3⟩
  · rcases batch_schedule_independent .builtin 1 sampleBatch with ⟨hends, -, hall⟩
    refine (hall _ hends).2.2 (Int.le_refl 1) [⟨utf8 "a", utf8 "nop\n"⟩] _ _ _ rfl ?_ hsecond
    intro earlier hearlier
    cases List.mem_singleton.1 hearlier
    have hsome : (assemble .builtin (utf8 "a") (utf8 "nop\n")).toOption.isSome = true := by
      decide +kernel
    cases hfirst : assemble .builtin (utf8 "a") (utf8 "nop\n") with
    | ok result => exact ⟨result, hfirst⟩
    | error e =>
        rw [hfirst] at hsome
        cases hsome

end Dlx
