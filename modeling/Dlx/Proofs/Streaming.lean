import Dlx.Command.Run
import Dlx.Proofs.Records

/-!
# Streamed output and written output

Records leave the program in two ways. A stream passes them on one by one while its sources are
assembled in turn; a writer collects the rows of a finished assembly and gives their text to its
sink in one piece. Both put out the same bytes, and a source that cannot be assembled leaves nothing
of itself in the stream.

* `RowWriter.textOf`: what a text writer gives to its sink
* `Command.stream_cons_ok`, `Command.stream_cons_error`: one source of a stream
* `stream_agrees_with_writer`: any number of sources
-/

namespace Dlx

/-- The text that a writer has given to its sink when all rows are written. -/
def RowWriter.textOf (rows : List Row) : Bytes :=
  ((text keeping).writeAll ⟨[], []⟩ rows).1.sink

theorem RowWriter.textOf_eq (rows : List Row) : textOf rows = rows.flatMap Row.renderLine := by
  rw [textOf, writeAll_keeping, Row.renderAll, Record.renderAll, List.flatMap_map]
  rfl

theorem untilError_map_ok {ε α : Type} (results : List α) :
    untilError (results.map (fun a => (.ok a : Except ε α))) = (results, none) := by
  induction results with
  | nil => rfl
  | cons a rest ih =>
      have hstep : untilError (((.ok a : Except ε α)) :: rest.map (fun a => (.ok a : Except ε α))) =
          (a :: (untilError (rest.map (fun a => (.ok a : Except ε α)))).1,
            (untilError (rest.map (fun a => (.ok a : Except ε α)))).2) := rfl
      rw [List.map_cons, hstep, ih]

/-- A source and what it is assembled to. -/
def Source.Assembles (catalog : Catalog) (source : Source) (result : Assembly) : Prop :=
  assemble catalog source.name source.text = .ok result

/-! ## One source -/

theorem streamItems_of_ok {catalog : Catalog} {file source : Bytes} {result : Assembly}
    (h : assemble catalog file source = .ok result) :
    streamItems catalog false file source = result.rows.map .ok := by
  simp [streamItems, h]

theorem streamItems_of_error {catalog : Catalog} {file source : Bytes} {error : AssemblyError}
    (h : assemble catalog file source = .error error) :
    streamItems catalog false file source = [.error error] := by
  simp [streamItems, h]

namespace Command

variable {catalog : Catalog}

theorem stream_cons_ok {source : Source} {result : Assembly} (h : source.Assembles catalog result)
    (rest : List Source) :
    (stream catalog false (source :: rest)).1 =
        RowWriter.textOf result.rows ++ (stream catalog false rest).1 ∧
      (stream catalog false (source :: rest)).2.2 = (stream catalog false rest).2.2 := by
  rw [stream, streamItems_of_ok h, untilError_map_ok, RowWriter.textOf_eq]
  exact ⟨rfl, rfl⟩

theorem stream_cons_error {source : Source} {error : AssemblyError}
    (h : assemble catalog source.name source.text = .error error) (rest : List Source) :
    (stream catalog false (source :: rest)).1 = [] ∧
      (stream catalog false (source :: rest)).2.2 = some (.assembly error) := by
  rw [stream, streamItems_of_error h]
  exact ⟨rfl, rfl⟩

/-- Sources that are assembled put their texts in front of what the sources behind them put out. -/
theorem stream_append {front : List Source} {results : List Assembly}
    (h : List.Forall₂ (Source.Assembles catalog) front results) (rest : List Source) :
    (stream catalog false (front ++ rest)).1 =
        results.flatMap (fun result => RowWriter.textOf result.rows) ++
          (stream catalog false rest).1 ∧
      (stream catalog false (front ++ rest)).2.2 = (stream catalog false rest).2.2 := by
  -- Along the sources in front: each of them is read to its end before the next one is started.
  induction h with
  | nil => exact ⟨rfl, rfl⟩
  | @cons source result front results hsource _ ih =>
      rcases stream_cons_ok hsource (front ++ rest) with ⟨htext, herror⟩
      rw [List.cons_append, htext, herror, ih.1, ih.2, List.flatMap_cons, List.append_assoc]
      exact ⟨rfl, rfl⟩

end Command

/-! ## Any number of sources -/

/-- A stream that is not cancelled puts out what a writer makes of the rows of its sources. Where
all sources are assembled, it is the texts of all of them; where one is not, the texts in front of
it and its error, and nothing of the source itself. The items of a single source are its records,
one for each row, or its error alone. -/
theorem stream_agrees_with_writer (catalog : Catalog) :
    (∀ sources results, List.Forall₂ (Source.Assembles catalog) sources results →
      (Command.stream catalog false sources).1 =
          results.flatMap (fun result => RowWriter.textOf result.rows) ∧
        (Command.stream catalog false sources).2.2 = none) ∧
    (∀ front results source back error, List.Forall₂ (Source.Assembles catalog) front results →
      assemble catalog source.name source.text = .error error →
      (Command.stream catalog false (front ++ source :: back)).1 =
          results.flatMap (fun result => RowWriter.textOf result.rows) ∧
        (Command.stream catalog false (front ++ source :: back)).2.2 = some (.assembly error)) ∧
    ∀ file source,
      (∀ result, assemble catalog file source = .ok result →
        (streamItems catalog false file source).map (Except.map Row.renderLine) =
          result.rows.map (fun row => .ok (row.render ++ utf8 "\n"))) ∧
      ∀ error, assemble catalog file source = .error error →
        (streamItems catalog false file source).map (Except.map Row.renderLine) =
          [.error error] := by
  refine ⟨?_, ?_, ?_⟩
  · intro sources results hsources
    have hall := Command.stream_append hsources []
    rw [List.append_nil] at hall
    rw [hall.1, hall.2]
    exact ⟨List.append_nil _, rfl⟩
  · intro front results source back error hfront hsource
    rcases Command.stream_append hfront (source :: back) with ⟨htext, herror⟩
    rcases Command.stream_cons_error hsource back with ⟨hnothing, hfails⟩
    rw [htext, herror, hnothing, hfails]
    exact ⟨List.append_nil _, rfl⟩
  · intro file source
    constructor
    · intro result hresult
      rw [streamItems_of_ok hresult, List.map_map]
      rfl
    · intro error herror
      rw [streamItems_of_error herror]
      rfl

/-- A source with two rows. -/
def sampleAssembled : Source := ⟨utf8 "a", utf8 "nop\n.word 7\n"⟩

/-- A source with an error behind an instruction that could be encoded. -/
def sampleRefused : Source := ⟨utf8 "b", utf8 "nop\nadd r1\n"⟩

theorem sampleStream_agrees_with_writer :
    ∃ result error, sampleAssembled.Assembles .builtin result ∧
      result.rows.map Row.render = [utf8 "00000000: 00000000\t#", utf8 "00000004: 00000007\t#"] ∧
      assemble .builtin sampleRefused.name sampleRefused.text = .error error ∧
      (Command.stream .builtin false [sampleAssembled, sampleRefused, sampleAssembled]).1 =
        RowWriter.textOf result.rows ∧
      (Command.stream .builtin false [sampleAssembled, sampleRefused, sampleAssembled]).2.2 =
        some (.assembly error) := by
  have hrows : (assemble .builtin sampleAssembled.name sampleAssembled.text).map
      (fun result => result.rows.map Row.render) =
        .ok [utf8 "00000000: 00000000\t#", utf8 "00000004: 00000007\t#"] := by
    decide +kernel
  rcases map_eq_ok.1 hrows with ⟨result, hresult, hrendered⟩
  have hrefused : (assemble .builtin sampleRefused.name sampleRefused.text).toOption = none := by
    decide +kernel
  cases herror : assemble .builtin sampleRefused.name sampleRefused.text with
  | ok other =>
      rw [herror] at hrefused
      cases hrefused
  | error error =>
      rcases (stream_agrees_with_writer .builtin).2.1 [sampleAssembled] [result] sampleRefused
        [sampleAssembled] error (.cons hresult .nil) herror with ⟨htext, hstopped⟩
      rw [List.flatMap_cons, List.flatMap_nil, List.append_nil] at htext
      exact ⟨result, error, hresult, hrendered, rfl, htext, hstopped⟩

end Dlx
