import Dlx.Proofs.Batches
import Dlx.Proofs.Paths

/-!
# What a run does to the files

A run changes files in its last stage alone, when it writes its outputs one after the other.
Whatever stops it before that leaves the file tree as it was, and what the last stage changes are
the files at the places of the outputs. An output that stops the last stage is removed when the
program ends, so that what is left of the outputs is whole.

All of this holds whatever the schedule of the batch was, and whatever the disk does to the outputs.

* `FileTree.Within`: trees whose files differ at given places at the most
* `HexFile.written_write`: what writing an output can come to
* `Command.exists_files_of_writeFiles`: what writing outputs puts into the tree
* `Command.Hindrance`: what keeps a run from writing anything
* `Command.EndsIn`: what a run can leave behind, over all schedules
* `Command.Course`: the ways a run can go
* `run_changes_only_outputs`: which files a run can change
* `no_partial_output`: what the files hold when the program has ended
-/

namespace Dlx

/-! ## Files put into a tree -/

namespace FileTree

theorem find?_delete_of_ne (t : FileTree) {place other : Place} (h : other ≠ place) :
    (t.delete place).find? other = t.find? other := by
  rw [find?, find?, delete]
  induction t.files with
  | nil => rfl
  | cons f rest ih =>
      by_cases hf : f.1 = place
      · have hother : (other == f.1) = false := by simpa [hf] using h
        rw [List.filter_cons_of_neg (by simp [hf]), ih, List.lookup_cons, hother]
      · rw [List.filter_cons_of_pos (by simp [hf]), List.lookup_cons, List.lookup_cons, ih]

theorem find?_put_of_ne (t : FileTree) {place other : Place} (text : Bytes) (h : other ≠ place) :
    (t.put place text).find? other = t.find? other := by
  have hne : (other == place) = false := by simpa using h
  have hkept := t.find?_delete_of_ne h
  rw [find?, delete] at hkept
  rw [find?, put, List.lookup_append, hkept, List.lookup_cons, hne, List.lookup_nil, Option.or_none]

/-- A tree with files put into it one after the other. -/
def putAll (t : FileTree) (files : List (Place × Bytes)) : FileTree :=
  files.foldl (fun t f => t.put f.1 f.2) t

theorem putAll_cons (t : FileTree) (f : Place × Bytes) (files : List (Place × Bytes)) :
    t.putAll (f :: files) = (t.put f.1 f.2).putAll files := rfl

/-- A place holds the last text that was put there. -/
theorem find?_putAll (t : FileTree) (files : List (Place × Bytes)) (place : Place) :
    (t.putAll files).find? place = (files.reverse.lookup place).or (t.find? place) := by
  induction files generalizing t with
  | nil => rfl
  | cons f rest ih =>
      have hput : (t.put f.1 f.2).find? place = ([f].lookup place).or (t.find? place) := by
        by_cases hplace : place = f.1
        · rw [hplace, find?_put, List.lookup_cons, beq_self_eq_true, Option.some_or]
        · have hne : (place == f.1) = false := by simpa using hplace
          rw [find?_put_of_ne t f.2 hplace, List.lookup_cons, hne, List.lookup_nil, Option.none_or]
      -- The first file is looked up last: anything behind it at the same place hides it.
      rw [putAll_cons, ih, hput, List.reverse_cons, List.lookup_append, Option.or_assoc]

/-- What a place holds was put there, or was there before. -/
theorem find?_putAll_cases {t : FileTree} {files : List (Place × Bytes)} {place : Place}
    {text : Bytes} (h : (t.putAll files).find? place = some text) :
    (place, text) ∈ files ∨ t.find? place = some text := by
  rw [find?_putAll] at h
  rcases Option.or_eq_some_iff.1 h with hput | ⟨-, hbefore⟩
  · rcases List.lookup_eq_some_iff.1 hput with ⟨front, back, hfiles, -⟩
    refine .inl (List.mem_reverse.1 ?_)
    simp [hfiles]
  · exact .inr hbefore

/-! ## Frames -/

/-- The second tree has the directories of the first, and the same files but at given places. -/
structure Within (places : Place → Prop) (t t' : FileTree) : Prop where
  directories : t'.directories = t.directories
  elsewhere : ∀ place, ¬ places place → t'.find? place = t.find? place

namespace Within

variable {places : Place → Prop} {t t' t'' : FileTree}

theorem refl (places : Place → Prop) (t : FileTree) : Within places t t :=
  ⟨rfl, fun _ _ => rfl⟩

theorem trans (h : Within places t t') (h' : Within places t' t'') : Within places t t'' where
  directories := h'.directories.trans h.directories
  elsewhere place hplace := (h'.elsewhere place hplace).trans (h.elsewhere place hplace)

theorem put {place : Place} (h : places place) (t : FileTree) (text : Bytes) :
    Within places t (t.put place text) where
  directories := rfl
  elsewhere _ hother := find?_put_of_ne t text fun heq => hother (heq ▸ h)

theorem putAll {files : List (Place × Bytes)} (h : ∀ f ∈ files, places f.1) (t : FileTree) :
    Within places t (t.putAll files) := by
  induction files generalizing t with
  | nil => exact .refl places t
  | cons f rest ih =>
      have hfirst : Within places t (t.put f.1 f.2) := .put (h f List.mem_cons_self) t f.2
      exact hfirst.trans (ih (fun g hg => h g (List.mem_cons_of_mem f hg)) _)

theorem remove {path : Bytes} (h : ∀ place, t.locate path = .ok place → places place) :
    Within places t (t.remove path) := by
  unfold FileTree.remove
  split
  · exact .refl places t
  · rename_i place hplace
    exact ⟨rfl, fun _ hother => find?_delete_of_ne t fun heq => hother (heq ▸ h place hplace)⟩

end Within

theorem directories_putAll (t : FileTree) (files : List (Place × Bytes)) :
    (t.putAll files).directories = t.directories :=
  (@Within.putAll (fun _ => True) files (fun _ _ => trivial) t).directories

/-- A file that was put into a tree and removed leaves what stands elsewhere. -/
theorem find?_remove_put {t : FileTree} {path : Bytes} {place : Place}
    (h : t.locate path = .ok place) (text : Bytes) (other : Place) :
    ((t.put place text).remove path).find? other =
      if other = place then none else t.find? other := by
  have hplace : (t.put place text).locate path = .ok place := locate_congr h rfl
  have hremove : (t.put place text).remove path = (t.put place text).delete place := by
    rw [remove, hplace]
  rw [hremove]
  split
  · rename_i heq
    rw [heq, find?_delete]
  · rename_i hne
    rw [find?_delete_of_ne _ hne, find?_put_of_ne t text hne]

end FileTree

/-! ## Writing outputs -/

namespace HexFile

variable {t : FileTree} {path : Bytes} {rows : List Row}

/-- What writing an output can come to: the file was not created, or it was and is marked for
removal, or it holds the records. -/
inductive Written (t : FileTree) (path : Bytes) (rows : List Row) :
    FileTree × Option OutputError → Prop where
  | uncreated {error : OutputError} (hleftover : error.leftover? = none) :
      Written t path rows (t, some error)
  | refused {place : Place} {error : OutputError} (text : Bytes)
      (hplace : t.locate path = .ok place) (hleftover : error.leftover? = some path) :
      Written t path rows (t.put place text, some error)
  | accepted {place : Place} (hplace : t.locate path = .ok place) :
      Written t path rows (t.put place (Row.renderAll rows), none)

theorem action_of_create {text : Bytes} {error : FileError}
    (h : t.create path text = .error error) :
    error.action = .opening := by
  unfold FileTree.create at h
  dsimp only at h
  split at h
  · cases h
    rfl
  · split at h
    · cases h
      rfl
    · cases h

theorem leftover?_of_check {text : Bytes} {error : OutputError}
    (h : check path text rows = some error) : error.leftover? = some path := by
  unfold check at h
  split at h
  · cases h
    rfl
  · split at h
    · cases h
      rfl
    · rcases Option.map_eq_some_iff.1 h with ⟨pair, -, rfl⟩
      rfl

theorem leftover?_of_failure (path : Bytes) (failure : WriteFailure) :
    (OutputError.file (failure.error path)).leftover? = some path := by
  cases failure with
  | writing | closing => rfl

theorem written_write (t : FileTree) (path : Bytes) (rows : List Row)
    (failure : Option WriteFailure) : Written t path rows (write t path rows failure) := by
  cases hcreate : t.create path (failure.elim _ (WriteFailure.left (Row.renderAll rows))) with
  | error error =>
      rw [write, hcreate]
      refine .uncreated ?_
      rw [OutputError.leftover?, action_of_create hcreate]
  | ok t' =>
      rcases FileTree.exists_place_of_create hcreate with ⟨place, hplace, rfl⟩
      cases failure with
      | some failure =>
          rw [write, hcreate]
          exact .refused _ hplace (leftover?_of_failure path failure)
      | none =>
          rw [Option.elim_none] at hcreate
          rw [write_of_create hcreate, verify_of_read (FileTree.read_of_create hcreate)]
          cases hcheck : check path (Row.renderAll rows) rows with
          | none => exact .accepted hplace
          | some error => exact .refused _ hplace (leftover?_of_check hcheck)

end HexFile

namespace Command

/-- A source by its path is assembled to a result. -/
def Assembled (tree : FileTree) (catalog : Catalog) (argument : Bytes) (result : Assembly) : Prop :=
  ∃ text, tree.read argument = .ok text ∧ assemble catalog argument text = .ok result

theorem Assembled.file_eq {tree : FileTree} {catalog : Catalog} {argument : Bytes}
    {result : Assembly} (h : Assembled tree catalog argument result) :
    result.program.file = argument := by
  rcases h with ⟨text, -, hassemble⟩
  rcases bind_eq_ok.1 hassemble with ⟨program, hlayout, hrest⟩
  rcases bind_eq_ok.1 hrest with ⟨rows, -, hresult⟩
  rcases exists_places_of_layout hlayout with ⟨kept, last, -, -, hfile⟩
  cases pure_eq_ok.1 hresult
  exact hfile

/-- What an argument adds to a tree: the records of its source, at the place of its output. -/
def Adds (tree : FileTree) (o : Options) (catalog : Catalog) (argument : Bytes)
    (f : Place × Bytes) : Prop :=
  tree.locate (Path.output argument o.outDir) = .ok f.1 ∧
    ∃ result, Assembled tree catalog argument result ∧ f.2 = Row.renderAll result.rows

/-- How the output of an argument can stop the writing: it was not created, or it is marked for
removal with some text in it. -/
inductive Stops (tree : FileTree) (o : Options) (argument : Bytes) (before after : FileTree)
    (error : OutputError) : Prop where
  | uncreated (hleftover : error.leftover? = none) (htree : after = before)
  | refused {place : Place} (text : Bytes)
      (hplace : tree.locate (Path.output argument o.outDir) = .ok place)
      (hleftover : error.leftover? = some (Path.output argument o.outDir))
      (htree : after = before.put place text)

/-- Writing outputs adds those of all arguments, or of some from the first on, up to one that stops
it. -/
theorem exists_files_of_writeFiles {tree : FileTree} {o : Options} {catalog : Catalog}
    {arguments : List Bytes} {assemblies : List Assembly}
    (h : List.Forall₂ (Assembled tree catalog) arguments assemblies) {w : Writing}
    (hsame : w.tree.directories = tree.directories) :
    ∃ written files, List.Forall₂ (Adds tree o catalog) written files ∧
      ((writeFiles o w assemblies).2 = none ∧ written = arguments ∧
          (writeFiles o w assemblies).1.tree = w.tree.putAll files ∨
        ∃ argument error, (writeFiles o w assemblies).2 = some error ∧
          written ++ [argument] <+: arguments ∧
          Stops tree o argument (w.tree.putAll files)
            (writeFiles o w assemblies).1.tree error) := by
  induction h generalizing w with
  | nil => exact ⟨[], [], .nil, .inl ⟨rfl, rfl, rfl⟩⟩
  | @cons argument a arguments assemblies hassembled _ ih =>
      rw [writeFiles, hassembled.file_eq]
      have hwritten := HexFile.written_write w.tree (Path.output argument o.outDir) a.rows
        w.failures.head?.join
      cases hwrite : HexFile.write w.tree (Path.output argument o.outDir) a.rows
          w.failures.head?.join with
      | mk tree' error =>
      rw [hwrite] at hwritten
      cases hwritten with
      | uncreated hleftover =>
          exact ⟨[], [], .nil, .inr ⟨argument, _, rfl, ⟨arguments, rfl⟩, .uncreated hleftover rfl⟩⟩
      | refused text hplace hleftover =>
          have hplace' := FileTree.locate_congr hplace hsame.symm
          exact ⟨[], [], .nil,
            .inr ⟨argument, _, rfl, ⟨arguments, rfl⟩, .refused text hplace' hleftover rfl⟩⟩
      | @accepted place hplace =>
          -- The rest goes into a tree with the same directories, where paths lead to the same
          -- places.
          have hadds : Adds tree o catalog argument (place, Row.renderAll a.rows) :=
            ⟨FileTree.locate_congr hplace hsame.symm, a, hassembled, rfl⟩
          rcases ih (w := ⟨w.tree.put place (Row.renderAll a.rows), _, _⟩) hsame with
            ⟨written, files, hrest, hends⟩
          refine ⟨argument :: written, (place, Row.renderAll a.rows) :: files, .cons hadds hrest,
            ?_⟩
          rcases hends with ⟨hnone, rfl, htree⟩ | ⟨last, error, herror, hprefix, hstops⟩
          · exact .inl ⟨hnone, rfl, htree⟩
          · exact .inr ⟨last, error, herror, List.cons_prefix_cons.2 ⟨rfl, hprefix⟩, hstops⟩

/-! ## The stages of a run -/

theorem checkNames_cases (arguments : List Bytes) :
    ((checkNames arguments).2 = none ∧ ∀ a ∈ arguments, isSource a = true) ∨
      ∃ bad ∈ arguments, isSource bad = false ∧
        (checkNames arguments).2 = some (.notSource bad) := by
  have hdrop : arguments.drop (arguments.takeWhile isSource).length =
      arguments.dropWhile isSource := by
    have hparts := List.takeWhile_append_dropWhile (p := isSource) (l := arguments)
    calc arguments.drop (arguments.takeWhile isSource).length
      _ = (arguments.takeWhile isSource ++ arguments.dropWhile isSource).drop
          (arguments.takeWhile isSource).length := by
        rw [hparts]
      _ = arguments.dropWhile isSource := List.drop_left
  rw [checkNames, hdrop]
  cases hbad : arguments.dropWhile isSource with
  | nil => exact .inl ⟨rfl, List.dropWhile_eq_nil_iff.1 hbad⟩
  | cons bad rest =>
      have hmem : bad ∈ arguments :=
        (List.dropWhile_sublist isSource).subset (hbad ▸ List.mem_cons_self)
      have hnot := List.head?_dropWhile_not isSource arguments
      rw [hbad] at hnot
      exact .inr ⟨bad, hmem, by simpa using hnot, rfl⟩

/-- What is wrong with a definition file: it cannot be read, or it is malformed. -/
inductive Definitions.Flawed (tree : FileTree) (d : Definitions) : Prop where
  | missing {error : FileError} (h : tree.read d.path = .error error)
  | malformed {text : Bytes} {error : Catalog.Error} (h : tree.read d.path = .ok text)
      (herror : (Catalog.accepted d.format text).2 = some error)

theorem loadFile_cases (tree : FileTree) (l : Loading) (d : Definitions) :
    (d.Flawed tree ∧ ∃ error, loadFile tree l d = .error error ∧ error.leftover? = none) ∨
      (¬ d.Flawed tree ∧ ∃ l', loadFile tree l d = .ok l') := by
  rw [loadFile, readDefinitions]
  cases hread : tree.read d.path with
  | error error =>
      refine .inl ⟨.missing hread, _, rfl, ?_⟩
      dsimp only
      split
      · rfl
      · rfl
  | ok text =>
      cases herror : (Catalog.accepted d.format text).2 with
      | some error =>
          refine .inl ⟨.malformed hread herror, .definitions d.path error, ?_, rfl⟩
          simp only [Except.mapError, ok_bind, Catalog.load, herror]
          rfl
      | none =>
          refine .inr ⟨?_, ?_⟩
          · rintro (⟨h⟩ | ⟨h, h'⟩)
            · cases hread.symm.trans h
            · cases hread.symm.trans h
              cases herror.symm.trans h'
          · simp only [Except.mapError, ok_bind, Catalog.load, herror]
            exact ⟨_, rfl⟩

theorem loadCatalog_cases (tree : FileTree) (o : Options) :
    ((∃ d ∈ definitionFiles o, d.Flawed tree) ∧
        ∃ error, (loadCatalog tree o).2 = .error error ∧ error.leftover? = none) ∨
      ((∀ d ∈ definitionFiles o, ¬ d.Flawed tree) ∧
        ∃ catalog, (loadCatalog tree o).2 = .ok catalog) := by
  unfold loadCatalog
  dsimp only
  split
  · rename_i hnone
    refine .inr ⟨?_, _, rfl⟩
    simp [List.isEmpty_iff.1 hnone]
  · split
    · rename_i l hrun
      refine .inr ⟨?_, _, rfl⟩
      intro d hd hflawed
      rcases exists_ok_of_runUntil hrun hd with ⟨l₁, l₂, hload⟩
      rcases loadFile_cases tree l₁ d with ⟨-, error, herror, -⟩ | ⟨hgood, -⟩
      · cases hload.symm.trans herror
      · exact hgood hflawed
    · rename_i l error hrun
      rcases runUntil_eq_error.1 hrun with ⟨front, d, back, hfiles, -, herror⟩
      rcases loadFile_cases tree l d with ⟨hflawed, error', herror', hleftover⟩ | ⟨-, l', hload⟩
      · cases herror.symm.trans herror'
        exact .inl ⟨⟨d, by simp [hfiles], hflawed⟩, _, rfl, hleftover⟩
      · cases herror.symm.trans hload

theorem readSource_eq_ok {tree : FileTree} {argument : Bytes} {source : Source} :
    readSource tree argument = .ok source ↔
      tree.read argument = .ok source.text ∧ source.name = argument := by
  rcases source with ⟨name, text⟩
  cases hread : tree.read argument with
  | error error => simp [readSource, hread]
  | ok text' =>
      simp only [readSource, hread, Except.ok.injEq, Source.mk.injEq]
      rw [and_comm, eq_comm (a := argument)]

theorem exists_unread_of_readSources {tree : FileTree} {arguments : List Bytes}
    {error : CommandError} (h : readSources tree arguments = .error error) :
    ∃ argument ∈ arguments, ∃ flaw, tree.read argument = .error flaw ∧ error = .file flaw := by
  rcases mapM_eq_error.1 h with ⟨front, argument, back, hsplit, -, herror⟩
  refine ⟨argument, by simp [hsplit], ?_⟩
  cases hread : tree.read argument with
  | error flaw =>
      rw [readSource, hread] at herror
      exact ⟨flaw, rfl, (Except.error.inj herror).symm⟩
  | ok text => simp [readSource, hread] at herror

/-! ## The course of a run -/

/-- What a run can leave behind: its batch may end as any schedule of its tasks ends, with any
log. -/
def EndsIn (s : Surroundings) (o : Options) (arguments : List Bytes) (result : Outcome) : Prop :=
  ∃ assembler : Assembler,
    (∀ catalog sources,
      Batch.EndsWith catalog o.jobs s.cancelled sources (assembler catalog sources).outcome) ∧
    outcomeWith assembler s o arguments = result

theorem endsIn_outcome (s : Surroundings) (o : Options) (arguments : List Bytes) :
    EndsIn s o arguments (outcome s o arguments) :=
  ⟨_, fun catalog sources => Batch.endsWith_assembleAll catalog o.jobs s.cancelled sources, rfl⟩

/-- What keeps a run from writing anything. -/
inductive Hindrance (tree : FileTree) (o : Options) (arguments : List Bytes) : Prop where
  | name {argument : Bytes} (hmem : argument ∈ arguments) (h : isSource argument = false)
  | definitions {d : Definitions} (hmem : d ∈ definitionFiles o) (h : d.Flawed tree)
  | unread {argument : Bytes} {error : FileError} (hmem : argument ∈ arguments)
      (h : tree.read argument = .error error)
  | refused {argument text : Bytes} {catalog : Catalog} {error : AssemblyError}
      (hmem : argument ∈ arguments) (hcatalog : (loadCatalog tree o).2 = .ok catalog)
      (hread : tree.read argument = .ok text) (h : assemble catalog argument text = .error error)

/-- The ways a run can go, by the files and the error that it ends with: something stops it before
it writes, or it prints its records, or it writes its outputs, or one of these stops it. -/
inductive Course (s : Surroundings) (o : Options) (arguments : List Bytes) (after : FileTree)
    (error : Option CommandError) : Prop where
  | stopped (hcause : Hindrance s.tree o arguments ∨ s.cancelled = true) (htree : after = s.tree)
      (herror : error.isSome = true) (hleftover : error.bind CommandError.leftover? = none)
  | streamed (hstdout : o.stdout = true) (htree : after = s.tree)
      (hleftover : error.bind CommandError.leftover? = none)
  | written {catalog : Catalog} {files : List (Place × Bytes)} (hstdout : o.stdout = false)
      (hnames : ∀ a ∈ arguments, isSource a = true)
      (hcatalog : (loadCatalog s.tree o).2 = .ok catalog)
      (hadds : List.Forall₂ (Adds s.tree o catalog) arguments files)
      (htree : after = s.tree.putAll files) (herror : error = none)
  | failed {catalog : Catalog} {written : List Bytes} {files : List (Place × Bytes)}
      {argument : Bytes} {flaw : OutputError} (hstdout : o.stdout = false)
      (hnames : ∀ a ∈ arguments, isSource a = true)
      (hcatalog : (loadCatalog s.tree o).2 = .ok catalog)
      (hassembled : ∀ a ∈ arguments, ∃ result, Assembled s.tree catalog a result)
      (hwritten : written ++ [argument] <+: arguments)
      (hadds : List.Forall₂ (Adds s.tree o catalog) written files)
      (hstops : Stops s.tree o argument (s.tree.putAll files) after flaw)
      (herror : error = some (.output flaw))

variable {s : Surroundings} {o : Options} {arguments : List Bytes}

theorem course_of_runStream {r : Run} (catalog : Catalog) (sources : List Source)
    (hstdout : o.stdout = true) (htree : r.tree = s.tree) (herror : r.error = none) :
    Course s o arguments (runStream r catalog s.cancelled sources).tree
      (runStream r catalog s.cancelled sources).error := by
  unfold runStream
  dsimp only
  split
  · exact .streamed hstdout htree rfl
  · exact .streamed hstdout htree (by simp [Run.succeed, herror])

theorem course_of_runFiles {catalog : Catalog} {sources : List Source} {batch : Batch.Ending}
    {r : Run} (hstdout : o.stdout = false) (hnames : ∀ a ∈ arguments, isSource a = true)
    (hcatalog : (loadCatalog s.tree o).2 = .ok catalog)
    (hsources : readSources s.tree arguments = .ok sources)
    (hbatch : Batch.EndsWith catalog o.jobs s.cancelled sources batch.outcome)
    (htree : r.tree = s.tree) (herror : r.error = none) :
    Course s o arguments (runFiles r s o batch).tree (runFiles r s o batch).error := by
  have hread := mapM_eq_ok.1 hsources
  unfold runFiles
  dsimp only
  rcases hbatch.cases with ⟨assemblies, hresults, houtcome⟩ | ⟨hcancelled, houtcome⟩ |
    ⟨source, hmem, error, hfails, houtcome⟩
  · have hassembled : List.Forall₂ (Assembled s.tree catalog) arguments assemblies := by
      refine forall₂_trans ?_ hread hresults
      intro argument source result hsource hresult
      rcases readSource_eq_ok.1 hsource with ⟨htext, rfl⟩
      exact ⟨source.text, htext, hresult⟩
    have hall : ∀ a ∈ arguments, ∃ result, Assembled s.tree catalog a result := by
      intro a ha
      rcases exists_mem_of_forall₂ hassembled ha with ⟨result, -, hresult⟩
      exact ⟨result, hresult⟩
    rw [houtcome, htree]
    have hfiles :=
      exists_files_of_writeFiles (o := o) hassembled (w := ⟨s.tree, s.failures, []⟩) rfl
    dsimp only
    rcases hwrite : writeFiles o ⟨s.tree, s.failures, []⟩ assemblies with ⟨w, flaw⟩
    rw [hwrite] at hfiles
    rcases hfiles with ⟨written, files, hadds, hends⟩
    rcases hends with ⟨hnone, rfl, hput⟩ | ⟨argument, flaw, hflaw, hprefix, hstops⟩
    · cases hnone
      exact .written hstdout hnames hcatalog hadds hput herror
    · cases hflaw
      exact .failed hstdout hnames hcatalog hall hprefix hadds hstops rfl
  · rw [houtcome]
    exact .stopped (.inr hcancelled) htree rfl rfl
  · -- The source that failed is one of the arguments.
    rw [houtcome]
    rcases exists_mem_of_forall₂ hread.flip hmem with ⟨argument, hargument, hsource⟩
    rcases readSource_eq_ok.1 hsource with ⟨htext, rfl⟩
    exact .stopped (.inl (.refused hargument hcatalog htext hfails)) htree rfl rfl

theorem course_of_runWith {assembler : Assembler}
    (h : ∀ catalog sources,
      Batch.EndsWith catalog o.jobs s.cancelled sources (assembler catalog sources).outcome) :
    Course s o arguments (runWith assembler s o arguments).tree
      (runWith assembler s o arguments).error := by
  -- Stage by stage: each one stops the run with the tree as it was, or hands on what the next one
  -- needs.
  unfold runWith
  have hchecked := checkNames_cases arguments
  rcases hcheck : checkNames arguments with ⟨checked, bad⟩
  rw [hcheck] at hchecked
  rcases hchecked with ⟨rfl, hnames⟩ | ⟨argument, hmem, hname, rfl⟩
  · have hloaded := loadCatalog_cases s.tree o
    rcases hload : loadCatalog s.tree o with ⟨told, loaded⟩
    rw [hload] at hloaded
    rcases hloaded with ⟨⟨d, hd, hflawed⟩, error, rfl, hleftover⟩ | ⟨-, catalog, rfl⟩
    · exact .stopped (.inl (.definitions hd hflawed)) rfl rfl hleftover
    · cases hsources : readSources s.tree arguments with
      | error error =>
          rcases exists_unread_of_readSources hsources with ⟨argument, hmem, flaw, hread, rfl⟩
          exact .stopped (.inl (.unread hmem hread)) rfl rfl rfl
      | ok sources =>
          have hcatalog : (loadCatalog s.tree o).2 = .ok catalog := by rw [hload]
          cases hstdout : o.stdout with
          | true => exact course_of_runStream catalog sources hstdout rfl rfl
          | false =>
              exact course_of_runFiles hstdout hnames hcatalog hsources (h catalog sources) rfl rfl
  · exact .stopped (.inl (.name hmem hname)) rfl rfl rfl

theorem EndsIn.course {result : Outcome} (h : EndsIn s o arguments result) :
    Course s o arguments result.tree result.error := by
  rcases h with ⟨assembler, hbatches, rfl⟩
  exact course_of_runWith hbatches

/-- Where a run writes, nothing hindered it. -/
theorem not_hindrance {tree : FileTree} {catalog : Catalog}
    (hnames : ∀ a ∈ arguments, isSource a = true) (hcatalog : (loadCatalog tree o).2 = .ok catalog)
    (hassembled : ∀ a ∈ arguments, ∃ result, Assembled tree catalog a result) :
    ¬ Hindrance tree o arguments := by
  intro h
  cases h with
  | name hmem hname => cases hname.symm.trans (hnames _ hmem)
  | definitions hmem hflawed =>
      rcases loadCatalog_cases tree o with ⟨-, error, herror, -⟩ | ⟨hgood, -⟩
      · cases hcatalog.symm.trans herror
      · exact hgood _ hmem hflawed
  | unread hmem herror =>
      rcases hassembled _ hmem with ⟨result, text, hread, -⟩
      cases herror.symm.trans hread
  | refused hmem hcatalog' hread herror =>
      rcases hassembled _ hmem with ⟨result, text, hread', hresult⟩
      cases hcatalog.symm.trans hcatalog'
      cases hread.symm.trans hread'
      cases herror.symm.trans hresult

/-- The place of the output of an argument. -/
def IsOutput (tree : FileTree) (o : Options) (arguments : List Bytes) (place : Place) : Prop :=
  ∃ a ∈ arguments, tree.locate (Path.output a o.outDir) = .ok place

theorem isOutput_of_adds {tree : FileTree} {catalog : Catalog} {written : List Bytes}
    {files : List (Place × Bytes)} (h : List.Forall₂ (Adds tree o catalog) written files)
    (hsubset : written ⊆ arguments) {f : Place × Bytes} (hf : f ∈ files) :
    IsOutput tree o arguments f.1 := by
  rcases exists_mem_of_forall₂ h.flip hf with ⟨a, ha, hplace, -⟩
  exact ⟨a, hsubset ha, hplace⟩

theorem atExit_of_unmarked {result : Outcome} (h : result.leftover? = none) :
    result.atExit = result.tree := by
  rw [Outcome.atExit, h, Option.elim_none]

theorem atExit_of_success {result : Outcome} (h : result.error = none) :
    result.atExit = result.tree :=
  atExit_of_unmarked (by rw [Outcome.leftover?, h, Option.bind_none])

theorem atExit_of_marked {result : Outcome} {path : Bytes} (h : result.leftover? = some path) :
    result.atExit = result.tree.remove path := by
  rw [Outcome.atExit, h, Option.elim_some]

theorem leftover?_of_output {result : Outcome} {flaw : OutputError}
    (h : result.error = some (.output flaw)) : result.leftover? = flaw.leftover? := by
  rw [Outcome.leftover?, h]
  rfl

namespace EndsIn

variable {result : Outcome}

theorem of_hindrance (h : EndsIn s o arguments result) (hstdout : o.stdout = false)
    (hhindrance : Hindrance s.tree o arguments) :
    result.tree = s.tree ∧ result.atExit = s.tree ∧ result.error.isSome = true := by
  cases h.course with
  | stopped _ htree herror hleftover =>
      exact ⟨htree, (atExit_of_unmarked hleftover).trans htree, herror⟩
  | streamed hstdout' => cases hstdout.symm.trans hstdout'
  | written _ hnames hcatalog hadds =>
      refine absurd hhindrance (not_hindrance hnames hcatalog ?_)
      intro a ha
      rcases exists_mem_of_forall₂ hadds ha with ⟨f, -, -, r, hr, -⟩
      exact ⟨r, hr⟩
  | failed _ hnames hcatalog hassembled =>
      exact absurd hhindrance (not_hindrance hnames hcatalog hassembled)

theorem of_stdout (h : EndsIn s o arguments result) (hstdout : o.stdout = true) :
    result.tree = s.tree ∧ result.atExit = s.tree := by
  cases h.course with
  | stopped _ htree _ hleftover => exact ⟨htree, (atExit_of_unmarked hleftover).trans htree⟩
  | streamed _ htree hleftover => exact ⟨htree, (atExit_of_unmarked hleftover).trans htree⟩
  | written hstdout' => cases hstdout.symm.trans hstdout'
  | failed hstdout' => cases hstdout.symm.trans hstdout'

/-- Neither the run nor the end of the program touches anything but outputs. -/
theorem within (h : EndsIn s o arguments result) :
    FileTree.Within (IsOutput s.tree o arguments) s.tree result.tree ∧
      FileTree.Within (IsOutput s.tree o arguments) s.tree result.atExit := by
  cases h.course with
  | stopped _ htree _ hleftover | streamed _ htree hleftover =>
      rw [atExit_of_unmarked hleftover, htree]
      exact ⟨.refl _ _, .refl _ _⟩
  | written _ _ _ hadds htree herror =>
      rw [atExit_of_success herror, htree]
      have hput := FileTree.Within.putAll
        (fun f hf => isOutput_of_adds hadds (List.Subset.refl _) hf) s.tree
      exact ⟨hput, hput⟩
  | @failed _ written files argument flaw _ _ _ _ hwritten hadds hstops herror =>
      have hargument : argument ∈ arguments := hwritten.subset (by simp)
      have hsubset : written ⊆ arguments := fun a ha => hwritten.subset (List.mem_append_left _ ha)
      have hput := FileTree.Within.putAll (fun f hf => isOutput_of_adds hadds hsubset hf) s.tree
      have hleftover := leftover?_of_output herror
      cases hstops with
      | uncreated hunmarked htree =>
          rw [atExit_of_unmarked (hleftover.trans hunmarked), htree]
          exact ⟨hput, hput⟩
      | refused text hplace hmarked htree =>
          have hafter : FileTree.Within (IsOutput s.tree o arguments) s.tree result.tree := by
            rw [htree]
            exact hput.trans (.put ⟨argument, hargument, hplace⟩ _ text)
          rw [atExit_of_marked (hleftover.trans hmarked)]
          refine ⟨hafter, hafter.trans (.remove ?_)⟩
          intro place hlocate
          exact ⟨argument, hargument, FileTree.locate_congr hlocate hafter.directories.symm⟩

/-- A place whose file has changed is that of an output, and not that of a source. -/
theorem of_changed (h : EndsIn s o arguments result) {place : Place}
    (hchanged : result.tree.find? place ≠ s.tree.find? place ∨
      result.atExit.find? place ≠ s.tree.find? place) :
    (∃ a ∈ arguments, s.tree.locate (Path.output a o.outDir) = .ok place) ∧
      ∀ a ∈ arguments, s.tree.locate a ≠ .ok place := by
  have houtput : IsOutput s.tree o arguments place := by
    by_contra hother
    rcases hchanged with hchanged | hchanged
    · exact hchanged (h.within.1.elsewhere place hother)
    · exact hchanged (h.within.2.elsewhere place hother)
  have hnames : ∀ a ∈ arguments, isSource a = true := by
    cases h.course with
    | stopped _ htree _ hleftover | streamed _ htree hleftover =>
        rw [atExit_of_unmarked hleftover, htree] at hchanged
        simp at hchanged
    | written _ hnames => exact hnames
    | failed _ hnames => exact hnames
  rcases houtput with ⟨a, ha, hplace⟩
  refine ⟨⟨a, ha, hplace⟩, ?_⟩
  intro other hother
  exact FileTree.output_place_ne (hnames other hother) (hnames a ha) hplace

/-- Without a hindrance a run writes all its outputs, or fails with one of them. -/
theorem of_not_hindrance (h : EndsIn s o arguments result) (hstdout : o.stdout = false)
    (hcancelled : s.cancelled = false) (hnone : ¬ Hindrance s.tree o arguments) :
    (result.error = none ∧
        ∀ a ∈ arguments, ∃ place text, s.tree.locate (Path.output a o.outDir) = .ok place ∧
          result.tree.find? place = some text) ∨
      ∃ error, result.error = some (.output error) := by
  cases h.course with
  | stopped hcause =>
      rcases hcause with hhindrance | hcancelled'
      · exact absurd hhindrance hnone
      · cases hcancelled.symm.trans hcancelled'
  | streamed hstdout' => cases hstdout.symm.trans hstdout'
  | written _ _ _ hadds htree herror =>
      refine .inl ⟨herror, ?_⟩
      intro a ha
      rcases exists_mem_of_forall₂ hadds ha with ⟨f, hf, hplace, -⟩
      -- The text need not be that of this argument: a later output may have gone to the same place.
      rcases exists_lookup_of_mem (List.mem_reverse.2 hf) with ⟨text, htext, -⟩
      exact ⟨f.1, text, hplace, by rw [htree, FileTree.find?_putAll, htext, Option.some_or]⟩
  | failed _ _ _ _ _ _ _ herror => exact .inr ⟨_, herror⟩

/-- What the program leaves was there before, or was put there as the records of an argument. -/
theorem find?_atExit (h : EndsIn s o arguments result) :
    result.atExit = s.tree ∨
      ∃ catalog written files, (loadCatalog s.tree o).2 = .ok catalog ∧ written ⊆ arguments ∧
        List.Forall₂ (Adds s.tree o catalog) written files ∧
        ∀ place text, result.atExit.find? place = some text →
          (s.tree.putAll files).find? place = some text := by
  cases h.course with
  | stopped _ htree _ hleftover | streamed _ htree hleftover =>
      exact .inl ((atExit_of_unmarked hleftover).trans htree)
  | @written catalog files _ _ hcatalog hadds htree herror =>
      refine .inr ⟨catalog, arguments, files, hcatalog, List.Subset.refl _, hadds, ?_⟩
      rw [atExit_of_success herror, htree]
      exact fun _ _ hfind => hfind
  | @failed catalog written files argument flaw _ _ hcatalog _ hwritten hadds hstops herror =>
      have hsubset : written ⊆ arguments := fun a ha => hwritten.subset (List.mem_append_left _ ha)
      have hleftover := leftover?_of_output herror
      refine .inr ⟨catalog, written, files, hcatalog, hsubset, hadds, ?_⟩
      intro place text hfind
      cases hstops with
      | uncreated hunmarked htree =>
          rwa [atExit_of_unmarked (hleftover.trans hunmarked), htree] at hfind
      | refused partly hplace hmarked htree =>
          -- The file that was put there last is gone, and nothing else is.
          have hlocate := FileTree.locate_congr hplace (FileTree.directories_putAll s.tree files)
          rw [atExit_of_marked (hleftover.trans hmarked), htree,
            FileTree.find?_remove_put hlocate] at hfind
          split at hfind
          · cases hfind
          · exact hfind

end EndsIn

end Command

/-! ## The files of a run -/

open Command in
/-- Which files a run can change, whatever the schedule of its batch, until it ends and until the
program has ended. Nothing changes where a name, a definition file or a source is not right,
wherever it stands among the arguments, nor where the records are printed. What does change are the
files at the places of the outputs, and none of them is a source. Without a hindrance, only writing
itself can fail. -/
theorem run_changes_only_outputs (s : Surroundings) (o : Options) (arguments : List Bytes) :
    EndsIn s o arguments (outcome s o arguments) ∧
    ∀ result, EndsIn s o arguments result →
      (o.stdout = false → Hindrance s.tree o arguments →
        result.tree = s.tree ∧ result.atExit = s.tree ∧ result.error.isSome = true) ∧
      (o.stdout = true → result.tree = s.tree ∧ result.atExit = s.tree) ∧
      (∀ place, result.tree.find? place ≠ s.tree.find? place ∨
          result.atExit.find? place ≠ s.tree.find? place →
        (∃ a ∈ arguments, s.tree.locate (Path.output a o.outDir) = .ok place) ∧
          ∀ a ∈ arguments, s.tree.locate a ≠ .ok place) ∧
      (o.stdout = false → s.cancelled = false → ¬ Hindrance s.tree o arguments →
        (result.error = none ∧
          ∀ a ∈ arguments, ∃ place text, s.tree.locate (Path.output a o.outDir) = .ok place ∧
            result.tree.find? place = some text) ∨
        ∃ error, result.error = some (.output error)) := by
  refine ⟨endsIn_outcome s o arguments, ?_⟩
  intro result hends
  exact ⟨hends.of_hindrance, hends.of_stdout, fun place => hends.of_changed, hends.of_not_hindrance⟩

/-- Two sources, the second of which cannot be assembled. -/
def sampleTree : FileTree :=
  ⟨[], [([utf8 "a.dlx"], utf8 "nop\n"), ([utf8 "b.dlx"], utf8 "add r1\n")]⟩

open Command in
theorem sampleTree_changes_only_outputs :
    Hindrance sampleTree {} [utf8 "a.dlx", utf8 "b.dlx"] ∧
      (outcome { tree := sampleTree } {} [utf8 "a.dlx", utf8 "b.dlx"]).tree = sampleTree ∧
      (outcome { tree := sampleTree } {} [utf8 "a.dlx"]).tree.find? [utf8 "a.hex"] ≠
        sampleTree.find? [utf8 "a.hex"] ∧
      sampleTree.locate (Path.output (utf8 "a.dlx") []) = .ok [utf8 "a.hex"] ∧
      sampleTree.locate (utf8 "a.dlx") ≠ .ok [utf8 "a.hex"] := by
  have hcatalog : (loadCatalog sampleTree {}).2 = .ok .builtin := rfl
  have hread : sampleTree.read (utf8 "b.dlx") = .ok (utf8 "add r1\n") := rfl
  have hrefused : assemble .builtin (utf8 "b.dlx") (utf8 "add r1\n") =
      .error (.at ⟨utf8 "b.dlx", 1, 0, ⟨.malformedOperand, utf8 "add r1"⟩⟩) := by
    decide +kernel
  have hhindrance : Hindrance sampleTree {} [utf8 "a.dlx", utf8 "b.dlx"] :=
    .refused (List.mem_cons_of_mem _ List.mem_cons_self) hcatalog hread hrefused
  have hchanged : (outcome { tree := sampleTree } {} [utf8 "a.dlx"]).tree.find? [utf8 "a.hex"] ≠
      sampleTree.find? [utf8 "a.hex"] := by
    decide +kernel
  have hboth := run_changes_only_outputs { tree := sampleTree } {} [utf8 "a.dlx", utf8 "b.dlx"]
  have hfirst := run_changes_only_outputs { tree := sampleTree } {} [utf8 "a.dlx"]
  rcases (hfirst.2 _ hfirst.1).2.2.1 _ (.inl hchanged) with ⟨⟨a, ha, hplace⟩, hsource⟩
  cases List.mem_singleton.1 ha
  exact ⟨hhindrance, ((hboth.2 _ hboth.1).1 rfl hhindrance).1, hchanged, hplace, hsource _ ha⟩

open Command in
/-- When the program has ended there is no partial output, whatever went wrong with the disk: a file
holds what it held before the run, or all the records of an argument whose output it is. -/
theorem no_partial_output {s : Surroundings} {o : Options} {arguments : List Bytes}
    {result : Outcome} (h : EndsIn s o arguments result) {place : Place} {text : Bytes}
    (hfind : result.atExit.find? place = some text) :
    s.tree.find? place = some text ∨
      ∃ catalog, (loadCatalog s.tree o).2 = .ok catalog ∧
        ∃ a ∈ arguments, Adds s.tree o catalog a (place, text) := by
  rcases h.find?_atExit with hsame | ⟨catalog, written, files, hcatalog, hsubset, hadds, hkept⟩
  · rw [hsame] at hfind
    exact .inl hfind
  · rcases FileTree.find?_putAll_cases (hkept place text hfind) with hmem | hbefore
    · rcases exists_mem_of_forall₂ hadds.flip hmem with ⟨a, ha, hadd⟩
      exact .inr ⟨catalog, hcatalog, a, hsubset ha, hadd⟩
    · exact .inl hbefore

end Dlx
