import Dlx.Proofs.Effects

/-!
# Outputs that a run keeps

A run reads every output back as soon as it has written it, but the outputs behind it may still be
written to the same place. Next to their sources they cannot: where two outputs meet, the sources
are one file, and their records are the same. In a directory of their own, outputs meet wherever two
sources have the same name, whatever directories these stand in; the run succeeds, and only the last
of them is left.

* `assemble_rename`: the name of a file has no part in its rows
* `FileTree.putAll_keeps_iff`: when every file that was put into a tree is still there
* `outputs_kept_iff`: when a run that succeeds keeps all its outputs
* `sharedName_overwrites`: two sources of one name and a single output
-/

namespace Dlx

/-! ## The name of a file -/

theorem Layout.Pass.step_rename {file : Bytes} (file' : Bytes) {p p' : Pass} {raw : Bytes}
    (h : Pass.step file p raw = .ok p') : Pass.step file' p raw = .ok p' := by
  unfold Pass.step at h ⊢
  split at h
  · exact h
  · split at h
    · exact h
    · cases h

theorem layout_rename {file source : Bytes} (file' : Bytes) {program : Program}
    (h : layout file source = .ok program) : layout file' source = .ok ⟨file', program.lines⟩ := by
  rcases layout_eq_ok.1 h with ⟨pass, hrun, hread, rfl⟩
  have hrun' : runUntil (Layout.Pass.step file') .start (Lines.ofBytes source).lines =
      (pass, none) :=
    runUntil_of_ok (fun _ _ _ => Layout.Pass.step_rename file') hrun
  exact layout_eq_ok.2 ⟨pass, hrun', hread, rfl⟩

/-- A file that is assembled is assembled under every name, to the same symbols and rows. -/
theorem assemble_rename {catalog : Catalog} {file source : Bytes} (file' : Bytes)
    {result : Assembly} (h : assemble catalog file source = .ok result) :
    assemble catalog file' source =
      .ok { result with program := ⟨file', result.program.lines⟩ } := by
  rcases bind_eq_ok.1 h with ⟨program, hlayout, hrest⟩
  rcases bind_eq_ok.1 hrest with ⟨rows, hrows, hresult⟩
  cases pure_eq_ok.1 hresult
  -- The name is part of the errors of a line only.
  have hrows' : encode ⟨file', program.lines⟩ (.ofLines program.lines) catalog = .ok rows := by
    rcases map_eq_ok.1 hrows with ⟨lines, hlines, rfl⟩
    refine map_eq_ok.2 ⟨lines, mapM_eq_ok.2 ((mapM_eq_ok.1 hlines).imp ?_), rfl⟩
    intro line rows hline
    exact mapError_eq_ok.2 (mapError_eq_ok.1 hline)
  exact bind_eq_ok.2 ⟨_, layout_rename file' hlayout, bind_eq_ok.2 ⟨rows, hrows', rfl⟩⟩

/-! ## Files that are still there -/

namespace FileTree

theorem read_eq_ok {t : FileTree} {path text : Bytes} :
    t.read path = .ok text ↔ ∃ place, t.locate path = .ok place ∧ t.find? place = some text := by
  cases hlocate : t.locate path with
  | error flaw => simp [read, hlocate]
  | ok place =>
      cases hfind : t.find? place with
      | some text' => simp [read, hlocate, hfind]
      | none =>
          have hread : t.read path ≠ .ok text := by
            simp only [read, hlocate, hfind]
            split
            · simp
            · simp
          simp [hread, hfind]

/-- All files that were put into a tree are still there exactly when no two of them differ at one
place. -/
theorem putAll_keeps_iff (t : FileTree) (files : List (Place × Bytes)) :
    (∀ f ∈ files, (t.putAll files).find? f.1 = some f.2) ↔
      ∀ f ∈ files, ∀ g ∈ files, f.1 = g.1 → f.2 = g.2 := by
  constructor
  · intro hkept f hf g hg hplace
    have hboth : some f.2 = some g.2 := (hkept f hf).symm.trans (hplace ▸ hkept g hg)
    exact Option.some.inj hboth
  · intro hsame f hf
    -- Something was put at this place, and whatever it was is the same as here.
    rcases exists_lookup_of_mem (List.mem_reverse.2 hf) with ⟨text, htext, hmem⟩
    have hsameText : f.2 = text := hsame f hf (f.1, text) (List.mem_reverse.1 hmem) rfl
    rw [find?_putAll, htext, Option.some_or, hsameText]

end FileTree

/-! ## The outputs of a run -/

namespace Command

variable {s : Surroundings} {o : Options} {arguments : List Bytes} {catalog : Catalog}
  {result : Outcome}

theorem Assembled.unique {tree : FileTree} {argument : Bytes} {result result' : Assembly}
    (h : Assembled tree catalog argument result) (h' : Assembled tree catalog argument result') :
    result = result' := by
  rcases h with ⟨text, hread, hassemble⟩
  rcases h' with ⟨text', hread', hassemble'⟩
  cases hread.symm.trans hread'
  exact Except.ok.inj (hassemble.symm.trans hassemble')

/-- What a run that succeeds puts into its files: the records of every argument, one after the
other. -/
theorem EndsIn.exists_files (h : EndsIn s o arguments result) (hstdout : o.stdout = false)
    (hsuccess : result.error = none) :
    ∃ catalog files, (loadCatalog s.tree o).2 = .ok catalog ∧
      (∀ a ∈ arguments, isSource a = true) ∧
      List.Forall₂ (Adds s.tree o catalog) arguments files ∧ result.tree = s.tree.putAll files := by
  cases h.course with
  | stopped _ _ herror =>
      rw [hsuccess] at herror
      cases herror
  | streamed hstdout' => cases hstdout.symm.trans hstdout'
  | @written catalog files _ hnames hcatalog hadds htree =>
      exact ⟨catalog, files, hcatalog, hnames, hadds, htree⟩
  | failed _ _ _ _ _ _ _ herror => cases hsuccess.symm.trans herror

theorem Adds.text_eq {tree : FileTree} {argument : Bytes} {f : Place × Bytes}
    (h : Adds tree o catalog argument f) {result : Assembly}
    (hresult : Assembled tree catalog argument result) : f.2 = Row.renderAll result.rows := by
  rcases h with ⟨-, result', hresult', htext⟩
  rw [htext, hresult'.unique hresult]

/-- Next to their sources, outputs that meet have the same records. -/
theorem Adds.text_eq_of_place {tree : FileTree} {first second : Bytes} {f g : Place × Bytes}
    (h : Adds tree o catalog first f) (h' : Adds tree o catalog second g) (hbeside : o.outDir = [])
    (hfirst : isSource first = true) (hsecond : isSource second = true) (hplace : f.1 = g.1) :
    f.2 = g.2 := by
  rcases h with ⟨houtput, result, hresult, htext⟩
  rcases h' with ⟨houtput', result', hresult', htext'⟩
  rw [hbeside] at houtput houtput'
  rcases hresult with ⟨text, hread, hassemble⟩
  rcases hresult' with ⟨text', hread', hassemble'⟩
  rcases FileTree.read_eq_ok.1 hread with ⟨place, hlocate, hfind⟩
  rcases FileTree.read_eq_ok.1 hread' with ⟨place', hlocate', hfind'⟩
  -- The sources are one file, so they have one text, and it gives the same rows under both names.
  have hsources : place = place' :=
    FileTree.same_place_of_output hfirst hsecond hlocate hlocate' houtput (hplace ▸ houtput')
  have htexts : text = text' := Option.some.inj (hfind.symm.trans (hsources ▸ hfind'))
  have hrenamed := assemble_rename second hassemble
  rw [htexts] at hrenamed
  cases hrenamed.symm.trans hassemble'
  rw [htext, htext']

/-- The outputs read as the records of their sources when everything that was put into the tree is
still there. -/
theorem reads_iff_keeps {tree : FileTree} {files : List (Place × Bytes)}
    (h : List.Forall₂ (Adds tree o catalog) arguments files) :
    (∀ a ∈ arguments, ∀ result, Assembled tree catalog a result →
        (tree.putAll files).read (Path.output a o.outDir) = .ok (Row.renderAll result.rows)) ↔
      ∀ f ∈ files, (tree.putAll files).find? f.1 = some f.2 := by
  -- Files do not move paths: an output is found where it was before anything was written.
  have hsame := FileTree.directories_putAll tree files
  constructor
  · intro hreads f hf
    rcases exists_mem_of_forall₂ h.flip hf with ⟨a, ha, hplace, result, hresult, htext⟩
    rcases FileTree.read_eq_ok.1 (hreads a ha result hresult) with ⟨place, hlocate, hfind⟩
    cases (FileTree.locate_congr hplace hsame).symm.trans hlocate
    rw [hfind, htext]
  · intro hkeeps a ha result hresult
    rcases exists_mem_of_forall₂ h ha with ⟨f, hf, hadds⟩
    refine FileTree.read_eq_ok.2 ⟨f.1, FileTree.locate_congr hadds.1 hsame, ?_⟩
    rw [hkeeps f hf, hadds.text_eq hresult]

end Command

open Command in
/-- When a run that succeeds keeps all its outputs, whatever the schedule of its batch. Nothing is
removed when such a run ends, and every argument of it is assembled. All of the outputs hold the
records of their own sources exactly when the outputs stand next to the sources, or when no two
sources of one name have different records. -/
theorem outputs_kept_iff {s : Surroundings} {o : Options} {arguments : List Bytes}
    {result : Outcome} (hends : EndsIn s o arguments result) (hstdout : o.stdout = false)
    (hsuccess : result.error = none) :
    result.atExit = result.tree ∧
    ∃ catalog, (loadCatalog s.tree o).2 = .ok catalog ∧
      (∀ a ∈ arguments, ∃ assembly, Assembled s.tree catalog a assembly) ∧
      ((∀ a ∈ arguments, ∀ assembly, Assembled s.tree catalog a assembly →
          result.tree.read (Path.output a o.outDir) = .ok (Row.renderAll assembly.rows)) ↔
        o.outDir = [] ∨
          ∀ a ∈ arguments, ∀ b ∈ arguments, Path.base a = Path.base b → ∀ assembly assembly',
            Assembled s.tree catalog a assembly → Assembled s.tree catalog b assembly' →
              Row.renderAll assembly.rows = Row.renderAll assembly'.rows) := by
  refine ⟨atExit_of_success hsuccess, ?_⟩
  rcases hends.exists_files hstdout hsuccess with ⟨catalog, files, hcatalog, hnames, hadds, htree⟩
  refine ⟨catalog, hcatalog, ?_, ?_⟩
  · intro a ha
    rcases exists_mem_of_forall₂ hadds ha with ⟨f, -, -, assembly, hassembly, -⟩
    exact ⟨assembly, hassembly⟩
  · rw [htree, reads_iff_keeps hadds, FileTree.putAll_keeps_iff]
    by_cases hbeside : o.outDir = []
    · refine iff_of_true ?_ (.inl hbeside)
      intro f hf g hg hplace
      rcases exists_mem_of_forall₂ hadds.flip hf with ⟨a, ha, hfirst⟩
      rcases exists_mem_of_forall₂ hadds.flip hg with ⟨b, hb, hsecond⟩
      exact Adds.text_eq_of_place hfirst hsecond hbeside (hnames a ha) (hnames b hb) hplace
    · -- Here outputs meet where the names of the sources are the same.
      constructor
      · intro hsame
        refine .inr ?_
        intro a ha b hb hbase assembly assembly' hassembly hassembly'
        rcases exists_mem_of_forall₂ hadds ha with ⟨f, hf, hfirst⟩
        rcases exists_mem_of_forall₂ hadds hb with ⟨g, hg, hsecond⟩
        have hplace : f.1 = g.1 :=
          (FileTree.same_place_iff hbeside (hnames a ha) (hnames b hb) hfirst.1 hsecond.1).2 hbase
        rw [← hfirst.text_eq hassembly, ← hsecond.text_eq hassembly', hsame f hf g hg hplace]
      · rintro (hnone | hrecords) f hf g hg hplace
        · exact absurd hnone hbeside
        · rcases exists_mem_of_forall₂ hadds.flip hf with
            ⟨a, ha, hfirst, assembly, hassembly, htext⟩
          rcases exists_mem_of_forall₂ hadds.flip hg with
            ⟨b, hb, hsecond, assembly', hassembly', htext'⟩
          have hbase : Path.base a = Path.base b :=
            (FileTree.same_place_iff hbeside (hnames a ha) (hnames b hb) hfirst hsecond).1 hplace
          rw [htext, htext', hrecords a ha b hb hbase assembly assembly' hassembly hassembly']

/-- Sources in two directories, and a directory for outputs. -/
def sampleOutputs : Surroundings :=
  { tree :=
      ⟨[[utf8 "a"], [utf8 "b"], [utf8 "out"]],
        [([utf8 "a", utf8 "p.dlx"], utf8 "nop\n"), ([utf8 "b", utf8 "p.dlx"], utf8 ".word 1\n"),
          ([utf8 "b", utf8 "q.dlx"], utf8 ".word 1\n")]⟩ }

/-- What a run leaves behind that puts its outputs into that directory. -/
def sampleOutcome (arguments : List Bytes) : Outcome :=
  Command.outcome sampleOutputs { outDir := utf8 "out" } arguments

open Command in
theorem sampleOutputs_kept :
    (sampleOutcome [utf8 "a/p.dlx", utf8 "b/q.dlx"]).error = none ∧
      ∀ a ∈ [utf8 "a/p.dlx", utf8 "b/q.dlx"], ∀ assembly,
        Assembled sampleOutputs.tree .builtin a assembly →
          (sampleOutcome [utf8 "a/p.dlx", utf8 "b/q.dlx"]).tree.read (Path.output a (utf8 "out")) =
            .ok (Row.renderAll assembly.rows) := by
  have hsuccess : (sampleOutcome [utf8 "a/p.dlx", utf8 "b/q.dlx"]).error = none := by
    decide +kernel
  rcases outputs_kept_iff (endsIn_outcome _ _ _) rfl hsuccess with ⟨-, catalog, hcatalog, -, hkept⟩
  cases hcatalog
  have hnames : ∀ a ∈ [utf8 "a/p.dlx", utf8 "b/q.dlx"], ∀ b ∈ [utf8 "a/p.dlx", utf8 "b/q.dlx"],
      Path.base a = Path.base b → a = b := by
    decide
  refine ⟨hsuccess, hkept.2 (.inr ?_)⟩
  intro a ha b hb hbase assembly assembly' hassembly hassembly'
  cases hnames a ha b hb hbase
  rw [hassembly.unique hassembly']

open Command in
/-- With sources of one name a run succeeds as well, and the output of the first one holds other
records. -/
theorem sharedName_overwrites :
    [utf8 "a/p.dlx", utf8 "b/p.dlx"].Nodup ∧
      (sampleOutcome [utf8 "a/p.dlx", utf8 "b/p.dlx"]).error = none ∧
      ∃ assembly, Assembled sampleOutputs.tree .builtin (utf8 "a/p.dlx") assembly ∧
        (sampleOutcome [utf8 "a/p.dlx", utf8 "b/p.dlx"]).tree.read
          (Path.output (utf8 "a/p.dlx") (utf8 "out")) ≠ .ok (Row.renderAll assembly.rows) := by
  have hrows : (assemble .builtin (utf8 "a/p.dlx") (utf8 "nop\n")).toOption.map
      (fun r => Row.renderAll r.rows) = some (utf8 "00000000: 00000000\t#\n") := by
    decide +kernel
  have hread : (sampleOutcome [utf8 "a/p.dlx", utf8 "b/p.dlx"]).tree.read
      (Path.output (utf8 "a/p.dlx") (utf8 "out")) = .ok (utf8 "00000000: 00000001\t#\n") := by
    decide +kernel
  refine ⟨by decide, by decide +kernel, ?_⟩
  cases hfirst : assemble .builtin (utf8 "a/p.dlx") (utf8 "nop\n") with
  | error error =>
      rw [hfirst] at hrows
      cases hrows
  | ok assembly =>
      have htext : Row.renderAll assembly.rows = utf8 "00000000: 00000000\t#\n" := by
        rw [hfirst] at hrows
        exact Option.some.inj hrows
      refine ⟨assembly, ⟨_, rfl, hfirst⟩, ?_⟩
      rw [hread, htext]
      decide

end Dlx
