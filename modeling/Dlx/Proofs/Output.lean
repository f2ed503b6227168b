import Dlx.Command.HexFile
import Dlx.Isa.Builtin
import Dlx.Proofs.Records
import Dlx.Proofs.StringLiterals

/-!
# Output files

An output file is read back as soon as it is written. What the assembler writes consists of
hexadecimal digits, so that every record reads back as it was, as long as the reader takes its line.
A line of the reader ends below `Lines.limit` bytes, and a record has two digits for every byte of
its element: an element of more than 32761 bytes is laid out and encoded, and its file is then
refused.

* `FileTree.read_of_create`: a file that was created holds what was written
* `Record.load_renderAll_of_clean`: how a text of clean records is read
* `HexFile.write_of_clean`: what becomes of an output file with clean values
* `assemble_letterSource`: strings of every length that a source line can hold are assembled
* `write_assembled_rows`: which assembled files can be written
-/

namespace Dlx

/-! ## Files that were just created -/

namespace FileTree

/-- Where names lead hangs on the directories alone, and not on what the files hold. -/
theorem follow_congr {t t' : FileTree} {start target : Place} {names : List Bytes}
    (h : t.follow start names = .ok target) (hsame : t'.directories = t.directories) :
    t'.follow start names = .ok target := by
  have hsame : ∀ p, t'.isDirectory p = t.isDirectory p :=
    fun p => by rw [isDirectory, isDirectory, hsame]
  fun_induction follow t start names with
  | case1 => exact h
  | case2 | case5 => cases h
  | case3 start name rest hdirectory hskip ih =>
      rw [follow, hsame, if_neg hdirectory, if_pos hskip]
      exact ih h
  | case4 start name rest hdirectory hskip hup ih =>
      rw [follow, hsame, if_neg hdirectory, if_neg hskip, if_pos hup]
      exact ih h
  | case6 start name rest hdirectory hskip hup hname ih =>
      rw [follow, hsame, if_neg hdirectory, if_neg hskip, if_neg hup, if_neg hname]
      exact ih h

theorem locate_congr {t t' : FileTree} {target : Place} {path : Bytes}
    (h : t.locate path = .ok target) (hsame : t'.directories = t.directories) :
    t'.locate path = .ok target := by
  unfold locate at h ⊢
  split at h
  · cases h
  · rename_i hzero
    rw [if_neg hzero]
    split at h
    · cases h
    · rename_i hempty
      rw [if_neg hempty]
      split at h
      · cases h
      · rename_i hlong
        rw [if_neg hlong]
        exact follow_congr h hsame

theorem find?_delete (t : FileTree) (place : Place) : (t.delete place).find? place = none := by
  refine List.lookup_eq_none_iff.2 ?_
  intro f hf
  have hne := (List.mem_filter.1 hf).2
  simpa [bne_iff_ne, ne_comm] using hne

theorem find?_put (t : FileTree) (place : Place) (text : Bytes) :
    (t.put place text).find? place = some text := by
  have hnone := t.find?_delete place
  rw [find?, delete] at hnone
  rw [find?, put, List.lookup_append, hnone, Option.none_or, List.lookup_cons_self]

/-- A path that was created had no slash at its end. -/
theorem exists_place_of_create {t t' : FileTree} {path text : Bytes}
    (h : t.create path text = .ok t') :
    ∃ place, t.locate path = .ok place ∧ t' = t.put place text := by
  unfold create at h
  have hprefix : Path.dropSlashes path <+: path := List.rdropWhile_prefix (· == Path.slash) path
  dsimp only at h
  split at h
  · cases h
  · rename_i place hlocate
    split at h
    · cases h
    · rename_i hfree
      cases h
      have hlength : ¬ (Path.dropSlashes path).length < path.length := by
        intro hlt
        simp [hlt] at hfree
      have hpath : Path.dropSlashes path = path := hprefix.eq_of_length_le (Nat.not_lt.1 hlength)
      refine ⟨place, ?_, rfl⟩
      rw [hpath, ite_self] at hlocate
      exact hlocate

/-- A file that was created holds what was written. -/
theorem read_of_create {t t' : FileTree} {path text : Bytes} (h : t.create path text = .ok t') :
    t'.read path = .ok text := by
  rcases exists_place_of_create h with ⟨place, hlocate, rfl⟩
  have hput : (t.put place text).locate path = .ok place := locate_congr hlocate rfl
  simp [read, hput, find?_put]

end FileTree

/-! ## Reading clean records -/

namespace Record

theorem flatMap_split_of_clean {records : List Record} (h : ∀ r ∈ records, Clean r.value) :
    records.flatMap (fun r => Bytes.split 0x0A r.render) = records.map render := by
  induction records with
  | nil => rfl
  | cons r rest ih =>
      have hfirst := (lines_of_clean (h r List.mem_cons_self)).1
      have hrest := ih fun r' hr' => h r' (List.mem_cons_of_mem r hr')
      rw [List.flatMap_cons, hfirst, hrest, List.map_cons, List.singleton_append]

/-- A text of clean records is read as it was written, or refused at a line that is too long for the
reader. -/
theorem load_renderAll_of_clean {records : List Record} (h : ∀ r ∈ records, Clean r.value) :
    load (renderAll records) =
      if ∀ r ∈ records, r.render.length < Lines.limit then .ok records else .error .overlong := by
  split
  · rename_i hfits
    exact (load_renderAll_iff records).2 fun r hr => ⟨hfits r hr, h r hr⟩
  · rename_i hlong
    have hpieces : Lines.pieces (renderAll records) = records.map render := by
      rw [pieces_renderAll, flatMap_split_of_clean h]
    have hoverlong : (Lines.ofBytes (renderAll records)).overlong = true := by
      refine Bool.of_not_eq_false fun hfalse => hlong fun r hr => ?_
      refine Lines.overlong_eq_false_iff.1 hfalse r.render ?_
      rw [hpieces]
      exact List.mem_map_of_mem hr
    -- The records in front of the long line are read without an error.
    have hfront : ∀ r ∈ records.takeWhile (Lines.fits ∘ render), Clean r.value :=
      fun r hr => h r (List.takeWhile_subset _ hr)
    have hlines : parseLines (Lines.ofBytes (renderAll records)).lines =
        .ok (records.takeWhile (Lines.fits ∘ render)) := by
      have hread := (parseLines_render_iff _).2 hfront
      rw [flatMap_split_of_clean hfront] at hread
      rw [Lines.ofBytes, hpieces, List.takeWhile_map]
      exact hread
    simp [load, hlines, hoverlong]

end Record

/-! ## Files of rows -/

namespace HexFile

theorem agrees_record (row : Row) : agrees row.record row = true := by
  unfold agrees
  cases hword : row.word? with
  | none => simp
  | some word =>
      have hcontent : row.content = .word word := by
        unfold Row.word? at hword
        split at hword
        · rename_i value hvalue
          cases hword
          exact hvalue
        · cases hword
      simp [Row.word_record hcontent, Except.toOption]

/-- A text that reads as the records of a list of rows passes for these rows. -/
theorem check_of_load {text : Bytes} {rows : List Row} (path : Bytes)
    (h : Record.load text = .ok (rows.map Row.record)) : check path text rows = none := by
  have hlength : (rows.map Row.record).length = rows.length := List.length_map Row.record
  have hall : ∀ pair ∈ (rows.map Row.record).zip rows, agrees pair.1 pair.2 = true := by
    intro pair hmem
    rw [← List.map_prod_right_eq_zip] at hmem
    rcases List.mem_map.1 hmem with ⟨row, -, rfl⟩
    exact agrees_record row
  rw [check, h]
  dsimp only
  rw [if_neg (not_not_intro hlength), Option.map_eq_none_iff, List.find?_eq_none]
  intro pair hmem
  simp [hall pair hmem]

theorem verify_of_read {tree : FileTree} {path text : Bytes} (h : tree.read path = .ok text)
    (rows : List Row) :
    verify tree path rows = check path text rows := by
  rw [verify, h]

/-- On a disk that does not fail, a file that was created is read back. -/
theorem write_of_create {t t' : FileTree} {path : Bytes} {rows : List Row}
    (h : t.create path (Row.renderAll rows) = .ok t') :
    write t path rows = (t', verify t' path rows) := by
  simp only [write, Option.elim_none, h]

/-- An output file with clean values is accepted exactly when its records fit into lines of the
reader. -/
theorem write_of_clean {t t' : FileTree} {path : Bytes} {rows : List Row}
    (h : ∀ row ∈ rows, Record.Clean row.value)
    (hcreate : t.create path (Row.renderAll rows) = .ok t') :
    write t path rows =
      (t', if ∀ row ∈ rows, row.render.length < Lines.limit then none
        else some (.records path .overlong)) := by
  have hrecords : ∀ r ∈ rows.map Row.record, Record.Clean r.value := List.forall_mem_map.2 h
  have hload := Record.load_renderAll_of_clean hrecords
  have hverify := verify_of_read (FileTree.read_of_create hcreate) rows
  rw [write_of_create hcreate, hverify]
  split
  · rename_i hfits
    rw [if_pos (List.forall_mem_map.2 hfits)] at hload
    rw [Row.renderAll, check_of_load path hload]
  · rename_i hlong
    rw [if_neg fun hall => hlong (List.forall_mem_map.1 hall)] at hload
    rw [check, Row.renderAll, hload]

end HexFile

/-! ## Files of assembled rows -/

theorem Row.length_render (row : Row) : row.render.length = row.value.length + 12 := by
  have hlength : row.record.render.length = row.record.value.length + 12 := by
    simp [Record.render_eq, (isHex_hex8 row.record.address).length]
    omega
  exact hlength

namespace Trace.Agrees

variable {line : Line} {trace : Trace}

/-- What is written of a line are hexadecimal digits. -/
theorem clean (h : Trace.Agrees line trace) {row : Row} (hrow : row ∈ trace.rows) :
    Record.Clean row.value := by
  cases h with
  | instruction _ hholds =>
      cases List.mem_singleton.1 hrow
      exact Record.clean_of_isHex hholds.value
  | data _ _ _ hrows =>
      rcases exists_mem_of_forall₂ hrows.flip hrow with ⟨e, -, hholds⟩
      exact Record.clean_of_isHex hholds.value
  | other => cases hrow

/-- The records of a line fit exactly when none of its elements has more than 32761 bytes. -/
theorem fits_iff (h : Trace.Agrees line trace) (helements : line.elements = []) :
    (∀ row ∈ trace.rows, row.render.length < Lines.limit) ↔
      ∀ placed ∈ trace.kept, ∀ e ∈ placed.elements, e.size.toNat ≤ 32761 := by
  cases h with
  | @instruction address row _ hholds =>
      refine iff_of_true ?_ ?_
      · intro row' hrow'
        cases List.mem_singleton.1 hrow'
        rw [Row.length_render, hholds.value.length]
        decide
      · intro placed hplaced e he
        cases hplaced
        rw [helements] at he
        cases he
  | @data address elements rows _ _ _ hrows =>
      -- A record is its digits, two a byte, and twelve bytes around them.
      have hrecord : ∀ {e : Element} {row : Row},
          Row.Holds { line with address, elements } e.address (2 * e.size.toNat) row →
            (row.render.length < Lines.limit ↔ e.size.toNat ≤ 32761) := by
        intro e row hholds
        rw [Row.length_render, hholds.value.length, Lines.limit]
        omega
      constructor
      · intro hall placed hplaced e he
        cases hplaced
        rcases exists_mem_of_forall₂ hrows he with ⟨row, hrow, hholds⟩
        exact (hrecord hholds).1 (hall row hrow)
      · intro hall row hrow
        rcases exists_mem_of_forall₂ hrows.flip hrow with ⟨e, he, hholds⟩
        exact (hrecord hholds).2 (hall _ rfl e he)
  | other _ hkept =>
      refine iff_of_true (fun row hrow => (by cases hrow)) ?_
      intro placed hplaced e he
      rcases hkept placed hplaced with ⟨address, rfl⟩
      rw [helements] at he
      cases he

end Trace.Agrees

theorem elements_eq_nil_of_mem_sourceLines {source : Bytes} {line : Line}
    (h : line ∈ Layout.sourceLines source) : line.elements = [] := by
  rcases Layout.exists_tokens_of_mem_numbered h with ⟨raw, -, n, htokens⟩
  rcases Line.sorted_of_ofTokens? htokens with ⟨first, others, -, hsorted⟩
  exact hsorted.elements_eq_nil

/-- The rows of a file are clean, and they fit exactly when no element has more than 32761 bytes. -/
theorem rows_clean_and_fit {catalog : Catalog} {file source : Bytes} {result : Assembly}
    (h : assemble catalog file source = .ok result) :
    (∀ row ∈ result.rows, Record.Clean row.value) ∧
      ((∀ row ∈ result.rows, row.render.length < Lines.limit) ↔
        ∀ line ∈ result.program.lines, ∀ e ∈ line.elements, e.size.toNat ≤ 32761) := by
  rcases exists_traces_of_assemble h with ⟨-, traces, hlines, hrows, hruns⟩
  have hagrees := forall₂_agrees_of_runs hruns
  have hline : ∀ trace ∈ traces, ∃ line ∈ Layout.sourceLines source, Trace.Agrees line trace :=
    fun trace htrace => exists_mem_of_forall₂ hagrees.flip htrace
  have hmemRows : ∀ row, row ∈ result.rows ↔ ∃ trace ∈ traces, row ∈ trace.rows := by
    intro row
    simp [hrows]
  have hmemLines : ∀ placed, placed ∈ result.program.lines ↔
      ∃ trace ∈ traces, placed ∈ trace.kept := by
    intro placed
    rw [hlines, List.reduceOption_mem_iff]
    simp
  constructor
  · intro row hrow
    rcases (hmemRows row).1 hrow with ⟨trace, htrace, hmem⟩
    rcases hline trace htrace with ⟨line, -, hagree⟩
    exact hagree.clean hmem
  · -- Both sides speak of the same traces.
    have hfits : ∀ trace ∈ traces, ((∀ row ∈ trace.rows, row.render.length < Lines.limit) ↔
        ∀ placed ∈ trace.kept, ∀ e ∈ placed.elements, e.size.toNat ≤ 32761) := by
      intro trace htrace
      rcases hline trace htrace with ⟨line, hmem, hagree⟩
      exact hagree.fits_iff (elements_eq_nil_of_mem_sourceLines hmem)
    constructor
    · intro hall placed hplaced
      rcases (hmemLines placed).1 hplaced with ⟨trace, htrace, hkept⟩
      exact (hfits trace htrace).1
        (fun row hrow => hall row ((hmemRows row).2 ⟨trace, htrace, hrow⟩)) placed hkept
    · intro hall row hrow
      rcases (hmemRows row).1 hrow with ⟨trace, htrace, hmem⟩
      exact (hfits trace htrace).2
        (fun placed hkept => hall placed ((hmemLines placed).2 ⟨trace, htrace, hkept⟩)) row hmem

/-! ## Strings of letters

A string directive whose literal has as many letters as one likes, up to the length of a source
line.
-/

/-- A string literal of letters. -/
def letterLiteral (n : Nat) : Bytes :=
  0x22 :: (List.replicate n 0x61 ++ [0x22])

/-- A string directive with a literal of letters. -/
def letterSource (n : Nat) : Bytes :=
  utf8 ".ascii " ++ letterLiteral n

/-- Letters as items of a literal. -/
def letterItems (n : Nat) : List Literal.Item :=
  List.replicate n (.plain 'a' (by decide))

theorem written_letterItems (n : Nat) : Literal.written (letterItems n) = List.replicate n 'a' :=
  List.flatMap_replicate.trans List.flatten_replicate_singleton

theorem denoted_letterItems (n : Nat) : Literal.denoted (letterItems n) = List.replicate n 0x61 :=
  List.flatMap_replicate.trans List.flatten_replicate_singleton

theorem encode_letters (n : Nat) : Utf8.encode (List.replicate n 'a') = List.replicate n 0x61 :=
  List.flatMap_replicate.trans List.flatten_replicate_singleton

theorem text_letterItems (n : Nat) :
    StringDirective.text false (letterItems n) = letterSource n := by
  have hname : StringDirective.name false ++ utf8 " " = utf8 ".ascii " := by decide
  rw [StringDirective.text, hname, Literal.encode_quoted, written_letterItems, encode_letters,
    letterSource, letterLiteral]

theorem fits_letterSource {n : Nat} (h : n ≤ 65526) : Lines.fits (letterSource n) = true := by
  have hlength : (letterSource n).length = n + 9 := by
    have hdirective : (utf8 ".ascii ").length = 7 := by decide
    simp only [letterSource, letterLiteral, List.length_append, List.length_cons,
      List.length_replicate, hdirective, List.length_nil]
    omega
  simp only [Lines.fits, Lines.limit, hlength, decide_eq_true_eq]
  omega

/-- A string of letters is assembled as long as its line can be read, and takes a byte for every
letter. -/
theorem assemble_letterSource {n : Nat} (h : n ≤ 65526) (catalog : Catalog) :
    ∃ result, assemble catalog [] (letterSource n) = .ok result ∧
      ∀ bound, (∀ line ∈ result.program.lines, ∀ e ∈ line.elements, e.size.toNat ≤ bound) ↔
        n ≤ bound := by
  have hfits : Lines.fits (StringDirective.text false (letterItems n)) = true := by
    rw [text_letterItems]
    exact fits_letterSource h
  have hsize : (UInt32.ofNat (StringDirective.size false (letterItems n))).toNat = n := by
    rw [UInt32.toNat_ofNat_of_lt' (StringDirective.size_lt hfits), StringDirective.size,
      denoted_letterItems, List.length_replicate, Bool.toNat_false, Nat.add_zero]
  rw [← text_letterItems]
  refine ⟨_, StringDirective.assemble_text hfits catalog [], fun bound => ?_⟩
  simp [StringDirective.placed, hsize]

/-! ## What can be written -/

/-- What becomes of the output file of a source that is assembled, on a path that can be created:
the file is written, and it is accepted exactly when no element of the source takes more than 32761
bytes. -/
theorem write_assembled_rows {catalog : Catalog} {file source path : Bytes} {result : Assembly}
    {t t' : FileTree} (h : assemble catalog file source = .ok result)
    (hcreate : t.create path (Row.renderAll result.rows) = .ok t') :
    HexFile.write t path result.rows =
      (t', if ∀ line ∈ result.program.lines, ∀ e ∈ line.elements, e.size.toNat ≤ 32761 then none
        else some (.records path .overlong)) := by
  rcases rows_clean_and_fit h with ⟨hclean, hfits⟩
  rw [HexFile.write_of_clean hclean hcreate, if_congr hfits rfl rfl]

/-- The longest string of letters whose file is accepted. -/
theorem longestString_written :
    ∃ result t, assemble Catalog.builtin [] (letterSource 32761) = .ok result ∧
      FileTree.empty.create (utf8 "a.hex") (Row.renderAll result.rows) = .ok t ∧
      HexFile.write FileTree.empty (utf8 "a.hex") result.rows = (t, none) := by
  rcases assemble_letterSource (n := 32761) (by omega) Catalog.builtin with
    ⟨result, hassemble, hsizes⟩
  refine ⟨result, _, hassemble, rfl, ?_⟩
  rw [write_assembled_rows hassemble rfl, if_pos ((hsizes 32761).2 (by omega))]

/-- With one letter more the source is assembled all the same, and its file is refused. -/
theorem longerString_refused :
    ∃ result t, assemble Catalog.builtin [] (letterSource 32762) = .ok result ∧
      FileTree.empty.create (utf8 "a.hex") (Row.renderAll result.rows) = .ok t ∧
      HexFile.write FileTree.empty (utf8 "a.hex") result.rows =
        (t, some (.records (utf8 "a.hex") .overlong)) := by
  rcases assemble_letterSource (n := 32762) (by omega) Catalog.builtin with
    ⟨result, hassemble, hsizes⟩
  rcases rows_clean_and_fit hassemble with ⟨hclean, hfits⟩
  have hlong : ¬ ∀ row ∈ result.rows, row.render.length < Lines.limit := by
    intro hall
    have hle := (hsizes 32761).1 (hfits.1 hall)
    omega
  refine ⟨result, _, hassemble, rfl, ?_⟩
  rw [HexFile.write_of_clean hclean rfl, if_neg hlong]

end Dlx
