import Dlx.Proofs.Output

/-!
# The check of an output file

An output file is read back and compared with the rows that it was written for: first the number of
records, then record by record the address and the value, and for a row that holds a word also the
word that the value reads as. The last comparison is never the one that fails, because the eight
digits of a word read as that word and no other.

* `HexFile.FirstDifference`: where a list of records and a list of rows go apart
* `HexFile.Refused`: the three ways in which a text is not that of a list of rows, each with its
  error
* `HexFile.accepted_or_refused`, `HexFile.Refused.check_eq`: every text reads as the records of the
  rows or is refused
* `verify_accepts_exactly_rows`: the check of a file passes for no other text
-/

namespace Dlx

namespace HexFile

/-! ## One record -/

theorem agrees_iff {record : Record} {row : Row} :
    agrees record row = true ↔ record = row.record := by
  constructor
  · intro h
    unfold agrees at h
    rw [Bool.and_eq_true, beq_iff_eq] at h
    exact h.1
  · rintro rfl
    exact agrees_record row

/-! ## Lists of records -/

/-- The first row whose record is not the one at its place. -/
inductive FirstDifference : List Record → List Row → Row → Prop where
  | here {record : Record} {row : Row} {records : List Record} {rows : List Row}
      (h : record ≠ row.record) :
      FirstDifference (record :: records) (row :: rows) row
  | behind {row found : Row} {records : List Record} {rows : List Row}
      (h : FirstDifference records rows found) :
      FirstDifference (row.record :: records) (row :: rows) found

theorem exists_firstDifference {records : List Record} {rows : List Row}
    (hlength : records.length = rows.length) (h : records ≠ rows.map Row.record) :
    ∃ row, FirstDifference records rows row := by
  induction records generalizing rows with
  | nil =>
      have hnone : rows = [] := List.eq_nil_of_length_eq_zero hlength.symm
      exact absurd (by rw [hnone]; rfl) h
  | cons record records ih =>
      cases rows with
      | nil => cases hlength
      | cons row rows =>
          by_cases hrecord : record = row.record
          · have hrest : records ≠ rows.map Row.record := by
              rintro rfl
              exact h (by rw [hrecord]; rfl)
            rcases ih (Nat.succ.inj hlength) hrest with ⟨found, hfound⟩
            rw [hrecord]
            exact ⟨found, .behind hfound⟩
          · exact ⟨row, .here hrecord⟩

/-- The search for a disagreement stops at the first difference. -/
theorem FirstDifference.exists_find? {records : List Record} {rows : List Row} {row : Row}
    (h : FirstDifference records rows row) :
    ∃ record, (records.zip rows).find? (fun pair => !agrees pair.1 pair.2) =
      some (record, row) := by
  induction h with
  | @here record row records rows h =>
      have hdiffers : agrees record row = false :=
        Bool.eq_false_iff.2 fun hagrees => h (agrees_iff.1 hagrees)
      exact ⟨record, by rw [List.zip_cons_cons, List.find?_cons]; simp [hdiffers]⟩
  | @behind row found records rows _ ih =>
      rcases ih with ⟨record, hfind⟩
      have hagrees : agrees row.record row = true := agrees_record row
      exact ⟨record, by rw [List.zip_cons_cons, List.find?_cons]; simp [hagrees, hfind]⟩

/-! ## Texts -/

/-- What is wrong with a text of records for a list of rows: it cannot be read, it has fewer or more
records than there are rows, or a record is not that of its row. -/
inductive Refused (path text : Bytes) (rows : List Row) : OutputError → Prop where
  | unreadable {error : Record.Error} (h : Record.load text = .error error) :
      Refused path text rows (.records path error)
  | count {records : List Record} (h : Record.load text = .ok records)
      (hlength : records.length ≠ rows.length) :
      Refused path text rows (.count path records.length rows.length)
  | differs {records : List Record} {row : Row} (h : Record.load text = .ok records)
      (hlength : records.length = rows.length) (hfirst : FirstDifference records rows row) :
      Refused path text rows (.differs path row.address)

variable {path text : Bytes} {rows : List Row} {error : OutputError}

theorem Refused.check_eq (h : Refused path text rows error) :
    check path text rows = some error := by
  cases h with
  | unreadable h => rw [check, h]
  | count h hlength =>
      rw [check, h]
      exact if_pos hlength
  | differs h hlength hfirst =>
      rcases hfirst.exists_find? with ⟨record, hfind⟩
      rw [check, h]
      dsimp only
      rw [if_neg (not_not_intro hlength)]
      exact congrArg (Option.map fun pair => OutputError.differs path pair.2.address) hfind

theorem accepted_or_refused (path text : Bytes) (rows : List Row) :
    Record.load text = .ok (rows.map Row.record) ∨ ∃ error, Refused path text rows error := by
  cases hload : Record.load text with
  | error e => exact .inr ⟨_, .unreadable hload⟩
  | ok records =>
      by_cases hsame : records = rows.map Row.record
      · exact .inl (by rw [hsame])
      · by_cases hlength : records.length = rows.length
        · rcases exists_firstDifference hlength hsame with ⟨row, hfirst⟩
          exact .inr ⟨_, .differs hload hlength hfirst⟩
        · exact .inr ⟨_, .count hload hlength⟩

theorem check_eq_none_iff :
    check path text rows = none ↔ Record.load text = .ok (rows.map Row.record) := by
  constructor
  · intro h
    rcases accepted_or_refused path text rows with hload | ⟨error, hrefused⟩
    · exact hload
    · rw [hrefused.check_eq] at h
      cases h
  · exact check_of_load path

theorem check_eq_some_iff : check path text rows = some error ↔ Refused path text rows error := by
  constructor
  · intro h
    rcases accepted_or_refused path text rows with hload | ⟨other, hrefused⟩
    · rw [check_of_load path hload] at h
      cases h
    · rw [hrefused.check_eq] at h
      cases h
      exact hrefused
  · exact Refused.check_eq

/-! ## Files -/

theorem verify_eq_none_iff {tree : FileTree} :
    verify tree path rows = none ↔
      ∃ text, tree.read path = .ok text ∧ Record.load text = .ok (rows.map Row.record) := by
  cases hread : tree.read path with
  | ok text =>
      rw [verify_of_read hread, check_eq_none_iff]
      constructor
      · exact fun hload => ⟨text, rfl, hload⟩
      · rintro ⟨other, hother, hload⟩
        cases hother
        exact hload
  | error e =>
      constructor
      · intro h
        rw [verify, hread] at h
        dsimp only at h
        split at h
        · cases h
        · cases h
      · rintro ⟨text, htext, -⟩
        cases htext

end HexFile

/-- The check of an output file passes exactly when the file can be read and its text reads as the
records of the rows, in their order. Every other text is refused: as unreadable, by the number of
its records, or at the first row whose record is not the one at its place. Comparing words refuses
nothing more: a record with the address and the value of a row that holds a word reads as that
word. -/
theorem verify_accepts_exactly_rows (tree : FileTree) (path : Bytes) (rows : List Row) :
    (HexFile.verify tree path rows = none ↔
        ∃ text, tree.read path = .ok text ∧ Record.load text = .ok (rows.map Row.record)) ∧
      (∀ text, tree.read path = .ok text →
        ∀ error, HexFile.verify tree path rows = some error ↔
          HexFile.Refused path text rows error) ∧
      ∀ (record : Record) (row : Row) (word : UInt32), record.address = row.address →
          record.value = row.value →
        row.content = .word word → record.word = .ok word := by
  refine ⟨HexFile.verify_eq_none_iff, fun text hread error => ?_,
    fun record row word haddress hvalue hcontent => ?_⟩
  · rw [HexFile.verify_of_read hread, HexFile.check_eq_some_iff]
  · have hrecord : record = row.record := by
      cases record
      cases haddress
      cases hvalue
      rfl
    rw [hrecord, Row.word_record hcontent]

/-- An instruction and a string behind it. -/
def sampleRows : List Row :=
  [⟨0x10, .word 0x20410004, none⟩, ⟨0x14, .text (utf8 "6162"), none⟩]

/-- Their records by another hand: a short address, a blank line, a comment. -/
def sampleHexText : Bytes :=
  utf8 "10:20410004\n\n 00000014 : 6162 # ab\n"

/-- The same records in the other order. -/
def sampleReordered : Bytes :=
  utf8 "00000014: 6162\t#\n00000010: 20410004\t#\n"

/-- A working directory with both files. -/
def sampleHexFiles : FileTree :=
  ⟨[], [([utf8 "a.hex"], sampleHexText), ([utf8 "b.hex"], sampleReordered)]⟩

theorem sampleHexFiles_verified :
    HexFile.verify sampleHexFiles (utf8 "a.hex") sampleRows = none ∧
      HexFile.verify sampleHexFiles (utf8 "b.hex") sampleRows =
        some (.differs (utf8 "b.hex") 0x10) := by
  have hread : sampleHexFiles.read (utf8 "a.hex") = .ok sampleHexText := by decide +kernel
  have hother : sampleHexFiles.read (utf8 "b.hex") = .ok sampleReordered := by decide +kernel
  have hload : Record.load sampleHexText = .ok (sampleRows.map Row.record) := by decide +kernel
  have hreordered : Record.load sampleReordered = .ok (sampleRows.map Row.record).reverse := by
    decide +kernel
  refine ⟨(verify_accepts_exactly_rows _ _ _).1.2 ⟨_, hread, hload⟩, ?_⟩
  refine ((verify_accepts_exactly_rows _ _ _).2.1 _ hother _).2 ?_
  exact .differs hreordered rfl (.here (by decide))

end Dlx
