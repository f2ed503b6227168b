import Dlx.Isa.Builtin
import Dlx.Proofs.Positional
import Mathlib.Data.List.Dedup

/-!
# Loading definitions

A definition text is a list of records, and a catalog is what is left of all the records it was ever
given: of two records for one opcode the later one counts, whatever their formats and whichever text
they stood in. A text that cannot be read to its end still gives the records in front of the line
that is wrong.

* `Catalog.Defines`: what a record says, field by field, and `Catalog.parse_eq_ok_iff`, that it is
  read so
* `Catalog.Takes`: the records of a text in front of the first line that is wrong
* `Catalog.Follows`: a catalog with the last record for every opcode, kept up by every load
* `Catalog.loadAll_follows_records`: the counts, the descriptors and the size after any number of
  loads
* `Catalog.loadAll_definitionTexts`: the built-in catalog is what its definition texts are loaded to
-/

namespace Dlx

/-- What every descriptor that is read has. -/
structure Descriptor.WellFormed (d : Descriptor) : Prop where
  trimmed : Blank.IsTrimmed d.opcode
  untabbed : 0x09 ∉ d.opcode
  function : d.format ≠ .r → d.function = -1

namespace Catalog

/-! ## Records -/

/-- The fields of a line, which are what stands between its tabs. -/
structure Fields (line : Bytes) (fields : List Bytes) : Prop where
  joined : line = Bytes.join [0x09] fields
  untabbed : ∀ field ∈ fields, 0x09 ∉ field

/-- A record: an opcode and its number, and in format R a function code. White space around them
does not count, and more fields may follow. -/
inductive Defines (format : Format) (line : Bytes) : Descriptor → Prop where
  | plain {first second opcode digits : Bytes} {others : List Bytes} {encoding : UInt32}
      (hformat : format ≠ .r) (hfields : Fields line (first :: second :: others))
      (hopcode : Blank.Padded opcode first) (hsecond : Blank.Padded digits second)
      (hencoding : Numeral.Writes 10 digits encoding.toNat) :
      Defines format line ⟨opcode, encoding, format, Descriptor.noFunction⟩
  | functional {first second third opcode digits numeral : Bytes} {others : List Bytes}
      {encoding : UInt32} {function : Int} (hformat : format = .r)
      (hfields : Fields line (first :: second :: third :: others))
      (hopcode : Blank.Padded opcode first) (hsecond : Blank.Padded digits second)
      (hencoding : Numeral.Writes 10 digits encoding.toNat) (hthird : Blank.Padded numeral third)
      (hfunction : Numeral.WritesSigned 10 numeral function)
      (hrange : -2 ^ 31 ≤ function ∧ function < 2 ^ 31) :
      Defines format line ⟨opcode, encoding, format, function⟩

theorem fields_split (line : Bytes) : Fields line (Bytes.split 0x09 line) where
  joined := (Bytes.join_split 0x09 line).symm
  untabbed _ hfield := Bytes.not_mem_of_mem_split hfield

theorem Fields.split_eq {line : Bytes} {fields : List Bytes} (h : Fields line fields)
    (hne : fields ≠ []) :
    Bytes.split 0x09 line = fields := by
  rw [h.joined, Bytes.split_join hne h.untabbed]

/-- What a line must have to be read, in the order in which it is looked at. -/
theorem parse_eq_ok_iff_fields {format : Format} {line : Bytes} {d : Descriptor} :
    parse format line = .ok d ↔
      fieldsOf format ≤ (Bytes.split 0x09 line).length ∧
      Numeral.natural 10 32 (Blank.trim ((Bytes.split 0x09 line).getD 1 [])) =
        .ok d.encoding.toNat ∧
      parseFunction format (Bytes.split 0x09 line) = .ok d.function ∧
      d.opcode = Blank.trim ((Bytes.split 0x09 line).getD 0 []) ∧ d.format = format := by
  unfold parse
  by_cases hcount : (Bytes.split 0x09 line).length < fieldsOf format
  · simp only [if_pos hcount]
    constructor
    · intro h
      cases h
    · intro h
      exact absurd h.1 (Nat.not_le.2 hcount)
  · simp only [if_neg hcount]
    constructor
    · intro h
      rcases bind_eq_ok.1 h with ⟨encoding, hencoding, h⟩
      rcases bind_eq_ok.1 h with ⟨function, hfunction, h⟩
      cases pure_eq_ok.1 h
      have hnatural := mapError_eq_ok.1 (mapError_eq_ok.1 hencoding)
      exact ⟨Nat.not_lt.1 hcount, by rw [hnatural, Numeral.toNat_of_natural hnatural], hfunction,
        rfl, rfl⟩
    · rintro ⟨-, hencoding, hfunction, hopcode, hformat⟩
      refine bind_eq_ok.2 ⟨d.encoding.toNat, mapError_eq_ok.2 (mapError_eq_ok.2 hencoding), ?_⟩
      refine bind_eq_ok.2 ⟨d.function, hfunction, pure_eq_ok.2 ?_⟩
      rw [← hopcode, ← hformat, Nat.toUInt32_eq, UInt32.ofNat_toNat]

theorem parseFunction_functional {fields : List Bytes} {function : Int} :
    parseFunction .r fields = .ok function ↔
      Numeral.WritesSigned 10 (Blank.trim (fields.getD 2 [])) function ∧ -2 ^ 31 ≤ function ∧
        function < 2 ^ 31 := by
  have hpow : ((2 ^ (32 - 1) : Nat) : Int) = 2 ^ 31 := by decide
  rw [parseFunction, if_pos rfl, mapError_eq_ok, Numeral.readInteger, mapError_eq_ok,
    Numeral.integer_eq_ok_iff (by decide), hpow]

theorem parseFunction_plain {format : Format} (h : format ≠ .r) {fields : List Bytes}
    {function : Int} :
    parseFunction format fields = .ok function ↔ function = Descriptor.noFunction := by
  rw [parseFunction, if_neg h, Except.ok.injEq, eq_comm]

theorem exists_cons_of_le {n : Nat} {fields : List Bytes} (h : n + 1 ≤ fields.length) :
    ∃ field rest, fields = field :: rest ∧ n ≤ rest.length := by
  cases fields with
  | nil => cases h
  | cons field rest => exact ⟨field, rest, rfl, Nat.le_of_succ_le_succ h⟩

/-- The lines that are read as records. -/
theorem parse_eq_ok_iff {format : Format} {line : Bytes} {d : Descriptor} :
    parse format line = .ok d ↔ Defines format line d := by
  rw [parse_eq_ok_iff_fields]
  constructor
  · rintro ⟨hcount, hencoding, hfunction, hopcode, hformat⟩
    have hfields := fields_split line
    have hwrites := Numeral.natural_eq_word_iff.1 hencoding
    rcases d with ⟨opcode, encoding, given, function⟩
    dsimp only at hencoding hfunction hopcode hformat hwrites
    subst given
    generalize Bytes.split 0x09 line = fields at *
    -- As many fields are opened as the format needs; what is left over is never looked at.
    by_cases hr : format = .r
    · rw [fieldsOf, if_pos hr] at hcount
      rw [hr, parseFunction_functional] at hfunction
      rcases hfunction with ⟨hnumeral, hrange⟩
      rcases exists_cons_of_le hcount with ⟨first, rest, rfl, htwo⟩
      rcases exists_cons_of_le htwo with ⟨second, rest, rfl, hone⟩
      rcases exists_cons_of_le hone with ⟨third, others, rfl, -⟩
      exact .functional hr hfields (Blank.trim_eq_iff.1 hopcode.symm)
        (Blank.trim_eq_iff.1 rfl) hwrites (Blank.trim_eq_iff.1 rfl) hnumeral hrange
    · rw [fieldsOf, if_neg hr] at hcount
      cases (parseFunction_plain hr).1 hfunction
      rcases exists_cons_of_le hcount with ⟨first, rest, rfl, hone⟩
      rcases exists_cons_of_le hone with ⟨second, others, rfl, -⟩
      exact .plain hr hfields (Blank.trim_eq_iff.1 hopcode.symm) (Blank.trim_eq_iff.1 rfl) hwrites
  · intro h
    cases h with
    | plain hformat hfields hopcode hsecond hencoding =>
        rw [hfields.split_eq (List.cons_ne_nil _ _), parseFunction_plain hformat, fieldsOf,
          if_neg hformat]
        refine ⟨by simp, ?_, rfl, (Blank.trim_eq_iff.2 hopcode).symm, rfl⟩
        rw [List.getD_cons_succ, List.getD_cons_zero, Blank.trim_eq_iff.2 hsecond,
          Numeral.natural_eq_word_iff.2 hencoding]
    | functional hformat hfields hopcode hsecond hencoding hthird hfunction hrange =>
        subst hformat
        rw [hfields.split_eq (List.cons_ne_nil _ _), parseFunction_functional, fieldsOf, if_pos rfl]
        refine ⟨by simp, ?_, ?_, (Blank.trim_eq_iff.2 hopcode).symm, rfl⟩
        · rw [List.getD_cons_succ, List.getD_cons_zero, Blank.trim_eq_iff.2 hsecond,
            Numeral.natural_eq_word_iff.2 hencoding]
        · rw [List.getD_cons_succ, List.getD_cons_succ, List.getD_cons_zero,
            Blank.trim_eq_iff.2 hthird]
          exact ⟨hfunction, hrange⟩

/-- A record describes an opcode without white space around it and without a tab, and has a function
code in format R alone. -/
theorem Defines.wellFormed {format : Format} {line : Bytes} {d : Descriptor}
    (h : Defines format line d) :
    d.WellFormed := by
  have huntabbed : ∀ {first opcode : Bytes} {rest : List Bytes}, Fields line (first :: rest) →
      Blank.Padded opcode first →
      0x09 ∉ opcode := by
    intro first opcode rest hfields hopcode hmem
    rw [← Blank.trim_eq_iff.2 hopcode] at hmem
    exact hfields.untabbed first List.mem_cons_self (Blank.trim_subset first hmem)
  cases h with
  | plain hformat hfields hopcode => exact ⟨hopcode.1, huntabbed hfields hopcode, fun _ => rfl⟩
  | functional hformat hfields hopcode =>
      exact ⟨hopcode.1, huntabbed hfields hopcode, fun hother => absurd hformat hother⟩

/-! ## Carriage returns -/

/-- What a carriage return at the end of a line does not change is not changed by dropping all of
them. -/
theorem apply_dropReturns {α : Type} {f : Bytes → α} (h : ∀ line, f (line ++ [0x0D]) = f line)
    (line : Bytes) :
    f (dropReturns line) = f line := by
  induction line using List.reverseRecOn with
  | nil => rfl
  | append_singleton front b ih =>
      by_cases hb : b = 0x0D
      · rw [hb, h, ← ih]
        simp [dropReturns]
      · simp [dropReturns, hb]

theorem apply_dropReturn {α : Type} {f : Bytes → α} (h : ∀ line, f (line ++ [0x0D]) = f line)
    (line : Bytes) :
    f (Lines.dropReturn line) = f line := by
  unfold Lines.dropReturn
  split
  · rename_i hlast
    rw [← h line.dropLast, List.dropLast_append_getLast? _ hlast]
  · rfl

theorem trim_append_return (line : Bytes) : Blank.trim (line ++ [0x0D]) = Blank.trim line :=
  Blank.trim_append_blank (by decide) (by decide) line

/-- A carriage return at the end of a line is white space around its last field. -/
theorem parse_append_return (format : Format) (line : Bytes) :
    parse format (line ++ [0x0D]) = parse format line := by
  rcases @Bytes.exists_split_append 0x09 [0x0D] (by decide) line with ⟨front, last, hline, hgrown⟩
  have htrim : ∀ i, Blank.trim ((front ++ [last ++ [0x0D]]).getD i []) =
      Blank.trim ((front ++ [last]).getD i []) := by
    intro i
    rw [← List.getD_map (f := Blank.trim), ← List.getD_map (f := Blank.trim), List.map_append,
      List.map_append, List.map_singleton, List.map_singleton, trim_append_return]
  simp only [parse, parseFunction, hline, hgrown, htrim, List.length_append, List.length_singleton]

/-! ## The records of a text -/

/-- The records that are taken from lines: those in front of the first line that is over-long, or
neither blank nor a record. -/
inductive Takes (format : Format) : List Bytes → List Descriptor → Prop where
  | done : Takes format [] []
  | blank {raw : Bytes} {raws : List Bytes} {taken : List Descriptor}
      (hfits : Lines.fits raw = true) (hblank : Blank.Padded [] raw) (h : Takes format raws taken) :
      Takes format (raw :: raws) taken
  | record {raw : Bytes} {raws : List Bytes} {d : Descriptor} {taken : List Descriptor}
      (hfits : Lines.fits raw = true) (hblank : ¬ Blank.Padded [] raw)
      (hrecord : Defines format raw d) (h : Takes format raws taken) :
      Takes format (raw :: raws) (d :: taken)
  | overlong {raw : Bytes} (raws : List Bytes) (hfits : Lines.fits raw = false) :
      Takes format (raw :: raws) []
  | malformed {raw : Bytes} (raws : List Bytes) (hfits : Lines.fits raw = true)
      (hblank : ¬ Blank.Padded [] raw) (hrecord : ∀ d, ¬ Defines format raw d) :
      Takes format (raw :: raws) []

theorem Takes.exists_defines {format : Format} {raws : List Bytes} {taken : List Descriptor}
    (h : Takes format raws taken) {d : Descriptor} (hd : d ∈ taken) :
    ∃ raw ∈ raws, Defines format raw d := by
  induction h with
  | done | overlong | malformed => cases hd
  | @blank raw raws _ _ _ _ ih =>
      rcases ih hd with ⟨line, hmem, hline⟩
      exact ⟨line, List.mem_cons_of_mem raw hmem, hline⟩
  | @record raw raws _ _ _ _ hrecord _ ih =>
      rcases List.mem_cons.1 hd with rfl | hd
      · exact ⟨raw, List.mem_cons_self, hrecord⟩
      · rcases ih hd with ⟨line, hmem, hline⟩
        exact ⟨line, List.mem_cons_of_mem raw hmem, hline⟩

/-- The outcomes of physical lines, counted from some number on. -/
def outcomesFrom (format : Format) (first : Nat) (raws : List Bytes) :
    List (Except Error Descriptor) :=
  (((raws.takeWhile Lines.fits).map Lines.dropReturn).zipIdx first).filterMap fun line =>
    if (Blank.trim (dropReturns line.1)).isEmpty then none
    else some ((parse format (dropReturns line.1)).mapError (.malformed line.2))

theorem accepted_eq (format : Format) (text : Bytes) :
    (accepted format text).1 = (untilError (outcomesFrom format 1 (Lines.pieces text))).1 := rfl

theorem outcomesFrom_cons (format : Format) (first : Nat) (raw : Bytes) (raws : List Bytes) :
    outcomesFrom format first (raw :: raws) =
      if Lines.fits raw = false then []
      else if Blank.trim raw = [] then outcomesFrom format (first + 1) raws
      else (parse format raw).mapError (.malformed first) ::
        outcomesFrom format (first + 1) raws := by
  have htrim : Blank.trim (dropReturns (Lines.dropReturn raw)) = Blank.trim raw := by
    rw [apply_dropReturns trim_append_return, apply_dropReturn trim_append_return]
  have hparse : parse format (dropReturns (Lines.dropReturn raw)) = parse format raw := by
    rw [apply_dropReturns (parse_append_return format),
      apply_dropReturn (parse_append_return format)]
  by_cases hfits : Lines.fits raw = false
  · simp [outcomesFrom, hfits]
  · by_cases hblank : Blank.trim raw = []
    · simp [outcomesFrom, hfits, htrim, hblank]
    · simp [outcomesFrom, hfits, htrim, hparse, hblank]

theorem untilError_outcomesFrom {format : Format} {raws : List Bytes} {taken : List Descriptor}
    (h : Takes format raws taken) (first : Nat) :
    (untilError (outcomesFrom format first raws)).1 = taken := by
  -- The number of a line shows up in its error alone, so this is shown for every first number.
  induction h generalizing first with
  | done => rfl
  | blank hfits hblank _ ih =>
      rw [outcomesFrom_cons, if_neg (by simp [hfits]), if_pos (Blank.trim_eq_iff.2 hblank), ih]
  | record hfits hblank hrecord _ ih =>
      rw [outcomesFrom_cons, if_neg (by simp [hfits]), if_neg (mt Blank.trim_eq_iff.1 hblank),
        parse_eq_ok_iff.2 hrecord]
      exact congrArg _ (ih (first + 1))
  | overlong raws hfits =>
      rw [outcomesFrom_cons, if_pos hfits]
      rfl
  | @malformed raw raws hfits hblank hrecord =>
      rw [outcomesFrom_cons, if_neg (by simp [hfits]), if_neg (mt Blank.trim_eq_iff.1 hblank)]
      cases hparse : parse format raw with
      | ok d => exact absurd (parse_eq_ok_iff.1 hparse) (hrecord d)
      | error flaw => rfl

theorem exists_takes (format : Format) (raws : List Bytes) : ∃ taken, Takes format raws taken := by
  induction raws with
  | nil => exact ⟨[], .done⟩
  | cons raw raws ih =>
      rcases ih with ⟨taken, htaken⟩
      cases hfits : Lines.fits raw with
      | false => exact ⟨[], .overlong raws hfits⟩
      | true =>
          by_cases hblank : Blank.Padded [] raw
          · exact ⟨taken, .blank hfits hblank htaken⟩
          · by_cases hrecord : ∃ d, Defines format raw d
            · rcases hrecord with ⟨d, hd⟩
              exact ⟨d :: taken, .record hfits hblank hd htaken⟩
            · exact ⟨[], .malformed raws hfits hblank fun d hd => hrecord ⟨d, hd⟩⟩

/-- The records that are taken from a text, whose lines end at its newlines. -/
def TakesText (format : Format) (text : Bytes) (taken : List Descriptor) : Prop :=
  ∃ raws, Lines.Broken text raws ∧ Takes format raws taken

/-- The records of a text are what is accepted of it. -/
theorem takesText_iff {format : Format} {text : Bytes} {taken : List Descriptor} :
    TakesText format text taken ↔ taken = (accepted format text).1 := by
  rw [accepted_eq]
  constructor
  · rintro ⟨raws, hbroken, htakes⟩
    rw [← Lines.broken_iff.1 hbroken]
    exact (untilError_outcomesFrom htakes 1).symm
  · rintro rfl
    rcases exists_takes format (Lines.pieces text) with ⟨taken, htaken⟩
    refine ⟨Lines.pieces text, Lines.broken_pieces text, ?_⟩
    rwa [untilError_outcomesFrom htaken 1]

/-! ## Looking up an opcode -/

theorem find?_of_find {c : Catalog} {opcode : Bytes} {d : Descriptor} (h : c.find opcode = .ok d) :
    c.find? opcode = some d := by
  unfold find at h
  cases hfind : c.find? opcode with
  | none =>
      rw [hfind] at h
      cases h
  | some found =>
      rw [hfind] at h
      cases h
      rfl

theorem mem_of_find {c : Catalog} {opcode : Bytes} {d : Descriptor} (h : c.find opcode = .ok d) :
    d ∈ c.entries :=
  List.mem_of_find?_eq_some (find?_of_find h)

theorem opcode_of_find {c : Catalog} {opcode : Bytes} {d : Descriptor} (h : c.find opcode = .ok d) :
    d.opcode = opcode := by
  simpa using List.find?_some (find?_of_find h)

theorem find_eq_error_iff {c : Catalog} {opcode : Bytes} {fault : Fault} :
    c.find opcode = .error fault ↔ fault = ⟨.unknownOpcode, opcode⟩ ∧
      ∀ d ∈ c.entries, d.opcode ≠ opcode := by
  have hnone : c.find? opcode = none ↔ ∀ d ∈ c.entries, d.opcode ≠ opcode := by simp [find?]
  rw [← hnone, find]
  cases c.find? opcode with
  | none => simp [eq_comm]
  | some d => simp

/-! ## The last record for an opcode -/

/-- A record with no later one for its opcode. -/
def IsLast (records : List Descriptor) (d : Descriptor) : Prop :=
  ∃ front back, records = front ++ d :: back ∧ ∀ e ∈ back, e.opcode ≠ d.opcode

theorem IsLast.mem {records : List Descriptor} {d : Descriptor} (h : IsLast records d) :
    d ∈ records := by
  rcases h with ⟨front, back, rfl, -⟩
  exact List.mem_append_right front List.mem_cons_self

theorem isLast_concat {records : List Descriptor} {d e : Descriptor} :
    IsLast (records ++ [d]) e ↔ e = d ∨ IsLast records e ∧ e.opcode ≠ d.opcode := by
  constructor
  · rintro ⟨front, back, hsplit, hback⟩
    -- Nothing stands behind the record, or the new one does.
    rcases List.eq_nil_or_concat back with rfl | ⟨back, last, rfl⟩
    · rw [List.append_inj_right' hsplit rfl |> List.singleton_inj.1]
      exact .inl rfl
    · rw [List.concat_eq_append, ← List.cons_append, ← List.append_assoc] at hsplit
      rcases List.append_inj' hsplit rfl with ⟨rfl, hlast⟩
      cases hlast
      refine .inr ⟨⟨front, back, rfl, fun e' he => hback e' (by simp [he])⟩, ?_⟩
      exact (hback d (by simp)).symm
  · rintro (rfl | ⟨⟨front, back, rfl, hback⟩, hne⟩)
    · exact ⟨records, [], rfl, fun e' he => absurd he List.not_mem_nil⟩
    · refine ⟨front, back ++ [d], by simp, fun e' he => ?_⟩
      rcases List.mem_append.1 he with he | he
      · exact hback e' he
      · cases List.mem_singleton.1 he
        exact hne.symm

theorem exists_isLast {records : List Descriptor} {d : Descriptor} (h : d ∈ records) :
    ∃ e, IsLast records e ∧ e.opcode = d.opcode := by
  induction records using List.reverseRecOn with
  | nil => cases h
  | append_singleton front last ih =>
      by_cases hlast : last.opcode = d.opcode
      · exact ⟨last, isLast_concat.2 (.inl rfl), hlast⟩
      · have hfront : d ∈ front := by
          rcases List.mem_append.1 h with hfront | hd
          · exact hfront
          · cases List.mem_singleton.1 hd
            exact absurd rfl hlast
        rcases ih hfront with ⟨e, he, hopcode⟩
        exact ⟨e, isLast_concat.2 (.inr ⟨he, fun heq => hlast (heq.symm.trans hopcode)⟩), hopcode⟩

/-- A catalog that has the last record for every opcode, and nothing else. -/
structure Follows (c : Catalog) (records : List Descriptor) : Prop where
  distinct : (c.entries.map Descriptor.opcode).Nodup
  mem_iff : ∀ d, d ∈ c.entries ↔ IsLast records d

theorem follows_empty : empty.Follows [] where
  distinct := List.nodup_nil
  mem_iff d := by
    constructor
    · intro h
      cases h
    · intro h
      cases h.mem

namespace Follows

variable {c : Catalog} {records : List Descriptor}

theorem insert (h : c.Follows records) (d : Descriptor) :
    (c.insert d).Follows (records ++ [d]) where
  distinct := by
    -- What an opcode was before is taken out in front of its new place at the end.
    have hkept : ((c.entries.filter fun e => e.opcode != d.opcode).map Descriptor.opcode).Nodup :=
      h.distinct.sublist (List.filter_sublist.map _)
    rw [Catalog.insert, List.map_append, List.map_singleton, List.nodup_append_comm,
      List.singleton_append, List.nodup_cons]
    exact ⟨by simp, hkept⟩
  mem_iff e := by
    rw [isLast_concat, ← h.mem_iff]
    simp [Catalog.insert, or_comm]

theorem insertAll (h : c.Follows records) (definitions : List Descriptor) :
    (definitions.foldl Catalog.insert c).Follows (records ++ definitions) := by
  induction definitions generalizing c records with
  | nil => rwa [List.append_nil]
  | cons d rest ih =>
      have hrest := ih (h.insert d)
      rwa [List.append_assoc, List.singleton_append] at hrest

theorem find_eq_ok_iff (h : c.Follows records) {opcode : Bytes} {d : Descriptor} :
    c.find opcode = .ok d ↔ IsLast records d ∧ d.opcode = opcode := by
  rw [← h.mem_iff]
  constructor
  · intro hfind
    exact ⟨mem_of_find hfind, opcode_of_find hfind⟩
  · rintro ⟨hd, rfl⟩
    cases hfind : c.find d.opcode with
    | error fault => exact absurd rfl ((find_eq_error_iff.1 hfind).2 d hd)
    | ok found =>
        rw [List.inj_on_of_nodup_map h.distinct (mem_of_find hfind) hd (opcode_of_find hfind)]

theorem mem_opcodes_iff (h : c.Follows records) {opcode : Bytes} :
    opcode ∈ c.entries.map Descriptor.opcode ↔ opcode ∈ records.map Descriptor.opcode := by
  rw [List.mem_map, List.mem_map]
  constructor
  · rintro ⟨d, hd, hopcode⟩
    exact ⟨d, ((h.mem_iff d).1 hd).mem, hopcode⟩
  · rintro ⟨d, hd, rfl⟩
    rcases exists_isLast hd with ⟨e, he, hopcode⟩
    exact ⟨e, (h.mem_iff e).2 he, hopcode⟩

theorem find_eq_error_iff (h : c.Follows records) {opcode : Bytes} {fault : Fault} :
    c.find opcode = .error fault ↔ fault = ⟨.unknownOpcode, opcode⟩ ∧
      opcode ∉ records.map Descriptor.opcode := by
  rw [Catalog.find_eq_error_iff, ← h.mem_opcodes_iff]
  simp

theorem size_eq (h : c.Follows records) :
    c.size = (records.map Descriptor.opcode).dedup.length := by
  have hmem : ∀ opcode, opcode ∈ c.entries.map Descriptor.opcode ↔
      opcode ∈ (records.map Descriptor.opcode).dedup := by
    intro opcode
    rw [h.mem_opcodes_iff, List.mem_dedup]
  calc c.size = (c.entries.map Descriptor.opcode).length := (List.length_map _).symm
    _ = (records.map Descriptor.opcode).dedup.length :=
      ((List.perm_ext_iff_of_nodup h.distinct (List.nodup_dedup _)).2 hmem).length_eq

end Follows

/-! ## Any number of loads -/

/-- A catalog after loading one text after the other, and the number of records that was given for
each of them. -/
def loadAll (c : Catalog) : List (Format × Bytes) → Catalog × List Nat
  | [] => (c, [])
  | load :: later =>
    let loaded := c.load load.1 load.2
    let after := loaded.catalog.loadAll later
    (after.1, loaded.count :: after.2)

/-- The records of texts, each with the format it is loaded with. -/
def TakesAll (loads : List (Format × Bytes)) (taken : List (List Descriptor)) : Prop :=
  List.Forall₂ (fun load records => TakesText load.1 load.2 records) loads taken

theorem takesAll_iff {loads : List (Format × Bytes)} {taken : List (List Descriptor)} :
    TakesAll loads taken ↔ taken = loads.map fun load => (accepted load.1 load.2).1 := by
  constructor
  · intro h
    exact eq_map_of_forall₂ (h.imp fun _ _ htakes => takesText_iff.1 htakes)
  · rintro rfl
    refine List.forall₂_map_right_iff.2 (List.forall₂_same.2 ?_)
    intro load _
    exact takesText_iff.2 rfl

theorem TakesAll.wellFormed {loads : List (Format × Bytes)} {taken : List (List Descriptor)}
    (h : TakesAll loads taken) {d : Descriptor} (hd : d ∈ taken.flatten) : d.WellFormed := by
  rcases List.mem_flatten.1 hd with ⟨records, hrecords, hd⟩
  rcases exists_mem_of_forall₂ h.flip hrecords with ⟨load, -, raws, -, htakes⟩
  rcases htakes.exists_defines hd with ⟨raw, -, hraw⟩
  exact hraw.wellFormed

theorem Follows.loadAll {c : Catalog} {records : List Descriptor} (h : c.Follows records)
    {loads : List (Format × Bytes)} {taken : List (List Descriptor)}
    (htaken : TakesAll loads taken) :
    (c.loadAll loads).1.Follows (records ++ taken.flatten) ∧
      (c.loadAll loads).2 = taken.map List.length := by
  -- Along the loads: the catalog in front of a load follows the records of the loads before it.
  induction htaken generalizing c records with
  | nil => exact ⟨by simpa [Catalog.loadAll] using h, rfl⟩
  | @cons load first loads taken hfirst _ ih =>
      have hload : (c.load load.1 load.2).catalog = first.foldl Catalog.insert c := by
        rw [takesText_iff.1 hfirst]
        rfl
      have hcount : (c.load load.1 load.2).count = first.length := by
        rw [takesText_iff.1 hfirst]
        rfl
      rcases ih (h.insertAll first) with ⟨hfollows, hcounts⟩
      rw [Catalog.loadAll, hload, hcount, List.map_cons, hcounts, List.flatten_cons,
        ← List.append_assoc]
      exact ⟨hfollows, rfl⟩

/-- After any loads, each count is the number of records in front of the first line that is wrong,
and the catalog has the last of all these records for every opcode. -/
theorem loadAll_follows_records (loads : List (Format × Bytes)) :
    ∃ (c : Catalog) (taken : List (List Descriptor)),
        empty.loadAll loads = (c, taken.map List.length) ∧
      (∀ taken', TakesAll loads taken' ↔ taken' = taken) ∧
      (∀ opcode d, c.find opcode = .ok d ↔ IsLast taken.flatten d ∧ d.opcode = opcode) ∧
      (∀ opcode fault, c.find opcode = .error fault ↔
        fault = ⟨.unknownOpcode, opcode⟩ ∧ opcode ∉ taken.flatten.map Descriptor.opcode) ∧
      c.size = (taken.flatten.map Descriptor.opcode).dedup.length ∧
      ∀ d ∈ c.entries, c.find d.opcode = .ok d ∧ d.WellFormed := by
  have htaken := takesAll_iff.2 (rfl : (loads.map fun load => (accepted load.1 load.2).1) = _)
  rcases follows_empty.loadAll htaken with ⟨hfollows, hcounts⟩
  rw [List.nil_append] at hfollows
  refine ⟨(empty.loadAll loads).1, _, Prod.ext rfl hcounts, fun _ => takesAll_iff,
    fun _ _ => hfollows.find_eq_ok_iff, fun _ _ => hfollows.find_eq_error_iff, hfollows.size_eq, ?_⟩
  intro d hd
  have hlast := (hfollows.mem_iff d).1 hd
  exact ⟨hfollows.find_eq_ok_iff.2 ⟨hlast, rfl⟩, htaken.wellFormed hlast.mem⟩

example :
    let first := empty.load .i (utf8 "a\t 1\r\n\nb\t2\tmore\n")
    let second := first.catalog.load .r (utf8 "a\t3\t-4\nb\t5\nc\t6\t7\n")
    first.count = 2 ∧ second.count = 1 ∧ second.catalog.size = 2 ∧
      second.catalog.find (utf8 "a") = .ok ⟨utf8 "a", 3, .r, -4⟩ := by
  decide +kernel

/-! ## The built-in instruction set -/

/-- All records of the definition texts are taken, and what they are loaded to is the built-in
catalog. -/
theorem loadAll_definitionTexts :
    empty.loadAll definitionTexts = (builtin, [43, 2, 57]) ∧
      definitionTexts.map (fun load => (accepted load.1 load.2).2) = [none, none, none] := by
  decide +kernel

end Catalog

end Dlx
