import Dlx.Proofs.Counter
import Dlx.Proofs.Symbols

/-!
# No label is lost or invented

Labels are looked for three times, each time by another test. A loose test sorts the tokens of a
line, so that a directive with something like a label in front of it is kept; the exact spelling
makes an entry of the symbol table; and lines that take no memory are dropped in between. This
module follows a label from the text of a source to its entry.

* `Defines`: what it means that the tokens of a line define a label
* `Counter.Recorded`: what a program holds of a line, and its address by the location counter
* `Layout.exists_lines_eq_append`: a line that starts with a label is recorded, whatever it does
* `labels_agree_with_source`: the table has the labels of the source, each at its last definition
-/

namespace Dlx

/-! ## Labels of a line -/

/-- The tokens of a line define a label in front, or behind one other label. -/
def Defines (tokens : List Bytes) (label : Bytes) : Prop :=
  isLabel label = true ∧
    (tokens[0]? = some label ∨
      ∃ first, tokens[0]? = some first ∧ isLabel first = true ∧ tokens[1]? = some label)

theorem Defines.exists_first {tokens : List Bytes} {label : Bytes} (h : Defines tokens label) :
    ∃ first, tokens[0]? = some first ∧ isLabel first = true := by
  rcases h with ⟨hlabel, hfront | ⟨first, hfirst, hisLabel, -⟩⟩
  · exact ⟨label, hfront, hlabel⟩
  · exact ⟨first, hfirst, hisLabel⟩

namespace SymbolTable

theorem mem_takeWhile_take_one {tokens : List Bytes} {label : Bytes} :
    label ∈ (tokens.take 1).takeWhile isLabel ↔ isLabel label = true ∧ tokens[0]? = some label := by
  cases tokens with
  | nil => simp
  | cons first rest =>
      rw [List.take_succ_cons, List.take_zero, List.getElem?_cons_zero]
      by_cases hfirst : isLabel first = true
      · rw [List.takeWhile_cons_of_pos hfirst, List.takeWhile_nil]
        grind
      · rw [List.takeWhile_cons_of_neg hfirst]
        grind

theorem defines_iff_mem {tokens : List Bytes} {label : Bytes} :
    Defines tokens label ↔ label ∈ (tokens.take 2).takeWhile isLabel := by
  unfold Defines
  cases tokens with
  | nil => simp
  | cons first rest =>
      rw [List.take_succ_cons, List.getElem?_cons_zero, List.getElem?_cons_succ]
      by_cases hfirst : isLabel first = true
      · rw [List.takeWhile_cons_of_pos hfirst, List.mem_cons, mem_takeWhile_take_one]
        grind
      · rw [List.takeWhile_cons_of_neg hfirst]
        grind

instance (tokens : List Bytes) (label : Bytes) : Decidable (Defines tokens label) :=
  decidable_of_iff (((tokens.take 2).takeWhile isLabel).contains label = true)
    (List.contains_iff_mem.trans defines_iff_mem.symm)

theorem mem_labelsOf_iff {line : Line} {label : Bytes} :
    label ∈ labelsOf line ↔ Defines line.tokens label :=
  defines_iff_mem.symm

/-- Where no line behind a definition defines the label again, the label stands for that
definition. -/
theorem find?_ofLines_append {front back : List Line} {line : Line} {label : Bytes}
    (hline : label ∈ labelsOf line) (hback : ∀ later ∈ back, label ∉ labelsOf later) :
    (ofLines (front ++ line :: back)).find? label = some line.address := by
  have hnone : lastDefinition? label back = none := by
    rw [lastDefinition?, List.find?_eq_none]
    intro later hlater
    simpa using hback later (List.mem_reverse.1 hlater)
  -- What stands in front does not matter: a table is asked for the last definition.
  have hlast : lastDefinition? label (front ++ line :: back) = some line := by
    induction front with
    | nil => rw [List.nil_append, lastDefinition?_cons, hnone, Option.none_or, if_pos hline]
    | cons first front ih => rw [List.cons_append, lastDefinition?_cons, ih, Option.some_or]
  rw [find?_ofLines, hlast, Option.map_some]

theorem exists_find?_ofLines_iff {lines : List Line} {label : Bytes} :
    (∃ address, (ofLines lines).find? label = some address) ↔
      ∃ line ∈ lines, label ∈ labelsOf line := by
  rw [find?_ofLines]
  constructor
  · rintro ⟨address, haddress⟩
    rcases Option.map_eq_some_iff.1 haddress with ⟨line, hline, -⟩
    have hmem : line ∈ lines := List.mem_reverse.1 (List.mem_of_find?_eq_some hline)
    exact ⟨line, hmem, by simpa using List.find?_some hline⟩
  · rintro ⟨line, hmem, hlabel⟩
    have hsome : (lastDefinition? label lines).isSome = true :=
      List.find?_isSome.2 ⟨line, List.mem_reverse.2 hmem, by simpa using hlabel⟩
    rcases Option.isSome_iff_exists.1 hsome with ⟨last, hlast⟩
    exact ⟨last.address, by rw [hlast, Option.map_some]⟩

end SymbolTable

/-! ## What a program holds of a line -/

namespace Counter

/-- The counter behind a list of lines. -/
def after (k : Counter) (lines : List Line) : Counter :=
  lines.foldl step k

theorem records_append (k : Counter) (front back : List Line) :
    k.records (front ++ back) = k.records front ++ (k.after front).records back := by
  induction front generalizing k with
  | nil => rfl
  | cons line front ih =>
      rw [List.cons_append, records, records, ih, List.cons_append]
      rfl

/-- What a program holds of a line of its source, where the lines in front of it have moved the
counter to `k`. A label by itself, an instruction and data stand where the counter is; a directive
that moves the counter stands where it moves it to. -/
structure Recorded (k : Counter) (line placed : Line) : Prop where
  same : ∃ elements, placed = { line with address := placed.address, elements }
  before : line.kind = .label ∨ line.kind = .instruction ∨ line.kind.isData = true →
    placed.address = UInt32.ofNat k.location
  after : line.kind = .text ∨ line.kind = .data ∨ line.kind = .align →
    placed.address = UInt32.ofNat (k.step line).location
  space : line.kind = .space → placed.address = UInt32.ofNat (k.position line)

theorem Recorded.tokens {k : Counter} {line placed : Line} (h : k.Recorded line placed) :
    placed.tokens = line.tokens := by
  rcases h.same with ⟨elements, hplaced⟩
  rw [hplaced]

theorem position_of_before (k : Counter) {line : Line}
    (h : line.kind = .label ∨ line.kind = .instruction ∨ line.kind.isData = true) :
    k.position line = k.location := by
  cases hkind : line.kind with
  | label | instruction | ascii | asciiz | double | float | word => simp [position, hkind]
  | _ => simp [hkind, LineKind.isData] at h

theorem position_of_after (k : Counter) {line : Line}
    (h : line.kind = .text ∨ line.kind = .data ∨ line.kind = .align) :
    k.position line = (k.step line).location := by
  rcases h with hkind | hkind | hkind
  all_goals simp [step, extent, hkind]

theorem recorded_of_position (k : Counter) (line : Line) (elements : List Element) :
    k.Recorded line { line with address := UInt32.ofNat (k.position line), elements } where
  same := ⟨elements, rfl⟩
  before := fun hkind => congrArg UInt32.ofNat (k.position_of_before hkind)
  after := fun hkind => congrArg UInt32.ofNat (k.position_of_after hkind)
  space := fun _ => rfl

/-- A line that carries a label and is no comment is recorded. -/
theorem exists_recorded (k : Counter) {line : Line} (hlabels : line.labels ≠ [])
    (hreset : line.kind ≠ .reset) (hcomment : line.kind ≠ .comment) :
    ∃ placed, k.record line = some placed ∧ k.Recorded line placed := by
  have hempty : line.labels.isEmpty = false := by simpa using hlabels
  cases hkind : line.kind with
  | reset => exact absurd hkind hreset
  | comment => exact absurd hkind hcomment
  | label | instruction | space =>
      exact ⟨_, by simp only [record, hkind], k.recorded_of_position line line.elements⟩
  | text | data | align =>
      -- The only kinds that a label decides about: without one they leave no trace.
      have hrecord : k.record line =
          some { line with address := UInt32.ofNat (k.position line) } := by
        simp [record, hkind, hempty]
      exact ⟨_, hrecord, k.recorded_of_position line line.elements⟩
  | ascii | asciiz | double | float | word =>
      let elements := elementsFrom (k.position line) (elementsOf line)
      exact ⟨{ line with address := UInt32.ofNat (k.position line), elements },
        by simp only [record, hkind, elements], k.recorded_of_position line elements⟩

/-- What is recorded of a line differs from it in its address and its elements alone. -/
theorem same_of_record {k : Counter} {line placed : Line} (h : k.record line = some placed) :
    ∃ address elements, placed = { line with address, elements } := by
  cases hkind : line.kind with
  | reset | comment => simp [record, hkind] at h
  | label | instruction | space | ascii | asciiz | double | float | word =>
      simp only [record, hkind, Option.some.injEq] at h
      exact ⟨_, _, h.symm⟩
  | text | data | align =>
      simp only [record, hkind] at h
      split at h
      · cases h
      · exact ⟨_, _, (Option.some.inj h).symm⟩

theorem tokens_of_record {k : Counter} {line placed : Line} (h : k.record line = some placed) :
    placed.tokens = line.tokens := by
  rcases same_of_record h with ⟨address, elements, rfl⟩
  rfl

theorem exists_tokens_of_mem_records {k : Counter} {lines : List Line} {placed : Line}
    (h : placed ∈ (k.records lines).reduceOption) :
    ∃ line ∈ lines, placed.tokens = line.tokens := by
  rw [List.reduceOption_mem_iff] at h
  induction lines generalizing k with
  | nil => cases h
  | cons line rest ih =>
      rcases List.mem_cons.1 h with hhere | hrest
      · exact ⟨line, List.mem_cons_self, tokens_of_record hhere.symm⟩
      · rcases ih hrest with ⟨other, hother, htokens⟩
        exact ⟨other, List.mem_cons_of_mem line hother, htokens⟩

end Counter

/-! ## From the text to the program -/

namespace Layout

theorem numbered_append (n : Nat) (front back : List Bytes) :
    numbered n (front ++ back) = numbered n front ++ numbered (n + front.length) back := by
  induction front generalizing n with
  | nil => rfl
  | cons raw front ih =>
      have hlength : n + 1 + front.length = n + (raw :: front).length := by
        rw [List.length_cons]
        omega
      rw [List.cons_append, numbered, numbered, ih, List.append_assoc, hlength]

/-- The location counter behind the first lines of a text. -/
def counterBehind (front : List Bytes) : Counter :=
  Counter.start.after (numbered 0 front)

theorem exists_raw_of_mem_records {k : Counter} {n : Nat} {raws : List Bytes} {line : Line}
    (h : line ∈ (k.records (numbered n raws)).reduceOption) :
    ∃ raw ∈ raws, line.tokens = tokenize raw := by
  rcases Counter.exists_tokens_of_mem_records h with ⟨other, hother, htokens⟩
  rcases exists_tokens_of_mem_numbered hother with ⟨raw, hraw, n, hline⟩
  rcases Line.sorted_of_ofTokens? hline with ⟨first, others, hraws, hsorted⟩
  exact ⟨raw, hraw, by rw [htokens, hsorted.tokens, hraws]⟩

/-- Every line with a token is sorted into a line. -/
theorem exists_sorted {tokens : List Bytes} {first : Bytes} (h : tokens[0]? = some first)
    (lineno : Int) :
    ∃ others line, tokens = first :: others ∧ Line.ofTokens? tokens lineno = some line ∧
      Line.Sorted lineno first others line := by
  cases hline : Line.ofTokens? tokens lineno with
  | none =>
      cases tokens with
      | nil => cases h
      | cons head others => grind [Line.ofTokens?]
  | some line =>
      rcases Line.sorted_of_ofTokens? hline with ⟨head, others, rfl, hsorted⟩
      cases Option.some.inj h
      exact ⟨others, line, rfl, rfl, hsorted⟩

variable {file source : Bytes} {program : Program}

/-- A program in two parts, for the first lines of its source and for the others: the counter goes
on where it stands. -/
theorem lines_eq_append (h : layout file source = .ok program) {front back : List Bytes}
    (hraws : (Lines.ofBytes source).lines = front ++ back) :
    program.lines =
      (Counter.start.records (numbered 0 front)).reduceOption ++
        ((counterBehind front).records (numbered front.length back)).reduceOption := by
  rcases exists_places_of_layout h with ⟨kept, last, hplaces, hlines, -⟩
  rw [hlines, Counter.tracks_start.records hplaces, sourceLines, hraws, numbered_append,
    Counter.records_append, List.reduceOption_append, Nat.zero_add, counterBehind]

theorem exists_raw_of_mem_lines (h : layout file source = .ok program) {line : Line}
    (hline : line ∈ program.lines) :
    ∃ raw ∈ (Lines.ofBytes source).lines, line.tokens = tokenize raw := by
  rw [lines_eq_append h (List.nil_append _).symm] at hline
  exact exists_raw_of_mem_records hline

/-- A program around one line of its source that starts with a label. -/
theorem exists_lines_eq_append (h : layout file source = .ok program) {front back : List Bytes}
    {raw : Bytes} (hraws : (Lines.ofBytes source).lines = front ++ raw :: back) {first : Bytes}
    (hfirst : (tokenize raw)[0]? = some first) (hlabel : isLabel first = true) :
    ∃ line above placed below, Line.ofTokens? (tokenize raw) (front.length + 1 : Nat) = some line ∧
      program.lines = above ++ placed :: below ∧ (counterBehind front).Recorded line placed ∧
      placed.tokens = tokenize raw ∧ ∀ later ∈ below, ∃ raw ∈ back,
        later.tokens = tokenize raw := by
  rcases exists_sorted hfirst (front.length + 1 : Nat) with ⟨others, line, htokens, hline, hsorted⟩
  rcases hsorted.labelled hlabel with ⟨hlabels, hreset, hcomment⟩
  rcases (counterBehind front).exists_recorded hlabels hreset hcomment with
    ⟨placed, hplaced, hrecorded⟩
  have hnumbered : numbered front.length (raw :: back) =
      line :: numbered (front.length + 1) back := by
    rw [numbered, hline]
    rfl
  refine ⟨line, (Counter.start.records (numbered 0 front)).reduceOption, placed,
    (((counterBehind front).step line).records (numbered (front.length + 1) back)).reduceOption,
    hline, ?_, hrecorded, ?_, ?_⟩
  · rw [lines_eq_append h hraws, hnumbered, Counter.records, hplaced,
      List.reduceOption_cons_of_some]
  · rw [hrecorded.tokens, hsorted.tokens, htokens]
  · intro later hlater
    exact exists_raw_of_mem_records hlater

end Layout

/-- The symbol table of a program has the labels that the lines of its source define, and each of
them stands for the address of its last definition. A line that starts with a label is recorded even
when it takes no memory. -/
theorem labels_agree_with_source {file source : Bytes} {program : Program}
    (h : layout file source = .ok program) :
    (∀ label, (∃ address, (SymbolTable.ofLines program.lines).find? label = some address) ↔
      ∃ raw ∈ (Lines.ofBytes source).lines, Defines (tokenize raw) label) ∧
    (∀ label front raw back, (Lines.ofBytes source).lines = front ++ raw :: back →
      Defines (tokenize raw) label → (∀ later ∈ back, ¬ Defines (tokenize later) label) →
      ∃ line, Line.ofTokens? (tokenize raw) (front.length + 1 : Nat) = some line ∧
        ∃ placed ∈ program.lines, (Layout.counterBehind front).Recorded line placed ∧
          (SymbolTable.ofLines program.lines).find? label = some placed.address) ∧
    ∀ front raw back first, (Lines.ofBytes source).lines = front ++ raw :: back →
      (tokenize raw)[0]? = some first → isLabel first = true →
      ∃ line, Line.ofTokens? (tokenize raw) (front.length + 1 : Nat) = some line ∧
        ∃ placed ∈ program.lines, (Layout.counterBehind front).Recorded line placed := by
  refine ⟨?_, ?_, ?_⟩
  · intro label
    rw [SymbolTable.exists_find?_ofLines_iff]
    constructor
    · rintro ⟨line, hline, hlabel⟩
      rcases Layout.exists_raw_of_mem_lines h hline with ⟨raw, hraw, htokens⟩
      rw [SymbolTable.mem_labelsOf_iff, htokens] at hlabel
      exact ⟨raw, hraw, hlabel⟩
    · rintro ⟨raw, hraw, hdefines⟩
      rcases List.append_of_mem hraw with ⟨front, back, hraws⟩
      rcases hdefines.exists_first with ⟨first, hfirst, hlabel⟩
      rcases Layout.exists_lines_eq_append h hraws hfirst hlabel with
        ⟨-, above, placed, below, -, hlines, -, htokens, -⟩
      rw [← htokens] at hdefines
      refine ⟨placed, ?_, SymbolTable.mem_labelsOf_iff.2 hdefines⟩
      rw [hlines]
      exact List.mem_append_right above List.mem_cons_self
  · intro label front raw back hraws hdefines hlast
    rcases hdefines.exists_first with ⟨first, hfirst, hlabel⟩
    rcases Layout.exists_lines_eq_append h hraws hfirst hlabel with
      ⟨line, above, placed, below, hline, hlines, hrecorded, htokens, hbelow⟩
    rw [← htokens, ← SymbolTable.mem_labelsOf_iff] at hdefines
    refine ⟨line, hline, placed, ?_, hrecorded, ?_⟩
    · rw [hlines]
      exact List.mem_append_right above List.mem_cons_self
    · rw [hlines]
      apply SymbolTable.find?_ofLines_append hdefines
      -- A later line of the program with the label would come from a later line of the text with
      -- it.
      intro later hlater hagain
      rcases hbelow later hlater with ⟨raw', hraw', hlater'⟩
      rw [SymbolTable.mem_labelsOf_iff, hlater'] at hagain
      exact hlast raw' hraw' hagain
  · intro front raw back first hraws hfirst hlabel
    rcases Layout.exists_lines_eq_append h hraws hfirst hlabel with
      ⟨line, above, placed, below, hline, hlines, hrecorded, -, -⟩
    refine ⟨line, hline, placed, ?_, hrecorded⟩
    rw [hlines]
    exact List.mem_append_right above List.mem_cons_self

/-- A source that defines a label behind another one, and once more at a directive that takes no
memory. -/
def sampleLabels : Bytes :=
  utf8 "a: b: add r1, r2, r3\nb: .align 3\n; b:\n.word b\n"

theorem sampleLabels_agree_with_source :
    ∃ program, layout [] sampleLabels = .ok program ∧
      (∃ address, (SymbolTable.ofLines program.lines).find? (utf8 "a:") = some address) ∧
      (SymbolTable.ofLines program.lines).find? (utf8 "b:") = some 8 := by
  have hlayout : (layout [] sampleLabels).toOption.isSome = true := by decide +kernel
  have hraws : (Lines.ofBytes sampleLabels).lines =
      [utf8 "a: b: add r1, r2, r3"] ++ utf8 "b: .align 3" :: [utf8 "; b:", utf8 ".word b"] := by
    decide +kernel
  cases hprogram : layout [] sampleLabels with
  | error e =>
      rw [hprogram] at hlayout
      cases hlayout
  | ok program =>
      rcases labels_agree_with_source hprogram with ⟨htable, hlast, -⟩
      refine ⟨program, rfl, (htable (utf8 "a:")).2 ?_, ?_⟩
      · exact ⟨utf8 "a: b: add r1, r2, r3", by decide +kernel, by decide +kernel⟩
      · rcases hlast (utf8 "b:") _ _ _ hraws (by decide +kernel) (by decide +kernel) with
          ⟨line, hline, placed, -, hrecorded, hfind⟩
        have hmoved : (Line.ofTokens? (tokenize (utf8 "b: .align 3")) (2 : Nat)).map
            (fun line => (line.kind,
              UInt32.ofNat ((Layout.counterBehind [utf8 "a: b: add r1, r2, r3"]).step
                line).location)) =
            some (.align, 8) := by
          decide +kernel
        rcases Option.map_eq_some_iff.1 hmoved with ⟨line', hline', hpair⟩
        cases Option.some.inj (hline'.symm.trans hline)
        rw [hfind, hrecorded.after (.inr (.inr (congrArg Prod.fst hpair)))]
        exact congrArg (fun pair => some pair.2) hpair

end Dlx
