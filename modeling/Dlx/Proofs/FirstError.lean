import Dlx.Assembly.Assemble
import Dlx.Isa.Builtin
import Dlx.Proofs.Labels
import Dlx.Proofs.Text

/-!
# The first error

A file is assembled in two passes, and it ends with one error at most. The first pass goes along the
physical lines and stops at the first that is too long or cannot be placed; only when it has come to
the end are lines encoded, and then the first that cannot be encoded stops the second pass. A line
of the first pass is therefore reported before any line of the second, wherever the two stand.

* `Line.refused?`: the token that keeps a line from being placed
* `Layout.Accepted`: the physical lines that the first pass goes through
* `Layout.exists_pass_of_accepted`: the pass behind them, and its location counter
* `Line.Unencodable`: what can be wrong with a placed line
* `Reports`: the error of a file
* `assemble_reports_first_error`: a file ends with this error, and without one it is assembled
-/

namespace Dlx

/-! ## Lines that cannot be placed -/

namespace Line

/-- Whether a token is the address of a section. -/
def isOrigin (token : Bytes) : Bool :=
  (Numeral.natural 16 32
    (Bytes.dropStart (utf8 "0X") (Bytes.dropStart (utf8 "0x") token))).toOption.isSome

/-- The number that the first operand of a line stands for. -/
def amount? (line : Line) : Option Nat :=
  line.operands.head?.bind (fun token => (Numeral.literal 32 token).toOption)

/-- Whether an operand can be an element of a data directive: only strings are read before every
label is known. -/
def isElement (kind : LineKind) (operand : Bytes) : Bool :=
  match kind with
  | .ascii | .asciiz => (Literal.value? operand).isSome
  | _ => true

/-- The token that keeps a line from being placed. A number that is not there is shown as no token,
and a data directive without operands as its mnemonic. -/
def refused? (line : Line) : Option Bytes :=
  match line.kind with
  | .text | .data => line.operands.head?.filter (fun token => !isOrigin token)
  | .align => if line.amount?.any (· ≤ 31) then none else some (line.operands.headD [])
  | .space => if line.amount?.isSome then none else some (line.operands.headD [])
  | .ascii | .asciiz | .double | .float | .word =>
    if line.operands.isEmpty then some line.mnemonic
    else line.operands.find? (fun operand => !isElement line.kind operand)
  | .instruction | .label | .reset | .comment => none

end Line

/-- What becomes of a line that is refused for a token, or for none. -/
def verdict (refused : Option Bytes) : Except Fault Unit :=
  match refused with
  | some token => .error ⟨.malformedDirective, token⟩
  | none => .ok ()

theorem map_bind_pure {ε α β : Type} (x : Except ε α) (f : α → β) :
    (x >>= fun a => pure (f a)).map (fun _ => ()) = x.map (fun _ => ()) := by
  cases x with
  | error e => rfl
  | ok a => rfl

theorem map_element (kind : LineKind) (operand : Bytes) :
    (Directive.element kind operand).map (fun _ => ()) =
      verdict (if Line.isElement kind operand then none else some operand) := by
  cases kind with
  | ascii | asciiz =>
      cases hvalue : Literal.value? operand with
      | none => simp [Directive.element, Line.isElement, hvalue, verdict, Except.map]
      | some text => simp [Directive.element, Line.isElement, hvalue, verdict, Except.map]
  | _ => rfl

/-- The first operand that cannot be an element decides about a data directive. -/
theorem map_elements (kind : LineKind) (operands : List Bytes) :
    (operands.mapM (Directive.element kind)).map (fun _ => ()) =
      verdict (operands.find? (fun operand => !Line.isElement kind operand)) := by
  induction operands with
  | nil => rfl
  | cons operand rest ih =>
      have hfirst := map_element kind operand
      rw [List.mapM_cons]
      cases hgood : Line.isElement kind operand with
      | true =>
          rw [hgood] at hfirst
          rcases map_eq_ok.1 hfirst with ⟨e, he, -⟩
          rw [List.find?_cons_of_neg (by simp [hgood]), ← ih, he, ok_bind]
          exact map_bind_pure (rest.mapM (Directive.element kind)) (e :: ·)
      | false =>
          rw [hgood] at hfirst
          rw [List.find?_cons_of_pos (by simp [hgood]), map_eq_error.1 hfirst]
          rfl

namespace Cursor

theorem map_sectionAddress (operands : List Bytes) :
    (sectionAddress operands).map (fun _ => ()) =
      verdict (operands.head?.filter (fun token => !Line.isOrigin token)) := by
  cases operands with
  | nil => rfl
  | cons token rest =>
      rw [List.head?_cons, Option.filter_some, sectionAddress, Line.isOrigin]
      cases Numeral.natural 16 32
        (Bytes.dropStart (utf8 "0X") (Bytes.dropStart (utf8 "0x") token)) with
      | error flaw => rfl
      | ok address => rfl

theorem map_amount (line : Line) :
    (amount line.operands).map (fun _ => ()) =
      verdict (if line.amount?.isSome then none else some (line.operands.headD [])) := by
  unfold Line.amount?
  cases line.operands with
  | nil => rfl
  | cons token rest =>
      rw [amount, List.head?_cons, Option.bind_some]
      cases Numeral.literal 32 token with
      | error flaw => rfl
      | ok value => rfl

theorem map_boundary (line : Line) :
    (boundary line.operands).map (fun _ => ()) =
      verdict (if line.amount?.any (· ≤ 31) then none else some (line.operands.headD [])) := by
  unfold Line.amount?
  cases line.operands with
  | nil => rfl
  | cons token rest =>
      rw [boundary, amount, List.head?_cons, Option.bind_some]
      cases Numeral.literal 32 token with
      | error flaw => rfl
      | ok value =>
          by_cases hfits : value ≤ 31
          · simp [ok_bind, hfits, Except.toOption, verdict, Except.map, pure, Except.pure]
          · simp [ok_bind, hfits, Except.toOption, verdict, Except.map, throw, throwThe,
              MonadExceptOf.throw]

/-- A line is placed wherever it stands, or refused wherever it stands. -/
theorem map_place (c : Cursor) (line : Line) :
    (c.place line).map (fun _ => ()) = verdict line.refused? := by
  cases hkind : line.kind with
  | reset | comment | label | instruction =>
      simp only [place, Line.refused?, hkind]
      rfl
  | text | data =>
      simp only [place, Line.refused?, hkind, map_bind_pure]
      exact map_sectionAddress line.operands
  | align =>
      simp only [place, Line.refused?, hkind, map_bind_pure]
      exact map_boundary line
  | space =>
      simp only [place, Line.refused?, hkind, map_bind_pure]
      exact map_amount line
  | ascii | asciiz | double | float | word =>
      simp only [place, Line.refused?, hkind, map_bind_pure, Directive.elements]
      split
      · rfl
      · exact map_elements _ line.operands

theorem place_of_refused (c : Cursor) {line : Line} {token : Bytes}
    (h : line.refused? = some token) :
    c.place line = .error ⟨.malformedDirective, token⟩ := by
  have hplace := c.map_place line
  rw [h] at hplace
  exact map_eq_error.1 hplace

theorem exists_place_of_not_refused (c : Cursor) {line : Line} (h : line.refused? = none) :
    ∃ placement, c.place line = .ok placement := by
  have hplace := c.map_place line
  rw [h] at hplace
  rcases map_eq_ok.1 hplace with ⟨placement, hplacement, -⟩
  exact ⟨placement, hplacement⟩

end Cursor

/-! ## The first pass -/

/-- The cursor behind lines that were placed stands where the counter behind them says. -/
theorem Counter.Tracks.after {c last : Cursor} {k : Counter} {lines : List Line}
    {kept : List (Option Line)} (h : Counter.Tracks c k)
    (hlines : Cursor.Places c lines kept last) : Counter.Tracks last (k.after lines) := by
  induction hlines generalizing k with
  | nil c => exact h
  | cons hline _ ih => exact ih (h.step hline).1

namespace Layout

/-- The line that a physical line holds, if it holds a token. -/
def lineOf (n : Nat) (raw : Bytes) : Option Line :=
  Line.ofTokens? (tokenize (Lines.dropReturn raw)) n

/-- The token that keeps a physical line from being placed. -/
def refused? (raw : Bytes) : Option Bytes :=
  (lineOf 0 raw).bind Line.refused?

/-- A physical line that the first pass goes through. -/
structure Accepted (raw : Bytes) : Prop where
  fits : raw.length < Lines.limit
  placeable : refused? raw = none

/-- The location counter behind the first physical lines of a text. -/
def counterAfter (front : List Bytes) : Counter :=
  counterBehind (front.map Lines.dropReturn)

/-- What a program holds of the first physical lines of its text. -/
def recorded (front : List Bytes) : List Line :=
  (Counter.start.records (numbered 0 (front.map Lines.dropReturn))).reduceOption

/-- What a program holds of a physical line behind others. -/
def recordOf (front : List Bytes) (raw : Bytes) : Option Line :=
  (lineOf (front.length + 1) raw).bind (counterAfter front).record

theorem refused?_eq (n : Nat) (raw : Bytes) : refused? raw = (lineOf n raw).bind Line.refused? := by
  rw [refused?, lineOf, lineOf, Line.ofTokens?_lineno _ n, Option.bind_map]
  rfl

theorem Pass.step_of_refused (file : Bytes) (p : Pass) {raw token : Bytes}
    (h : refused? raw = some token) :
    Pass.step file p (Lines.dropReturn raw) =
      .error (.at ⟨file, (p.lineno + 1 : Nat), p.cursor.next, ⟨.malformedDirective, token⟩⟩) := by
  -- The number of a line has no part in whether it is refused, only in the error.
  rw [refused?_eq (p.lineno + 1)] at h
  rcases Option.bind_eq_some_iff.1 h with ⟨line, hline, htoken⟩
  rcases Line.sorted_of_ofTokens? hline with ⟨first, others, -, hsorted⟩
  rw [lineOf] at hline
  unfold Pass.step
  rw [hline]
  dsimp only
  rw [p.cursor.place_of_refused htoken, hsorted.lineno_eq]

theorem Pass.exists_step_of_not_refused (file : Bytes) (p : Pass) {raw : Bytes}
    (h : refused? raw = none) :
    ∃ p', Pass.step file p (Lines.dropReturn raw) = .ok p' ∧ p'.lineno = p.lineno + 1 := by
  rw [refused?_eq (p.lineno + 1), lineOf] at h
  unfold Pass.step
  cases hline : Line.ofTokens? (tokenize (Lines.dropReturn raw)) (p.lineno + 1 : Nat) with
  | none => exact ⟨_, rfl, rfl⟩
  | some line =>
      rw [hline] at h
      rcases p.cursor.exists_place_of_not_refused h with ⟨placement, hplacement⟩
      refine ⟨p.keep placement, ?_, rfl⟩
      dsimp only
      rw [hplacement]

theorem exists_runUntil_of_accepted (file : Bytes) (p : Pass) {front : List Bytes}
    (h : ∀ raw ∈ front, Accepted raw) :
    ∃ pass, runUntil (Pass.step file) p (front.map Lines.dropReturn) = (pass, none) ∧
      pass.lineno = p.lineno + front.length := by
  induction front generalizing p with
  | nil => exact ⟨p, rfl, rfl⟩
  | cons raw front ih =>
      rcases List.forall_mem_cons.1 h with ⟨hraw, hfront⟩
      rcases Pass.exists_step_of_not_refused file p hraw.placeable with ⟨p', hstep, hlineno⟩
      rcases ih p' hfront with ⟨pass, hrun, hlength⟩
      refine ⟨pass, ?_, ?_⟩
      · rw [List.map_cons, runUntil, hstep]
        exact hrun
      · rw [hlength, hlineno, List.length_cons]
        omega

/-- The pass behind physical lines that it goes through: it has counted all of them, it stands where
the location counter says, and it holds what is recorded of them. -/
theorem exists_pass_of_accepted (file : Bytes) {front : List Bytes}
    (h : ∀ raw ∈ front, Accepted raw) :
    ∃ pass, runUntil (Pass.step file) .start (front.map Lines.dropReturn) = (pass, none) ∧
      pass.lineno = front.length ∧ pass.cursor.next = UInt32.ofNat (counterAfter front).location ∧
      pass.placed.reverse = recorded front := by
  rcases exists_runUntil_of_accepted file .start h with ⟨pass, hrun, hlineno⟩
  rcases exists_places_of_runUntil hrun with ⟨kept, hplaces, hplaced⟩
  refine ⟨pass, hrun, ?_, ?_, ?_⟩
  · simpa [Pass.start] using hlineno
  · exact (Counter.tracks_start.after hplaces).next
  · rw [hplaced, Counter.tracks_start.records hplaces]
    rfl

/-! ### Where it stops -/

variable {source : Bytes} {front back : List Bytes} {raw : Bytes}

theorem layout_of_overlong (file : Bytes) (hpieces : Lines.pieces source = front ++ raw :: back)
    (hfront : ∀ raw ∈ front, Accepted raw) (hlong : Lines.limit ≤ raw.length) :
    layout file source = .error (.overlong file (front.length + 1)) := by
  -- Reading ends at the line that is too long, and the pass has gone through everything in front of
  -- it.
  have hread : Lines.ofBytes source = ⟨front.map Lines.dropReturn, true⟩ := by
    have hunfit : Lines.fits raw = false := by simpa [Lines.fits] using hlong
    have hfit : ∀ raw ∈ front, Lines.fits raw = true := by
      intro raw hraw
      simpa [Lines.fits] using (hfront raw hraw).fits
    have hstop : ∀ other ∈ (raw :: back).head?, Lines.fits other = false := by
      intro other hother
      cases hother
      exact hunfit
    rw [Lines.ofBytes_eq hpieces hfit hstop, List.any_cons, hunfit]
    rfl
  rcases exists_pass_of_accepted file hfront with ⟨pass, hrun, hlineno, -⟩
  simp [layout, Layout.run, hread, hrun, hlineno]

theorem layout_of_refused (file : Bytes) (hpieces : Lines.pieces source = front ++ raw :: back)
    (hfront : ∀ raw ∈ front, Accepted raw) (hfits : raw.length < Lines.limit) {token : Bytes}
    (htoken : refused? raw = some token) :
    layout file source =
      .error (.at ⟨file, (front.length + 1 : Nat), UInt32.ofNat (counterAfter front).location,
        ⟨.malformedDirective, token⟩⟩) := by
  -- A line behind this one may be too long as well; the pass stops before that is noticed.
  have hlines : ∃ more, (Lines.ofBytes source).lines =
      front.map Lines.dropReturn ++ Lines.dropReturn raw :: more := by
    have hread : ∀ other ∈ front ++ [raw], Lines.fits other = true := by
      intro other hother
      rcases List.mem_append.1 hother with hmem | hmem
      · simpa [Lines.fits] using (hfront other hmem).fits
      · cases List.mem_singleton.1 hmem
        simpa [Lines.fits] using hfits
    refine ⟨(back.takeWhile Lines.fits).map Lines.dropReturn, ?_⟩
    rw [Lines.ofBytes, hpieces, List.append_cons, List.takeWhile_append_of_pos hread]
    simp
  rcases hlines with ⟨more, hlines⟩
  rcases exists_pass_of_accepted file hfront with ⟨pass, hrun, hlineno, hnext, -⟩
  have hstep := Pass.step_of_refused file pass htoken
  rw [hlineno, hnext] at hstep
  have hrun' := runUntil_eq_error.2 ⟨_, _, more, hlines, hrun, hstep⟩
  simp [layout, Layout.run, hrun']

theorem layout_of_accepted (file : Bytes) (h : ∀ raw ∈ Lines.pieces source, Accepted raw) :
    layout file source = .ok ⟨file, recorded (Lines.pieces source)⟩ := by
  have hfits : ∀ raw ∈ Lines.pieces source, raw.length < Lines.limit :=
    fun raw hraw => (h raw hraw).fits
  rcases exists_pass_of_accepted file h with ⟨pass, hrun, -, -, hplaced⟩
  refine layout_eq_ok.2 ⟨pass, ?_, Lines.overlong_eq_false_iff.2 hfits, by rw [hplaced]⟩
  rw [Lines.lines_of_fits hfits]
  exact hrun

/-! ### What is recorded of a physical line -/

theorem recorded_append (front back : List Bytes) :
    recorded (front ++ back) =
      recorded front ++
        ((counterAfter front).records
          (numbered front.length (back.map Lines.dropReturn))).reduceOption := by
  rw [recorded, List.map_append, numbered_append, Counter.records_append, List.reduceOption_append,
    Nat.zero_add, List.length_map]
  rfl

theorem recorded_concat (front : List Bytes) (raw : Bytes) :
    recorded (front ++ [raw]) = recorded front ++ (recordOf front raw).toList := by
  rw [recorded_append, recordOf, lineOf, List.map_singleton, numbered, numbered, List.append_nil]
  cases Line.ofTokens? (tokenize (Lines.dropReturn raw)) (front.length + 1 : Nat) with
  | none => rfl
  | some line =>
      rw [Option.toList_some, Counter.records, Counter.records, Option.bind_some]
      cases (counterAfter front).record line with
      | none => rfl
      | some placed => rfl

theorem exists_recorded_eq (front : List Bytes) (raw : Bytes) (back : List Bytes) :
    ∃ below, recorded (front ++ raw :: back) =
      recorded front ++ (recordOf front raw).toList ++ below := by
  rw [List.append_cons, recorded_append, recorded_concat]
  exact ⟨_, rfl⟩

/-- A line of a program was recorded of one physical line, behind what was recorded of the lines in
front. -/
theorem exists_recordOf_of_recorded {raws : List Bytes} {above below : List Line} {placed : Line}
    (h : recorded raws = above ++ placed :: below) :
    ∃ front raw back, raws = front ++ raw :: back ∧ recorded front = above ∧
      recordOf front raw = some placed := by
  -- From the last physical line on: it was recorded as the last line of the program, or the line is
  -- in front of it.
  induction raws using List.reverseRecOn generalizing below with
  | nil =>
      have hnil : [] = above ++ placed :: below := h
      simp at hnil
  | append_singleton raws raw ih =>
      have hearlier : ∀ {rest : List Line}, recorded raws = above ++ placed :: rest →
          ∃ front other back, raws ++ [raw] = front ++ other :: back ∧ recorded front = above ∧
            recordOf front other = some placed := by
        intro rest hrest
        rcases ih hrest with ⟨front, other, back, rfl, habove, hplaced⟩
        exact ⟨front, other, back ++ [raw], by simp, habove, hplaced⟩
      rw [recorded_concat] at h
      cases hlast : recordOf raws raw with
      | none =>
          rw [hlast, Option.toList_none, List.append_nil] at h
          exact hearlier h
      | some last =>
          rw [hlast, Option.toList_some] at h
          rcases List.eq_nil_or_concat below with rfl | ⟨rest, final, rfl⟩
          · rcases List.append_inj' h rfl with ⟨habove, hplaced⟩
            exact ⟨raws, raw, [], rfl, habove, by rw [hlast, List.singleton_inj.1 hplaced]⟩
          · have hsplit : recorded raws ++ [last] = (above ++ placed :: rest) ++ [final] := by
              simpa using h
            exact hearlier (List.append_inj' hsplit rfl).1

theorem lineno_of_recordOf {placed : Line} (h : recordOf front raw = some placed) :
    placed.lineno = (front.length + 1 : Nat) := by
  rcases Option.bind_eq_some_iff.1 h with ⟨line, hline, hrecord⟩
  rcases Line.sorted_of_ofTokens? hline with ⟨first, others, -, hsorted⟩
  rcases Counter.same_of_record hrecord with ⟨address, elements, rfl⟩
  exact hsorted.lineno_eq

end Layout

/-! ## The second pass -/

/-- What is wrong with a placed line that cannot be encoded. -/
inductive Line.Unencodable (symbols : SymbolTable) (catalog : Catalog) (line : Line)
    (fault : Fault) : Prop where
  | instruction (hkind : line.kind = .instruction)
    (h : Instruction.encode line symbols catalog = .error fault)
  | data (hkind : line.kind.isData = true) (h : Directive.encode line symbols = .error fault)

theorem encodeLine_eq_error {symbols : SymbolTable} {catalog : Catalog} {line : Line}
    {fault : Fault} :
    encodeLine symbols catalog line = .error fault ↔ line.Unencodable symbols catalog fault := by
  unfold encodeLine
  by_cases hinstruction : line.kind = .instruction
  · rw [if_pos hinstruction, map_eq_error]
    constructor
    · intro h
      exact .instruction hinstruction h
    · intro h
      cases h with
      | instruction _ h => exact h
      | data hkind _ =>
          rw [hinstruction] at hkind
          cases hkind
  · rw [if_neg hinstruction]
    constructor
    · intro h
      refine .data ?_ h
      -- A line that holds neither an instruction nor data gives no rows, and no error.
      by_contra hkind
      rw [Directive.encode, if_neg hkind] at h
      cases h
    · intro h
      cases h with
      | instruction hkind _ => exact absurd hkind hinstruction
      | data _ h => exact h

theorem encodeLineOf_eq_error {file : Bytes} {symbols : SymbolTable} {catalog : Catalog}
    {line : Line} {error : AssemblyError} :
    encodeLineOf file symbols catalog line = .error error ↔
      ∃ fault, line.Unencodable symbols catalog fault ∧
        error = .at ⟨file, line.lineno, line.address, fault⟩ := by
  rw [encodeLineOf, mapError_eq_error]
  refine exists_congr fun fault => ?_
  rw [encodeLine_eq_error, eq_comm]

theorem exists_rows_of_encodable (file : Bytes) {symbols : SymbolTable} {catalog : Catalog}
    {line : Line} (h : ∀ fault, ¬ line.Unencodable symbols catalog fault) :
    ∃ rows, encodeLineOf file symbols catalog line = .ok rows := by
  cases hencode : encodeLineOf file symbols catalog line with
  | ok rows => exact ⟨rows, rfl⟩
  | error error =>
      rcases encodeLineOf_eq_error.1 hencode with ⟨fault, hfault, -⟩
      exact absurd hfault (h fault)

/-! ## Errors of a file -/

/-- The error that a file ends with. -/
inductive Reports (catalog : Catalog) (file source : Bytes) : AssemblyError → Prop where
  | overlong {front back : List Bytes} {raw : Bytes}
      (hpieces : Lines.pieces source = front ++ raw :: back)
      (hfront : ∀ raw ∈ front, Layout.Accepted raw) (hlong : Lines.limit ≤ raw.length) :
      Reports catalog file source (.overlong file (front.length + 1))
  | misplaced {front back : List Bytes} {raw token : Bytes}
      (hpieces : Lines.pieces source = front ++ raw :: back)
      (hfront : ∀ raw ∈ front, Layout.Accepted raw) (hfits : raw.length < Lines.limit)
      (htoken : Layout.refused? raw = some token) :
      Reports catalog file source
        (.at ⟨file, (front.length + 1 : Nat), UInt32.ofNat (Layout.counterAfter front).location,
          ⟨.malformedDirective, token⟩⟩)
  | unencodable {front back : List Bytes} {raw : Bytes} {placed : Line} {fault : Fault}
      (hpieces : Lines.pieces source = front ++ raw :: back)
      (hall : ∀ raw ∈ Lines.pieces source, Layout.Accepted raw)
      (hfront : ∀ earlier ∈ Layout.recorded front, ∀ fault,
        ¬ earlier.Unencodable (.ofLines (Layout.recorded (Lines.pieces source))) catalog fault)
      (hplaced : Layout.recordOf front raw = some placed)
      (hfault : placed.Unencodable (.ofLines (Layout.recorded (Lines.pieces source)))
        catalog fault) :
      Reports catalog file source (.at ⟨file, (front.length + 1 : Nat), placed.address, fault⟩)

/-- A file in which nothing is wrong. -/
structure Faultless (catalog : Catalog) (source : Bytes) : Prop where
  accepted : ∀ raw ∈ Lines.pieces source, Layout.Accepted raw
  encodable : ∀ placed ∈ Layout.recorded (Lines.pieces source), ∀ fault,
    ¬ placed.Unencodable (.ofLines (Layout.recorded (Lines.pieces source))) catalog fault

section

variable {catalog : Catalog} {file source : Bytes}

theorem assemble_of_layout_error {error : AssemblyError} (h : layout file source = .error error) :
    assemble catalog file source = .error error := by
  rw [assemble, h]
  rfl

/-- Behind the first pass, assembling a file is encoding what was recorded of it. -/
theorem assemble_of_accepted (h : ∀ raw ∈ Lines.pieces source, Layout.Accepted raw) :
    assemble catalog file source =
      ((Layout.recorded (Lines.pieces source)).mapM
        (encodeLineOf file (.ofLines (Layout.recorded (Lines.pieces source))) catalog)).map
        (fun rows => ⟨⟨file, Layout.recorded (Lines.pieces source)⟩,
          .ofLines (Layout.recorded (Lines.pieces source)), rows.flatten⟩) := by
  rw [assemble, Layout.layout_of_accepted file h, ok_bind]
  unfold encode
  dsimp only
  cases (Layout.recorded (Lines.pieces source)).mapM
    (encodeLineOf file (.ofLines (Layout.recorded (Lines.pieces source))) catalog) with
  | error error => rfl
  | ok rows => rfl

theorem Reports.assemble_eq {error : AssemblyError} (h : Reports catalog file source error) :
    assemble catalog file source = .error error := by
  cases h with
  | overlong hpieces hfront hlong =>
      exact assemble_of_layout_error (Layout.layout_of_overlong file hpieces hfront hlong)
  | misplaced hpieces hfront hfits htoken =>
      exact assemble_of_layout_error (Layout.layout_of_refused file hpieces hfront hfits htoken)
  | @unencodable front back raw placed fault hpieces hall hfront hplaced hfault =>
      have hlines : ∃ below, Layout.recorded (Lines.pieces source) =
          Layout.recorded front ++ placed :: below := by
        rcases Layout.exists_recorded_eq front raw back with ⟨below, hbelow⟩
        refine ⟨below, ?_⟩
        rw [hpieces, hbelow, hplaced, Option.toList_some, List.append_assoc, List.singleton_append]
      rcases hlines with ⟨below, hlines⟩
      have hstop := mapM_eq_error.2 ⟨_, placed, below, hlines,
        fun earlier hearlier => exists_rows_of_encodable file (hfront earlier hearlier),
        encodeLineOf_eq_error.2 ⟨fault, hfault, rfl⟩⟩
      rw [assemble_of_accepted hall, hstop, Layout.lineno_of_recordOf hplaced]
      rfl

theorem Faultless.exists_result (h : Faultless catalog source) (file : Bytes) :
    ∃ result, assemble catalog file source = .ok result := by
  rw [assemble_of_accepted h.accepted]
  cases hencode : (Layout.recorded (Lines.pieces source)).mapM
    (encodeLineOf file (.ofLines (Layout.recorded (Lines.pieces source))) catalog) with
  | ok rows => exact ⟨_, rfl⟩
  | error error =>
      rcases mapM_eq_error.1 hencode with ⟨front, placed, back, hlines, -, herror⟩
      rcases encodeLineOf_eq_error.1 herror with ⟨fault, hfault, -⟩
      exact absurd hfault (h.encodable placed (by simp [hlines]) fault)

end

theorem exists_first_of_not_forall {α : Type} {p : α → Prop} {xs : List α} (h : ¬ ∀ x ∈ xs, p x) :
    ∃ front x back, xs = front ++ x :: back ∧ (∀ y ∈ front, p y) ∧ ¬ p x := by
  induction xs with
  | nil => exact absurd (by simp) h
  | cons x xs ih =>
      by_cases hx : p x
      · have hrest : ¬ ∀ y ∈ xs, p y := fun hall => h (List.forall_mem_cons.2 ⟨hx, hall⟩)
        rcases ih hrest with ⟨front, y, back, rfl, hfront, hy⟩
        exact ⟨x :: front, y, back, rfl, List.forall_mem_cons.2 ⟨hx, hfront⟩, hy⟩
      · exact ⟨[], x, xs, rfl, by simp, hx⟩

/-- Every file has an error to report, or nothing is wrong in it. -/
theorem reports_or_faultless (catalog : Catalog) (file source : Bytes) :
    (∃ error, Reports catalog file source error) ∨ Faultless catalog source := by
  by_cases hall : ∀ raw ∈ Lines.pieces source, Layout.Accepted raw
  · cases hencode : (Layout.recorded (Lines.pieces source)).mapM
      (encodeLineOf file (.ofLines (Layout.recorded (Lines.pieces source))) catalog) with
    | ok rows =>
        refine .inr ⟨hall, ?_⟩
        intro placed hplaced fault hfault
        rcases exists_mem_of_forall₂ (mapM_eq_ok.1 hencode) hplaced with ⟨row, -, hrow⟩
        cases hrow.symm.trans (encodeLineOf_eq_error.2 ⟨fault, hfault, rfl⟩)
    | error error =>
        rcases mapM_eq_error.1 hencode with ⟨above, placed, below, hlines, habove, herror⟩
        rcases encodeLineOf_eq_error.1 herror with ⟨fault, hfault, -⟩
        -- Back from the line of the program to the physical line that it was recorded of.
        rcases Layout.exists_recordOf_of_recorded hlines with
          ⟨front, raw, back, hpieces, rfl, hplaced⟩
        refine .inl ⟨_, .unencodable hpieces hall ?_ hplaced hfault⟩
        intro earlier hearlier fault' hfault'
        rcases habove earlier hearlier with ⟨rows, hrows⟩
        cases hrows.symm.trans (encodeLineOf_eq_error.2 ⟨fault', hfault', rfl⟩)
  · rcases exists_first_of_not_forall hall with ⟨front, raw, back, hpieces, hfront, hraw⟩
    by_cases hfits : raw.length < Lines.limit
    · cases htoken : Layout.refused? raw with
      | none => exact absurd ⟨hfits, htoken⟩ hraw
      | some token => exact .inl ⟨_, .misplaced hpieces hfront hfits htoken⟩
    · exact .inl ⟨_, .overlong hpieces hfront (Nat.not_lt.1 hfits)⟩

/-- A file ends with the error of its first physical line that is too long or cannot be placed;
where there is none, with that of the first placed line that cannot be encoded; and otherwise it is
assembled. What is said about a line that is too long starts with the file and the number of the
line. -/
theorem assemble_reports_first_error (catalog : Catalog) (file source : Bytes) :
    (∀ error, assemble catalog file source = .error error ↔ Reports catalog file source error) ∧
      ((∃ result, assemble catalog file source = .ok result) ↔ Faultless catalog source) ∧
      ∀ lineno, (AssemblyError.overlong file lineno).message =
        file ++ utf8 ":" ++ Bytes.decimal lineno ++ utf8 ": " ++ Lines.overlongText := by
  have htotal := reports_or_faultless catalog file source
  refine ⟨?_, ?_, fun lineno => rfl⟩
  · intro error
    refine ⟨?_, Reports.assemble_eq⟩
    intro herror
    rcases htotal with ⟨error', hreports⟩ | hfaultless
    · cases herror.symm.trans hreports.assemble_eq
      exact hreports
    · rcases hfaultless.exists_result file with ⟨result, hresult⟩
      cases herror.symm.trans hresult
  · refine ⟨?_, fun hfaultless => hfaultless.exists_result file⟩
    rintro ⟨result, hresult⟩
    rcases htotal with ⟨error, hreports⟩ | hfaultless
    · cases hresult.symm.trans hreports.assemble_eq
    · exact hfaultless

/-- A line that cannot be encoded in front of one that cannot be placed, and the same line by
itself. -/
def sampleFaults : Bytes × Bytes :=
  (utf8 "nop\n; note\nfrob r1\n.align 99\n", utf8 "nop\n; note\nfrob r1\n")

theorem sampleFaults_reported :
    Reports .builtin (utf8 "a") sampleFaults.1
        (.at ⟨utf8 "a", 4, 8, ⟨.malformedDirective, utf8 "99"⟩⟩) ∧
      Reports .builtin (utf8 "a") sampleFaults.2
        (.at ⟨utf8 "a", 3, 4, ⟨.unknownOpcode, utf8 "frob"⟩⟩) := by
  constructor
  · exact ((assemble_reports_first_error .builtin (utf8 "a") sampleFaults.1).1 _).1
      (by decide +kernel)
  · exact ((assemble_reports_first_error .builtin (utf8 "a") sampleFaults.2).1 _).1
      (by decide +kernel)

end Dlx
