import Dlx.Assembly.Assemble
import Dlx.Proofs.Outcome

/-!
# Lines with another text

The tokens of a line, what was taken for its labels, and its number are kept with the line for
listings and messages. A `Line.Retelling` is a change of lines that touches nothing else, and both
passes treat the changed line as they treat the line itself.

* `Cursor.place_retelling`: placing the changed line gives the placed line, changed
* `encodeLine_retelling`: the rows of the changed line are the rows of the line with their source
  changed, and a fault is the same fault where the tokens are the same
-/

namespace Dlx

/-- A change of lines that leaves what a line says and where it stands. -/
structure Line.Retelling (f : Line → Line) (line : Line) : Prop where
  kind : (f line).kind = line.kind
  mnemonic : (f line).mnemonic = line.mnemonic
  operands : (f line).operands = line.operands
  placed : ∀ address elements, f { line with address, elements } = { f line with address, elements }

namespace Line.Retelling

variable {f : Line → Line} {line : Line}

theorem address (h : Retelling f line) : (f line).address = line.address :=
  (congrArg Line.address (h.placed line.address line.elements)).trans rfl

theorem elements (h : Retelling f line) : (f line).elements = line.elements :=
  (congrArg Line.elements (h.placed line.address line.elements)).trans rfl

end Line.Retelling

/-! ## The first pass -/

namespace Cursor

variable {f : Line → Line} {line : Line}

theorem placed_retelling (h : line.Retelling f) (address : UInt32) :
    placed (f line) address = (placed line address).map f := by
  have hplaced : f { line with address } = { f line with address, elements := line.elements } :=
    h.placed address line.elements
  rw [placed, placed, Option.map_some, hplaced, ← h.elements]

theorem placedLabel_retelling (h : line.Retelling f)
    (hlabels : (f line).labels.isEmpty = line.labels.isEmpty) (address : UInt32) :
    placedLabel (f line) address = (placedLabel line address).map f := by
  rw [placedLabel, placedLabel, hlabels, placed_retelling h]
  cases line.labels.isEmpty with
  | true => rfl
  | false => rfl

/-- Where a line goes does not depend on its text. Only a line that takes no memory is dropped or
kept for its labels. -/
theorem place_retelling (c : Cursor) (h : line.Retelling f)
    (hlabels : Program.takesMemory line = true ∨ (f line).labels.isEmpty = line.labels.isEmpty) :
    c.place (f line) = (c.place line).map (fun placement => (placement.1, placement.2.map f)) := by
  have hplaced := placed_retelling h
  -- Where a line is kept for its labels only, those decide on it; everywhere else they have no part
  -- in the placement.
  have hkept : Program.takesMemory line = false → ∀ address,
      placedLabel (f line) address = (placedLabel line address).map f := by
    intro hmemory address
    rw [hmemory] at hlabels
    exact placedLabel_retelling h (hlabels.resolve_left Bool.false_ne_true) address
  have helements : Directive.elements (f line) = Directive.elements line := by
    rw [Directive.elements, Directive.elements, h.operands, h.mnemonic, h.kind]
  unfold place
  rw [h.kind, h.operands, helements]
  cases hkind : line.kind with
  | reset | comment => rfl
  | label | instruction => simp only [hplaced, Except.map]
  | text | data =>
      have hmemory : Program.takesMemory line = false := by
        simp [Program.takesMemory, hkind, LineKind.isData]
      cases sectionAddress line.operands with
      | error fault => rfl
      | ok address => exact congrArg (fun kept => Except.ok (_, kept)) (hkept hmemory address)
  | align =>
      have hmemory : Program.takesMemory line = false := by
        simp [Program.takesMemory, hkind, LineKind.isData]
      cases boundary line.operands with
      | error fault => rfl
      | ok size => exact congrArg (fun kept => Except.ok (_, kept)) (hkept hmemory _)
  | space =>
      cases amount line.operands with
      | error fault => rfl
      | ok size => exact congrArg (fun kept => Except.ok (_, kept)) (hplaced _)
  | ascii | asciiz | double | float | word =>
      cases Directive.elements line with
      | error fault => rfl
      | ok elements =>
          have hline := h.placed c.next (Directive.placeFrom c.next elements)
          simp only [h.kind, h.operands, hkind] at hline
          exact congrArg (fun kept => Except.ok
            (c.moveTo (Directive.endOf c.next elements), some kept)) hline.symm

end Cursor

/-! ## The second pass -/

/-- A row of a changed line. -/
def Row.retell (f : Line → Line) (row : Row) : Row :=
  { row with source := row.source.map f }

/-- The fault of a changed line: only a fault that shows the text of the line is another one. -/
def Line.SameFault (f : Line → Line) (line : Line) (fault fault' : Fault) : Prop :=
  (f line).tokens = line.tokens → fault' = fault

section Encode

variable {f : Line → Line} {line : Line} (symbols : SymbolTable)

theorem Line.SameFault.refl (fault : Fault) : line.SameFault f fault fault :=
  fun _ => rfl

namespace Instruction

/-- The text of a line is shown for an operand that is missing. -/
theorem operandAt_retelling (h : line.Retelling f) (place : Nat) :
    Corresponds (line.SameFault f) Eq (operandAt line place) (operandAt (f line) place) := by
  unfold operandAt
  rw [h.operands]
  cases line.operands[place]? with
  | some token => exact .ok rfl
  | none => exact .error fun htokens => by rw [Line.text, Line.text, htokens]

theorem operandBits_retelling (h : line.Retelling f) (place : Nat) (slots : List Slot) :
    Corresponds (line.SameFault f) Eq (operandBits line symbols place slots)
      (operandBits (f line) symbols place slots) := by
  induction slots generalizing place with
  | nil => exact .ok rfl
  | cons slot slots ih =>
      rw [operandBits, operandBits, h.address]
      apply (operandAt_retelling h place).bind
      rintro token _ - rfl
      apply (Corresponds.same Line.SameFault.refl (slot.bits symbols line.address token)).bind
      rintro bits _ - rfl
      apply (ih (place + 1)).bind
      rintro others _ - rfl
      exact .ok rfl

theorem encode_retelling (h : line.Retelling f) (catalog : Catalog) :
    Corresponds (line.SameFault f) Eq (encode line symbols catalog)
      (encode (f line) symbols catalog) := by
  rw [encode, encode, h.mnemonic]
  apply (Corresponds.same Line.SameFault.refl (catalog.find line.mnemonic)).bind
  rintro d _ - rfl
  cases Shape.ofMnemonic? line.mnemonic with
  | none => exact .error fun _ => rfl
  | some shape =>
      cases hslots : shape.slots? d.format with
      | none =>
          simp only [hslots]
          exact .error fun _ => rfl
      | some slots =>
          simp only [hslots]
          apply (operandBits_retelling symbols h 0 slots).bind
          rintro body _ - rfl
          exact .ok rfl

end Instruction

theorem Directive.elementRow_retelling (h : line.Retelling f) (e : Element) :
    elementRow (f line) symbols e = (elementRow line symbols e).map (Row.retell f) := by
  rw [elementRow, elementRow, h.kind]
  cases elementText line.kind symbols e.value with
  | error fault => rfl
  | ok text => rfl

/-- A line is encoded by what it says and where it stands. -/
theorem encodeLine_retelling (h : line.Retelling f) (catalog : Catalog) :
    Corresponds (line.SameFault f) (fun rows rows' => rows' = rows.map (Row.retell f))
      (encodeLine symbols catalog line) (encodeLine symbols catalog (f line)) := by
  unfold encodeLine
  rw [h.kind]
  -- An instruction is encoded as a whole, a directive element by element.
  split
  · apply (Instruction.encode_retelling symbols h catalog).map
    rintro word _ rfl
    rw [h.address]
    rfl
  · unfold Directive.encode
    rw [h.kind, h.elements]
    split
    · have hrows : Corresponds (line.SameFault f) (List.Forall₂ fun row row' => row' = row.retell f)
          (line.elements.mapM (Directive.elementRow line symbols))
          (line.elements.mapM (Directive.elementRow (f line) symbols)) := by
        apply Corresponds.mapM
        refine List.forall₂_same.2 fun e _ => ?_
        rw [Directive.elementRow_retelling symbols h e]
        cases Directive.elementRow line symbols e with
        | error fault => exact .error fun _ => rfl
        | ok row => exact .ok rfl
      exact hrows.imp (fun _ _ hfault => hfault) fun _ _ hsame => eq_map_of_forall₂ hsame
    · exact .ok rfl

end Encode

end Dlx
