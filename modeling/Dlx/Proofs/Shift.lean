import Dlx.Assembly.Assemble
import Dlx.Proofs.Counter
import Dlx.Proofs.Symbols

/-!
# Moving the first pass

The first pass works with addresses in two ways only: it adds to them, and it rounds them up. A file
that never says where it goes, and whose alignments divide a distance `d`, is therefore placed alike
wherever it starts, with `d` added to every address.

* `Line.shift`, `Cursor.shift`, `Layout.Pass.shift`: what is moved
* `Cursor.place_shift`: one line, from a step lemma for each rule of the cursor
* `Layout.runUntil_shift`: the lines of a file
* `SymbolTable.ofLines_shift`: the labels
-/

namespace Dlx

variable (d : UInt32)

/-! ## What is moved -/

def Element.shift (e : Element) : Element :=
  { e with address := e.address + d }

def Line.shift (line : Line) : Line :=
  { line with address := line.address + d, elements := line.elements.map (Element.shift d) }

def SymbolTable.shift (t : SymbolTable) : SymbolTable :=
  ⟨t.entries.map (fun e => (e.1, e.2 + d))⟩

def Cursor.shift (c : Cursor) : Cursor :=
  { c with slot := c.slot + d }

def Layout.Pass.shift (p : Layout.Pass) : Layout.Pass :=
  { p with cursor := p.cursor.shift d, placed := p.placed.map (Line.shift d) }

/-- An error names the address of its line, and nothing else of it is moved. -/
def AssemblyError.shift : AssemblyError → AssemblyError
  | .at diagnostic => .at { diagnostic with address := diagnostic.address + d }
  | .overlong file lineno => .overlong file lineno

/-! ## Adding and rounding up -/

variable {d}

theorem add_right_shift (a b : UInt32) : a + d + b = a + b + d := by
  rw [UInt32.add_assoc, UInt32.add_comm d b, ← UInt32.add_assoc]

theorem Cursor.next_shift (c : Cursor) : (c.shift d).next = c.next + d :=
  add_right_shift c.slot c.gap

theorem Cursor.spaceStart_shift (c : Cursor) : (c.shift d).spaceStart = c.spaceStart + d := by
  rcases c with ⟨slot, gap, spaced⟩
  cases spaced with
  | false => rfl
  | true => exact Cursor.next_shift _

theorem alignUp_shift {n : Nat} (hn : n ≤ 31) (hd : 2 ^ n ∣ d.toNat) (address : UInt32) :
    alignUp (address + d) (1 <<< n.toUInt32) = alignUp address (1 <<< n.toUInt32) + d := by
  have hrem : (address + d) % (1 <<< n.toUInt32) = address % (1 <<< n.toUInt32) := by
    -- The boundary divides `2 ^ 32` too, so a sum that wraps has the same remainder.
    have hwrap : 2 ^ n ∣ 2 ^ 32 := Nat.pow_dvd_pow 2 (by omega)
    rw [← UInt32.toNat_inj, UInt32.toNat_mod, UInt32.toNat_mod, toNat_one_shiftLeft hn,
      UInt32.toNat_add, Nat.mod_mod_of_dvd _ hwrap, Nat.add_mod, Nat.mod_eq_zero_of_dvd hd,
      Nat.add_zero, Nat.mod_mod]
  unfold alignUp
  rw [hrem]
  split
  · rfl
  · exact add_right_shift _ _

namespace Directive

theorem placeFrom_shift (address : UInt32) (elements : List Element) :
    placeFrom (address + d) elements = (placeFrom address elements).map (Element.shift d) := by
  induction elements generalizing address with
  | nil => rfl
  | cons e rest ih =>
      rw [placeFrom, placeFrom, List.map_cons, add_right_shift, ih]
      rfl

theorem endOf_shift (address : UInt32) (elements : List Element) :
    endOf (address + d) elements = endOf address elements + d := by
  induction elements generalizing address with
  | nil => rfl
  | cons e rest ih =>
      have hstep : ∀ address, endOf address (e :: rest) = endOf (address + e.size) rest :=
        fun _ => rfl
      rw [hstep, hstep, add_right_shift, ih]

end Directive

/-! ## One line -/

/-- A line that can be moved by `d`: it sets no section, and an alignment that it asks for divides
`d`. -/
structure Line.Movable (d : UInt32) (line : Line) : Prop where
  not_text : line.kind ≠ .text
  not_data : line.kind ≠ .data
  align : line.kind = .align → ∀ n ∈ (Cursor.amount line.operands).toOption, n ≤ 31 →
    2 ^ n ∣ d.toNat

instance (line : Line) : Decidable (line.Movable d) :=
  decidable_of_iff
    (line.kind ≠ .text ∧ line.kind ≠ .data ∧
      (line.kind = .align → ∀ n ∈ (Cursor.amount line.operands).toOption, n ≤ 31 → 2 ^ n ∣ d.toNat))
    ⟨fun h => ⟨h.1, h.2.1, h.2.2⟩, fun h => ⟨h.not_text, h.not_data, h.align⟩⟩

namespace Cursor

/-- The place of a line that was not yet placed. -/
theorem placed_shift {line : Line} (hline : line.elements = []) (address : UInt32) :
    placed line (address + d) = (placed line address).map (Line.shift d) := by
  simp [placed, Line.shift, hline]

theorem placedLabel_shift {line : Line} (hline : line.elements = []) (address : UInt32) :
    placedLabel line (address + d) = (placedLabel line address).map (Line.shift d) := by
  unfold placedLabel
  split
  · rfl
  · exact placed_shift hline address

/-- A cursor and the line it has placed, both moved. -/
def shiftPlacement (d : UInt32) (placement : Cursor × Option Line) : Cursor × Option Line :=
  (placement.1.shift d, placement.2.map (Line.shift d))

theorem place_shift {line : Line} (hline : line.elements = []) (hmovable : line.Movable d)
    (c : Cursor) :
    (c.shift d).place line = (c.place line).map (shiftPlacement d) := by
  cases hkind : line.kind with
  -- A section is the one thing that does not move with the cursor.
  | text => exact absurd hkind hmovable.not_text
  | data => exact absurd hkind hmovable.not_data
  | reset | comment =>
      simp only [place, hkind]
      rfl
  | label | instruction =>
      simp only [place, hkind, next_shift, placed_shift hline]
      rfl
  | align =>
      cases hsize : boundary line.operands with
      | error fault =>
          simp only [place, hkind, hsize]
          rfl
      | ok size =>
          rcases Counter.exists_amount_of_boundary hsize with ⟨n, hn, hle, rfl⟩
          have hd : 2 ^ n ∣ d.toNat := hmovable.align hkind n (by rw [hn]; rfl) hle
          have halign := alignUp_shift hle hd c.next
          simp only [place, hkind, hsize, next_shift, ok_bind, halign, placedLabel_shift hline]
          rfl
  | space =>
      cases hsize : amount line.operands with
      | error fault =>
          simp only [place, hkind, hsize]
          rfl
      | ok size =>
          simp only [place, hkind, hsize, ok_bind, spaceStart_shift, placed_shift hline]
          rw [add_right_shift]
          rfl
  | ascii | asciiz | double | float | word =>
      cases helements : Directive.elements line with
      | error fault =>
          simp only [place, hkind, helements]
          rfl
      | ok elements =>
          simp only [place, hkind, helements, next_shift, Directive.placeFrom_shift,
            Directive.endOf_shift]
          rfl

end Cursor

/-! ## Line after line -/

namespace Layout

theorem Pass.keep_shift (p : Pass) (placement : Cursor × Option Line) :
    (p.shift d).keep (Cursor.shiftPlacement d placement) = (p.keep placement).shift d := by
  rcases placement with ⟨c, kept⟩
  cases kept with
  | none => rfl
  | some line => rfl

theorem Pass.step_shift (file : Bytes) {raw : Bytes}
    (hraw : ∀ lineno line, Line.ofTokens? (tokenize raw) lineno = some line → line.Movable d)
    (p : Pass) :
    ((Pass.step file p raw).map (Pass.shift d)).mapError (AssemblyError.shift d) =
      Pass.step file (p.shift d) raw := by
  unfold Pass.step
  have hlineno : (p.shift d).lineno = p.lineno := rfl
  have hcursor : (p.shift d).cursor = p.cursor.shift d := rfl
  rw [hlineno, hcursor]
  cases hline : Line.ofTokens? (tokenize raw) (p.lineno + 1 : Nat) with
  | none => rfl
  | some line =>
      rcases Line.sorted_of_ofTokens? hline with ⟨first, others, -, hsorted⟩
      have hplace := Cursor.place_shift hsorted.elements_eq_nil (hraw _ line hline) p.cursor
      simp only [hplace]
      cases p.cursor.place line with
      | error fault =>
          -- The message gives the address that the line would have had.
          rw [Cursor.next_shift]
          rfl
      | ok placement => exact congrArg Except.ok (p.keep_shift placement).symm

/-- The lines of a text from a cursor on, and from that cursor moved. -/
theorem runUntil_shift (file : Bytes) {raws : List Bytes}
    (hraws : ∀ raw ∈ raws, ∀ lineno line, Line.ofTokens? (tokenize raw) lineno = some line →
      line.Movable d)
    (p : Pass) :
    runUntil (Pass.step file) (p.shift d) raws =
      (runUntil (Pass.step file) p raws).map (Pass.shift d)
        (Option.map (AssemblyError.shift d)) := by
  symm
  apply runUntil_views
  intro raw hraw p
  exact Pass.step_shift file (hraws raw hraw) p

end Layout

/-! ## Labels -/

namespace SymbolTable

theorem insert_shift (t : SymbolTable) (label : Bytes) (address : UInt32) :
    (t.shift d).insert label (address + d) = (t.insert label address).shift d := by
  simp [insert, shift, List.filter_map, Function.comp_def]

theorem addLine_shift (t : SymbolTable) (line : Line) :
    (t.shift d).addLine (line.shift d) = (t.addLine line).shift d := by
  have hall : ∀ labels : List Bytes, ∀ t : SymbolTable,
      labels.foldl (fun t label => t.insert label (line.address + d)) (t.shift d) =
        (labels.foldl (fun t label => t.insert label line.address) t).shift d := by
    intro labels
    induction labels with
    | nil => intro t; rfl
    | cons label rest ih =>
        intro t
        rw [List.foldl_cons, List.foldl_cons, insert_shift, ih]
  exact hall (labelsOf line) t

theorem ofLines_shift (lines : List Line) :
    ofLines (lines.map (Line.shift d)) = (ofLines lines).shift d := by
  have hall : ∀ t : SymbolTable,
      (lines.map (Line.shift d)).foldl addLine (t.shift d) = (lines.foldl addLine t).shift d := by
    induction lines with
    | nil => intro t; rfl
    | cons line rest ih =>
        intro t
        rw [List.map_cons, List.foldl_cons, List.foldl_cons, addLine_shift, ih]
  exact hall empty

theorem find?_shift (t : SymbolTable) (label : Bytes) :
    (t.shift d).find? label = (t.find? label).map (· + d) := by
  rcases t with ⟨entries⟩
  unfold find? shift
  induction entries with
  | nil => rfl
  | cons e rest ih =>
      rcases e with ⟨name, address⟩
      rw [List.map_cons, lookup_cons_ite, lookup_cons_ite, ih]
      split
      · rfl
      · rfl

theorem resolve?_shift (t : SymbolTable) (name : Bytes) :
    (t.shift d).resolve? name = (t.resolve? name).map (· + d) :=
  t.find?_shift _

end SymbolTable

end Dlx
