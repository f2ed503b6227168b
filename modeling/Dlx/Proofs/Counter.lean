import Dlx.Proofs.Placement

/-!
# The location counter

The addresses of a program as a person would work them out: one counter, a natural number that never
wraps, moved line by line.

* `Counter.position`: where a line goes; section and alignment directives move first and then stand
* `Counter.step`: the counter behind a line
* `Counter.records`: what a program holds of each line, with addresses reduced modulo `2 ^ 32`
* `layout_follows_counter`: the program of a file is what the counter says

The pass itself keeps the last slot and the distance to the next one, both as words, and wraps at
every step. `Counter.Tracks` ties the two together.
-/

namespace Dlx

/-- The location counter between two lines of a file. -/
structure Counter where
  location : Nat
  /-- Whether the last line that was no comment was an instruction. -/
  afterInstruction : Bool
  /-- Whether a space directive has been placed. -/
  spaced : Bool
  deriving DecidableEq, Repr

/-- The least multiple of `size` from `n` on. -/
def roundUp (n size : Nat) : Nat :=
  (n + (size - 1)) / size * size

namespace Counter

/-- The counter in front of a file. -/
def start : Counter := ⟨0, false, false⟩

/-! ## What the operands of a line say -/

/-- The address of a section directive. -/
def originOf (line : Line) : Nat :=
  match Cursor.sectionAddress line.operands with
  | .ok address => address.toNat
  | .error _ => 0

/-- The number of an alignment or a space directive. -/
def amountOf (line : Line) : Nat :=
  match Cursor.amount line.operands with
  | .ok amount => amount
  | .error _ => 0

/-- The elements of a data directive, not yet placed. -/
def elementsOf (line : Line) : List Element :=
  match Directive.elements line with
  | .ok elements => elements
  | .error _ => []

/-! ## The rules -/

/-- Where a line goes. The first space directive of a file takes the place of an instruction that
stands directly in front of it. -/
def position (k : Counter) (line : Line) : Nat :=
  match line.kind with
  | .text | .data => originOf line
  | .align => roundUp k.location (2 ^ amountOf line)
  | .space => if k.afterInstruction && !k.spaced then k.location - 4 else k.location
  | _ => k.location

/-- How many bytes a line takes. -/
def extent (line : Line) : Nat :=
  match line.kind with
  | .instruction => 4
  | .space => amountOf line
  | .ascii | .asciiz | .double | .float | .word => ((elementsOf line).map (·.size.toNat)).sum
  | _ => 0

/-- The counter behind a line. Comments do nothing. -/
def step (k : Counter) (line : Line) : Counter :=
  match line.kind with
  | .reset | .comment => k
  | kind => ⟨k.position line + extent line, kind = .instruction, k.spaced || kind = .space⟩

/-- Elements one behind the other from a location on. -/
def elementsFrom : (location : Nat) → List Element → List Element
  | _, [] => []
  | location, e :: rest =>
    { e with address := UInt32.ofNat location } :: elementsFrom (location + e.size.toNat) rest

/-- What a program holds of a line: nothing of a comment, and of a directive that only moves the
counter nothing unless it carries a label. -/
def record (k : Counter) (line : Line) : Option Line :=
  match line.kind with
  | .reset | .comment => none
  | .text | .data | .align =>
    if line.labels.isEmpty then none
    else some { line with address := UInt32.ofNat (k.position line) }
  | .label | .space | .instruction => some { line with address := UInt32.ofNat (k.position line) }
  | .ascii | .asciiz | .double | .float | .word =>
    some
      { line with
        address := UInt32.ofNat (k.position line)
        elements := elementsFrom (k.position line) (elementsOf line) }

/-- What a program holds of each of a list of lines. -/
def records : Counter → List Line → List (Option Line)
  | _, [] => []
  | k, line :: rest => k.record line :: records (k.step line) rest

end Counter

/-! ## Rounding up -/

theorem roundUp_eq (n : Nat) {size : Nat} (hsize : 0 < size) :
    roundUp n size = if n % size = 0 then n else n + (size - n % size) := by
  have hlt : n % size < size := Nat.mod_lt n hsize
  have hdiv : size * (n / size) + n % size = n := Nat.div_add_mod n size
  unfold roundUp
  by_cases hzero : n % size = 0
  · have hquot : (n + (size - 1)) / size = n / size := by
      rw [Nat.div_eq_iff hsize, Nat.mul_comm]
      omega
    rw [if_pos hzero, hquot, Nat.mul_comm]
    omega
  · have hquot : (n + (size - 1)) / size = n / size + 1 := by
      rw [Nat.div_eq_iff hsize, Nat.add_mul, Nat.mul_comm]
      omega
    rw [if_neg hzero, hquot, Nat.add_mul, Nat.mul_comm]
    omega

theorem le_roundUp (n : Nat) {size : Nat} (hsize : 0 < size) : n ≤ roundUp n size := by
  rw [roundUp_eq n hsize]
  split
  · exact Nat.le_refl n
  · exact Nat.le_add_right n _

theorem toNat_one_shiftLeft {n : Nat} (hn : n ≤ 31) :
    ((1 : UInt32) <<< n.toUInt32).toNat = 2 ^ n := by
  have hall : ∀ m : Fin 32, ((1 : UInt32) <<< m.val.toUInt32).toNat = 2 ^ m.val := by decide
  exact hall ⟨n, by omega⟩

/-- Rounding up wraps where adding wraps, because the boundary divides `2 ^ 32`. -/
theorem alignUp_ofNat (m : Nat) {n : Nat} (hn : n ≤ 31) :
    alignUp (UInt32.ofNat m) (1 <<< n.toUInt32) = UInt32.ofNat (roundUp m (2 ^ n)) := by
  have hsize : (1 : UInt32) <<< n.toUInt32 = UInt32.ofNat (2 ^ n) := by
    rw [← toNat_one_shiftLeft hn, UInt32.ofNat_toNat]
  have hlt : 2 ^ n < 2 ^ 32 := Nat.pow_lt_pow_right (by decide) (by omega)
  have hle : m % 2 ^ n ≤ 2 ^ n := Nat.le_of_lt (Nat.mod_lt m (Nat.two_pow_pos n))
  have hsmall : m % 2 ^ n < 2 ^ 32 := Nat.lt_of_le_of_lt hle hlt
  have hrem : UInt32.ofNat m % UInt32.ofNat (2 ^ n) = UInt32.ofNat (m % 2 ^ n) := by
    rw [← UInt32.toNat_inj, UInt32.toNat_mod, UInt32.toNat_ofNat', UInt32.toNat_ofNat',
      UInt32.toNat_ofNat', Nat.mod_eq_of_lt hlt,
      Nat.mod_mod_of_dvd _ (Nat.pow_dvd_pow 2 (by omega)), Nat.mod_eq_of_lt hsmall]
  have hzero : UInt32.ofNat (m % 2 ^ n) = 0 ↔ m % 2 ^ n = 0 := by
    rw [← UInt32.toNat_inj, UInt32.toNat_ofNat', Nat.mod_eq_of_lt hsmall]
    rfl
  rw [alignUp, hsize, hrem, roundUp_eq m (Nat.two_pow_pos n)]
  by_cases haligned : m % 2 ^ n = 0
  · rw [if_pos (hzero.2 haligned), if_pos haligned]
  · rw [if_neg (mt hzero.1 haligned), if_neg haligned, UInt32.ofNat_add, UInt32.ofNat_sub hle]

/-! ## Elements -/

namespace Counter

theorem placeFrom_ofNat (location : Nat) (elements : List Element) :
    Directive.placeFrom (UInt32.ofNat location) elements = elementsFrom location elements := by
  induction elements generalizing location with
  | nil => rfl
  | cons e rest ih =>
      have hnext : UInt32.ofNat location + e.size = UInt32.ofNat (location + e.size.toNat) := by
        rw [UInt32.ofNat_add, UInt32.ofNat_toNat]
      rw [Directive.placeFrom, elementsFrom, hnext, ih]

theorem endOf_ofNat (location : Nat) (elements : List Element) :
    Directive.endOf (UInt32.ofNat location) elements =
      UInt32.ofNat (location + (elements.map (·.size.toNat)).sum) := by
  induction elements generalizing location with
  | nil => rfl
  | cons e rest ih =>
      have hnext : UInt32.ofNat location + e.size = UInt32.ofNat (location + e.size.toNat) := by
        rw [UInt32.ofNat_add, UInt32.ofNat_toNat]
      rw [List.map_cons, List.sum_cons, ← Nat.add_assoc, ← ih, ← hnext]
      rfl

/-! ## The pass follows the counter -/

/-- A cursor stands where a counter says: the next slot is the location, and the last slot is one
word in front of it exactly behind an instruction. -/
structure Tracks (c : Cursor) (k : Counter) : Prop where
  next : c.next = UInt32.ofNat k.location
  gap : c.gap = if k.afterInstruction then 4 else 0
  room : k.afterInstruction → 4 ≤ k.location
  spaced : c.spaced = k.spaced

theorem tracks_start : Tracks Cursor.start start where
  next := rfl
  gap := rfl
  room := fun h => by cases h
  spaced := rfl

/-- A cursor with nothing pending stands at its slot. -/
theorem tracks_moveTo {c : Cursor} {k : Counter} (h : Tracks c k) (location : Nat) :
    Tracks (c.moveTo (UInt32.ofNat location)) ⟨location, false, k.spaced⟩ where
  next := by simp [Cursor.next, Cursor.moveTo]
  gap := rfl
  room := fun h => by cases h
  spaced := h.spaced

theorem Tracks.slot {c : Cursor} {k : Counter} (h : Tracks c k) :
    c.slot = UInt32.ofNat (if k.afterInstruction then k.location - 4 else k.location) := by
  have hnext : c.slot + c.gap = UInt32.ofNat k.location := h.next
  rw [h.gap] at hnext
  cases hafter : k.afterInstruction with
  | false => simpa [hafter] using hnext
  | true =>
      have hroom : 4 ≤ k.location := h.room hafter
      have hsplit : UInt32.ofNat k.location = UInt32.ofNat (k.location - 4) + 4 := by
        rw [← Nat.sub_add_cancel hroom, UInt32.ofNat_add]
        rfl
      simpa [hafter, hsplit] using hnext

theorem Tracks.spaceStart {c : Cursor} {k : Counter} (h : Tracks c k) :
    c.spaceStart =
      UInt32.ofNat (if k.afterInstruction && !k.spaced then k.location - 4 else k.location) := by
  unfold Cursor.spaceStart
  rw [h.spaced]
  cases k.spaced with
  | true => simpa using h.next
  | false => simpa using h.slot

theorem exists_amount_of_boundary {operands : List Bytes} {size : UInt32}
    (h : Cursor.boundary operands = .ok size) :
    ∃ n, Cursor.amount operands = .ok n ∧ n ≤ 31 ∧ size = 1 <<< n.toUInt32 := by
  rcases bind_eq_ok.1 h with ⟨n, hn, h⟩
  by_cases hle : n ≤ 31
  · rw [if_pos hle] at h
    exact ⟨n, hn, hle, (pure_eq_ok.1 h).symm⟩
  · rw [if_neg hle] at h
    cases h

/-! What the rules say of the kinds that share one. -/

theorem step_record_of_quiet (k : Counter) {line : Line}
    (hkind : line.kind = .reset ∨ line.kind = .comment) :
    k.step line = k ∧ k.record line = none := by
  rcases hkind with hkind | hkind
  · simp [Counter.step, record, hkind]
  · simp [Counter.step, record, hkind]

theorem step_record_of_origin (k : Counter) {line : Line}
    (hkind : line.kind = .text ∨ line.kind = .data) :
    k.step line = ⟨originOf line, false, k.spaced⟩ ∧
      k.record line = Cursor.placedLabel line (UInt32.ofNat (originOf line)) := by
  rcases hkind with hkind | hkind
  · simp [Counter.step, record, position, extent, Cursor.placedLabel, Cursor.placed, hkind]
  · simp [Counter.step, record, position, extent, Cursor.placedLabel, Cursor.placed, hkind]

theorem step_record_of_isData (k : Counter) {line : Line} (hkind : line.kind.isData = true) :
    k.step line = ⟨k.location + ((elementsOf line).map (·.size.toNat)).sum, false, k.spaced⟩ ∧
      k.record line =
        some
          { line with
            address := UInt32.ofNat k.location
            elements := elementsFrom k.location (elementsOf line) } := by
  cases hk : line.kind with
  | ascii | asciiz | double | float | word => simp [Counter.step, record, position, extent, hk]
  | _ => simp [hk, LineKind.isData] at hkind

/-- One line: the cursor and the counter move together and keep the same. -/
theorem Tracks.step {c c' : Cursor} {k : Counter} {line : Line} {kept : Option Line}
    (h : Tracks c k) (hline : Cursor.Placed c line c' kept) :
    Tracks c' (k.step line) ∧ kept = k.record line := by
  cases hline with
  | quiet hkind =>
      rcases step_record_of_quiet k hkind with ⟨hstep, hrecord⟩
      rw [hstep, hrecord]
      exact ⟨h, rfl⟩
  | label hkind =>
      have hstep : k.step line = ⟨k.location, false, k.spaced⟩ := by
        simp [Counter.step, position, extent, hkind]
      have hrecord : k.record line = some { line with address := UInt32.ofNat k.location } := by
        simp [record, position, hkind]
      rw [hstep, hrecord, h.next]
      exact ⟨tracks_moveTo h k.location, rfl⟩
  | @origin address hkind haddress =>
      rcases step_record_of_origin k hkind with ⟨hstep, hrecord⟩
      have horigin : originOf line = address.toNat := by rw [originOf, haddress]
      have hmoved := tracks_moveTo h address.toNat
      rw [UInt32.ofNat_toNat] at hmoved
      rw [hstep, hrecord, horigin, UInt32.ofNat_toNat]
      exact ⟨hmoved, rfl⟩
  | align hkind hsize =>
      -- Only here is the size of a step a matter of words: the boundary is checked to fit one.
      rcases exists_amount_of_boundary hsize with ⟨n, hn, hle, rfl⟩
      have hposition : k.position line = roundUp k.location (2 ^ n) := by
        simp [position, amountOf, hkind, hn]
      have haddress : alignUp c.next (1 <<< n.toUInt32) = UInt32.ofNat (k.position line) := by
        rw [h.next, alignUp_ofNat k.location hle, hposition]
      have hstep : k.step line = ⟨k.position line, false, k.spaced⟩ := by
        simp [Counter.step, extent, hkind]
      have hrecord : k.record line = Cursor.placedLabel line (UInt32.ofNat (k.position line)) := by
        simp only [record, hkind, Cursor.placedLabel, Cursor.placed]
      rw [haddress, hstep, hrecord]
      exact ⟨tracks_moveTo h (k.position line), rfl⟩
  | @space size hkind hsize =>
      have hposition : c.spaceStart = UInt32.ofNat (k.position line) := by
        simpa [position, hkind] using h.spaceStart
      have hstep : k.step line = ⟨k.position line + size, false, true⟩ := by
        simp [Counter.step, extent, amountOf, hkind, hsize]
      have hrecord : k.record line =
          some { line with address := UInt32.ofNat (k.position line) } := by
        simp [record, hkind]
      rw [hposition, hstep, hrecord]
      refine ⟨⟨?_, rfl, fun hafter => (by cases hafter), rfl⟩, rfl⟩
      simp [Cursor.next]
  | instruction hkind =>
      -- The cursor stays at the instruction with a gap of four; the counter has moved past it.
      have hstep : k.step line = ⟨k.location + 4, true, k.spaced⟩ := by
        simp [Counter.step, position, extent, hkind]
      have hrecord : k.record line = some { line with address := UInt32.ofNat k.location } := by
        simp [record, position, hkind]
      rw [hstep, hrecord, h.next]
      refine ⟨⟨?_, rfl, fun _ => Nat.le_add_left 4 k.location, h.spaced⟩, rfl⟩
      simp [Cursor.next]
  | @data elements hkind helements =>
      rcases step_record_of_isData k hkind with ⟨hstep, hrecord⟩
      have hvalues : elementsOf line = elements := by rw [elementsOf, helements]
      rw [hstep, hrecord, hvalues, h.next, placeFrom_ofNat, endOf_ofNat]
      exact ⟨tracks_moveTo h _, rfl⟩

/-- A whole file: from a cursor that a counter tracks, the pass keeps what the counter says. -/
theorem Tracks.records {c last : Cursor} {k : Counter} {lines : List Line}
    {kept : List (Option Line)} (h : Tracks c k) (hlines : Cursor.Places c lines kept last) :
    kept = k.records lines := by
  induction hlines generalizing k with
  | nil c => rfl
  | cons hline hlines ih =>
      rcases h.step hline with ⟨hnext, hrecord⟩
      rw [hrecord, ih hnext]
      rfl

end Counter

/-- The program of a file is what one unbounded location counter says: every line that is kept, and
every element of it, has the counter's location modulo `2 ^ 32` as its address. -/
theorem layout_follows_counter {file source : Bytes} {program : Program}
    (h : layout file source = .ok program) :
    program.lines = (Counter.start.records (Layout.sourceLines source)).reduceOption := by
  rcases exists_places_of_layout h with ⟨kept, last, hplaces, hlines, -⟩
  have hkept : kept = Counter.start.records (Layout.sourceLines source) :=
    Counter.tracks_start.records hplaces
  rw [hlines, hkept]

/-- A source whose first space directive goes back to the instruction in front of it, and whose data
runs past the last address. -/
def sampleLayout : Bytes :=
  utf8 "add r1, r2, r3\n; note\n\n.space 8\nend: .align 4\n.data fffffffc\nx: .word 1, 2\nlast:\n"

/-- The addresses of its lines and of their elements. -/
def sampleAddresses : List (UInt32 × List UInt32) :=
  [(0, []), (0, []), (16, []), (0xFFFFFFFC, [0xFFFFFFFC, 0]), (4, [])]

theorem sampleLayout_follows_counter :
    ∃ program, layout [] sampleLayout = .ok program ∧
      program.lines.map (fun line => (line.address, line.elements.map Element.address)) =
        sampleAddresses ∧
      program.lines = (Counter.start.records (Layout.sourceLines sampleLayout)).reduceOption := by
  have hlayout : (layout [] sampleLayout).map
      (fun program =>
        program.lines.map (fun line => (line.address, line.elements.map Element.address))) =
      .ok sampleAddresses := by
    decide +kernel
  rcases map_eq_ok.1 hlayout with ⟨program, hprogram, haddresses⟩
  exact ⟨program, hprogram, haddresses, layout_follows_counter hprogram⟩

end Dlx
