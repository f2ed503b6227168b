import Dlx.Proofs.Placement

/-!
# The last definition of a label

A symbol table is built from the lines that a program keeps, with every label at the last line that
defines it. No line of a source that defines a label is left out of its program, so this is also the
last definition in the source.

* `SymbolTable.lastDefinition?`: the last of a list of lines that defines a label
* `SymbolTable.find?_ofLines`: what a table answers is the address of that line
* `Line.Kept`: what placing a line keeps of it, and `lastDefinition?_reduceOption`, why the last
  definition of a program is the one of its source
-/

namespace Dlx

namespace SymbolTable

/-! ## Looking labels up -/

theorem lookup_cons_ite (label name : Bytes) (address : UInt32) (entries : List (Bytes × UInt32)) :
    ((name, address) :: entries).lookup label =
      if label = name then some address else entries.lookup label := by
  by_cases hname : label = name
  · rw [if_pos hname, hname, List.lookup_cons_self]
  · have hbeq : (label == name) = false := beq_false_of_ne hname
    rw [if_neg hname, List.lookup_cons, hbeq]

theorem lookup_filter_ne (label other : Bytes) (entries : List (Bytes × UInt32)) :
    (entries.filter (fun e => e.1 != label)).lookup other =
      if other = label then none else entries.lookup other := by
  induction entries with
  | nil => simp
  | cons e rest ih =>
      rcases e with ⟨name, address⟩
      by_cases hname : name = label
      · rw [List.filter_cons_of_neg (by simpa using hname), ih, lookup_cons_ite, hname]
        by_cases hother : other = label
        · rw [if_pos hother, if_pos hother]
        · rw [if_neg hother, if_neg hother, if_neg hother]
      · rw [List.filter_cons_of_pos (by simpa using hname), lookup_cons_ite, lookup_cons_ite, ih]
        by_cases hother : other = name
        · rw [if_pos hother, if_pos hother, if_neg (hother ▸ hname)]
        · rw [if_neg hother, if_neg hother]

theorem find?_insert (t : SymbolTable) (label other : Bytes) (address : UInt32) :
    (t.insert label address).find? other =
      if other = label then some address else t.find? other := by
  unfold find? insert
  rw [List.lookup_append, lookup_filter_ne, lookup_cons_ite]
  by_cases hother : other = label
  · rw [if_pos hother, if_pos hother, if_pos hother, Option.none_or]
  · rw [if_neg hother, if_neg hother, if_neg hother, List.lookup_nil, Option.or_none]

theorem find?_insertAll (t : SymbolTable) (labels : List Bytes) (address : UInt32) (label : Bytes) :
    (labels.foldl (fun t label => t.insert label address) t).find? label =
      if label ∈ labels then some address else t.find? label := by
  induction labels generalizing t with
  | nil => simp
  | cons first rest ih =>
      rw [List.foldl_cons, ih, find?_insert]
      by_cases hrest : label ∈ rest
      · simp [hrest]
      · simp [hrest]

theorem find?_addLine (t : SymbolTable) (line : Line) (label : Bytes) :
    (t.addLine line).find? label =
      if label ∈ labelsOf line then some line.address else t.find? label :=
  find?_insertAll t (labelsOf line) line.address label

/-! ## The last definition -/

/-- The last line that defines a label. -/
def lastDefinition? (label : Bytes) (lines : List Line) : Option Line :=
  lines.reverse.find? (fun line => (labelsOf line).contains label)

@[simp] theorem lastDefinition?_nil (label : Bytes) : lastDefinition? label [] = none := rfl

theorem lastDefinition?_cons (label : Bytes) (line : Line) (lines : List Line) :
    lastDefinition? label (line :: lines) =
      (lastDefinition? label lines).or (if label ∈ labelsOf line then some line else none) := by
  unfold lastDefinition?
  rw [List.reverse_cons, List.find?_append]
  by_cases hline : label ∈ labelsOf line
  · simp [hline]
  · simp [hline]

theorem find?_foldl_addLine (t : SymbolTable) (lines : List Line) (label : Bytes) :
    (lines.foldl addLine t).find? label =
      ((lastDefinition? label lines).map Line.address).or (t.find? label) := by
  induction lines generalizing t with
  | nil => simp
  | cons line rest ih =>
      rw [List.foldl_cons, ih, find?_addLine, lastDefinition?_cons]
      cases lastDefinition? label rest with
      | some last => simp
      | none =>
          by_cases hline : label ∈ labelsOf line
          · simp [hline]
          · simp [hline]

/-- A label stands for the address of its last definition. -/
theorem find?_ofLines (lines : List Line) (label : Bytes) :
    (ofLines lines).find? label = (lastDefinition? label lines).map Line.address := by
  have hempty : empty.find? label = none := rfl
  rw [ofLines, find?_foldl_addLine, hempty, Option.or_none]

end SymbolTable

/-! ## Labels in front of a line -/

theorem isLabel_cons {token : Bytes} (h : isLabel token = true) :
    ∃ first rest, token = first :: rest ∧ isLower first = true ∧ rest ≠ [] ∧
      token.getLast? = some 0x3A := by
  simp only [isLabel, Bool.and_eq_true, beq_iff_eq] at h
  rcases h with ⟨hlast, hname⟩
  match token, hlast, hname with
  | [], hlast, _ => cases hlast
  | [b], _, hname => cases hname
  | b :: second :: rest, hlast, hname =>
      simp only [List.dropLast_cons_cons, isLabelName, Bool.and_eq_true] at hname
      exact ⟨b, second :: rest, rfl, hname.1, List.cons_ne_nil _ _, hlast⟩

theorem isLower_ne {b c : UInt8} (h : isLower b = true) (hc : isLower c = false) : b ≠ c := by
  rintro rfl
  rw [h] at hc
  cases hc

theorem looksLikeLabel_of_isLabel {token : Bytes} (h : isLabel token = true) :
    looksLikeLabel token = true := by
  rcases isLabel_cons h with ⟨first, rest, rfl, hfirst, hrest, hlast⟩
  have hquote : first ≠ 0x22 := isLower_ne hfirst (by decide)
  have hlength : 0 < rest.length := List.length_pos_iff.2 hrest
  simp [looksLikeLabel, hlast, hquote, hlength]

theorem isComment_of_isLabel {token : Bytes} (h : isLabel token = true) :
    isComment token = false := by
  rcases isLabel_cons h with ⟨first, rest, rfl, hfirst, -, -⟩
  have hsemicolon : first ≠ 0x3B := isLower_ne hfirst (by decide)
  simpa [isComment] using hsemicolon

/-- A mnemonic never makes a line a comment. -/
theorem LineKind.ofMnemonic_ne (mnemonic : Bytes) :
    LineKind.ofMnemonic mnemonic ≠ .reset ∧ LineKind.ofMnemonic mnemonic ≠ .comment := by
  unfold LineKind.ofMnemonic
  extract_lets directives
  have hall : ∀ entry ∈ directives, entry.2 ≠ LineKind.reset ∧ entry.2 ≠ LineKind.comment := by
    decide
  cases hlookup : directives.lookup mnemonic with
  | none => exact ⟨by decide, by decide⟩
  | some kind =>
      rcases List.lookup_eq_some_iff.1 hlookup with ⟨front, back, hsplit, -⟩
      have hmem : (mnemonic, kind) ∈ directives := by
        rw [hsplit]
        exact List.mem_append_right front List.mem_cons_self
      exact hall (mnemonic, kind) hmem

namespace Line

theorem splitLabels_ne_nil {first : Bytes} {others labels rest : List Bytes}
    (hfirst : looksLikeLabel first = true) (h : splitLabels (first :: others) = (labels, rest)) :
    labels ≠ [] := by
  cases others with
  | nil =>
      simp only [splitLabels, hfirst, ↓reduceIte] at h
      cases h
      exact List.cons_ne_nil _ _
  | cons second others =>
      simp only [splitLabels, hfirst, ↓reduceIte] at h
      split at h
      · cases h
        exact List.cons_ne_nil _ _
      · cases h
        exact List.cons_ne_nil _ _

/-- A line that starts with a label is no comment, and the label is sorted in front of it. -/
theorem Sorted.labelled {lineno : Int} {first : Bytes} {others : List Bytes} {line : Line}
    (h : Sorted lineno first others line) (hfirst : isLabel first = true) :
    line.labels ≠ [] ∧ line.kind ≠ .reset ∧ line.kind ≠ .comment := by
  have hlooks := looksLikeLabel_of_isLabel hfirst
  cases h with
  | reset htokens =>
      cases htokens
      exact absurd hfirst (by decide)
  | comment hcomment =>
      rw [isComment_of_isLabel hfirst] at hcomment
      cases hcomment
  | label _ hsplit _ =>
      exact ⟨splitLabels_ne_nil hlooks hsplit, LineKind.noConfusion, LineKind.noConfusion⟩
  | @statement labels after mnemonic _ hsplit _ =>
      exact ⟨splitLabels_ne_nil hlooks hsplit, LineKind.ofMnemonic_ne mnemonic⟩

theorem labelled_of_mem_sourceLines {source label : Bytes} {line : Line}
    (hline : line ∈ Layout.sourceLines source) (hlabel : label ∈ SymbolTable.labelsOf line) :
    line.labels ≠ [] ∧ line.kind ≠ .reset ∧ line.kind ≠ .comment := by
  rcases Layout.exists_tokens_of_mem_numbered hline with ⟨raw, -, n, htokens⟩
  rcases sorted_of_ofTokens? htokens with ⟨first, others, -, hsorted⟩
  refine hsorted.labelled ?_
  rw [SymbolTable.labelsOf, hsorted.tokens, List.take_succ_cons] at hlabel
  by_cases hfirst : isLabel first = true
  · exact hfirst
  · rw [List.takeWhile_cons_of_neg hfirst] at hlabel
    cases hlabel

/-! ## What is kept of a line -/

/-- What is kept of a line is the line itself with an address and with elements, and nothing that
defines a label is dropped. -/
structure Kept (line : Line) (kept : Option Line) : Prop where
  same : ∀ placed ∈ kept, ∃ address elements, placed = { line with address, elements }
  defined : ∀ label ∈ SymbolTable.labelsOf line, kept.isSome = true

theorem isSome_placedLabel {line : Line} (h : line.labels ≠ []) (address : UInt32) :
    (Cursor.placedLabel line address).isSome = true := by
  have hlabels : line.labels.isEmpty = false := by simpa using h
  simp [Cursor.placedLabel, Cursor.placed, hlabels]

theorem kept_of_placed {source : Bytes} {c c' : Cursor} {line : Line} {kept : Option Line}
    (hline : line ∈ Layout.sourceLines source) (hplaced : Cursor.Placed c line c' kept) :
    Kept line kept := by
  refine ⟨fun placed hkept => hplaced.same hkept, fun label hlabel => ?_⟩
  rcases labelled_of_mem_sourceLines hline hlabel with ⟨hlabels, hreset, hcomment⟩
  cases hplaced with
  | quiet hkind =>
      rcases hkind with hkind | hkind
      · exact absurd hkind hreset
      · exact absurd hkind hcomment
  | label | space | instruction | data => rfl
  | origin | align => exact isSome_placedLabel hlabels _

end Line

namespace SymbolTable

/-- A program has its last definition of a label where its source has it, or has none. -/
theorem lastDefinition?_reduceOption {lines : List Line} {kept : List (Option Line)} (label : Bytes)
    (h : List.Forall₂ Line.Kept lines kept) :
    (lastDefinition? label lines = none ∧ lastDefinition? label kept.reduceOption = none) ∨
      ∃ line address elements, lastDefinition? label lines = some line ∧
        lastDefinition? label kept.reduceOption = some { line with address, elements } := by
  induction h with
  | nil => exact .inl ⟨rfl, rfl⟩
  | @cons line kept lines others hline _ ih =>
      rw [lastDefinition?_cons]
      cases kept with
      | none =>
          -- A line that is dropped defines nothing.
          have hno : label ∉ labelsOf line := by
            intro hlabel
            cases hline.defined label hlabel
          rw [List.reduceOption_cons_of_none, if_neg hno, Option.or_none]
          exact ih
      | some placed =>
          rcases hline.same placed rfl with ⟨address, elements, rfl⟩
          rw [List.reduceOption_cons_of_some, lastDefinition?_cons]
          rcases ih with ⟨hnone, hnone'⟩ | ⟨last, address', elements', hlast, hlast'⟩
          · rw [hnone, hnone', Option.none_or, Option.none_or]
            -- Both sides ask for the same labels: they are read off the tokens.
            by_cases hlabel : label ∈ labelsOf line
            · exact .inr ⟨line, address, elements, if_pos hlabel, if_pos hlabel⟩
            · exact .inl ⟨if_neg hlabel, if_neg hlabel⟩
          · rw [hlast, hlast', Option.some_or, Option.some_or]
            exact .inr ⟨last, address', elements', rfl, rfl⟩

end SymbolTable

end Dlx
