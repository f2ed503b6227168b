import Dlx.Isa.Builtin
import Dlx.Proofs.Image
import Dlx.Proofs.Symbols
import Dlx.Proofs.Tokens

/-!
# Comments

A comment runs from its first token to the end of the line, and a line is assembled as if its
comment were not there. There is one exception. Labels are recognised before comments are, by their
last byte alone, so that behind a first label a comment such as `;note:` is taken for a second one,
and what follows it for the statement of the line.

* `Line.ofTokens?_append_tail`: how a comment leaves the sorting of the tokens in front of it
* `Line.effect?_uncommented`: what is read of a line without its comment
* `deleting_comment_has_no_effect`: the comment of any line can be deleted, and nothing changes
  unless it hides a statement
-/

namespace Dlx

/-! ## Sorting the tokens in front of a comment -/

namespace Line

/-- Whether a comment behind the tokens of a line is taken for a label of the line. -/
def commentAsLabel (tokens tail : List Bytes) : Bool :=
  match tokens, tail with
  | [first], mark :: _ => looksLikeLabel first && looksLikeLabel mark
  | _, _ => false

/-- The line with given labels and the given tokens behind them. -/
def ofRest (tokens labels : List Bytes) (lineno : Int) (rest : List Bytes) : Line :=
  match rest with
  | [] => { kind := .label, tokens, labels, lineno }
  | mnemonic :: after =>
    if isComment mnemonic then { kind := .label, tokens, labels, lineno }
    else
      let operands := after.takeWhile (fun token => !isComment token)
      { kind := .ofMnemonic mnemonic, tokens, labels, mnemonic, operands, lineno }

theorem labels_ofRest (tokens labels : List Bytes) (lineno : Int) (rest : List Bytes) :
    (ofRest tokens labels lineno rest).labels = labels := by
  unfold ofRest
  split
  · rfl
  · split
    · rfl
    · rfl

theorem ofTokens?_cons {first : Bytes} (h : isComment first = false) (others : List Bytes)
    (lineno : Int) :
    ofTokens? (first :: others) lineno =
      some (ofRest (first :: others) (splitLabels (first :: others)).1 lineno
        (splitLabels (first :: others)).2) := by
  have hreset : first :: others ≠ [utf8 ";"] := by
    intro htokens
    rw [(List.cons.inj htokens).1] at h
    exact absurd h (by decide)
  unfold ofTokens? ofRest
  dsimp only
  rw [if_neg hreset, if_neg (Bool.eq_false_iff.1 h)]
  cases (splitLabels (first :: others)).2 with
  | nil => rfl
  | cons mnemonic after =>
      dsimp only
      cases isComment mnemonic with
      | true => rfl
      | false => rfl

/-- The tokens of a line in front of its comment, and the comment. -/
structure Commented (tokens tail : List Bytes) : Prop where
  nonempty : tokens ≠ []
  clean : ∀ token ∈ tokens, isComment token = false
  mark : ∀ mark ∈ tail.head?, isComment mark = true

variable {tokens tail : List Bytes}

theorem splitLabels_append_tail (htokens : tokens ≠ []) (h : commentAsLabel tokens tail = false) :
    splitLabels (tokens ++ tail) = ((splitLabels tokens).1, (splitLabels tokens).2 ++ tail) := by
  match tokens, tail with
  | [], _ => exact absurd rfl htokens
  | [first], [] => simp
  | [first], mark :: rest =>
      simp only [commentAsLabel, Bool.and_eq_false_iff] at h
      by_cases hfirst : looksLikeLabel first = true
      · have hmark : looksLikeLabel mark = false := h.resolve_left (by simp [hfirst])
        simp [splitLabels, hfirst, hmark]
      · simp [splitLabels, hfirst]
  | first :: second :: others, _ =>
      simp only [List.cons_append, splitLabels]
      split
      · split
        · rfl
        · rfl
      · rfl

theorem ofRest_append_tail {rest : List Bytes} (hrest : ∀ token ∈ rest, isComment token = false)
    (htail : ∀ mark ∈ tail.head?, isComment mark = true) (labels : List Bytes) (lineno : Int) :
    ofRest (tokens ++ tail) labels lineno (rest ++ tail) =
      { ofRest tokens labels lineno rest with tokens := tokens ++ tail } := by
  cases rest with
  | nil =>
      cases tail with
      | nil => simp [ofRest]
      | cons mark others => simp [ofRest, htail mark rfl]
  | cons mnemonic after =>
      have hmnemonic : isComment mnemonic = false := hrest mnemonic List.mem_cons_self
      have hafter : ∀ token ∈ after, (!isComment token) = true := by
        intro token htoken
        rw [hrest token (List.mem_cons_of_mem mnemonic htoken)]
        rfl
      have hoperands : (after ++ tail).takeWhile (fun token => !isComment token) = after :=
        takeWhile_append_stop hafter (by simpa using htail)
      simp [ofRest, hmnemonic, hoperands, List.takeWhile_eq_self_iff.2 hafter]

/-- A comment that is not taken for a label does not change how the tokens in front of it are
sorted. -/
theorem ofTokens?_append_tail (h : Commented tokens tail)
    (hlabel : commentAsLabel tokens tail = false) (lineno : Int) :
    ofTokens? (tokens ++ tail) lineno =
      (ofTokens? tokens lineno).map (fun line => { line with tokens := tokens ++ tail }) := by
  have hsplit := splitLabels_append_tail h.nonempty hlabel
  have hrest : ∀ token ∈ (splitLabels tokens).2, isComment token = false := by
    intro token htoken
    refine h.clean token ?_
    rw [← splitLabels_append tokens]
    exact List.mem_append_right _ htoken
  cases tokens with
  | nil => exact absurd rfl h.nonempty
  | cons first others =>
      have hfirst := h.clean first List.mem_cons_self
      rw [List.cons_append] at hsplit ⊢
      rw [ofTokens?_cons hfirst, ofTokens?_cons hfirst, hsplit, Option.map_some, ← List.cons_append,
        ofRest_append_tail hrest h.mark]

/-- What is in a line besides its tokens, its number and its place. -/
def statement (line : Line) : LineKind × List Bytes × Bytes × List Bytes :=
  (line.kind, line.labels, line.mnemonic, line.operands)

theorem statement_append_tail_iff (h : Commented tokens tail) (lineno : Int) :
    (ofTokens? (tokens ++ tail) lineno).map statement = (ofTokens? tokens lineno).map statement ↔
      commentAsLabel tokens tail = false := by
  constructor
  · intro hsame
    refine Bool.eq_false_iff.2 fun htaken => ?_
    match tokens, tail with
    | [first], mark :: rest =>
        simp only [commentAsLabel, Bool.and_eq_true] at htaken
        have hfirst := h.clean first List.mem_cons_self
        have hlabels := congrArg (Option.map fun parts => parts.2.1) hsame
        rw [List.singleton_append, ofTokens?_cons hfirst, ofTokens?_cons hfirst] at hlabels
        simp [statement, labels_ofRest, splitLabels, htaken] at hlabels
  · intro htaken
    rw [ofTokens?_append_tail h htaken, Option.map_map]
    rfl

/-! ## Reading a line without its comment -/

theorem takeWhile_isLabel_append_tail (htail : ∀ mark ∈ tail.head?, isComment mark = true) :
    ((tokens ++ tail).take 2).takeWhile isLabel = (tokens.take 2).takeWhile isLabel := by
  have hmark : ∀ mark ∈ tail.head?, isLabel mark = false := by
    intro mark hmem
    refine Bool.eq_false_iff.2 fun hlabel => ?_
    have hcomment := htail mark hmem
    rw [isComment_of_isLabel hlabel] at hcomment
    cases hcomment
  match tokens, tail with
  | [], [] => rfl
  | [], mark :: rest => simp [hmark mark rfl]
  | [first], [] => rfl
  | [first], mark :: rest => simp [List.takeWhile_cons, hmark mark rfl]
  | first :: second :: others, _ => simp

/-- The tokens of a line in front of its comment. -/
def uncommented (tokens : List Bytes) : List Bytes :=
  tokens.takeWhile (fun token => !isComment token)

/-- Whether a statement stands behind a comment that is taken for the second label of a line. -/
def hidesStatement : List Bytes → Bool
  | first :: mark :: next :: _ =>
    !isComment first && looksLikeLabel first && isComment mark && looksLikeLabel mark &&
      !isComment next
  | _ => false

theorem bare_append_tail {line : Line} (hline : line.tokens = tokens)
    (htail : ∀ mark ∈ tail.head?, isComment mark = true) :
    bare { line with tokens := tokens ++ tail } = bare line := by
  have hlabels : SymbolTable.labelsOf { line with tokens := tokens ++ tail } =
      SymbolTable.labelsOf line := by
    rw [SymbolTable.labelsOf, SymbolTable.labelsOf, hline]
    exact takeWhile_isLabel_append_tail htail
  rw [bare, bare, hlabels]

/-- A comment that is taken for a label leaves a label alone when no statement follows it. -/
theorem effect?_commentAsLabel {first mark : Bytes} {rest : List Bytes}
    (hfirst : isComment first = false) (hmark : isComment mark = true)
    (htaken : commentAsLabel [first] (mark :: rest) = true)
    (hrest : ∀ next ∈ rest.head?, isComment next = true) (lineno : Int) :
    effect? (first :: mark :: rest) lineno = effect? [first] lineno := by
  simp only [commentAsLabel, Bool.and_eq_true] at htaken
  have hline : ofTokens? (first :: mark :: rest) lineno =
      some
        { kind := .label, tokens := first :: mark :: rest, labels := [first, mark], lineno } := by
    rw [ofTokens?_cons hfirst]
    cases rest with
    | nil => simp [splitLabels, htaken, ofRest]
    | cons next others => simp [splitLabels, htaken, ofRest, hrest next rfl]
  have halone : ofTokens? [first] lineno =
      some { kind := .label, tokens := [first], labels := [first], lineno } := by
    rw [ofTokens?_cons hfirst]
    simp [splitLabels, htaken, ofRest]
  have hlabels : (([first] ++ mark :: rest).take 2).takeWhile isLabel =
      ([first].take 2).takeWhile isLabel :=
    takeWhile_isLabel_append_tail (by simpa using hmark)
  simpa [effect?, hline, halone, LineKind.hasEffect, bare, SymbolTable.labelsOf] using hlabels

theorem effect?_append_tail (h : Commented tokens tail)
    (hhides : hidesStatement (tokens ++ tail) = false) (lineno : Int) :
    effect? (tokens ++ tail) lineno = effect? tokens lineno := by
  cases htaken : commentAsLabel tokens tail with
  | false =>
      unfold effect?
      rw [ofTokens?_append_tail h htaken]
      cases hline : ofTokens? tokens lineno with
      | none => rfl
      | some line =>
          rcases sorted_of_ofTokens? hline with ⟨first, others, rfl, hsorted⟩
          have hbare := bare_append_tail hsorted.tokens h.mark
          rw [Option.map_some, Option.bind_some, Option.bind_some, hbare]
  | true =>
      -- Only a single token leaves room for the comment to be taken for a label.
      match tokens, tail with
      | [first], mark :: rest =>
          have hfirst := h.clean first List.mem_cons_self
          have hmark := h.mark mark rfl
          refine effect?_commentAsLabel hfirst hmark htaken ?_ lineno
          simp only [commentAsLabel, Bool.and_eq_true] at htaken
          cases rest with
          | nil => simp
          | cons next others => simpa [hidesStatement, hfirst, hmark, htaken] using hhides

theorem effect?_comment {first : Bytes} (h : isComment first = true) (others : List Bytes)
    (lineno : Int) :
    effect? (first :: others) lineno = none := by
  rw [effect?, ofTokens?, if_pos h]
  split
  · rfl
  · rfl

/-- Only a statement hidden behind a comment makes the comment of a line count. -/
theorem effect?_uncommented (h : hidesStatement tokens = false) (lineno : Int) :
    effect? tokens lineno = effect? (uncommented tokens) lineno := by
  let tail := tokens.dropWhile (fun token => !isComment token)
  have hsplit : uncommented tokens ++ tail = tokens := List.takeWhile_append_dropWhile
  by_cases hempty : uncommented tokens = []
  · -- The whole line is a comment.
    rw [hempty]
    cases tokens with
    | nil => rfl
    | cons first others =>
        have hfirst : isComment first = true := by
          simpa [uncommented, List.takeWhile_cons] using hempty
        exact effect?_comment hfirst others lineno
  · have hcommented : Commented (uncommented tokens) tail := by
      refine ⟨hempty, ?_, ?_⟩
      · intro token htoken
        simpa using List.mem_takeWhile_imp htoken
      · intro mark hmark
        have hhead := List.head?_dropWhile_not (fun token => !isComment token) tokens
        rw [Option.mem_def.1 hmark] at hhead
        simpa using hhead
    rw [← hsplit] at h
    have heffect := effect?_append_tail hcommented h lineno
    rw [hsplit] at heffect
    exact heffect

end Line

/-! ## Deleting the comment of a line -/

/-- The comment of every line can be deleted. -/
theorem exists_uncommented {source : Bytes} {front back : List Bytes} {line : Bytes}
    (h : (Lines.ofBytes source).lines = front ++ line :: back) :
    ∃ source' line', line' <+: line ∧ tokenize line' = Line.uncommented (tokenize line) ∧
      Lines.ofBytes source' = ⟨front ++ line' :: back, (Lines.ofBytes source).overlong⟩ := by
  have htake : Line.uncommented (tokenize line) =
      (tokenize line).take (Line.uncommented (tokenize line)).length :=
    List.prefix_iff_eq_take.1 (List.takeWhile_prefix _)
  rcases exists_prefix_tokenize line (Line.uncommented (tokenize line)).length with
    ⟨line', hcut, htokens⟩
  rw [← htake] at htokens
  by_cases hsame : line' = line
  · refine ⟨source, line', hcut, htokens, ?_⟩
    rw [hsame, ← h]
  · rcases Lines.exists_cut h hcut hsame with ⟨source', hsource'⟩
    exact ⟨source', line', hcut, htokens, hsource'⟩

/-- Comments have no effect unless they hide a statement. When tokens are sorted, a comment behind
them changes something exactly if it is taken for a label. When a file is assembled, the comment of
any line can be deleted, and however this is done the file is assembled as before, with the same
rows and the same labels, or it still is not, unless a statement stands behind a comment that is
taken for a label.

The lines in question are those that are read. A line that is over-long is outside, even if all that
makes it so is a comment: reading stops in front of it, the file is not assembled, and without the
comment it may be. -/
theorem deleting_comment_has_no_effect (catalog : Catalog) (file : Bytes) :
    (∀ (tokens tail : List Bytes) (lineno : Int),
      tokens ≠ [] → (∀ token ∈ tokens, isComment token = false) →
      (∃ mark ∈ tail.head?, isComment mark = true) →
      ((Line.ofTokens? (tokens ++ tail) lineno).map Line.statement =
          (Line.ofTokens? tokens lineno).map Line.statement ↔
        Line.commentAsLabel tokens tail = false)) ∧
    ∀ (source line : Bytes) (front back : List Bytes),
      (Lines.ofBytes source).lines = front ++ line :: back →
        Line.hidesStatement (tokenize line) = false →
      (∃ source' line', line' <+: line ∧ tokenize line' = Line.uncommented (tokenize line) ∧
        Lines.ofBytes source' = ⟨front ++ line' :: back, (Lines.ofBytes source).overlong⟩) ∧
      ∀ source' line', tokenize line' = Line.uncommented (tokenize line) →
        Lines.ofBytes source' = ⟨front ++ line' :: back, (Lines.ofBytes source).overlong⟩ →
        (assemble catalog file source').toOption.map Assembly.image =
          (assemble catalog file source).toOption.map Assembly.image := by
  constructor
  · rintro tokens tail lineno htokens hclean ⟨mark, hmark, hcomment⟩
    refine Line.statement_append_tail_iff ⟨htokens, hclean, ?_⟩ lineno
    intro mark' hmark'
    cases Option.mem_unique hmark hmark'
    exact hcomment
  · intro source line front back hlines hhides
    refine ⟨exists_uncommented hlines, ?_⟩
    intro source' line' htokens hsource'
    have hsame : ∀ raws : List Bytes, List.Forall₂ ReadAlike raws raws :=
      fun raws => List.forall₂_same.2 fun raw _ lineno => rfl
    have hline : ReadAlike line' line := by
      intro lineno
      rw [htokens, Line.effect?_uncommented hhides]
    refine image_eq_of_readAlike catalog file ?_ ?_
    · rw [hlines, hsource']
      exact List.rel_append (hsame front) (.cons hline (hsame back))
    · rw [hsource']

/-- A source with a label and an instruction inside a comment, and the same source without the
comment. -/
def sampleComment : Bytes × Bytes :=
  (utf8 "nop\nx: addi r1, r0, 1 ;set x: nop\nj x\n", utf8 "nop\nx: addi r1, r0, 1\nj x\n")

theorem sampleComment_has_no_effect :
    (Line.ofTokens? [utf8 "x:", utf8 ";y", utf8 "z:"] 1).map Line.statement =
        (Line.ofTokens? [utf8 "x:"] 1).map Line.statement ∧
      (assemble .builtin [] sampleComment.2).toOption.map Assembly.image =
        (assemble .builtin [] sampleComment.1).toOption.map Assembly.image ∧
      (assemble .builtin [] sampleComment.1).toOption.map Assembly.image =
        some ([(0, utf8 "00000000"), (4, utf8 "20010001"), (8, utf8 "0bfffff8")],
          ⟨[(utf8 "x:", 4)]⟩) := by
  have hboth := deleting_comment_has_no_effect .builtin []
  have hsort := hboth.1 [utf8 "x:"] [utf8 ";y", utf8 "z:"] 1 (by decide) (by decide)
    ⟨utf8 ";y", rfl, by decide⟩
  have hdelete := hboth.2 sampleComment.1 (utf8 "x: addi r1, r0, 1 ;set x: nop")
    [utf8 "nop"] [utf8 "j x"] (by decide +kernel) (by decide +kernel)
  refine ⟨hsort.2 (by decide), ?_, by decide +kernel⟩
  exact hdelete.2 sampleComment.2 (utf8 "x: addi r1, r0, 1") (by decide +kernel) (by decide +kernel)

/-- The comment behind a first label is read as a second one, and an instruction is assembled out of
it. -/
theorem commentAsLabel_hides_instruction :
    (assemble .builtin [] (utf8 "loop: ;note: nop\n")).toOption.map Assembly.image =
        some ([(0, utf8 "00000000")], ⟨[(utf8 "loop:", 0)]⟩) ∧
      (assemble .builtin [] (utf8 "loop:\n")).toOption.map Assembly.image =
        some ([], ⟨[(utf8 "loop:", 0)]⟩) := by
  decide +kernel

end Dlx
