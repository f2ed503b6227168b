import Dlx.Proofs.Tokens
import Mathlib.Data.List.Chain
import Mathlib.Data.List.DropRight

/-!
# Quoted characters and the tokens of a line

What the scanner has to do is said here without a scanner. A literal runs from a quote to the next
quote that does not stand behind an active backslash, or to the end of the line; a backslash is
active when it ends an odd number of backslashes. Outside literals a comma or a blank separates
tokens, and everything else of a line belongs to one.

* `Quotation.Outside`: the places of a line that lie outside literals
* `Quotation.Quoted`: the characters that lie in one
* `Scanner.quoted_iff`: the two flags of the scanner tell the same
* `Quotation.remaining`, `Quotation.shown?` and `Quotation.owners`: what remains of a line, as which
  characters, and in which token
* `tokenize_loses_nothing`: the tokens of a line hold what remains of it, cut where a separator was
-/

namespace Dlx

/-! ## Literals -/

namespace Quotation

/-- A backslash is active behind a stretch of a literal: an odd number of backslashes ends the
stretch, so that the last of them is not escaped by another one. -/
def Escapes (body : List Char) : Prop :=
  (body.rtakeWhile (· == '\\')).length % 2 = 1

/-- No quote in a stretch behind an opening quote closes the literal: each of them stands behind an
active backslash. -/
def Unclosed (body : List Char) : Prop :=
  ∀ front back, body = front ++ '"' :: back → Escapes front

/-- The places of a line that lie outside literals: in front of them stand characters that are no
quotes and whole literals, each up to its closing quote. -/
inductive Outside : List Char → Prop where
  | start : Outside []
  | plain {front : List Char} {c : Char} (hfront : Outside front) (hc : c ≠ '"') :
      Outside (front ++ [c])
  | literal {front body : List Char} (hfront : Outside front) (hbody : Unclosed body)
      (hend : ¬ Escapes body) :
      Outside (front ++ '"' :: body ++ ['"'])

/-- A character behind `front` is quoted when it lies between an opening quote and the next quote
that closes the literal. -/
def Quoted (front : List Char) (c : Char) : Prop :=
  ∃ before body, front = before ++ '"' :: body ∧ Outside before ∧ Unclosed (body ++ [c])

instance (body : List Char) : Decidable (Escapes body) :=
  inferInstanceAs (Decidable (_ = _))

theorem not_escapes_nil : ¬ Escapes [] := by
  decide

theorem escapes_concat {body : List Char} {c : Char} :
    Escapes (body ++ [c]) ↔ c = '\\' ∧ ¬ Escapes body := by
  unfold Escapes
  by_cases hc : c = '\\'
  · rw [List.rtakeWhile_concat_pos _ _ _ (by simpa using hc), List.length_append,
      List.length_singleton]
    simp only [hc, true_and]
    omega
  · rw [List.rtakeWhile_concat_neg _ _ _ (by simpa using hc)]
    simp [hc]

theorem unclosed_nil : Unclosed [] := by
  intro front back h
  simp at h

theorem unclosed_concat {body : List Char} {c : Char} :
    Unclosed (body ++ [c]) ↔ Unclosed body ∧ (c = '"' → Escapes body) := by
  constructor
  · intro h
    refine ⟨fun front back hbody => h front (back ++ [c]) (by simp [hbody]), ?_⟩
    rintro rfl
    exact h body [] rfl
  · rintro ⟨hbody, hlast⟩ front back hsplit
    -- The quote in question is the last character, or it stands in the stretch that was there
    -- before.
    cases back using List.reverseRecOn with
    | nil =>
        rcases List.append_inj' hsplit rfl with ⟨rfl, hquote⟩
        exact hlast (List.singleton_inj.1 hquote)
    | append_singleton back d =>
        rw [← List.cons_append, ← List.append_assoc] at hsplit
        exact hbody front back (List.append_inj' hsplit rfl).1

end Quotation

/-! ## The flags of the scanner -/

namespace Scanner

open Quotation

/-- The scanner behind a stretch of a line. -/
def behindText (front : List Char) : Scanner :=
  front.foldl step start

theorem behindText_append (front back : List Char) :
    behindText (front ++ back) = back.foldl step (behindText front) :=
  List.foldl_append

theorem behindText_concat (front : List Char) (c : Char) :
    behindText (front ++ [c]) = (behindText front).step c :=
  behindText_append front [c]

theorem quoted_flush (s : Scanner) : s.flush.quoted = s.quoted := by
  unfold flush
  split
  · rfl
  · rfl

theorem escaped_flush (s : Scanner) : s.flush.escaped = s.escaped := by
  unfold flush
  split
  · rfl
  · rfl

/-- Inside a literal a quote closes it unless a backslash is pending, and a backslash is pending
behind every other one. -/
theorem flags_step_of_quoted {s : Scanner} (h : s.quoted = true) (c : Char) :
    (s.step c).quoted = (s.escaped || c != '"') ∧
      (s.step c).escaped = (!s.escaped && c = '\\') := by
  simp [step, h]

/-- Outside literals a quote opens one, and nothing else happens to the flags. -/
theorem flags_step_of_not_quoted {s : Scanner} (h : s.quoted = false) (c : Char) :
    (s.step c).quoted = decide (c = '"') ∧ (s.step c).escaped = s.escaped := by
  by_cases hc : c = '"'
  · simp [step, h, hc]
  · by_cases hseparator : isSeparator c = true
    · simp [step, h, hc, hseparator, quoted_flush, escaped_flush]
    · simp [step, h, hc, hseparator]

/-- From an opening quote on, the scanner is in a literal until a quote closes it. -/
theorem flags_of_unclosed {s : Scanner} (hs : s.quoted = false ∧ s.escaped = false)
    {body : List Char} (h : Unclosed body) :
    (('"' :: body).foldl step s).quoted = true ∧
      ((('"' :: body).foldl step s).escaped = true ↔ Escapes body) := by
  induction body using List.reverseRecOn with
  | nil =>
      rcases flags_step_of_not_quoted hs.1 '"' with ⟨hstep, hstep'⟩
      rw [List.foldl_cons, List.foldl_nil, hstep, hstep']
      simp [hs, not_escapes_nil]
  | append_singleton body c ih =>
      rcases unclosed_concat.1 h with ⟨hbody, hc⟩
      rcases ih hbody with ⟨hquoted, hescaped⟩
      -- A quote at the end does not close the literal, since a backslash is pending in front of it.
      rcases flags_step_of_quoted hquoted c with ⟨hstep, hstep'⟩
      rw [← List.cons_append, List.foldl_concat, hstep, hstep', escapes_concat]
      rw [← hescaped] at hc ⊢
      constructor
      · by_cases hquote : c = '"'
        · rw [hc hquote, Bool.true_or]
        · simp [hquote]
      · simp [and_comm]

theorem flags_of_outside {front : List Char} (h : Outside front) :
    (behindText front).quoted = false ∧ (behindText front).escaped = false := by
  induction h with
  | start => exact ⟨rfl, rfl⟩
  | @plain front c _ hc ih =>
      rcases flags_step_of_not_quoted ih.1 c with ⟨hstep, hstep'⟩
      rw [behindText_concat, hstep, hstep']
      exact ⟨by simp [hc], ih.2⟩
  | @literal front body _ hbody hend ih =>
      rcases flags_of_unclosed ih hbody with ⟨hquoted, hescaped⟩
      rw [← behindText_append] at hquoted hescaped
      have hactive : (behindText (front ++ '"' :: body)).escaped = false :=
        Bool.eq_false_iff.2 fun hactive => hend (hescaped.1 hactive)
      rcases flags_step_of_quoted hquoted '"' with ⟨hstep, hstep'⟩
      rw [behindText_concat, hstep, hstep', hactive]
      exact ⟨rfl, rfl⟩

theorem flags_of_inside {before body : List Char} (hbefore : Outside before)
    (hbody : Unclosed body) :
    (behindText (before ++ '"' :: body)).quoted = true ∧
      ((behindText (before ++ '"' :: body)).escaped = true ↔ Escapes body) := by
  rw [behindText_append]
  exact flags_of_unclosed (flags_of_outside hbefore) hbody

/-- Every place of a line lies outside literals or behind an opening quote that is not closed
yet. -/
theorem outside_or_inside (front : List Char) :
    Outside front ∨ ∃ before body, front = before ++ '"' :: body ∧ Outside before ∧
      Unclosed body := by
  induction front using List.reverseRecOn with
  | nil => exact .inl .start
  | append_singleton front c ih =>
      -- Outside a quote opens a literal, and inside it closes the literal unless it is escaped.
      rcases ih with hout | ⟨before, body, rfl, hbefore, hbody⟩
      · by_cases hc : c = '"'
        · exact .inr ⟨front, [], by rw [hc], hout, unclosed_nil⟩
        · exact .inl (.plain hout hc)
      · by_cases hclose : c = '"' ∧ ¬ Escapes body
        · rw [hclose.1]
          exact .inl (.literal hbefore hbody hclose.2)
        · refine .inr ⟨before, body ++ [c], by simp, hbefore, unclosed_concat.2 ⟨hbody, ?_⟩⟩
          exact fun hquote => by_contra fun hactive => hclose ⟨hquote, hactive⟩

/-- The flags of the scanner tell which characters are quoted: it stands in a literal in front of
them, and still behind them. -/
theorem quoted_iff {front : List Char} {c : Char} :
    Quoted front c ↔ (behindText front).quoted = true ∧
      (behindText (front ++ [c])).quoted = true := by
  rw [behindText_concat]
  constructor
  · rintro ⟨before, body, rfl, hbefore, hbody⟩
    rcases unclosed_concat.1 hbody with ⟨hbody, hc⟩
    rcases flags_of_inside hbefore hbody with ⟨hquoted, hescaped⟩
    refine ⟨hquoted, ?_⟩
    rw [(flags_step_of_quoted hquoted c).1]
    by_cases hquote : c = '"'
    · rw [hescaped.2 (hc hquote), Bool.true_or]
    · simp [hquote]
  · rintro ⟨hquoted, hstep⟩
    rcases outside_or_inside front with hout | ⟨before, body, rfl, hbefore, hbody⟩
    · rw [(flags_of_outside hout).1] at hquoted
      cases hquoted
    · refine ⟨before, body, rfl, hbefore, unclosed_concat.2 ⟨hbody, ?_⟩⟩
      rintro rfl
      rw [(flags_step_of_quoted hquoted _).1] at hstep
      exact (flags_of_inside hbefore hbody).2.1 (by simpa using hstep)

/-- A character that is no quote is quoted where the scanner stands in a literal. -/
theorem quoted_iff_of_ne {front : List Char} {c : Char} (h : c ≠ '"') :
    Quoted front c ↔ (behindText front).quoted = true := by
  rw [quoted_iff, behindText_concat]
  constructor
  · exact And.left
  · intro hquoted
    refine ⟨hquoted, ?_⟩
    rw [(flags_step_of_quoted hquoted c).1]
    simp [h]

end Scanner

instance (front : List Char) (c : Char) : Decidable (Quotation.Quoted front c) :=
  decidable_of_iff _ Scanner.quoted_iff.symm

/-! ## What remains of a line -/

namespace Quotation

open Scanner

/-- An unquoted separator stands at a place of a line: a comma, or a white space character. -/
def Separates (text : List Char) (place : Nat) : Prop :=
  ∃ c ∈ text[place]?, (c = ',' ∨ Blank.isBlank c = true) ∧ ¬ Quoted (text.take place) c

instance (text : List Char) (place : Nat) : Decidable (Separates text place) :=
  inferInstanceAs (Decidable (∃ c ∈ text[place]?, _))

/-- The places of the characters that remain when the unquoted separators are taken out of a
line. -/
def remaining (line : List Char) : List Nat :=
  (List.range line.length).filter (fun place => ¬ Separates line place)

/-- The character at a place of a line, with a blank for a quoted comma or tab. -/
def shown? (text : List Char) (place : Nat) : Option Char :=
  text[place]?.map (fun c => if Quoted (text.take place) c ∧ (c = ',' ∨ c = '\t') then ' ' else c)

/-- For every character of a list of tokens the number of the token that it belongs to. -/
def owners (tokens : List (List Char)) : List Nat :=
  tokens.zipIdx.flatMap (fun token => List.replicate token.1.length token.2)

/-- The tokens that a line has to be cut into. -/
structure Cut (line : List Char) (tokens : List (List Char)) : Prop where
  /-- The tokens hold what remains of the line. -/
  content : tokens.flatten = (remaining line).filterMap (shown? line)
  nonempty : ∀ token ∈ tokens, token ≠ []
  aligned : (owners tokens).length = (remaining line).length
  /-- Two consecutive characters belong to the same token when no unquoted separator stands between
  them, and only then. -/
  together : ((remaining line).zip (owners tokens)).IsChain
    (fun a b => a.2 = b.2 ↔ ∀ place, a.1 < place → place < b.1 → ¬ Separates line place)

variable {line : List Char} {c : Char}

theorem mem_remaining {place : Nat} :
    place ∈ remaining line ↔ place < line.length ∧ ¬ Separates line place := by
  simp [remaining]

/-- There are tokens where a character remains. -/
theorem Cut.ne_nil_iff {tokens : List (List Char)} (h : Cut line tokens) :
    tokens ≠ [] ↔ ∃ place < line.length, ¬ Separates line place := by
  constructor
  · intro hne
    rcases List.exists_mem_of_ne_nil tokens hne with ⟨token, htoken⟩
    rcases List.exists_mem_of_ne_nil token (h.nonempty token htoken) with ⟨d, hd⟩
    have hshown : d ∈ (remaining line).filterMap (shown? line) :=
      h.content ▸ List.mem_flatten.2 ⟨token, htoken, hd⟩
    rcases List.mem_filterMap.1 hshown with ⟨place, hplace, -⟩
    exact ⟨place, mem_remaining.1 hplace⟩
  · rintro ⟨place, hplace⟩ rfl
    have hnone : remaining line = [] := List.length_eq_zero_iff.1 h.aligned.symm
    exact List.not_mem_nil (hnone ▸ mem_remaining.2 hplace)

/-! ## One more character -/

theorem separates_concat_of_lt {place : Nat} (h : place < line.length) :
    Separates (line ++ [c]) place ↔ Separates line place := by
  rw [Separates, Separates, List.getElem?_append_left h, List.take_append_of_le_length h.le]

theorem isSeparator_iff : isSeparator c = true ↔ c = ',' ∨ Blank.isBlank c = true := by
  simp [isSeparator]

theorem separates_concat_length :
    Separates (line ++ [c]) line.length ↔
      isSeparator c = true ∧ (behindText line).quoted = false := by
  have htake : (line ++ [c]).take line.length = line := List.take_left
  have hlast : (line ++ [c])[line.length]? = some c := List.getElem?_concat_length
  have hquoted : isSeparator c = true → (Quoted line c ↔ (behindText line).quoted = true) := by
    intro hseparator
    refine quoted_iff_of_ne ?_
    rintro rfl
    exact absurd hseparator (by decide)
  rw [Separates, htake, hlast]
  simp only [← isSeparator_iff]
  constructor
  · rintro ⟨d, hd, hseparator, hnot⟩
    cases Option.some.inj hd
    exact ⟨hseparator, by simpa [hquoted hseparator] using hnot⟩
  · rintro ⟨hseparator, hnot⟩
    exact ⟨c, rfl, hseparator, by simp [hquoted hseparator, hnot]⟩

theorem lt_length_of_mem_remaining {place : Nat} (h : place ∈ remaining line) :
    place < line.length :=
  (mem_remaining.1 h).1

theorem remaining_concat :
    remaining (line ++ [c]) = remaining line ++
      if Separates (line ++ [c]) line.length then [] else [line.length] := by
  have hfront : (List.range line.length).filter (fun place => ¬ Separates (line ++ [c]) place) =
      remaining line := by
    refine List.filter_congr fun place hplace => ?_
    simp only [separates_concat_of_lt (List.mem_range.1 hplace)]
  rw [remaining, List.length_append, List.length_singleton, List.range_succ, List.filter_append,
    hfront]
  by_cases hlast : Separates (line ++ [c]) line.length
  · simp [hlast]
  · simp [hlast]

theorem shown?_concat_of_lt {place : Nat} (h : place < line.length) :
    shown? (line ++ [c]) place = shown? line place := by
  rw [shown?, shown?, List.getElem?_append_left h, List.take_append_of_le_length h.le]

theorem shown?_concat_length :
    shown? (line ++ [c]) line.length = some (if (behindText line).quoted then soften c else c) := by
  have htake : (line ++ [c]).take line.length = line := List.take_left
  have hlast : (line ++ [c])[line.length]? = some c := List.getElem?_concat_length
  rw [shown?, htake, hlast, Option.map_some]
  by_cases hc : c = ',' ∨ c = '\t'
  · have hquote : c ≠ '"' := by
      rintro rfl
      exact absurd hc (by decide)
    simp [quoted_iff_of_ne hquote, soften, hc]
  · simp [soften, hc]

theorem filterMap_remaining_concat :
    (remaining (line ++ [c])).filterMap (shown? (line ++ [c])) =
      (remaining line).filterMap (shown? line) ++
        if Separates (line ++ [c]) line.length then []
        else [if (behindText line).quoted then soften c else c] := by
  have hfront : (remaining line).filterMap (shown? (line ++ [c])) =
      (remaining line).filterMap (shown? line) :=
    List.filterMap_congr fun place hplace => shown?_concat_of_lt (lt_length_of_mem_remaining hplace)
  rw [remaining_concat, List.filterMap_append, hfront]
  by_cases hlast : Separates (line ++ [c]) line.length
  · simp [hlast]
  · simp [hlast, shown?_concat_length]

theorem owners_concat (front : List (List Char)) (token : List Char) :
    owners (front ++ [token]) = owners front ++ List.replicate token.length front.length := by
  simp [owners, List.zipIdx_append]

/-- What stands between two places in front of a character does not depend on it. -/
theorem Cut.together_front {tokens : List (List Char)} (h : Cut line tokens) (c : Char) :
    ((remaining line).zip (owners tokens)).IsChain
      (fun a b => a.2 = b.2 ↔ ∀ place, a.1 < place → place < b.1 →
        ¬ Separates (line ++ [c]) place) := by
  refine h.together.imp_of_mem_imp fun a b _ hb hab => hab.trans ?_
  have hinside : b.1 < line.length := lt_length_of_mem_remaining (List.of_mem_zip hb).1
  refine forall_congr' fun place => forall_congr' fun _ => forall_congr' fun hplace => ?_
  rw [separates_concat_of_lt (hplace.trans hinside)]

/-- A separator adds nothing. -/
theorem Cut.skip {tokens : List (List Char)} (h : Cut line tokens)
    (hlast : Separates (line ++ [c]) line.length) :
    Cut (line ++ [c]) tokens := by
  have hremaining : remaining (line ++ [c]) = remaining line := by
    rw [remaining_concat, if_pos hlast, List.append_nil]
  refine ⟨?_, h.nonempty, ?_, ?_⟩
  · rw [filterMap_remaining_concat, if_pos hlast, List.append_nil, h.content]
  · rw [hremaining, h.aligned]
  · rw [hremaining]
    exact h.together_front c

/-- Any other character is added at the end, and it is asked whether it stays together with the one
in front of it. -/
theorem Cut.extend {tokens tokens' : List (List Char)} (h : Cut line tokens) (owner : Nat)
    (hlast : ¬ Separates (line ++ [c]) line.length)
    (hcontent : tokens'.flatten = tokens.flatten ++
      [if (behindText line).quoted then soften c else c])
    (hnonempty : ∀ token ∈ tokens', token ≠ [])
    (howners : owners tokens' = owners tokens ++ [owner])
    (hnew : ∀ a ∈ ((remaining line).zip (owners tokens)).getLast?, a.2 = owner ↔
      ∀ place, a.1 < place → place < line.length → ¬ Separates line place) :
    Cut (line ++ [c]) tokens' := by
  have hremaining : remaining (line ++ [c]) = remaining line ++ [line.length] := by
    rw [remaining_concat, if_neg hlast]
  have hzip : (remaining (line ++ [c])).zip (owners tokens') =
      (remaining line).zip (owners tokens) ++ [(line.length, owner)] := by
    rw [hremaining, howners, List.zip_append h.aligned.symm]
    rfl
  refine ⟨?_, hnonempty, ?_, ?_⟩
  · rw [filterMap_remaining_concat, if_neg hlast, hcontent, h.content]
  · rw [hremaining, howners, List.length_append, List.length_append, h.aligned]
    rfl
  · rw [hzip]
    refine (h.together_front c).append (.singleton _) fun a ha b hb => ?_
    cases Option.some.inj hb
    refine (hnew a ha).trans ?_
    refine forall_congr' fun place => forall_congr' fun _ => forall_congr' fun hplace => ?_
    rw [separates_concat_of_lt hplace]

theorem lt_length_of_mem_owners {tokens : List (List Char)} {owner : Nat}
    (h : owner ∈ owners tokens) :
    owner < tokens.length := by
  rcases List.mem_flatMap.1 h with ⟨token, htoken, howner⟩
  rw [(List.mem_replicate.1 howner).2]
  exact List.snd_lt_of_mem_zipIdx htoken

theorem getLast?_owners {front : List (List Char)} {token : List Char} (h : token ≠ []) :
    (owners (front ++ [token])).getLast? = some front.length := by
  have hlength : token.length = token.length - 1 + 1 :=
    (Nat.succ_pred_eq_of_pos (List.length_pos_iff.2 h)).symm
  rw [owners_concat, hlength, List.replicate_succ', ← List.append_assoc, List.getLast?_concat]

/-- The last remaining character has the last of the places and the last of the owners. -/
theorem Cut.getLast?_zip {tokens : List (List Char)} (h : Cut line tokens) {a : Nat × Nat}
    (ha : a ∈ ((remaining line).zip (owners tokens)).getLast?) :
    a.1 ∈ (remaining line).getLast? ∧ a.2 ∈ (owners tokens).getLast? := by
  have hplace := Option.mem_map_of_mem Prod.fst ha
  have howner := Option.mem_map_of_mem Prod.snd ha
  rw [← List.getLast?_map, List.map_fst_zip h.aligned.ge] at hplace
  rw [← List.getLast?_map, List.map_snd_zip h.aligned.le] at howner
  exact ⟨hplace, howner⟩

/-- Behind a separator a character starts a token. -/
theorem Cut.concat_token {tokens : List (List Char)} (h : Cut line tokens)
    (hlast : ¬ Separates (line ++ [c]) line.length)
    (hgap : ∀ place ∈ remaining line, ∃ between,
      place < between ∧ between < line.length ∧ Separates line between) :
    Cut (line ++ [c]) (tokens ++ [[if (behindText line).quoted then soften c else c]]) := by
  refine h.extend tokens.length hlast (by simp) ?_ (owners_concat tokens _) ?_
  · intro token htoken
    rcases List.mem_append.1 htoken with hold | hnew
    · exact h.nonempty token hold
    · rw [List.mem_singleton.1 hnew]
      exact List.cons_ne_nil _ _
  · intro a ha
    rcases h.getLast?_zip ha with ⟨hplace, howner⟩
    rcases hgap a.1 (List.mem_of_getLast? hplace) with ⟨between, hfrom, hto, hseparates⟩
    have hother : a.2 ≠ tokens.length := (lt_length_of_mem_owners (List.mem_of_getLast? howner)).ne
    exact ⟨fun hsame => absurd hsame hother,
      fun hnone => absurd hseparates (hnone between hfrom hto)⟩

/-- Behind a character that remains, the next one belongs to the same token. -/
theorem Cut.concat_char {front : List (List Char)} {word : List Char}
    (h : Cut line (front ++ [word])) (hlast : ¬ Separates (line ++ [c]) line.length)
    (hnext : ∀ place ∈ (remaining line).getLast?, place + 1 = line.length) :
    Cut (line ++ [c]) (front ++ [word ++ [if (behindText line).quoted then soften c else c]]) := by
  have hword : word ≠ [] := h.nonempty word (by simp)
  refine h.extend front.length hlast (by simp) ?_ ?_ ?_
  · intro token htoken
    rcases List.mem_append.1 htoken with hold | hnew
    · exact h.nonempty token (List.mem_append_left _ hold)
    · rw [List.mem_singleton.1 hnew]
      simp
  · rw [owners_concat, owners_concat, List.length_append, List.length_singleton,
      List.replicate_succ', List.append_assoc]
  · intro a ha
    rcases h.getLast?_zip ha with ⟨hplace, howner⟩
    rw [getLast?_owners hword] at howner
    have hadjacent := hnext a.1 hplace
    exact ⟨fun _ place hfrom hto => by omega, fun _ => (Option.some.inj howner).symm⟩

end Quotation

/-! ## The tokens of the scanner -/

namespace Scanner

open Quotation

/-- The tokens that a scanner has read, with the one that it is reading. -/
def words (s : Scanner) : List (List Char) :=
  s.flush.tokens.reverse

theorem words_of_gap {s : Scanner} (h : s.word = []) : s.words = s.tokens.reverse := by
  simp [words, flush, h]

theorem words_of_word {s : Scanner} (h : s.word ≠ []) :
    s.words = s.tokens.reverse ++ [s.word.reverse] := by
  simp [words, flush, h]

theorem word_flush (s : Scanner) : s.flush.word = [] := by
  unfold flush
  split
  · rename_i h
    exact List.isEmpty_iff.1 h
  · rfl

theorem words_flush (s : Scanner) : s.flush.words = s.words := by
  rw [words_of_gap s.word_flush, words]

theorem step_of_separator {s : Scanner} {c : Char} (hc : isSeparator c = true)
    (hs : s.quoted = false) :
    s.step c = s.flush := by
  have hquote : c ≠ '"' := by
    rintro rfl
    exact absurd hc (by decide)
  simp [step, hs, hquote, hc]

theorem step_of_kept {s : Scanner} {c : Char} (h : ¬ (isSeparator c = true ∧ s.quoted = false)) :
    (s.step c).tokens = s.tokens ∧ (s.step c).word =
      (if s.quoted then soften c else c) :: s.word := by
  cases hquoted : s.quoted with
  | true => simp [step, hquoted]
  | false =>
      have hseparator : isSeparator c = false := by simpa [hquoted] using h
      by_cases hquote : c = '"'
      · simp [step, hquoted, hquote]
      · simp [step, hquoted, hquote, hseparator]

/-- What holds of the scanner behind a line: its tokens are those of the line, and it is reading one
of them when the last character of the line is no separator. -/
structure Keeps (line : List Char) (s : Scanner) : Prop where
  cut : Cut line s.words
  gap : s.word = [] → ∀ place ∈ remaining line, ∃ between, place < between ∧ between < line.length ∧
    Separates line between
  word : s.word ≠ [] → ∀ place ∈ (remaining line).getLast?, place + 1 = line.length

theorem Keeps.step {line : List Char} (h : Keeps line (behindText line)) (c : Char) :
    Keeps (line ++ [c]) ((behindText line).step c) := by
  by_cases hc : isSeparator c = true ∧ (behindText line).quoted = false
  · -- A separator ends the token that is being read, and stands behind everything that remains.
    have hlast : Separates (line ++ [c]) line.length := separates_concat_length.2 hc
    rw [step_of_separator hc.1 hc.2]
    refine ⟨?_, fun _ place hplace => ⟨line.length, ?_, by simp, hlast⟩,
      fun hword => absurd (word_flush _) hword⟩
    · rw [words_flush]
      exact h.cut.skip hlast
    · rw [remaining_concat, if_pos hlast, List.append_nil] at hplace
      exact lt_length_of_mem_remaining hplace
  · have hlast : ¬ Separates (line ++ [c]) line.length :=
      fun hsep => hc (separates_concat_length.1 hsep)
    rcases step_of_kept hc with ⟨htokens, hword⟩
    have hne : ((behindText line).step c).word ≠ [] := by simp [hword]
    have hwords : ((behindText line).step c).words =
        (behindText line).tokens.reverse ++
          [(behindText line).word.reverse ++
            [if (behindText line).quoted then soften c else c]] := by
      rw [words_of_word hne, htokens, hword, List.reverse_cons]
    refine ⟨?_, fun hgap => absurd hgap hne, fun _ place hplace => ?_⟩
    · -- The character starts a token behind a separator, and goes on with the last one otherwise.
      rw [hwords]
      by_cases hgap : (behindText line).word = []
      · rw [hgap, ← words_of_gap hgap]
        exact h.cut.concat_token hlast (h.gap hgap)
      · refine Cut.concat_char ?_ hlast (h.word hgap)
        rw [← words_of_word hgap]
        exact h.cut
    · rw [remaining_concat, if_neg hlast, List.getLast?_concat] at hplace
      cases Option.some.inj hplace
      simp

theorem keeps_behindText (line : List Char) : Keeps line (behindText line) := by
  induction line using List.reverseRecOn with
  | nil =>
      refine ⟨⟨rfl, ?_, rfl, .nil⟩, ?_, fun hword => absurd rfl hword⟩
      · intro token htoken
        cases htoken
      · intro _ place hplace
        cases hplace
  | append_singleton line c ih =>
      rw [behindText_concat]
      exact ih.step c

end Scanner

theorem map_chars_tokenize (raw : Bytes) :
    (tokenize raw).map Utf8.chars = Scanner.run (Utf8.chars raw) := by
  have hread : Utf8.chars ∘ Utf8.encode = id := funext Utf8.chars_encode
  rw [tokenize, List.map_map, hread, List.map_id]

/-- The tokens of a line hold what remains of it: the characters but unquoted separators, with a
blank for a quoted comma or tab, and cut exactly where a separator was. There is no empty token, and
none at all only in a line of separators. -/
theorem tokenize_loses_nothing (raw : Bytes) :
    Quotation.Cut (Utf8.chars raw) ((tokenize raw).map Utf8.chars) ∧
      (tokenize raw).flatten =
        Utf8.encode ((Quotation.remaining (Utf8.chars raw)).filterMap
          (Quotation.shown? (Utf8.chars raw))) ∧
      (∀ token ∈ tokenize raw, token ≠ []) ∧
      (tokenize raw ≠ [] ↔ ∃ place < (Utf8.chars raw).length,
        ¬ Quotation.Separates (Utf8.chars raw) place) := by
  have hcut : Quotation.Cut (Utf8.chars raw) ((tokenize raw).map Utf8.chars) := by
    rw [map_chars_tokenize]
    exact (Scanner.keeps_behindText (Utf8.chars raw)).cut
  have hnonempty : ∀ token ∈ tokenize raw, token ≠ [] := by
    intro token htoken hnil
    exact hcut.nonempty (Utf8.chars token) (List.mem_map_of_mem htoken) (by rw [hnil]; rfl)
  refine ⟨hcut, ?_, hnonempty, ?_⟩
  · rw [← hcut.content, map_chars_tokenize, Utf8.encode_flatten]
    rfl
  · rw [← hcut.ne_nil_iff, Ne, Ne, List.map_eq_nil_iff]

/-- A comma between quotes stays, as a blank, and an escaped quote closes nothing. -/
example : tokenize (utf8 "a, \"b,\\\"\" c") = [utf8 "a", utf8 "\"b \\\"\"", utf8 "c"] := by
  decide +kernel

end Dlx
