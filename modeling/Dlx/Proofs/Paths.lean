import Dlx.Command.Run
import Dlx.Proofs.Output

/-!
# Paths and places

Where the paths of a run lead. A path is a directory, up to its last slash, and a name behind it.
The output of a source changes the name, and the directory where one is given; it never has the name
of a source.

* `Path.IsLead`, `Path.IsName`: the two parts of a path
* `Path.exists_source_eq`, `Path.output_eq`: the parts of a source and of its output
* `FileTree.exists_under_of_locate`: a file stands under its name in the place of its directory
* `FileTree.output_place_ne`: no output stands where a source stands
* `FileTree.same_place_of_output`, `FileTree.same_place_iff`: when two outputs share a place
-/

namespace Dlx

/-! ## The two parts of a path -/

/-- A text from its last mark on. -/
theorem Bytes.exists_last_mark (mark : UInt8) (text : Bytes) :
    ∃ front, text = front ++ text.rtakeWhile (· != mark) ∧
      (front = [] ∨ ∃ rest, front = rest ++ [mark]) := by
  refine ⟨text.rdropWhile (· != mark), List.rdropWhile_append_rtakeWhile.symm, ?_⟩
  by_cases hnil : text.rdropWhile (· != mark) = []
  · exact .inl hnil
  · have hlast := List.rdropWhile_last_not (· != mark) text hnil
    have hmark : (text.rdropWhile (· != mark)).getLast hnil = mark := by simpa using hlast
    have hconcat := List.dropLast_concat_getLast hnil
    rw [hmark] at hconcat
    exact .inr ⟨_, hconcat.symm⟩

namespace Path

/-- What can stand in front of a name: nothing, or a text that ends in a slash. -/
def IsLead (dir : Bytes) : Prop :=
  dir = [] ∨ ∃ front, dir = front ++ [slash]

/-- The name of a file: no slash in it, and not one of the names that stand for a directory. -/
structure IsName (name : Bytes) : Prop where
  nonempty : name ≠ []
  dot : name ≠ utf8 "."
  dots : name ≠ utf8 ".."
  whole : slash ∉ name

theorem isName_of_length {name : Bytes} (hwhole : slash ∉ name) (hlength : 2 < name.length) :
    IsName name := by
  have hne : ∀ other : Bytes, other.length ≤ 2 → name ≠ other := by
    rintro other hother rfl
    omega
  exact ⟨hne [] (by decide), hne (utf8 ".") (by decide), hne (utf8 "..") (by decide), hwhole⟩

theorem components_lead {dir name : Bytes} (hdir : IsLead dir) (hname : slash ∉ name) :
    components (dir ++ name) = (components dir).dropLast ++ [name] := by
  rcases hdir with rfl | ⟨front, rfl⟩
  · exact Bytes.split_of_not_mem hname
  · have hempty : Bytes.split slash [] = [[]] := rfl
    rw [List.append_assoc, List.singleton_append, components, components, Bytes.split_append_mark,
      Bytes.split_append_mark, Bytes.split_of_not_mem hname, hempty, List.dropLast_concat]

theorem isRooted_append {name : Bytes} (dir : Bytes) (hname : IsName name) :
    isRooted (dir ++ name) = isRooted dir := by
  cases dir with
  | cons b rest => rfl
  | nil =>
      have hfirst : name.head? ≠ some slash :=
        fun hhead => hname.whole (List.mem_of_mem_head? hhead)
      simpa [isRooted] using hfirst

theorem base_lead {dir name : Bytes} (hdir : IsLead dir) (hname : IsName name) :
    base (dir ++ name) = name := by
  have hpath : dir ++ name ≠ [] := by simp [hname.nonempty]
  have hslashes : dropSlashes (dir ++ name) = dir ++ name := by
    refine List.rdropWhile_eq_self_iff.2 ?_
    intro _ hslash
    rw [List.getLast_append_of_ne_nil _ hname.nonempty] at hslash
    have hlast : name.getLast hname.nonempty = slash := by simpa using hslash
    exact hname.whole (hlast ▸ List.getLast_mem hname.nonempty)
  have hname' : name.isEmpty = false := by simpa using hname.nonempty
  rw [base, hslashes, components_lead hdir hname.whole, List.getLastD_concat]
  simp [hname', hpath]

/-! ## Sources -/

theorem sourceEnding_eq : sourceEnding = [0x2E, 0x64, 0x6C, 0x78] := by decide

/-- A source is a directory and a name with the ending of a source. -/
theorem exists_source_eq {path : Bytes} (h : Command.isSource path = true) :
    ∃ dir stem, IsLead dir ∧ slash ∉ stem ∧ path = dir ++ (stem ++ sourceEnding) := by
  rcases Bytes.exists_last_mark slash path with ⟨dir, hpath, hdir⟩
  have hwhole : slash ∉ path.rtakeWhile (· != slash) := by
    intro hmem
    have hne := List.mem_rtakeWhile_imp hmem
    simp at hne
  generalize path.rtakeWhile (· != slash) = name at hpath hwhole
  have hlast : (components path).getLastD [] = name := by
    rw [hpath, components_lead hdir hwhole, List.getLastD_concat]
  -- The ending is not empty, so the name has a dot, and the ending starts at its last one.
  have hending : ending path = sourceEnding := by simpa [Command.isSource] using h
  rw [ending, hlast, sourceEnding_eq] at hending
  rcases Bytes.exists_last_mark 0x2E name with ⟨front, hname, hfront⟩
  by_cases hdot : name.contains 0x2E = true
  · simp only [hdot, ↓reduceIte, List.cons.injEq, true_and] at hending
    change name.rtakeWhile (· != 0x2E) = [0x64, 0x6C, 0x78] at hending
    rw [hending] at hname
    rcases hfront with rfl | ⟨stem, rfl⟩
    · rw [hname] at hdot
      exact absurd hdot (by decide)
    · have hstem : name = stem ++ sourceEnding := by simp [hname, sourceEnding_eq]
      refine ⟨dir, stem, hdir, ?_, by rw [hpath, hstem]⟩
      intro hmem
      exact hwhole (hstem ▸ List.mem_append_left _ hmem)
  · rw [if_neg hdot] at hending
    cases hending

theorem isName_append {stem ending : Bytes} (hstem : slash ∉ stem) (hending : slash ∉ ending)
    (hlength : 2 < ending.length) : IsName (stem ++ ending) := by
  refine isName_of_length ?_ ?_
  · simp [hstem, hending]
  · rw [List.length_append]
    omega

theorem isName_source {stem : Bytes} (hstem : slash ∉ stem) : IsName (stem ++ sourceEnding) :=
  isName_append hstem (by decide) (by decide)

theorem isName_output {stem : Bytes} (hstem : slash ∉ stem) : IsName (stem ++ utf8 ".hex") :=
  isName_append hstem (by decide) (by decide)

/-! ## Outputs -/

theorem dropEnding_append (front ending : Bytes) :
    Bytes.dropEnding ending (front ++ ending) = front := by
  have hsuffix : ending.isSuffixOf (front ++ ending) = true := by
    rw [List.isSuffixOf_iff_suffix]
    exact List.suffix_append front ending
  rw [Bytes.dropEnding, if_pos hsuffix, List.length_append, Nat.add_sub_cancel, List.take_left]

theorem isLead_append {dir : Bytes} (front : Bytes) (h : IsLead dir) :
    IsLead (front ++ utf8 "/" ++ dir) := by
  rcases h with rfl | ⟨rest, rfl⟩
  · exact .inr ⟨front, List.append_nil _⟩
  · exact .inr ⟨front ++ utf8 "/" ++ rest, (List.append_assoc ..).symm⟩

/-- What is joined ends in its last piece, with a slash in front of it or nothing. -/
theorem exists_join_concat_eq (pieces : List Bytes) (last : Bytes) :
    ∃ dir, IsLead dir ∧ Bytes.join (utf8 "/") (pieces ++ [last]) = dir ++ last := by
  induction pieces with
  | nil => exact ⟨[], .inl rfl, List.intercalate_singleton⟩
  | cons piece rest ih =>
      rcases ih with ⟨dir, hdir, hjoin⟩
      refine ⟨piece ++ utf8 "/" ++ dir, isLead_append piece hdir, ?_⟩
      rw [List.cons_append, Bytes.join, List.intercalate_cons_of_ne_nil (by simp), ← Bytes.join,
        hjoin]
      simp only [List.append_assoc]

theorem cleanStep_name {name : Bytes} (rooted : Bool) (kept : List Bytes) (hname : IsName name) :
    cleanStep rooted kept name = name :: kept := by
  simp [cleanStep, hname.nonempty, hname.dot, hname.dots]

/-- A path inside a directory still ends in the name that was put there. -/
theorem exists_inside_eq {name : Bytes} (directory : Bytes) (hname : IsName name) :
    ∃ dir, IsLead dir ∧ inside directory name = dir ++ name := by
  have hlead : IsLead (directory ++ utf8 "/") := .inr ⟨directory, rfl⟩
  rw [inside, clean, components_lead hlead hname.whole, List.foldl_concat, cleanStep_name _ _ hname,
    List.reverse_cons]
  -- Nothing follows the name that could take it back, so what is kept of the directory does not
  -- matter.
  generalize List.reverse (List.foldl _ _ _) = kept
  rcases exists_join_concat_eq kept name with ⟨dir, hdir, hjoin⟩
  rw [hjoin]
  by_cases hrooted : isRooted (directory ++ utf8 "/" ++ name) = true
  · exact ⟨utf8 "/" ++ dir, isLead_append [] hdir, by rw [if_pos hrooted, List.append_assoc]⟩
  · exact ⟨dir, hdir, by rw [if_neg hrooted, if_neg (by simp)]⟩

/-- An output has the name of its source with another ending, next to the source or in a directory
of its own. -/
theorem output_eq {dir stem : Bytes} (hdir : IsLead dir) (hstem : slash ∉ stem)
    (directory : Bytes) :
    output (dir ++ (stem ++ sourceEnding)) directory =
      if directory.isEmpty then dir ++ (stem ++ utf8 ".hex")
      else inside directory (stem ++ utf8 ".hex") := by
  rw [output, ← List.append_assoc, dropEnding_append, List.append_assoc,
    base_lead hdir (isName_output hstem)]

theorem exists_output_eq {dir stem : Bytes} (hdir : IsLead dir) (hstem : slash ∉ stem)
    (directory : Bytes) :
    ∃ lead, IsLead lead ∧
      output (dir ++ (stem ++ sourceEnding)) directory = lead ++ (stem ++ utf8 ".hex") := by
  rw [output_eq hdir hstem]
  split
  · exact ⟨dir, hdir, rfl⟩
  · exact exists_inside_eq directory (isName_output hstem)

end Path

/-! ## Places -/

namespace FileTree

theorem follow_append (t : FileTree) (start : Place) (names others : List Bytes) :
    t.follow start (names ++ others) = (t.follow start names).bind (t.follow · others) := by
  fun_induction follow t start names with
  | case1 => rfl
  | case2 start name rest hdirectory => rw [List.cons_append, follow, if_pos hdirectory]; rfl
  | case3 start name rest hdirectory hskip ih =>
      rw [List.cons_append, follow, if_neg hdirectory, if_pos hskip, ih]
  | case4 start name rest hdirectory hskip hup ih =>
      rw [List.cons_append, follow, if_neg hdirectory, if_neg hskip, if_pos hup, ih]
  | case5 start name rest hdirectory hskip hup hlong =>
      rw [List.cons_append, follow, if_neg hdirectory, if_neg hskip, if_neg hup, if_pos hlong]
      rfl
  | case6 start name rest hdirectory hskip hup hlong ih =>
      rw [List.cons_append, follow, if_neg hdirectory, if_neg hskip, if_neg hup, if_neg hlong, ih]

/-- The place that the directory in front of a name leads to. -/
def under (t : FileTree) (dir : Bytes) : Except FileFlaw Place :=
  t.follow (if Path.isRooted dir then [utf8 "/"] else []) (Path.components dir).dropLast

theorem eq_of_follow_name {t : FileTree} {start place : Place} {name : Bytes}
    (hname : Path.IsName name) (h : t.follow start [name] = .ok place) :
    place = start ++ [name] := by
  have hskip : (name.isEmpty || name == utf8 ".") = false := by simp [hname.nonempty, hname.dot]
  have hup : (name == utf8 "..") = false := by simp [hname.dots]
  rw [follow, hskip, hup] at h
  split at h
  · cases h
  · simp only [Bool.false_eq_true, if_false] at h
    split at h
    · cases h
    · cases h
      rfl

/-- A file stands under its name in the place of its directory. -/
theorem exists_under_of_locate {t : FileTree} {dir name : Bytes} {place : Place}
    (hdir : Path.IsLead dir) (hname : Path.IsName name) (h : t.locate (dir ++ name) = .ok place) :
    ∃ parent, t.under dir = .ok parent ∧ place = parent ++ [name] := by
  -- Behind the checks of the whole path, its last component is followed from where the others lead.
  unfold locate at h
  split at h
  · cases h
  split at h
  · cases h
  split at h
  · cases h
  rw [Path.isRooted_append dir hname, Path.components_lead hdir hname.whole, follow_append] at h
  change (t.under dir).bind _ = _ at h
  cases hunder : t.under dir with
  | error flaw =>
      rw [hunder] at h
      cases h
  | ok parent =>
      rw [hunder] at h
      exact ⟨parent, rfl, eq_of_follow_name hname h⟩

/-- Where an output stands: under the name of its source with another ending. -/
theorem exists_parent_of_output {t : FileTree} {dir stem directory : Bytes} {place : Place}
    (hdir : Path.IsLead dir) (hstem : Path.slash ∉ stem)
    (h : t.locate (Path.output (dir ++ (stem ++ Path.sourceEnding)) directory) = .ok place) :
    ∃ parent, place = parent ++ [stem ++ utf8 ".hex"] := by
  rcases Path.exists_output_eq hdir hstem directory with ⟨lead, hlead, houtput⟩
  rw [houtput] at h
  rcases exists_under_of_locate hlead (Path.isName_output hstem) h with ⟨parent, -, hplace⟩
  exact ⟨parent, hplace⟩

theorem eq_of_concat_eq {parent parent' : Place} {stem stem' ending ending' : Bytes}
    (hlength : ending.length = ending'.length)
    (h : parent ++ [stem ++ ending] = parent' ++ [stem' ++ ending']) :
    parent = parent' ∧ stem = stem' ∧ ending = ending' := by
  rcases List.append_inj' h rfl with ⟨hparent, hnames⟩
  exact ⟨hparent, List.append_inj' (List.singleton_inj.1 hnames) hlength⟩

/-- No output stands where a source stands: their names end differently. -/
theorem output_place_ne {t t' : FileTree} {source other directory : Bytes} {place : Place}
    (hsource : Command.isSource source = true) (hother : Command.isSource other = true)
    (hplace : t.locate (Path.output other directory) = .ok place) :
    t'.locate source ≠ .ok place := by
  intro hsame
  rcases Path.exists_source_eq hother with ⟨dir, stem, hdir, hstem, rfl⟩
  rcases Path.exists_source_eq hsource with ⟨dir', stem', hdir', hstem', rfl⟩
  rcases exists_parent_of_output hdir hstem hplace with ⟨parent, rfl⟩
  rcases exists_under_of_locate hdir' (Path.isName_source hstem') hsame with ⟨parent', -, hplaces⟩
  have hendings : utf8 ".hex" = Path.sourceEnding := (eq_of_concat_eq (by decide) hplaces).2.2
  exact absurd hendings (by decide)

/-- Next to their sources, two outputs share a place only where the sources do. -/
theorem same_place_of_output {t : FileTree} {first second : Bytes} {place place₁ place₂ : Place}
    (hfirst : Command.isSource first = true) (hsecond : Command.isSource second = true)
    (hplace₁ : t.locate first = .ok place₁) (hplace₂ : t.locate second = .ok place₂)
    (houtput₁ : t.locate (Path.output first []) = .ok place)
    (houtput₂ : t.locate (Path.output second []) = .ok place) : place₁ = place₂ := by
  -- A source and its output stand in the same directory, and the output keeps the stem of the name.
  have hparts : ∀ {path : Bytes} {p : Place}, Command.isSource path = true → t.locate path = .ok p →
      t.locate (Path.output path []) = .ok place →
        ∃ parent stem, p = parent ++ [stem ++ Path.sourceEnding] ∧
          place = parent ++ [stem ++ utf8 ".hex"] := by
    intro path p hpath hp houtput
    rcases Path.exists_source_eq hpath with ⟨dir, stem, hdir, hstem, rfl⟩
    rw [Path.output_eq hdir hstem] at houtput
    rcases exists_under_of_locate hdir (Path.isName_source hstem) hp with ⟨parent, hunder, hp⟩
    rcases exists_under_of_locate hdir (Path.isName_output hstem) houtput with
      ⟨parent', hunder', hplace⟩
    cases hunder.symm.trans hunder'
    exact ⟨parent, stem, hp, hplace⟩
  rcases hparts hfirst hplace₁ houtput₁ with ⟨parent, stem, rfl, hplace⟩
  rcases hparts hsecond hplace₂ houtput₂ with ⟨parent', stem', rfl, hplace'⟩
  rcases eq_of_concat_eq rfl (hplace.symm.trans hplace') with ⟨rfl, rfl, -⟩
  rfl

/-- In a directory of their own, two outputs share a place exactly where the sources share a
name. -/
theorem same_place_iff {t : FileTree} {first second directory : Bytes} {place₁ place₂ : Place}
    (hdirectory : directory ≠ [])
    (hfirst : Command.isSource first = true) (hsecond : Command.isSource second = true)
    (houtput₁ : t.locate (Path.output first directory) = .ok place₁)
    (houtput₂ : t.locate (Path.output second directory) = .ok place₂) :
    place₁ = place₂ ↔ Path.base first = Path.base second := by
  rcases Path.exists_source_eq hfirst with ⟨dir₁, stem₁, hdir₁, hstem₁, rfl⟩
  rcases Path.exists_source_eq hsecond with ⟨dir₂, stem₂, hdir₂, hstem₂, rfl⟩
  rw [Path.base_lead hdir₁ (Path.isName_source hstem₁),
    Path.base_lead hdir₂ (Path.isName_source hstem₂), List.append_left_inj]
  constructor
  · rintro rfl
    rcases exists_parent_of_output hdir₁ hstem₁ houtput₁ with ⟨parent, hplace⟩
    rcases exists_parent_of_output hdir₂ hstem₂ houtput₂ with ⟨parent', hplace'⟩
    exact (eq_of_concat_eq rfl (hplace.symm.trans hplace')).2.1
  · rintro rfl
    have hgiven : ¬ directory.isEmpty = true := by simpa using hdirectory
    rw [Path.output_eq hdir₁ hstem₁, if_neg hgiven] at houtput₁
    rw [Path.output_eq hdir₂ hstem₂, if_neg hgiven] at houtput₂
    exact Except.ok.inj (houtput₁.symm.trans houtput₂)

end FileTree

end Dlx
