import Montage.Path
import Montage.Proofs.Text.Pieces

/-!
# Files of one directory

A path of a file in a directory is the front that all files of the directory share, with the name of
the file behind it (`Path.beside`, `join_eq_beside`). The name is the last step of the path and
nothing else of the path depends on it, so two such paths are the same exactly if their names are
(`same_beside_iff`).

Another extension is another name behind the same front (`withExtension?_beside`), and a separator
behind the name is not kept (`withExtension?_followed`). Files that share an extension differ in
what is left of it, and keep this difference: with another extension they are still different files
(`eq_of_same_renamed`). The only stem that does not stay as it is, a single point, becomes the
directory above, which is no other file's new name.
-/

set_option autoImplicit false
set_option relaxedAutoImplicit false

namespace Montage

namespace Path

/-! ### Names behind a front -/

/-- The text can be the name of a file in a directory. -/
structure IsFileName (name : List Char) : Prop where
  ne_nil : name ≠ []
  ne_here : name ≠ ['.']
  ne_parent : name ≠ ['.', '.']
  notMem : '/' ∉ name

instance (name : List Char) : Decidable (IsFileName name) :=
  decidable_of_iff (name ≠ [] ∧ name ≠ ['.'] ∧ name ≠ ['.', '.'] ∧ '/' ∉ name)
    ⟨fun ⟨hnil, hhere, hparent, hmem⟩ ↦ ⟨hnil, hhere, hparent, hmem⟩,
      fun ⟨hnil, hhere, hparent, hmem⟩ ↦ ⟨hnil, hhere, hparent, hmem⟩⟩

/-- The text in front of the names of the files in a directory. -/
def front (directory : Path) : List Char :=
  if directory.text.isEmpty ∨ directory.text.toList.getLast? = some '/' then directory.text.toList
  else directory.text.toList ++ ['/']

/-- A text with a name behind it. -/
def beside (front name : List Char) : Path := ⟨String.ofList (front ++ name)⟩

/-- Names can stand behind the text: nothing or a separator comes before them. -/
def IsFront (front : List Char) : Prop := front = [] ∨ ∃ before, front = before ++ ['/']

variable {directory : Path} {front name other stem extension rest : List Char}

theorem isFront_front (directory : Path) : IsFront directory.front := by
  unfold Path.front
  split_ifs with h
  · rcases h with hempty | hlast
    · left
      rw [String.isEmpty_iff.mp hempty]
      rfl
    · right
      exact List.getLast?_eq_some_iff.mp hlast
  · exact Or.inr ⟨_, rfl⟩

/-- A name is a relative path. -/
theorem not_isAbsolute {name : String} (h : '/' ∉ name.toList) : isAbsolute ⟨name⟩ = false := by
  rw [isAbsolute, beq_eq_false_iff_ne]
  intro hhead
  exact h (List.mem_of_head? hhead)

/-- The path of a file of a directory is the front of the directory with the name behind it. -/
theorem join_eq_beside (directory : Path) {name : String} (h : '/' ∉ name.toList) :
    directory.join ⟨name⟩ = beside directory.front name.toList := by
  rw [join, if_neg (by simp [not_isAbsolute h]), beside, Path.front]
  split_ifs
  · rw [String.ofList_append, String.ofList_toList, String.ofList_toList]
  · rw [String.ofList_append, String.ofList_append, String.ofList_toList, String.ofList_toList]

theorem toList_text_beside (front name : List Char) :
    (beside front name).text.toList = front ++ name :=
  String.toList_ofList

/-- A name by itself is the only piece. -/
theorem pieces_beside_nil (h : '/' ∉ name) : (beside [] name).pieces = [name] := by
  rw [pieces, toList_text_beside, List.nil_append, Text.cut_of_notMem h]

/-- Behind a separator, a name is a piece of its own. -/
theorem pieces_beside_separator (before : List Char) (h : '/' ∉ name) :
    (beside (before ++ ['/']) name).pieces = Text.cut (· == '/') before ++ [name] := by
  rw [pieces, toList_text_beside, List.append_assoc, List.singleton_append,
    Text.cut_append_cons before name rfl, Text.cut_of_notMem h]

/-- A name is the last piece of its path. -/
theorem exists_pieces_beside (hfront : IsFront front) (h : '/' ∉ name) :
    ∃ before, (beside front name).pieces = before ++ [name] := by
  rcases hfront with rfl | ⟨before, rfl⟩
  · exact ⟨[], pieces_beside_nil h⟩
  · exact ⟨_, pieces_beside_separator before h⟩

/-- A name adds its step to those of the front. -/
theorem components_beside (hfront : IsFront front) (hslash : '/' ∉ name) (hhere : name ≠ ['.']) :
    (beside front name).components =
      (beside front []).components ++ (Component.ofPiece? name).toList := by
  rcases hfront with rfl | ⟨before, rfl⟩
  · have hfirst : name.head? ≠ some '/' := fun hhead ↦ hslash (List.mem_of_head? hhead)
    have hnone : (beside [] []).components = [] := by decide
    rw [hnone, components, isAbsolute, pieces_beside_nil hslash, toList_text_beside,
      List.nil_append]
    cases hpiece : Component.ofPiece? name <;> simp [hfirst, hhere, hpiece]
  · -- The front has a piece, so that the first step is decided by it.
    have habsolute : (beside (before ++ ['/']) name).isAbsolute =
        (beside (before ++ ['/']) []).isAbsolute := by
      rw [isAbsolute, isAbsolute, toList_text_beside, toList_text_beside]
      cases before <;> rfl
    obtain ⟨first, rest, hcut⟩ :=
      List.exists_cons_of_ne_nil (Text.cut_ne_nil (· == '/') before)
    have hempty : Component.ofPiece? [] = none := rfl
    rw [components, components, habsolute, pieces_beside_separator before hslash,
      pieces_beside_separator before List.not_mem_nil, hcut, List.filterMap_append,
      List.filterMap_append]
    cases hpiece : Component.ofPiece? name <;> simp [hempty, hpiece]

/-- A separator ends the name, and what stands behind it has its own pieces. -/
theorem pieces_followed (front name rest : List Char) :
    (beside front (name ++ '/' :: rest)).pieces =
      (beside front name).pieces ++ Text.cut (· == '/') rest := by
  rw [pieces, toList_text_beside, ← List.append_assoc, Text.cut_append_cons _ rest rfl, pieces,
    toList_text_beside]

/-! ### Names -/

theorem IsFileName.ofPiece? (h : IsFileName name) :
    Component.ofPiece? name = some (.name (String.ofList name)) := by
  rw [Component.ofPiece?, if_neg (not_or.mpr ⟨h.ne_nil, h.ne_here⟩), if_neg h.ne_parent]

theorem fileName?_beside (hfront : IsFront front) (h : IsFileName name) :
    (beside front name).fileName? = some name := by
  rw [fileName?, components_beside hfront h.notMem h.ne_here, h.ofPiece?, Option.toList_some,
    List.getLast?_concat]
  exact congrArg some String.toList_ofList

/-- Behind a name stands nothing. -/
theorem lengthBehind_beside (hfront : IsFront front) (h : IsFileName name) :
    (beside front name).lengthBehind = 0 := by
  obtain ⟨before, hpieces⟩ := exists_pieces_beside hfront h.notMem
  rw [lengthBehind, hpieces, List.reverse_concat,
    List.takeWhile_cons_of_neg (by simp [h.ofPiece?])]
  rfl

/-- Two points add a step up to those of the front. -/
theorem components_beside_parent (hfront : IsFront front) :
    (beside front ['.', '.']).components = (beside front []).components ++ [.parent] := by
  have hslash : '/' ∉ ['.', '.'] := by decide
  have hhere : ['.', '.'] ≠ ['.'] := by decide
  exact components_beside hfront hslash hhere

theorem fileName?_beside_parent (hfront : IsFront front) :
    (beside front ['.', '.']).fileName? = none := by
  rw [fileName?, components_beside_parent hfront, List.getLast?_concat]

/-- Files of one directory are the same exactly if their names are. -/
theorem same_beside_iff (hfront : IsFront front) (h : IsFileName name) (hother : IsFileName other) :
    (beside front name).Same (beside front other) ↔ name = other := by
  rw [Same, components_beside hfront h.notMem h.ne_here,
    components_beside hfront hother.notMem hother.ne_here, h.ofPiece?, hother.ofPiece?]
  simp [String.ofList_inj]

/-- A file of a directory is not the directory above. -/
theorem not_same_beside_parent (hfront : IsFront front) (h : IsFileName name) :
    ¬ (beside front name).Same (beside front ['.', '.']) := by
  rw [Same, components_beside hfront h.notMem h.ne_here, h.ofPiece?,
    components_beside_parent hfront]
  simp

/-! ### Extensions -/

theorem cutExtension_append (stem : List Char) (h : '.' ∉ extension) :
    cutExtension (stem ++ '.' :: extension) =
      if stem = [] then ('.' :: extension, none) else (stem, some extension) := by
  have hlast : ((stem ++ '.' :: extension).reverse.takeWhile (· != '.')).reverse = extension := by
    rw [List.reverse_append, List.reverse_cons, List.append_assoc, List.singleton_append,
      List.takeWhile_append_of_pos, List.takeWhile_cons_of_neg, List.append_nil,
      List.reverse_reverse]
    · decide
    · intro c hc
      rw [bne_iff_ne]
      rintro rfl
      exact h (List.mem_reverse.mp hc)
  have hlength : (stem ++ '.' :: extension).length - extension.length - 1 = stem.length := by
    rw [List.length_append, List.length_cons]
    omega
  rw [cutExtension, hlast, hlength, List.take_left]
  by_cases hstem : stem = []
  · rw [if_pos (Or.inl hstem), if_pos hstem, hstem, List.nil_append]
  · rw [if_neg, if_neg hstem]
    rintro (hnil | hsame)
    · exact hstem hnil
    · rw [List.length_append, List.length_cons] at hsame
      omega

theorem cutExtension_of_notMem (h : '.' ∉ name) : cutExtension name = (name, none) := by
  have hall : name.reverse.takeWhile (· != '.') = name.reverse := by
    rw [List.takeWhile_eq_self_iff]
    intro c hc
    rw [bne_iff_ne]
    rintro rfl
    exact h (List.mem_reverse.mp hc)
  rw [cutExtension, hall, List.reverse_reverse]
  exact if_pos (Or.inr rfl)

/-- A name without an extension is all stem. -/
theorem cutExtension_fst (h : (cutExtension name).2 = none) : (cutExtension name).1 = name := by
  revert h
  rw [cutExtension]
  split_ifs
  · exact fun _ ↦ rfl
  · rintro ⟨⟩

/-- A name with an extension has it behind its last point, and something before this point. -/
theorem exists_stem_of_cutExtension (h : (cutExtension name).2 = some extension) :
    ∃ stem, stem ≠ [] ∧ name = stem ++ '.' :: extension ∧ '.' ∉ extension := by
  by_cases hpoint : '.' ∈ name
  · obtain ⟨behind, before, hreverse, hbehind⟩ :=
      List.eq_append_cons_of_mem (List.mem_reverse.mpr hpoint)
    have hname : name = before.reverse ++ '.' :: behind.reverse := by
      rw [← List.reverse_reverse name, hreverse, List.reverse_append, List.reverse_cons,
        List.append_assoc, List.singleton_append]
    have hlast : '.' ∉ behind.reverse := fun hmem ↦ hbehind (List.mem_reverse.mp hmem)
    rw [hname, cutExtension_append _ hlast] at h
    split_ifs at h with hstem
    obtain rfl := Option.some.inj h
    exact ⟨_, hstem, hname, hlast⟩
  · rw [cutExtension_of_notMem hpoint] at h
    cases h

/-- Something other than a single point, with an extension behind it, can be a name. -/
theorem isFileName_append_cons (hslash : '/' ∉ stem) (hstem : stem ≠ []) (hpoint : stem ≠ ['.'])
    (hextension : '/' ∉ extension) : IsFileName (stem ++ '.' :: extension) where
  ne_nil := List.append_ne_nil_of_right_ne_nil _ (List.cons_ne_nil _ _)
  ne_here hhere := by
    rcases List.append_eq_singleton_iff.mp hhere with ⟨hnil, -⟩ | ⟨-, hnil⟩
    · exact hstem hnil
    · cases hnil
  ne_parent hparent := by
    cases stem with
    | nil => exact hstem rfl
    | cons c rest =>
      obtain ⟨rfl, hrest⟩ := List.cons.inj hparent
      rcases List.append_eq_singleton_iff.mp hrest with ⟨rfl, -⟩ | ⟨-, hnil⟩
      · exact hpoint rfl
      · cases hnil
  notMem hmem := by
    rcases List.mem_append.mp hmem with hmem | hmem
    · exact hslash hmem
    · rcases List.mem_cons.mp hmem with hmem | hmem
      · exact absurd hmem (by decide)
      · exact hextension hmem

/-- The name of a file with another extension. -/
def renamed (stem extension : List Char) : List Char :=
  if stem = ['.'] then ['.', '.'] else stem ++ '.' :: extension

theorem take_length_sub (text behind : List Char) :
    (text ++ behind).take ((text ++ behind).length - behind.length) = text := by
  rw [List.length_append, Nat.add_sub_cancel, List.take_left]

/-- What a path becomes, told from the part in front of the old extension. If there is one this part
ends in a point, so it has an empty extension unless no name is left in it. -/
theorem withExtension?_of_text {p bare : Path} {old new : String} (hnew : '/' ∉ new.toList)
    (hne : new ≠ "") (hold : p.extension?.getD "" = old) (hbare : p.text = bare.text ++ old) :
    p.withExtension? new = match bare.fileName? with
      | none => some bare
      | some fileName =>
        some ⟨String.ofList (bare.text.toList.take (bare.text.length -
          (fileName.length - (cutExtension fileName).1.length + bare.lengthBehind))) ++
            ("." ++ new)⟩ := by
  have htext : String.ofList (p.text.toList.take (p.text.length - old.length)) = bare.text := by
    rw [← String.length_toList, ← String.length_toList, hbare, String.toList_append,
      take_length_sub, String.ofList_toList]
  have hempty : ¬ new.isEmpty := mt String.isEmpty_iff.mp hne
  cases hname : bare.fileName? with
  | none => simp only [withExtension?, if_neg hnew, hold, htext, hname]
  | some fileName => simp only [withExtension?, if_neg hnew, hold, htext, hname, if_neg hempty]

/-- A new extension stands behind what is kept of the path, which ends in the stem of its file name.
-/
theorem withExtension?_of_kept {p bare : Path} {old new : String} {fileName kept behind : List Char}
    (hnew : '/' ∉ new.toList) (hne : new ≠ "") (hold : p.extension?.getD "" = old)
    (hbare : p.text = bare.text ++ old) (hname : bare.fileName? = some fileName)
    (hkept : bare.text.toList = kept ++ behind)
    (hlength : fileName.length - (cutExtension fileName).1.length + bare.lengthBehind =
      behind.length) :
    p.withExtension? new = some (beside kept ('.' :: new.toList)) := by
  rw [withExtension?_of_text hnew hne hold hbare, hname]
  dsimp only
  rw [hlength, ← String.length_toList, hkept, take_length_sub, beside]
  refine congrArg (fun text ↦ some (Path.mk text)) (String.toList_injective ?_)
  simp

/-- Another extension is another name behind the same front. -/
theorem withExtension?_beside (hfront : IsFront front)
    (hname : IsFileName (stem ++ '.' :: extension)) (hstem : stem ≠ []) (hlast : '.' ∉ extension)
    {new : String} (hnew : '/' ∉ new.toList) (hne : new ≠ "") :
    (beside front (stem ++ '.' :: extension)).withExtension? new =
      some (beside front (renamed stem new.toList)) := by
  have hextension : (beside front (stem ++ '.' :: extension)).extension?.getD "" =
      String.ofList extension := by
    rw [extension?, fileName?_beside hfront hname, Option.bind_some, cutExtension_append _ hlast,
      if_neg hstem, Option.map_some, Option.getD_some]
  have hbare : (beside front (stem ++ '.' :: extension)).text =
      (beside front (stem ++ ['.'])).text ++ String.ofList extension := by
    apply String.toList_injective
    rw [String.toList_append, toList_text_beside, toList_text_beside, String.toList_ofList]
    simp
  by_cases hpoint : stem = ['.']
  · rw [withExtension?_of_text hnew hne hextension hbare, renamed, if_pos hpoint, hpoint,
      List.singleton_append, fileName?_beside_parent hfront]
  · have hslash : '/' ∉ stem := fun hmem ↦ hname.notMem (List.mem_append_left _ hmem)
    have hbareName : IsFileName (stem ++ ['.']) :=
      isFileName_append_cons hslash hstem hpoint List.not_mem_nil
    have hcut : cutExtension (stem ++ ['.']) = (stem, some []) := by
      rw [cutExtension_append stem List.not_mem_nil, if_neg hstem]
    have hkept : (beside front (stem ++ ['.'])).text.toList = front ++ stem ++ ['.'] := by
      rw [toList_text_beside, List.append_assoc]
    have hlength : (stem ++ ['.']).length - (cutExtension (stem ++ ['.'])).1.length +
        (beside front (stem ++ ['.'])).lengthBehind = ['.'].length := by
      rw [hcut, lengthBehind_beside hfront hbareName, List.length_append, Nat.add_sub_cancel_left,
        Nat.add_zero]
    rw [withExtension?_of_kept hnew hne hextension hbare (fileName?_beside hfront hbareName) hkept
      hlength, renamed, if_neg hpoint, beside, beside, List.append_assoc]

example : (⟨"in/..gbm"⟩ : Path).withExtension? "mp4" = some ⟨"in/.."⟩ := by decide

/-! ### Separators behind a name -/

/-- No piece of the text counts. -/
def AddsNoStep (rest : List Char) : Prop :=
  ∀ piece ∈ Text.cut (· == '/') rest, Component.ofPiece? piece = none

/-- A separator and pieces that do not count make no difference to the steps. -/
theorem components_followed (hfront : IsFront front) (h : IsFileName name)
    (hrest : AddsNoStep rest) :
    (beside front (name ++ '/' :: rest)).components = (beside front name).components := by
  obtain ⟨before, hpieces⟩ := exists_pieces_beside hfront h.notMem
  have hhead : (front ++ name ++ '/' :: rest).head? = (front ++ name).head? := by
    rw [List.head?_append_of_ne_nil _ (List.append_ne_nil_of_right_ne_nil _ h.ne_nil)]
  have habsolute : (beside front (name ++ '/' :: rest)).isAbsolute =
      (beside front name).isAbsolute := by
    rw [isAbsolute, isAbsolute, toList_text_beside, toList_text_beside, ← List.append_assoc, hhead]
  have hfirst : (before ++ [name] ++ Text.cut (· == '/') rest).head? =
      (before ++ [name]).head? := by
    rw [List.head?_append_of_ne_nil _ (List.concat_ne_nil _ _)]
  rw [components, components, habsolute, pieces_followed, hpieces, hfirst, List.filterMap_append,
    List.filterMap_eq_nil_iff.mpr hrest, List.append_nil]

theorem fileName?_followed (hfront : IsFront front) (h : IsFileName name)
    (hrest : AddsNoStep rest) :
    (beside front (name ++ '/' :: rest)).fileName? = some name := by
  rw [fileName?, components_followed hfront h hrest, ← fileName?, fileName?_beside hfront h]

theorem lengthBehind_followed (hfront : IsFront front) (h : IsFileName name)
    (hrest : AddsNoStep rest) :
    (beside front (name ++ '/' :: rest)).lengthBehind = ('/' :: rest).length := by
  obtain ⟨before, hpieces⟩ := exists_pieces_beside hfront h.notMem
  have hnone : ∀ piece ∈ (Text.cut (· == '/') rest).reverse,
      (Component.ofPiece? piece).isNone := by
    intro piece hpiece
    rw [hrest piece (List.mem_reverse.mp hpiece)]
    rfl
  rw [lengthBehind, pieces_followed, hpieces, List.reverse_append, List.reverse_concat,
    List.takeWhile_append_of_pos hnone, List.takeWhile_cons_of_neg (by simp [h.ofPiece?]),
    List.append_nil, ← Text.flatMap_cut]
  exact ((List.reverse_perm _).flatMap_right _).length_eq

/-- An extension stands right behind the name, in place of separators and pieces that do not count.
-/
theorem withExtension?_followed (hfront : IsFront front) (h : IsFileName name)
    (hnone : (cutExtension name).2 = none)
    (hrest : AddsNoStep rest)
    {new : String} (hnew : '/' ∉ new.toList) (hne : new ≠ "") :
    (beside front (name ++ '/' :: rest)).withExtension? new =
      some (beside front (name ++ '.' :: new.toList)) := by
  have hname := fileName?_followed hfront h hrest
  have hextension : (beside front (name ++ '/' :: rest)).extension?.getD "" = "" := by
    rw [extension?, hname, Option.bind_some, hnone, Option.map_none, Option.getD_none]
  have hkept : (beside front (name ++ '/' :: rest)).text.toList = front ++ name ++ '/' :: rest := by
    rw [toList_text_beside, List.append_assoc]
  have hlength : name.length - (cutExtension name).1.length +
      (beside front (name ++ '/' :: rest)).lengthBehind = ('/' :: rest).length := by
    rw [cutExtension_fst hnone, lengthBehind_followed hfront h hrest, Nat.sub_self, Nat.zero_add]
  rw [withExtension?_of_kept hnew hne hextension String.append_empty.symm hname hkept hlength,
    beside, beside, List.append_assoc]

example : (⟨"in/clip/./"⟩ : Path).withExtension? "mp4" = some ⟨"in/clip.mp4"⟩ := by decide

/-! ### Different files -/

/-- Stems stay apart when an extension is put behind them. -/
theorem eq_of_same_renamed (hfront : IsFront front) (hstem : stem ≠ []) (hother : other ≠ [])
    (hslash : '/' ∉ stem) (hslash' : '/' ∉ other) {new : List Char} (hnew : '/' ∉ new)
    (h : (beside front (renamed stem new)).Same (beside front (renamed other new))) :
    stem = other := by
  by_cases hpoint : stem = ['.']
  · by_cases hpoint' : other = ['.']
    · rw [hpoint, hpoint']
    · rw [renamed, renamed, if_pos hpoint, if_neg hpoint'] at h
      have hname := isFileName_append_cons hslash' hother hpoint' hnew
      exact absurd h.symm (not_same_beside_parent hfront hname)
  · have hname := isFileName_append_cons hslash hstem hpoint hnew
    by_cases hpoint' : other = ['.']
    · rw [renamed, renamed, if_neg hpoint, if_pos hpoint'] at h
      exact absurd h (not_same_beside_parent hfront hname)
    · rw [renamed, renamed, if_neg hpoint, if_neg hpoint'] at h
      have hname' := isFileName_append_cons hslash' hother hpoint' hnew
      exact List.append_cancel_right ((same_beside_iff hfront hname hname').mp h)

theorem slash_notMem_of_withExtension? {p q : Path} {new : String}
    (h : p.withExtension? new = some q) : '/' ∉ new.toList := by
  intro hslash
  rw [withExtension?, if_pos hslash] at h
  cases h

/-- What a file with an extension is called with another one. -/
theorem exists_stem_of_extension? (hfront : IsFront front) (hname : IsFileName name) {old : String}
    (hold : (beside front name).extension? = some old) :
    ∃ stem, stem ≠ [] ∧ name = stem ++ '.' :: old.toList ∧ ∀ new : String, '/' ∉ new.toList →
      new ≠ "" → (beside front name).withExtension? new =
        some (beside front (renamed stem new.toList)) := by
  rw [extension?, fileName?_beside hfront hname, Option.bind_some, Option.map_eq_some_iff] at hold
  obtain ⟨extension, hextension, rfl⟩ := hold
  obtain ⟨stem, hstem, rfl, hlast⟩ := exists_stem_of_cutExtension hextension
  refine ⟨stem, hstem, by rw [String.toList_ofList], ?_⟩
  intro new hnew hne
  exact withExtension?_beside hfront hname hstem hlast hnew hne

/-- Different files of one directory that share an extension are different files with another one
too. -/
theorem eq_of_same_withExtension {first second : String} (hfirst : IsFileName first.toList)
    (hsecond : IsFileName second.toList) {old new : String}
    (hold : (directory.join ⟨first⟩).extension? = some old)
    (hold' : (directory.join ⟨second⟩).extension? = some old) (hne : new ≠ "") {p q : Path}
    (hp : (directory.join ⟨first⟩).withExtension? new = some p)
    (hq : (directory.join ⟨second⟩).withExtension? new = some q) (hsame : p.Same q) :
    first = second := by
  have hnew := slash_notMem_of_withExtension? hp
  rw [join_eq_beside directory hfirst.notMem] at hold hp
  rw [join_eq_beside directory hsecond.notMem] at hold' hq
  have hfront := isFront_front directory
  obtain ⟨stem, hstem, hname, hrenamed⟩ := exists_stem_of_extension? hfront hfirst hold
  obtain ⟨other, hother, hname', hrenamed'⟩ := exists_stem_of_extension? hfront hsecond hold'
  obtain rfl := Option.some.inj ((hrenamed new hnew hne).symm.trans hp)
  obtain rfl := Option.some.inj ((hrenamed' new hnew hne).symm.trans hq)
  have hslash : '/' ∉ stem := fun hmem ↦
    hfirst.notMem (hname ▸ List.mem_append_left _ hmem)
  have hslash' : '/' ∉ other := fun hmem ↦
    hsecond.notMem (hname' ▸ List.mem_append_left _ hmem)
  apply String.toList_injective
  rw [hname, hname', eq_of_same_renamed hfront hstem hother hslash hslash' hnew hsame]

end Path

end Montage
