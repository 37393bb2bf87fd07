import Montage.Proofs.Toml.ValueForms

/-!
# Forms of a file

A file is a sequence of lines, each of which holds a statement or none, perhaps with a comment after
it. The last line need not end. `FileForm` says which texts stand for which statements, and reading
gives these statements back (`statements?_of_form`).

The reader looks at the first character of a line that is no space, so the spaces in front of a key
are taken to belong to the line (`StatementForm.exists_spaces`).
-/

set_option autoImplicit false
set_option relaxedAutoImplicit false

namespace Montage.Toml

/-! ### Forms -/

/-- What stands for a statement: a header between brackets, or a key and its value. -/
inductive StatementForm : Statement → List Char → Prop
  | header {key : List String} {name : List Char} : KeyForm key name →
      StatementForm (.header key) ('[' :: (name ++ [']']))
  | assignment {key : List String} {value : Value} {name spaces written : List Char} :
      KeyForm key name → Spaces spaces → ValueForm value written →
      StatementForm (.assignment key value) (name ++ '=' :: (spaces ++ written))
  | table {key : List String} {entries : Entries} {name spaces written : List Char} :
      KeyForm key name → Spaces spaces → BracedForm entries written →
      StatementForm (.assignment key (.table .braced entries)) (name ++ '=' :: (spaces ++ written))

/-- What may stand at the end of a line: spaces, and perhaps a comment. -/
inductive LineTail : List Char → Prop
  | spaces {spaces : List Char} : Spaces spaces → LineTail spaces
  | comment {spaces comment : List Char} : Spaces spaces → Comment comment →
      LineTail (spaces ++ comment)

/-- A line without its end, and the statement that it holds if it does. -/
inductive LineOf : List Statement → List Char → Prop
  | blank {tail : List Char} : LineTail tail → LineOf [] tail
  | statement {statement : Statement} {spaces written tail : List Char} : Spaces spaces →
      StatementForm statement written → LineTail tail →
      LineOf [statement] (spaces ++ (written ++ tail))

/-- Lines and their statements. -/
inductive LinesOf : List Statement → List Char → Prop
  | last {statements : List Statement} {line : List Char} : LineOf statements line →
      LinesOf statements line
  | next {statements more : List Statement} {line ending lines : List Char} :
      LineOf statements line → LineEnd ending → LinesOf more lines →
      LinesOf (statements ++ more) (line ++ (ending ++ lines))

/-- What stands for statements: lines, perhaps after a byte order mark. -/
inductive FileForm : List Statement → List Char → Prop
  | plain {statements : List Statement} {lines : List Char} : LinesOf statements lines →
      FileForm statements lines
  | marked {statements : List Statement} {lines : List Char} : LinesOf statements lines →
      FileForm statements ('\ufeff' :: lines)

/-- The key that a statement is about. -/
def Statement.key : Statement → List String
  | header key | item key | assignment key _ => key

variable {statement : Statement} {statements more : List Statement} {key : List String}
  {written tail line rest after : List Char} {fuel : Nat}

/-! ### Ends of lines -/

/-- What follows a line, with what follows its end. -/
inductive AfterLine : List Char → List Char → Prop
  | nothing : AfterLine [] []
  | line {ending after : List Char} : LineEnd ending → AfterLine (ending ++ after) after

theorem AfterLine.begins (h : AfterLine rest after) : ∀ c ∈ rest.head?, c ∈ ['\n', '\r'] := by
  cases h with
  | nothing => rintro _ ⟨⟩
  | line hending => cases hending <;> (rintro _ ⟨⟩; decide)

theorem AfterLine.ends (h : AfterLine rest after) : Ends rest :=
  have hall : ∀ c ∈ ['\n', '\r'], endsWord c := List.all_iff_forall_prop.mp (by decide)
  fun c hc ↦ hall c (h.begins c hc)

theorem AfterLine.not_isSpace (h : AfterLine rest after) : ∀ c ∈ rest.head?, ¬ isSpace c :=
  have hall : ∀ c ∈ ['\n', '\r'], ¬ isSpace c := List.all_iff_forall_prop.mp (by decide)
  fun c hc ↦ hall c (h.begins c hc)

theorem LineTail.ends (h : LineTail tail) (hrest : Ends rest) : Ends (tail ++ rest) := by
  cases h with
  | spaces hspaces => exact hrest.spaces_append hspaces
  | comment hspaces hcomment =>
    obtain ⟨characters, rfl, -⟩ := hcomment
    rw [List.append_assoc]
    exact (ends_cons (by decide) _).spaces_append hspaces

theorem skipComment_append {characters : List Char} (h : ∀ c ∈ characters, isVisible c)
    (hrest : AfterLine rest after) : skipComment (characters ++ rest) = some rest := by
  induction characters with
  | nil =>
    cases hrest with
    | nothing => rfl
    | line hending => cases hending <;> rfl
  | cons c characters ih =>
    obtain ⟨hc, hcharacters⟩ := List.forall_mem_cons.mp h
    obtain ⟨hfeed, hreturn⟩ := ne_of_isVisible hc
    rw [List.cons_append, skipComment, if_pos hc, ih hcharacters]
    · exact hfeed
    · exact fun _ h _ ↦ hreturn h

/-- The rest of a line is skipped with its end. -/
theorem endLine_tail (h : LineTail tail) (hrest : AfterLine rest after) :
    endLine (tail ++ rest) = some after := by
  have hfinish : (if rest.isEmpty then some []
      else if startsLine rest then some (dropLineEnd rest) else none) = some after := by
    cases hrest with
    | nothing => rfl
    | line hending => cases hending <;> rfl
  unfold endLine
  cases h with
  | spaces hspaces =>
    rw [skipSpaces_append hspaces hrest.not_isSpace]
    dsimp only
    split
    · exact absurd (hrest.begins _ rfl) (by decide)
    · exact hfinish
  | comment hspaces hcomment =>
    obtain ⟨characters, rfl, hvisible⟩ := hcomment
    rw [List.append_assoc, skipSpaces_append hspaces (by rintro _ ⟨⟩; decide)]
    change (skipComment (characters ++ rest)).bind _ = _
    rw [skipComment_append hvisible hrest]
    exact hfinish

/-! ### Statements -/

/-- What a statement begins with when there are no spaces in front of it. -/
def BeginsStatement (written : List Char) : Prop := written.head? = some '[' ∨ BeginsKey written

/-- The spaces in front of a statement make no difference. -/
theorem StatementForm.exists_spaces (h : StatementForm statement written) :
    ∃ spaces bare, written = spaces ++ bare ∧ Spaces spaces ∧ StatementForm statement bare ∧
      BeginsStatement bare := by
  cases h with
  | header hkey => exact ⟨[], _, rfl, spaces_nil, .header hkey, Or.inl rfl⟩
  | assignment hkey hspaces hvalue =>
    obtain ⟨before, bare, rfl, hbefore, hkey, hbegins⟩ := hkey.exists_spaces
    exact ⟨before, _, List.append_assoc _ _ _, hbefore, .assignment hkey hspaces hvalue,
      Or.inr (hbegins.append _)⟩
  | table hkey hspaces hvalue =>
    obtain ⟨before, bare, rfl, hbefore, hkey, hbegins⟩ := hkey.exists_spaces
    exact ⟨before, _, List.append_assoc _ _ _, hbefore, .table hkey hspaces hvalue,
      Or.inr (hbegins.append _)⟩

/-- No key begins with a bracket. -/
theorem KeyForm.head?_ne {name : List Char} (h : KeyForm key name) (rest : List Char) :
    (name ++ rest).head? ≠ some '[' := by
  obtain ⟨spaces, bare, rfl, hspaces, -, hbegins⟩ := h.exists_spaces
  rw [List.append_assoc]
  cases spaces with
  | nil => exact hbegins.ne (by decide) rest
  | cons c spaces =>
    rintro ⟨⟩
    exact absurd (hspaces '[' List.mem_cons_self) (by decide)

theorem BracedForm.not_isSpace {entries : Entries} (h : BracedForm entries written)
    (rest : List Char) : ∀ c ∈ (written ++ rest).head?, ¬ isSpace c := by
  cases h <;> (rintro _ ⟨⟩; decide)

/-- An assignment is read whatever its value is. -/
theorem readStatement_assignment {value : Value} {name spaces text : List Char}
    (hkey : KeyForm key name) (hparts : key.length ≤ maxDepth) (hspaces : Spaces spaces)
    (hstart : ∀ c ∈ text.head?, ¬ isSpace c)
    (hvalue : readValue maxDepth text = some (value, rest)) :
    readStatement (name ++ '=' :: (spaces ++ text)) = some (.assignment key value, rest) := by
  unfold readStatement
  split
  next heq =>
    refine absurd ?_ (hkey.head?_ne ('=' :: (spaces ++ text)))
    rw [heq, List.head?_cons]
  next heq =>
    refine absurd ?_ (hkey.head?_ne ('=' :: (spaces ++ text)))
    rw [heq, List.head?_cons]
  next =>
    rw [readAssignment_of_form hkey hparts hspaces hstart hvalue]
    rfl

/-- Every form of a statement is read if its key does not have too many parts. -/
theorem readStatement_of_form (h : StatementForm statement written)
    (hparts : statement.key.length ≤ maxDepth) (hrest : Ends rest) :
    readStatement (written ++ rest) = some (statement, rest) := by
  cases h with
  | @header key name hkey =>
    have hclose : ∀ c ∈ (']' :: rest).head?, c ∈ ['=', ']'] := by
      rintro _ ⟨⟩
      decide
    have hread := readKey_of_form hkey hparts hclose
    simp only [List.cons_append, List.append_assoc, List.nil_append]
    unfold readStatement
    split
    next heq =>
      refine absurd ?_ (hkey.head?_ne (']' :: rest))
      rw [(List.cons.inj heq).2, List.head?_cons]
    next heq =>
      obtain rfl := (List.cons.inj heq).2
      rw [hread]
      rfl
    next hheader => exact absurd rfl (hheader _)
  | assignment hkey hspaces hvalue =>
    simp only [List.cons_append, List.append_assoc]
    exact readStatement_assignment hkey hparts hspaces (hvalue.not_isSpace rest)
      (readValue_of_form hvalue hrest 78)
  | table hkey hspaces hvalue =>
    simp only [List.cons_append, List.append_assoc]
    exact readStatement_assignment hkey hparts hspaces (hvalue.not_isSpace rest)
      (readValue_of_bracedForm hvalue 77 rest)

/-! ### Lines -/

/-- What begins like a statement begins with nothing else. -/
theorem BeginsStatement.ne {c : Char} (h : BeginsStatement written)
    (hc : ¬ isKeyChar c ∧ c ≠ '"' ∧ c ≠ '\'' ∧ c ≠ '[') (rest : List Char) :
    (written ++ rest).head? ≠ some c := by
  rcases h with hbracket | hkey
  · rw [List.head?_append, hbracket]
    exact fun heq ↦ hc.2.2.2 (Option.some.inj heq).symm
  · exact hkey.ne ⟨hc.1, hc.2.1, hc.2.2.1⟩ rest

theorem BeginsStatement.not_isSpace (h : BeginsStatement written) (rest : List Char) :
    ∀ c ∈ (written ++ rest).head?, ¬ isSpace c := by
  intro c hc hspace
  simp only [isSpace, Bool.or_eq_true, beq_iff_eq] at hspace
  rcases hspace with rfl | rfl
  · exact h.ne (by decide) rest hc
  · exact h.ne (by decide) rest hc

theorem BeginsStatement.not_startsLine (h : BeginsStatement written) (rest : List Char) :
    ¬ ((written ++ rest).head? = some '#' ∨ startsLine (written ++ rest)) := by
  rintro (hcomment | hline)
  · exact h.ne (by decide) rest hcomment
  · unfold startsLine at hline
    split at hline
    next heq => exact h.ne (c := '\n') (by decide) rest (by rw [heq, List.head?_cons])
    next heq => exact h.ne (c := '\r') (by decide) rest (by rw [heq, List.head?_cons])
    next => cases hline

theorem BeginsStatement.ne_nil (h : BeginsStatement written) (rest : List Char) :
    written ++ rest ≠ [] := by
  rcases h with hbracket | ⟨c, more, rfl, -⟩
  · cases written with
    | nil => cases hbracket
    | cons c written => exact List.cons_ne_nil _ _
  · exact List.cons_ne_nil _ _

theorem Spaces.append {spaces spaces' : List Char} (h : Spaces spaces) (h' : Spaces spaces') :
    Spaces (spaces ++ spaces') :=
  List.forall_mem_append.mpr ⟨h, h'⟩

theorem skipSpaces_of_startsLine {spaces text : List Char} (hspaces : Spaces spaces)
    (h : text.head? = some '#' ∨ startsLine text) : skipSpaces (spaces ++ text) = text := by
  refine skipSpaces_append hspaces fun c hc ↦ ?_
  rcases h with hcomment | hline
  · rw [hcomment] at hc
    cases hc
    decide
  · unfold startsLine at hline
    split at hline
    · cases hc
      decide
    · cases hc
      decide
    · cases hline

/-- A line without a statement is skipped if it is not the whole rest of the text. -/
theorem readStatements_skip {spaces text : List Char} (hspaces : Spaces spaces)
    (hstart : text.head? = some '#' ∨ startsLine text) (hend : endLine text = some after)
    (fuel : Nat) : readStatements (fuel + 1) (spaces ++ text) = readStatements fuel after := by
  rw [readStatements, skipSpaces_of_startsLine hspaces hstart]
  split
  · rcases hstart with hcomment | hline
    · cases hcomment
    · cases hline
  · rw [if_pos hstart, hend, Option.bind_some]

theorem eq_nil_of_readStatements_nil (h : readStatements fuel [] = some more) : more = [] := by
  cases fuel with
  | zero => cases h
  | succ fuel =>
    cases h
    rfl

/-- A line is read with its end, if the lines after it are. -/
theorem readStatements_line (h : LineOf statements line) (hrest : AfterLine rest after)
    (hparts : ∀ statement ∈ statements, statement.key.length ≤ maxDepth)
    (hmore : readStatements fuel after = some more) :
    readStatements (fuel + 1) (line ++ rest) = some (statements ++ more) := by
  cases h with
  | blank htail =>
    cases htail with
    | spaces hspaces =>
      cases hrest with
      | nothing =>
        have hskip : skipSpaces (line ++ []) = [] := skipSpaces_append hspaces (by rintro _ ⟨⟩)
        rw [eq_nil_of_readStatements_nil hmore, readStatements, hskip]
        rfl
      | @line ending after hending =>
        have hend : endLine ([] ++ (ending ++ after)) = some after :=
          endLine_tail (.spaces spaces_nil) (.line hending)
        rw [readStatements_skip hspaces (Or.inr (startsLine_append hending after)) hend, hmore]
        rfl
    | @comment spaces comment hspaces hcomment =>
      have hstart : (comment ++ rest).head? = some '#' := by
        obtain ⟨characters, rfl, -⟩ := hcomment
        rfl
      rw [List.append_assoc, readStatements_skip hspaces (Or.inl hstart)
        (endLine_tail (.comment spaces_nil hcomment) hrest), hmore]
      rfl
  | @statement statement spaces written tail hspaces hstatement htail =>
    obtain ⟨before, bare, rfl, hbefore, hstatement, hbegins⟩ := hstatement.exists_spaces
    have hskip : skipSpaces (spaces ++ before ++ (bare ++ (tail ++ rest))) =
        bare ++ (tail ++ rest) :=
      skipSpaces_append (hspaces.append hbefore) (hbegins.not_isSpace _)
    have hread := readStatement_of_form hstatement (hparts statement List.mem_cons_self)
      (htail.ends hrest.ends)
    have hline : spaces ++ (before ++ bare ++ tail) ++ rest =
        spaces ++ before ++ (bare ++ (tail ++ rest)) := by
      simp only [List.append_assoc]
    rw [hline, readStatements, hskip]
    split
    next heq => exact absurd heq (hbegins.ne_nil _)
    next =>
      rw [if_neg (hbegins.not_startsLine _), hread, Option.bind_some]
      dsimp only
      rw [endLine_tail htail hrest, Option.bind_some, hmore]
      rfl

theorem StatementForm.ne_nil (h : StatementForm statement written) : written ≠ [] := by
  obtain ⟨spaces, bare, rfl, -, -, hbegins⟩ := h.exists_spaces
  exact List.append_ne_nil_of_right_ne_nil _ (by simpa using hbegins.ne_nil [])

theorem LineOf.eq_nil (h : LineOf statements line) (hline : line = []) : statements = [] := by
  cases h with
  | blank _ => rfl
  | statement _ hstatement _ =>
    rw [List.append_eq_nil_iff, List.append_eq_nil_iff] at hline
    exact absurd hline.2.1 hstatement.ne_nil

theorem LineEnd.length_pos {ending : List Char} (h : LineEnd ending) : 0 < ending.length := by
  cases h <;> exact Nat.succ_pos _

theorem readStatements_of_form (h : LinesOf statements written)
    (hparts : ∀ statement ∈ statements, statement.key.length ≤ maxDepth)
    (hfuel : written.length < fuel) : readStatements fuel written = some statements := by
  obtain ⟨fuel, rfl⟩ := Nat.exists_eq_add_one_of_ne_zero (Nat.ne_zero_of_lt hfuel)
  induction h generalizing fuel with
  | @last statements line hline =>
    cases fuel with
    | zero =>
      -- There is fuel for one line only if this one is empty.
      obtain rfl := List.eq_nil_of_length_eq_zero (Nat.lt_one_iff.mp hfuel)
      rw [hline.eq_nil rfl]
      rfl
    | succ fuel =>
      have hnone : readStatements (fuel + 1) [] = some [] := rfl
      have hread := readStatements_line hline .nothing hparts hnone
      rwa [List.append_nil, List.append_nil] at hread
  | next hline hending _ ih =>
    rw [List.forall_mem_append] at hparts
    simp only [List.length_append] at hfuel
    have hending' := hending.length_pos
    obtain ⟨fuel, rfl⟩ := Nat.exists_eq_add_one_of_ne_zero (n := fuel) (by omega)
    exact readStatements_line hline (.line hending) hparts.1 (ih hparts.2 fuel (by omega))

/-! ### Byte order marks -/

theorem head?_spaces_append {spaces : List Char} (hspaces : Spaces spaces)
    (h : rest.head? ≠ some '\ufeff') : (spaces ++ rest).head? ≠ some '\ufeff' := by
  cases spaces with
  | nil => exact h
  | cons c spaces =>
    rintro ⟨⟩
    exact absurd (hspaces '\ufeff' List.mem_cons_self) (by decide)

theorem LineOf.head?_ne (h : LineOf statements line) (hrest : rest.head? ≠ some '\ufeff') :
    (line ++ rest).head? ≠ some '\ufeff' := by
  cases h with
  | blank htail =>
    cases htail with
    | spaces hspaces => exact head?_spaces_append hspaces hrest
    | comment hspaces hcomment =>
      obtain ⟨characters, rfl, -⟩ := hcomment
      rw [List.append_assoc]
      exact head?_spaces_append hspaces (by rintro ⟨⟩)
  | statement hspaces hstatement _ =>
    obtain ⟨before, bare, rfl, hbefore, -, hbegins⟩ := hstatement.exists_spaces
    simp only [List.append_assoc]
    exact head?_spaces_append hspaces (head?_spaces_append hbefore (hbegins.ne (by decide) _))

/-- Lines do not begin with a byte order mark. -/
theorem LinesOf.head?_ne (h : LinesOf statements written) : written.head? ≠ some '\ufeff' := by
  cases h with
  | last hline =>
    have hne : (written ++ []).head? ≠ some '\ufeff' := hline.head?_ne (by rintro ⟨⟩)
    rwa [List.append_nil] at hne
  | next hline hending _ =>
    refine hline.head?_ne ?_
    cases hending <;> rintro ⟨⟩

/-- Every form of statements is read if their keys do not have too many parts. -/
theorem statements?_of_form (h : FileForm statements written)
    (hparts : ∀ statement ∈ statements, statement.key.length ≤ maxDepth) :
    statements? written = some statements := by
  cases h with
  | plain hlines =>
    simp only [statements?, if_neg hlines.head?_ne]
    exact readStatements_of_form hlines hparts (Nat.lt_succ_self _)
  | marked hlines => exact readStatements_of_form hlines hparts (Nat.lt_succ_self _)

end Montage.Toml
