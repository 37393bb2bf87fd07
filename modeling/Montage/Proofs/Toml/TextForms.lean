import Montage.Toml.Layout

/-!
# Forms of a text

One text can be written in many ways. `Body` says what may stand between quotes for which text, and
its derivations follow the characters that are written: a character for itself, a quote that does
not close the text, an escape, a line end, or a backslash that joins two lines and stands for
nothing. A closing delimiter of three quotes is found at the third quote in a row, so a body counts
the quotes in a row that come before it and stops at two of them.

Reading takes each of these steps back (`read_plain`, `read_escape`, `read_feed`, `read_join`), and
a run of quotes is either inside the body or ends it (`read_closing`). So every form of a text is
read as this text, whatever follows it (`readText_of_form`).
-/

set_option autoImplicit false
set_option relaxedAutoImplicit false

namespace Montage.Toml

/-! ### Forms -/

/-- The end of a line. -/
inductive LineEnd : List Char → Prop
  | feed : LineEnd ['\n']
  | returnFeed : LineEnd ['\r', '\n']

/-- Spaces and nothing else. -/
def Spaces (written : List Char) : Prop := ∀ c ∈ written, isSpace c

/-- Spaces and line ends. -/
inductive Blanks : List Char → Prop
  | nil : Blanks []
  | space {c : Char} {more : List Char} : isSpace c → Blanks more → Blanks (c :: more)
  | lineEnd {ending more : List Char} : LineEnd ending → Blanks more → Blanks (ending ++ more)

/-- The characters that have a letter for an escape, after their letters. -/
def letterEscapes : List (Char × Char) :=
  [('b', '\x08'), ('t', '\t'), ('n', '\n'), ('f', '\x0c'), ('r', '\r'), ('"', '"'), ('\\', '\\')]

/-- Hexadecimal digits and their value. -/
inductive IsCode : List Char → Nat → Prop
  | nil : IsCode [] 0
  | concat {digits : List Char} {code value : Nat} {digit : Char} : IsCode digits code →
      hexDigit? digit = some value → IsCode (digits ++ [digit]) (16 * code + value)

/-- What stands for a character after a backslash: its letter, or four or eight digits of its code
point. -/
inductive Escape : Char → List Char → Prop
  | letter {c letter : Char} : (letter, c) ∈ letterEscapes → Escape c [letter]
  | short {c : Char} {digits : List Char} : digits.length = 4 → IsCode digits c.toNat →
      Escape c ('u' :: digits)
  | long {c : Char} {digits : List Char} : digits.length = 8 → IsCode digits c.toNat →
      Escape c ('U' :: digits)

namespace Quotes

/-- The character that quotes are made of. -/
def mark : Quotes → Char
  | double | tripleDouble => '"'
  | single | tripleSingle => '\''

/-- Whether a backslash begins an escape. -/
def escapes : Quotes → Bool
  | double | tripleDouble => true
  | single | tripleSingle => false

/-- Whether a text may have several lines. -/
def spansLines : Quotes → Bool
  | double | single => false
  | tripleDouble | tripleSingle => true

/-- What opens and closes a text. -/
def delimiter (quotes : Quotes) : List Char :=
  List.replicate (if quotes.spansLines then 3 else 1) quotes.mark

end Quotes

/-- The character stands for itself. -/
structure Plain (quotes : Quotes) (c : Char) : Prop where
  visible : isVisible c
  ne_mark : c ≠ quotes.mark
  ne_backslash : quotes.escapes → c ≠ '\\'

/-- What stands for a text between quotes, after a number of quotes in a row. -/
inductive Body (quotes : Quotes) : Nat → List Char → List Char → Prop
  /-- Nothing is left. -/
  | nil {count : Nat} : Body quotes count [] []
  /-- A character stands for itself. -/
  | plain {count : Nat} {c : Char} {text written : List Char} : Plain quotes c →
      Body quotes 0 text written → Body quotes count (c :: text) (c :: written)
  /-- A quote stands for itself after less than two of them. -/
  | mark {count : Nat} {text written : List Char} : quotes.spansLines → count < 2 →
      Body quotes (count + 1) text written →
      Body quotes count (quotes.mark :: text) (quotes.mark :: written)
  /-- A backslash begins an escape. -/
  | escape {count : Nat} {c : Char} {code text written : List Char} : quotes.escapes →
      Escape c code → Body quotes 0 text written →
      Body quotes count (c :: text) ('\\' :: (code ++ written))
  /-- Every line end stands for a line feed. -/
  | feed {count : Nat} {ending text written : List Char} : quotes.spansLines → LineEnd ending →
      Body quotes 0 text written → Body quotes count ('\n' :: text) (ending ++ written)
  /-- A backslash at the end of a line stands for nothing, with all blanks after it. -/
  | join {count : Nat} {spaces ending blanks text written : List Char} :
      quotes.spansLines → quotes.escapes → Spaces spaces → LineEnd ending →
      Blanks blanks → (∀ c ∈ written.head?, ¬ isSpace c ∧ c ≠ '\n' ∧ c ≠ '\r') →
      Body quotes 0 text written →
      Body quotes count text ('\\' :: (spaces ++ (ending ++ (blanks ++ written))))

/-- What stands for a text on one line. -/
inductive LineForm : List Char → List Char → Prop
  | intro {quotes : Quotes} {text written : List Char} : quotes.spansLines = false →
      Body quotes 0 text written →
      LineForm text (quotes.delimiter ++ (written ++ quotes.delimiter))

/-- What stands for a text. Three quotes may be followed by a line end that does not count. -/
inductive TextForm : List Char → List Char → Prop
  | line {text written : List Char} : LineForm text written → TextForm text written
  | lines {quotes : Quotes} {opening text written : List Char} : quotes.spansLines →
      (LineEnd opening ∨ opening = [] ∧ ∀ c ∈ written.head?, c ≠ '\n' ∧ c ≠ '\r') →
      Body quotes 0 text written →
      TextForm text (quotes.delimiter ++ (opening ++ (written ++ quotes.delimiter)))

/-! ### Reading one step -/

/-- Reads a text up to its closing delimiter. -/
def Quotes.read : Quotes → Reader (List Char)
  | .double => readQuoted
  | .single => readLiteral
  | .tripleDouble => readQuotedLines false
  | .tripleSingle => readLiteralLines

variable {quotes : Quotes} {c : Char} {count value : Nat}
  {text written rest code digits ending blanks spaces : List Char}

theorem ne_of_isVisible (h : isVisible c) : c ≠ '\n' ∧ c ≠ '\r' := by
  constructor
  · rintro rfl
    exact absurd h (by decide)
  · rintro rfl
    exact absurd h (by decide)

theorem read_plain (h : Plain quotes c) (rest : List Char) :
    quotes.read (c :: rest) = before c (quotes.read rest) := by
  obtain ⟨hvisible, hmark, hbackslash⟩ := h
  obtain ⟨hfeed, hreturn⟩ := ne_of_isVisible hvisible
  cases quotes with
  | double =>
    have hquote : c ≠ '"' := hmark
    have hescape : c ≠ '\\' := hbackslash rfl
    simp [Quotes.read, readQuoted, hvisible, hescape]
  | single =>
    have hquote : c ≠ '\'' := hmark
    simp [Quotes.read, readLiteral, hvisible]
  | tripleDouble =>
    have hquote : c ≠ '"' := hmark
    have hescape : c ≠ '\\' := hbackslash rfl
    simp [Quotes.read, readQuotedLines, hvisible, hescape, hquote, hreturn]
  | tripleSingle =>
    have hquote : c ≠ '\'' := hmark
    simp [Quotes.read, readLiteralLines, hvisible, hquote, hreturn]

theorem mapM_hexDigit?_of_isCode (h : IsCode digits value) :
    ∃ values, digits.mapM hexDigit? = some values ∧
      values.foldl (fun code value ↦ 16 * code + value) 0 = value := by
  induction h with
  | nil => exact ⟨[], rfl, rfl⟩
  | @concat digits code value digit _ hdigit ih =>
    obtain ⟨values, hvalues, hcode⟩ := ih
    refine ⟨values ++ [value], ?_, by rw [List.foldl_append, hcode]; rfl⟩
    rw [List.mapM_append, hvalues, List.mapM_cons, hdigit]
    rfl

theorem ofHex?_of_isCode (h : IsCode digits c.toNat) : ofHex? digits = some c := by
  obtain ⟨values, hvalues, hcode⟩ := mapM_hexDigit?_of_isCode h
  have hvalid : c.toNat.isValidChar := c.valid
  simp only [ofHex?, hvalues, Option.bind_some, hcode, if_pos hvalid, Char.ofNat_toNat]

theorem eq_of_escapes (h : quotes.escapes) : quotes = .double ∨ quotes = .tripleDouble := by
  cases quotes with
  | double => exact Or.inl rfl
  | tripleDouble => exact Or.inr rfl
  | single => cases h
  | tripleSingle => cases h

theorem read_escape (hescapes : quotes.escapes) (h : Escape c code) (rest : List Char) :
    quotes.read ('\\' :: (code ++ rest)) = before c (quotes.read rest) := by
  cases h with
  | letter hletter =>
    have hletters : ∀ entry ∈ letterEscapes,
        quotes.read ('\\' :: entry.1 :: rest) = before entry.2 (quotes.read rest) := by
      simp only [letterEscapes, List.forall_mem_cons]
      rcases eq_of_escapes hescapes with rfl | rfl
      · exact ⟨rfl, rfl, rfl, rfl, rfl, rfl, rfl, List.forall_mem_nil _⟩
      · exact ⟨rfl, rfl, rfl, rfl, rfl, rfl, rfl, List.forall_mem_nil _⟩
    exact hletters _ hletter
  | @short digits hlength hcode =>
    have hchar := ofHex?_of_isCode hcode
    match digits, hlength, hchar with
    | [_, _, _, _], _, hchar =>
      rcases eq_of_escapes hescapes with rfl | rfl
      · exact congrArg (beforeSome · (readQuoted rest)) hchar
      · exact congrArg (beforeSome · (readQuotedLines false rest)) hchar
  | @long digits hlength hcode =>
    have hchar := ofHex?_of_isCode hcode
    match digits, hlength, hchar with
    | [_, _, _, _, _, _, _, _], _, hchar =>
      rcases eq_of_escapes hescapes with rfl | rfl
      · exact congrArg (beforeSome · (readQuoted rest)) hchar
      · exact congrArg (beforeSome · (readQuotedLines false rest)) hchar

theorem eq_of_spansLines (h : quotes.spansLines) :
    quotes = .tripleDouble ∨ quotes = .tripleSingle := by
  cases quotes with
  | double => cases h
  | tripleDouble => exact Or.inl rfl
  | single => cases h
  | tripleSingle => exact Or.inr rfl

theorem read_feed (hspans : quotes.spansLines) (h : LineEnd ending) (rest : List Char) :
    quotes.read (ending ++ rest) = before '\n' (quotes.read rest) := by
  rcases eq_of_spansLines hspans with rfl | rfl
  · cases h <;> rfl
  · cases h <;> rfl

/-! ### Joined lines -/

theorem readQuotedLines_blanks (h : Blanks blanks) (rest : List Char) :
    readQuotedLines true (blanks ++ rest) = readQuotedLines true rest := by
  induction h with
  | nil => rfl
  | @space c more hspace _ ih =>
    rw [List.cons_append, ← ih]
    simp only [isSpace, Bool.or_eq_true, beq_iff_eq] at hspace
    rcases hspace with rfl | rfl <;> rfl
  | lineEnd hending _ ih =>
    rw [List.append_assoc, ← ih]
    cases hending <;> rfl

/-- Once the blanks are over, the next line goes on as if it had not been joined. -/
theorem readQuotedLines_joined (h : ∀ c ∈ rest.head?, ¬ isSpace c ∧ c ≠ '\n' ∧ c ≠ '\r') :
    readQuotedLines true rest = readQuotedLines false rest := by
  cases rest with
  | nil => rfl
  | cons c rest =>
    obtain ⟨hspace, hfeed, hreturn⟩ := h c rfl
    unfold readQuotedLines
    split <;> simp_all

theorem startsLine_append (h : LineEnd ending) (rest : List Char) :
    startsLine (ending ++ rest) := by
  cases h <;> rfl

/-- Characters of a kind are told from what follows them if that begins with another one. -/
theorem takeWhile_dropWhile_append {kind : Char → Bool} (htext : ∀ c ∈ text, kind c)
    (hrest : ∀ c ∈ rest.head?, ¬ kind c) :
    (text ++ rest).takeWhile kind = text ∧ (text ++ rest).dropWhile kind = rest := by
  rw [List.takeWhile_append_of_pos htext, List.dropWhile_append_of_pos htext]
  cases rest with
  | nil => exact ⟨List.append_nil text, rfl⟩
  | cons c rest =>
    rw [List.takeWhile_cons_of_neg (hrest c rfl), List.dropWhile_cons_of_neg (hrest c rfl)]
    exact ⟨List.append_nil text, rfl⟩

theorem LineEnd.not_isSpace (h : LineEnd ending) (rest : List Char) :
    ∀ c ∈ (ending ++ rest).head?, ¬ isSpace c := by
  cases h <;> simp [isSpace]

/-- A backslash before the end of a line starts to skip blanks. -/
theorem readQuotedLines_backslash (h : startsLine (rest.dropWhile isSpace)) :
    readQuotedLines false ('\\' :: rest) = readQuotedLines true rest := by
  cases rest with
  | nil => cases h
  | cons c rest =>
    have hshort : c ≠ 'u' := by
      rintro rfl
      cases h
    have hlong : c ≠ 'U' := by
      rintro rfl
      cases h
    rw [readQuotedLines, if_pos h]
    · exact fun _ _ _ _ _ hc _ ↦ hshort hc
    · exact fun _ _ _ _ _ _ _ _ _ hc _ ↦ hlong hc

theorem blanks_of_spaces (hspaces : Spaces spaces) (h : Blanks blanks) :
    Blanks (spaces ++ blanks) := by
  induction spaces with
  | nil => exact h
  | cons c spaces ih =>
    obtain ⟨hc, hspaces⟩ := List.forall_mem_cons.mp hspaces
    exact .space hc (ih hspaces)

theorem read_join (hspans : quotes.spansLines) (hescapes : quotes.escapes)
    (hspaces : Spaces spaces) (hending : LineEnd ending) (hblanks : Blanks blanks)
    (hrest : ∀ c ∈ rest.head?, ¬ isSpace c ∧ c ≠ '\n' ∧ c ≠ '\r') :
    quotes.read ('\\' :: (spaces ++ (ending ++ (blanks ++ rest)))) = quotes.read rest := by
  rcases eq_of_spansLines hspans with rfl | rfl
  · have hstarts : startsLine ((spaces ++ (ending ++ (blanks ++ rest))).dropWhile isSpace) := by
      rw [(takeWhile_dropWhile_append hspaces (hending.not_isSpace _)).2]
      exact startsLine_append hending _
    have hskipped := readQuotedLines_blanks
      (blanks_of_spaces hspaces (.lineEnd hending hblanks)) rest
    rw [List.append_assoc, List.append_assoc] at hskipped
    exact (readQuotedLines_backslash hstarts).trans
      (hskipped.trans (readQuotedLines_joined hrest))
  · cases hescapes

/-! ### Runs of quotes -/

/-- A quote belongs to the text if it is not the first of three. -/
theorem read_mark (hspans : quotes.spansLines)
    (hrest : ∀ more, rest ≠ quotes.mark :: quotes.mark :: more) :
    quotes.read (quotes.mark :: rest) = before quotes.mark (quotes.read rest) := by
  rcases eq_of_spansLines hspans with rfl | rfl
  · simp only [Quotes.read, Quotes.mark] at hrest ⊢
    rw [readQuotedLines]
    · simp [isVisible]
    all_goals simp [hrest]
  · simp only [Quotes.read, Quotes.mark] at hrest ⊢
    rw [readLiteralLines]
    · simp [isVisible]
    all_goals simp [hrest]

/-- Three quotes close a text. Up to two more before them belong to it. -/
theorem read_closing (hspans : quotes.spansLines) (count : Nat) (hcount : count ≤ 2)
    (hrest : rest.head? ≠ some quotes.mark) :
    quotes.read (List.replicate count quotes.mark ++ (quotes.delimiter ++ rest)) =
      some (List.replicate count quotes.mark, rest) := by
  have hnext : ∀ more, rest ≠ quotes.mark :: more := by
    rintro more rfl
    exact hrest rfl
  rcases eq_of_spansLines hspans with rfl | rfl
  · match count, hcount with
    | 0, _ =>
      change readQuotedLines false ('"' :: '"' :: '"' :: rest) = some ([], rest)
      rw [readQuotedLines]
      all_goals exact fun _ ↦ hnext _
    | 1, _ =>
      change readQuotedLines false ('"' :: '"' :: '"' :: '"' :: rest) = some (['"'], rest)
      rw [readQuotedLines]
      exact fun _ ↦ hnext _
    | 2, _ => rfl
  · match count, hcount with
    | 0, _ =>
      change readLiteralLines ('\'' :: '\'' :: '\'' :: rest) = some ([], rest)
      rw [readLiteralLines]
      all_goals exact fun _ ↦ hnext _
    | 1, _ =>
      change readLiteralLines ('\'' :: '\'' :: '\'' :: '\'' :: rest) = some (['\''], rest)
      rw [readLiteralLines]
      exact fun _ ↦ hnext _
    | 2, _ => rfl

/-- A body begins with something else than a quote, or with one of at most two on several lines. -/
theorem Body.begins (h : Body quotes count text written) :
    written.head? ≠ some quotes.mark ∨ (quotes.spansLines ∧ count < 2) ∧ ∃ text' written',
      text = quotes.mark :: text' ∧ written = quotes.mark :: written' ∧
        Body quotes (count + 1) text' written' := by
  have hbackslash : '\\' ≠ quotes.mark := by cases quotes <;> decide
  cases h with
  | nil => exact Or.inl fun hmark ↦ by cases hmark
  | plain hplain _ => exact Or.inl fun hmark ↦ hplain.ne_mark (Option.some.inj hmark)
  | mark hspans hcount hbody => exact Or.inr ⟨⟨hspans, hcount⟩, _, _, rfl, rfl, hbody⟩
  | escape _ _ _ => exact Or.inl fun hmark ↦ hbackslash (Option.some.inj hmark)
  | feed _ hending _ =>
    have hfeed : '\n' ≠ quotes.mark ∧ '\r' ≠ quotes.mark := by cases quotes <;> decide
    cases hending with
    | feed => exact Or.inl fun hmark ↦ hfeed.1 (Option.some.inj hmark)
    | returnFeed => exact Or.inl fun hmark ↦ hfeed.2 (Option.some.inj hmark)
  | join _ _ _ _ _ _ _ => exact Or.inl fun hmark ↦ hbackslash (Option.some.inj hmark)

theorem Body.eq_nil (h : Body quotes count text written) (hwritten : written = []) :
    text = [] := by
  cases h with
  | nil => rfl
  | plain _ _ => cases hwritten
  | mark _ _ _ => cases hwritten
  | escape _ _ _ => cases hwritten
  | feed _ hending _ => cases hending <;> cases hwritten
  | join _ _ _ _ _ _ _ => cases hwritten

/-! ### Reading a text -/

/-- The delimiter closes a text. -/
theorem read_delimiter (hrest : quotes.spansLines → rest.head? ≠ some quotes.mark) :
    quotes.read (quotes.delimiter ++ rest) = some ([], rest) := by
  cases quotes with
  | double => rfl
  | single => rfl
  | tripleDouble => exact read_closing rfl 0 (by decide) (hrest rfl)
  | tripleSingle => exact read_closing rfl 0 (by decide) (hrest rfl)

/-- A body and its delimiter begin with something that the body begins with or with a quote. -/
theorem forall_head?_body {p : Char → Prop} (hmark : p quotes.mark)
    (h : ∀ c ∈ written.head?, p c) :
    ∀ c ∈ (written ++ (quotes.delimiter ++ rest)).head?, p c := by
  cases written with
  | nil =>
    have hhead : (quotes.delimiter ++ rest).head? = some quotes.mark := by cases quotes <;> rfl
    rintro c hc
    rw [List.nil_append, hhead] at hc
    cases hc
    exact hmark
  | cons c written => exact h

/-- What stands for a text between quotes is read as this text. -/
theorem read_body (h : Body quotes count text written)
    (hrest : quotes.spansLines → rest.head? ≠ some quotes.mark) :
    quotes.read (written ++ (quotes.delimiter ++ rest)) = some (text, rest) := by
  induction h with
  | nil => exact read_delimiter hrest
  | plain hplain _ ih =>
    rw [List.cons_append, read_plain hplain, ih]
    rfl
  | @mark count text written hspans hcount hbody ih =>
    -- Quotes at the end of the body are read together with the delimiter, all others one by one.
    have hpeel (hmore : ∀ more, written ++ (quotes.delimiter ++ rest) ≠
        quotes.mark :: quotes.mark :: more) :
        quotes.read (quotes.mark :: (written ++ (quotes.delimiter ++ rest))) =
          some (quotes.mark :: text, rest) := by
      rw [read_mark hspans hmore, ih]
      rfl
    rcases hbody.begins with hne | ⟨-, text', written', rfl, rfl, hafter⟩
    · cases written with
      | nil =>
        obtain rfl := hbody.eq_nil rfl
        exact read_closing hspans 1 (by decide) (hrest hspans)
      | cons c written =>
        refine hpeel fun more hmore ↦ hne ?_
        rw [(List.cons.inj hmore).1, List.head?_cons]
    · have hne := hafter.begins.resolve_right fun ⟨⟨_, hless⟩, _⟩ ↦ by omega
      cases written' with
      | nil =>
        obtain rfl := hafter.eq_nil rfl
        exact read_closing hspans 2 (by decide) (hrest hspans)
      | cons c written' =>
        refine hpeel fun more hmore ↦ hne ?_
        rw [(List.cons.inj (List.cons.inj hmore).2).1, List.head?_cons]
  | escape hescapes hescape _ ih =>
    rw [List.cons_append, List.append_assoc, read_escape hescapes hescape, ih]
    rfl
  | feed hspans hending _ ih =>
    rw [List.append_assoc, read_feed hspans hending, ih]
    rfl
  | @join _ _ _ _ text written hspans hescapes hspaces hending hblanks hnext _ ih =>
    simp only [List.cons_append, List.append_assoc]
    rw [read_join hspans hescapes hspaces hending hblanks, ih]
    exact forall_head?_body (by cases quotes <;> decide) hnext

/-- A text on one line is read, whatever follows it. -/
theorem readLineText_of_form (h : LineForm text written) (rest : List Char) :
    readLineText (written ++ rest) = some (text, rest) := by
  cases h with
  | @intro quotes text written hspans hbody =>
    have hread : quotes.read (written ++ (quotes.delimiter ++ rest)) = some (text, rest) :=
      read_body hbody fun h ↦ absurd (hspans.symm.trans h) (by decide)
    rw [List.append_assoc, List.append_assoc]
    cases quotes with
    | double => exact hread
    | single => exact hread
    | tripleDouble => cases hspans
    | tripleSingle => cases hspans

/-- A text on one line does not begin with three quotes if none follows it. -/
theorem LineForm.not_delimiter_prefix (h : LineForm text written)
    (hrest : ∀ quotes : Quotes, rest.head? ≠ some quotes.mark) (hspans : quotes.spansLines) :
    ¬ quotes.delimiter <+: written ++ rest := by
  cases h with
  | @intro quotes' text written hline hbody =>
    rintro ⟨more, hmore⟩
    have hthree : quotes.delimiter = [quotes.mark, quotes.mark, quotes.mark] := by
      rw [Quotes.delimiter, if_pos hspans]
      rfl
    have hone : quotes'.delimiter = [quotes'.mark] := by
      rw [Quotes.delimiter, hline]
      rfl
    simp only [hthree, hone, List.cons_append, List.nil_append, List.append_assoc] at hmore
    obtain ⟨hmark, hmore⟩ := List.cons.inj hmore
    rw [hmark] at hmore
    have hne := hbody.begins.resolve_right fun ⟨⟨hlines, _⟩, _⟩ ↦
      absurd (hline.symm.trans hlines) (by decide)
    cases written with
    | nil =>
      refine hrest quotes' ?_
      rw [← (List.cons.inj hmore).2, List.head?_cons]
    | cons c written =>
      refine hne ?_
      rw [← (List.cons.inj hmore).1, List.head?_cons]

/-- A text that does not begin with three quotes is on one line. -/
theorem readText_eq_readLineText
    (h : ∀ quotes : Quotes, quotes.spansLines → ¬ quotes.delimiter <+: text) :
    readText text = readLineText text := by
  unfold readText
  split
  · exact absurd (List.prefix_append _ _) (h .tripleDouble rfl)
  · exact absurd (List.prefix_append _ _) (h .tripleSingle rfl)
  · rfl

theorem dropLineEnd_append (h : LineEnd ending) (rest : List Char) :
    dropLineEnd (ending ++ rest) = rest := by
  cases h <;> rfl

theorem dropLineEnd_of_head? (h : ∀ c ∈ text.head?, c ≠ '\n' ∧ c ≠ '\r') :
    dropLineEnd text = text := by
  unfold dropLineEnd
  split
  · exact absurd rfl (h _ rfl).1
  · exact absurd rfl (h _ rfl).2
  · rfl

/-- A text with three quotes for one is read if none follows it. -/
theorem readText_of_form (h : TextForm text written)
    (hrest : ∀ quotes : Quotes, rest.head? ≠ some quotes.mark) :
    readText (written ++ rest) = some (text, rest) := by
  cases h with
  | line hline =>
    rw [readText_eq_readLineText fun _ ↦ hline.not_delimiter_prefix hrest,
      readLineText_of_form hline]
  | @lines quotes opening text written hspans hopening hbody =>
    have hread : quotes.read (written ++ (quotes.delimiter ++ rest)) = some (text, rest) :=
      read_body hbody fun _ ↦ hrest quotes
    have hdrop : dropLineEnd (opening ++ (written ++ (quotes.delimiter ++ rest))) =
        written ++ (quotes.delimiter ++ rest) := by
      rcases hopening with hending | ⟨rfl, hstart⟩
      · exact dropLineEnd_append hending _
      · exact dropLineEnd_of_head? (forall_head?_body (by cases quotes <;> decide) hstart)
    simp only [List.append_assoc]
    rcases eq_of_spansLines hspans with rfl | rfl
    · exact (congrArg (readQuotedLines false) hdrop).trans hread
    · exact (congrArg readLiteralLines hdrop).trans hread

end Montage.Toml
