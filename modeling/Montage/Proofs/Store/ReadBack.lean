import Montage.Proofs.Store.Names

/-!
# Reading what was written

Nothing can be written to a directory, so the directories on the way to a file stay what they were
when it is written (`foldlM_step_put`). A path that could be written to therefore leads to what was
written there, and a text reads back as it was (`readText_of_write`).
-/

set_option autoImplicit false
set_option relaxedAutoImplicit false

namespace Montage.Store

variable {store next : Store} {place other start found : Location} {path : Path}
  {piece : List Char} {entry : Entry}

/-! ### Reading a text -/

theorem fromUTF8?_toUTF8 (text : String) : String.fromUTF8? text.toUTF8 = some text := by
  rw [String.fromUTF8?, String.toUTF8_eq_toByteArray, dif_pos text.isValidUTF8]
  rfl

/-- A file with the bytes of a text is read as this text. -/
theorem readText_of_find {text : String} {executable : Bool}
    (h : store.find path = .ok (.file text.toUTF8 executable)) :
    store.readText path = .ok text := by
  have hbytes : store.readBytes path = .ok text.toUTF8 := by
    rw [Store.readBytes, h]
    rfl
  rw [Store.readText, hbytes]
  dsimp only [bind, Except.bind]
  rw [fromUTF8?_toUTF8]
  rfl

/-! ### Putting an entry in its place -/

theorem entryAt?_put_self (h : place ≠ []) (entry : Entry) :
    (store.put place entry).entryAt? place = some entry := by
  rw [entryAt?, if_neg h]
  exact List.lookup_cons_self

theorem lookup_filter_ne (h : other ≠ place) (entries : List (Location × Entry)) :
    (entries.filter (·.1 ≠ place)).lookup other = entries.lookup other := by
  induction entries with
  | nil => rfl
  | cons entry entries ih =>
    rw [List.filter_cons]
    split_ifs with hentry
    · rw [List.lookup_cons, List.lookup_cons, ih]
    · have hne : (other == entry.1) = false := by
        rw [beq_eq_false_iff_ne, show entry.1 = place by simpa using hentry]
        exact h
      rw [ih, List.lookup_cons, hne]

/-- All other places hold what they did. -/
theorem entryAt?_put_of_ne (h : other ≠ place) (entry : Entry) :
    (store.put place entry).entryAt? other = store.entryAt? other := by
  have hne : (other == place) = false := beq_eq_false_iff_ne.mpr h
  rw [entryAt?, entryAt?, put, List.lookup_cons, hne, lookup_filter_ne h]

/-! ### Following a path -/

theorem entryAt?_of_step (h : store.step start piece = .ok found) :
    store.entryAt? start = some .directory := by
  unfold Store.step at h
  split at h
  · cases h
  · cases h
  · assumption

/-- A step starts from a directory, which is not the place of the new entry. -/
theorem step_put (hplace : store.entryAt? place ≠ some .directory)
    (h : store.step start piece = .ok found) :
    (store.put place entry).step start piece = .ok found := by
  have hstart := entryAt?_of_step h
  have hne : start ≠ place := by
    rintro rfl
    exact hplace hstart
  rw [← h, Store.step, Store.step, entryAt?_put_of_ne hne]

theorem foldlM_step_put (hplace : store.entryAt? place ≠ some .directory)
    {pieces : List (List Char)} (h : pieces.foldlM store.step start = .ok found) :
    pieces.foldlM (store.put place entry).step start = .ok found := by
  induction pieces generalizing start with
  | nil => exact h
  | cons piece pieces ih =>
    rw [List.foldlM_cons] at h ⊢
    obtain ⟨between, hstep, hrest⟩ := Failure.bind_eq_ok.mp h
    exact Failure.bind_eq_ok.mpr ⟨between, step_put hplace hstep, ih hrest⟩

/-- A path leads where it led before there was something at its end. -/
theorem locate_put (hplace : store.entryAt? place ≠ some .directory)
    (h : store.locate path = .ok found) : (store.put place entry).locate path = .ok found := by
  unfold Store.locate Store.follow at h ⊢
  split_ifs at h ⊢ <;> exact foldlM_step_put hplace h

/-- A path that does not end in a separator has no pieces at its end that do not count. -/
theorem locateNew_eq_locate (h : path.text.toList.getLast? ≠ some '/') :
    store.locateNew path = store.locate path := by
  rcases List.eq_nil_or_concat' path.text.toList with hnil | ⟨front, c, hpath⟩
  · have hempty : path.text.isEmpty := by simpa using hnil
    simp only [Store.locateNew, Store.locate, Store.follow, if_pos hempty]
  · have hc : ∀ d ∈ [c], (d == '/') = false := by
      rintro d hd
      rw [List.mem_singleton.mp hd, beq_eq_false_iff_ne]
      rintro rfl
      exact h (by rw [hpath, List.getLast?_concat])
    obtain ⟨pieces, last, -, hpieces⟩ := Text.cut_append_right hc front
    have hends : path.pieces = pieces ++ [last ++ [c]] := by
      rw [Path.pieces, hpath, hpieces]
    rw [Store.locateNew, Store.locate, hends, List.reverse_append, List.reverse_singleton,
      List.singleton_append, List.dropWhile_cons_of_neg (by simp), List.reverse_cons,
      List.reverse_reverse]

/-! ### Writing -/

/-- Writing puts a file in a place that is no directory. -/
theorem exists_put_of_write {content : ByteArray → ByteArray}
    (h : store.write path content = .ok next) :
    ∃ place old executable, store.locate path = .ok place ∧
      store.entryAt? place ≠ some .directory ∧
      next = store.put place (.file (content old) executable) := by
  obtain ⟨place, hplace, hrest⟩ := Failure.bind_eq_ok.mp h
  dsimp only at hrest
  split_ifs at hrest with hslash
  · cases hrest
  · rw [locateNew_eq_locate hslash] at hplace
    split at hrest
    next => cases hrest
    next old executable hfile =>
      cases hrest
      exact ⟨place, old, executable, hplace, by simp [hfile], rfl⟩
    next hmissing =>
      split at hrest
      · cases hrest
        exact ⟨place, .empty, false, hplace, by simp [hmissing], rfl⟩
      · cases hrest
      · cases hrest

/-- A text that was written is read as it was. -/
theorem readText_of_write {text : String} (h : store.write path (fun _ ↦ text.toUTF8) = .ok next) :
    next.readText path = .ok text := by
  obtain ⟨place, old, executable, hlocate, hplace, rfl⟩ := exists_put_of_write h
  -- The root is a directory, so the place is not the root.
  have hroot : place ≠ [] := by
    rintro rfl
    exact hplace rfl
  have hfind : (store.put place (.file text.toUTF8 executable)).find path =
      .ok (.file text.toUTF8 executable) := by
    rw [Store.find, locate_put hplace hlocate]
    dsimp only [bind, Except.bind]
    rw [entryAt?_put_self hroot]
    rfl
  exact readText_of_find hfind

end Montage.Store
