import Montage.Proofs.Path.Siblings
import Montage.Store.Basic

/-!
# Names in a store

The places of a store are named as files can be (`Store.WellNamed`): no name is empty, is `.` or
`..`, or holds a separator. A path is followed by its pieces, which hold no separators, and the
other three are not taken for names, so a path leads from such a place to such a place only
(`WellNamed.follow`). Whatever is written, made or removed, the store stays well named, and the
names that it lists are names of files (`WellNamed.isFileName`).
-/

set_option autoImplicit false
set_option relaxedAutoImplicit false

namespace Montage.Store

open Montage.Path

variable {store next : Store} {place found : Location} {path : Path} {piece : List Char}

/-- The names that lead to a place can be names of files. -/
def IsPlace (place : Location) : Prop := ∀ name ∈ place, IsFileName name.toList

instance (place : Location) : Decidable (IsPlace place) :=
  inferInstanceAs (Decidable (∀ name ∈ place, IsFileName name.toList))

/-- All places of the store are named as files can be. -/
structure WellNamed (store : Store) : Prop where
  entries : ∀ entry ∈ store.entries, IsPlace entry.1
  workingDirectory : IsPlace store.workingDirectory

/-! ### Following a path -/

theorem isPlace_root : IsPlace [] := List.forall_mem_nil _

theorem IsPlace.dropLast (h : IsPlace place) : IsPlace place.dropLast :=
  fun name hname ↦ h name ((List.dropLast_sublist place).subset hname)

theorem IsPlace.append (h : IsPlace place) {name : String} (hname : IsFileName name.toList) :
    IsPlace (place ++ [name]) := by
  intro other hother
  rcases List.mem_append.mp hother with hother | hother
  · exact h other hother
  · rwa [List.mem_singleton.mp hother]

/-- A piece leads to a place named like the one it starts from. -/
theorem IsPlace.step (h : IsPlace place) (hpiece : '/' ∉ piece)
    (hstep : store.step place piece = .ok found) : IsPlace found := by
  unfold Store.step at hstep
  split at hstep
  · cases hstep
  · cases hstep
  · split_ifs at hstep with hhere hparent hlong
    · cases hstep
      exact h
    · cases hstep
      exact h.dropLast
    · cases hstep
      refine h.append ?_
      rw [String.toList_ofList]
      exact ⟨fun hnil ↦ hhere (Or.inl hnil), fun hdot ↦ hhere (Or.inr hdot), hparent, hpiece⟩

theorem IsPlace.foldlM (h : IsPlace place) {pieces : List (List Char)}
    (hpieces : ∀ piece ∈ pieces, '/' ∉ piece)
    (hfollow : pieces.foldlM store.step place = .ok found) : IsPlace found := by
  induction pieces generalizing place with
  | nil =>
    cases hfollow
    exact h
  | cons piece pieces ih =>
    obtain ⟨hpiece, hpieces⟩ := List.forall_mem_cons.mp hpieces
    rw [List.foldlM_cons] at hfollow
    obtain ⟨between, hstep, hrest⟩ := Failure.bind_eq_ok.mp hfollow
    exact ih (h.step hpiece hstep) hpieces hrest

/-- A path that is neither empty nor too long, and has no character with code zero, is followed
piece by piece. -/
theorem follow_eq_foldlM (hne : path.text ≠ "") (hzero : '\x00' ∉ path.text.toList)
    (hlength : path.text.utf8ByteSize < maxPathLength) (pieces : List (List Char)) :
    store.follow path pieces =
      pieces.foldlM store.step (if path.isAbsolute then [] else store.workingDirectory) := by
  have hcontains : ¬ path.text.contains '\x00' := by
    simpa only [String.contains_char_eq, decide_eq_true_eq] using hzero
  rw [Store.follow, if_neg (by simpa using hne), if_neg hcontains, if_neg (Nat.not_le.mpr hlength)]

theorem slash_notMem_of_mem_pieces (hpiece : piece ∈ path.pieces) : '/' ∉ piece := by
  intro hslash
  have hfalse := Text.isSeparator_of_mem_cut hpiece hslash
  cases hfalse

/-- A path leads to a place that is named as files can be. -/
theorem WellNamed.follow (h : store.WellNamed) {pieces : List (List Char)}
    (hpieces : ∀ piece ∈ pieces, piece ∈ path.pieces)
    (hfollow : store.follow path pieces = .ok found) : IsPlace found := by
  unfold Store.follow at hfollow
  split_ifs at hfollow
  · refine isPlace_root.foldlM (fun piece hpiece ↦ ?_) hfollow
    exact slash_notMem_of_mem_pieces (hpieces piece hpiece)
  · refine h.workingDirectory.foldlM (fun piece hpiece ↦ ?_) hfollow
    exact slash_notMem_of_mem_pieces (hpieces piece hpiece)

theorem WellNamed.locate (h : store.WellNamed) (hlocate : store.locate path = .ok found) :
    IsPlace found :=
  h.follow (fun _ hpiece ↦ hpiece) hlocate

theorem WellNamed.locateNew (h : store.WellNamed) (hlocate : store.locateNew path = .ok found) :
    IsPlace found := by
  refine h.follow (fun piece hpiece ↦ ?_) hlocate
  rw [List.mem_reverse] at hpiece
  exact List.mem_reverse.mp ((List.dropWhile_sublist _).subset hpiece)

/-! ### Changing a store -/

theorem WellNamed.put (h : store.WellNamed) (hplace : IsPlace place) (entry : Entry) :
    (store.put place entry).WellNamed where
  entries := by
    refine List.forall_mem_cons.mpr ⟨hplace, fun other hother ↦ ?_⟩
    exact h.entries other (List.mem_filter.mp hother).1
  workingDirectory := h.workingDirectory

theorem WellNamed.clear (h : store.WellNamed) (place : Location) :
    (store.clear place).WellNamed where
  entries other hother := h.entries other (List.mem_filter.mp hother).1
  workingDirectory := h.workingDirectory

theorem WellNamed.write (h : store.WellNamed) {content : ByteArray → ByteArray}
    (hwrite : store.write path content = .ok next) : next.WellNamed := by
  obtain ⟨place, hplace, hrest⟩ := Failure.bind_eq_ok.mp hwrite
  have hput (entry : Entry) : (store.put place entry).WellNamed := h.put (h.locateNew hplace) entry
  dsimp only at hrest
  split_ifs at hrest
  · cases hrest
  · split at hrest
    · cases hrest
    · cases hrest
      exact hput _
    · split at hrest
      · cases hrest
        exact hput _
      · cases hrest
      · cases hrest

theorem WellNamed.setExecutable (h : store.WellNamed) {executable : Bool}
    (hset : store.setExecutable path executable = .ok next) : next.WellNamed := by
  obtain ⟨place, hplace, hrest⟩ := Failure.bind_eq_ok.mp hset
  split at hrest
  · cases hrest
    exact h.put (h.locate hplace) _
  · cases hrest
    exact h
  · cases hrest

theorem WellNamed.remove (h : store.WellNamed) (hremove : store.remove path = .ok next) :
    next.WellNamed := by
  obtain ⟨place, -, hrest⟩ := Failure.bind_eq_ok.mp hremove
  split at hrest
  · cases hrest
    exact h.clear place
  · cases hrest

theorem WellNamed.makeDirectory (h : store.WellNamed)
    (hmake : store.makeDirectory path = .ok next) : next.WellNamed := by
  obtain ⟨place, hplace, hrest⟩ := Failure.bind_eq_ok.mp hmake
  split at hrest
  · cases hrest
  · cases hrest
    exact h.put (h.locateNew hplace) _
  · cases hrest
  · cases hrest

theorem WellNamed.makeNested (h : store.WellNamed) {paths : List Path}
    (hmake : store.makeNested paths = .ok next) : next.WellNamed := by
  induction paths generalizing store next with
  | nil =>
    cases hmake
    exact h
  | cons path above ih =>
    unfold Store.makeNested at hmake
    split at hmake
    next =>
      obtain ⟨between, hbetween, hrest⟩ := Failure.bind_eq_ok.mp hmake
      have hnamed := ih h hbetween
      split at hrest
      next =>
        split_ifs at hrest
        cases hrest
        exact hnamed
      next => exact hnamed.makeDirectory hrest
    next =>
      split_ifs at hmake
      cases hmake
      exact h
    next => exact h.makeDirectory hmake

theorem WellNamed.makeDirectories (h : store.WellNamed)
    (hmake : store.makeDirectories path = .ok next) : next.WellNamed :=
  h.makeNested hmake

/-! ### Listing a directory -/

/-- The names in a directory are names of files. -/
theorem WellNamed.isFileName (h : store.WellNamed) {names : List String}
    (hnames : store.namesIn path = .ok names) {name : String} (hname : name ∈ names) :
    IsFileName name.toList := by
  obtain ⟨place, -, hrest⟩ := Failure.bind_eq_ok.mp hnames
  split at hrest
  · cases hrest
  · cases hrest
  · cases hrest
    obtain ⟨⟨other, entry⟩, hentry, hlast⟩ := List.mem_filterMap.mp hname
    obtain ⟨-, hlast⟩ := Option.ite_none_right_eq_some.mp hlast
    exact h.entries _ hentry name (List.mem_of_getLast? hlast)

end Montage.Store
