import Mathlib.Data.List.FinRange
import Mathlib.Logic.Equiv.Basic
import Montage.Proofs.Timing.Coverage

/-!
# The order of declaration

Changes are applied in the order of their declaration, each to what the ones before have left, and
yet this order matters only among changes at the same time of the same recording. Two changes that
are not tied in this way commute on every interval (`pieces_flatMap_comm`): at most one of them lies
in the interval, or they lie in it one behind the other and leave the same three pieces in either
order. Reorderings that keep the order of tied changes (`KeepsTies`) therefore resolve to the same
fragments, and so does sorting by time (`chronological`), as long as the sort is stable.

The step from two changes to all reorderings goes through the changes tied with a given one. A
reordering that keeps ties leaves each such sublist as it is (`KeepsTies.tiedWith_eq`), so the
change that comes first in one list stands in the other behind changes it commutes with.
-/

set_option autoImplicit false
set_option relaxedAutoImplicit false

namespace Montage.Timing

open Numeric Montage.Timing.Interval

variable {source : Path} {start stop : Binary64} {i : Interval} {intervals : List Interval}
  {changes reordered : List SpeedChange} {c d e : SpeedChange}

/-- Two changes at the same time of the same recording. -/
def Tied (c d : SpeedChange) : Prop := c.time.agrees d.time ∧ c.source.Same d.source

instance (c d : SpeedChange) : Decidable (Tied c d) := inferInstanceAs (Decidable (_ ∧ _))

theorem Tied.symm (h : Tied c d) : Tied d c := ⟨Binary64.agrees_comm.mp h.1, h.2.symm⟩

theorem Tied.trans (hcd : Tied c d) (hde : Tied d e) : Tied c e :=
  ⟨Binary64.agrees_trans hcd.1 hde.1, hcd.2.trans hde.2⟩

theorem tied_self (h : c.time ≠ .nan) : Tied c c := ⟨Binary64.agrees_self h, Path.Same.refl _⟩

/-! ### Two changes -/

/-- Two changes one behind the other in an interval leave the same pieces in either order. -/
theorem Interval.Spans.pieces_flatMap_comm (hi : i.Spans source start stop) (hc : i.Contains c)
    (hd : i.Contains d) (hlt : c.time < d.time) :
    (i.pieces c).flatMap (·.pieces d) = (i.pieces d).flatMap (·.pieces c) := by
  obtain ⟨hcsource, hcstart, hcstop⟩ := hi.contains_iff.mp hc
  obtain ⟨hdsource, hdstart, hdstop⟩ := hi.contains_iff.mp hd
  have hfront := hi.head (Binary64.lt_of_le_of_lt hcstart hlt)
  have hback := hi.tail hdstop d.speed
  have hfrontc := hfront.contains_iff.mpr ⟨hcsource, hcstart, hlt⟩
  have hbackc : ¬ Interval.Contains _ c := fun h ↦
    Binary64.not_lt_of_le (hback.contains_iff.mp h).2.1 hlt
  rw [hi.pieces_of_lt hd (Binary64.lt_of_le_of_lt hcstart hlt), List.flatMap_cons,
    List.flatMap_singleton, pieces_of_not_contains hbackc]
  rcases Binary64.le_iff_lt_or_agrees.mp hcstart with hstart | hagrees
  · have hhead := hi.head hstart
    have htail := hi.tail hcstop c.speed
    have hheadd : ¬ Interval.Contains _ d := fun h ↦ by
      have hdc := (hhead.contains_iff.mp h).2.2
      grind
    have htaild := htail.contains_iff.mpr ⟨hdsource, Binary64.le_of_lt hlt, hdstop⟩
    rw [hi.pieces_of_lt hc hstart, List.flatMap_cons, List.flatMap_singleton,
      pieces_of_not_contains hheadd, htail.pieces_of_lt htaild hlt,
      hfront.pieces_of_lt hfrontc hstart]
    rfl
  · have hretagged := hi.withSpeed c.speed
    have hretaggedd := hretagged.contains_iff.mpr ⟨hdsource, hdstart, hdstop⟩
    rw [hi.pieces_of_agrees hc hagrees, List.flatMap_singleton,
      hretagged.pieces_of_lt hretaggedd (Binary64.lt_of_le_of_lt hcstart hlt),
      hfront.pieces_of_agrees hfrontc hagrees]
    rfl

/-- A change that the interval does not contain is not contained in its pieces either. -/
theorem flatMap_pieces_of_not_contains (hd : ¬ i.Contains d) :
    (i.pieces c).flatMap (·.pieces d) = i.pieces c := by
  have hpieces : ∀ f ∈ i.pieces c, f.pieces d = [f] := fun f hf ↦
    pieces_of_not_contains fun hcontains ↦ hd (contains_of_mem_pieces hf hcontains)
  rw [List.flatMap_congr hpieces, List.flatMap_singleton']

/-- Two changes that are not tied cut an interval into the same pieces in either order. -/
theorem pieces_flatMap_comm (h : ¬ Tied c d) (i : Interval) :
    (i.pieces c).flatMap (·.pieces d) = (i.pieces d).flatMap (·.pieces c) := by
  by_cases hc : i.Contains c
  · by_cases hd : i.Contains d
    · obtain ⟨source, start, stop, hspans, hcsource, hcstart, hcstop⟩ := exists_spans_of_contains hc
      obtain ⟨hdsource, hdstart, hdstop⟩ := hspans.contains_iff.mp hd
      have hagrees : ¬ c.time.agrees d.time := fun hagrees ↦
        h ⟨hagrees, hcsource.symm.trans hdsource⟩
      have hcases : c.time < d.time ∨ d.time < c.time := by grind
      rcases hcases with hlt | hlt
      · exact hspans.pieces_flatMap_comm hc hd hlt
      · exact (hspans.pieces_flatMap_comm hd hc hlt).symm
    · rw [flatMap_pieces_of_not_contains hd, pieces_of_not_contains hd, List.flatMap_singleton]
  · rw [flatMap_pieces_of_not_contains hc, pieces_of_not_contains hc, List.flatMap_singleton]

/-- Two changes that are not tied may be declared in either order. -/
theorem applyChange_comm (h : ¬ Tied c d) (intervals : List Interval) :
    applyChange (applyChange intervals c) d = applyChange (applyChange intervals d) c := by
  simp only [applyChange_eq_flatMap, List.flatMap_assoc]
  exact List.flatMap_congr fun i _ ↦ pieces_flatMap_comm h i

/-! ### All changes -/

/-- A change may be declared before all changes that it is not tied with. -/
theorem resolve_move_front (intervals : List Interval) {before : List SpeedChange}
    (h : ∀ d ∈ before, ¬ Tied c d) (after : List SpeedChange) :
    resolve intervals (before ++ c :: after) = resolve intervals (c :: (before ++ after)) := by
  induction before generalizing intervals with
  | nil => rfl
  | cons d before ih =>
    obtain ⟨hd, hbefore⟩ := List.forall_mem_cons.mp h
    rw [List.cons_append, resolve_cons, ih _ hbefore, resolve_cons, resolve_cons, List.cons_append,
      resolve_cons, applyChange_comm hd]

/-- The changes that are tied with a given one, in the order of their declaration. -/
def tiedWith (c : SpeedChange) (changes : List SpeedChange) : List SpeedChange :=
  changes.filter fun d ↦ Tied c d

theorem tiedWith_cons_of_tied (h : Tied c d) (changes : List SpeedChange) :
    tiedWith c (d :: changes) = d :: tiedWith c changes :=
  List.filter_cons_of_pos (decide_eq_true h)

theorem tiedWith_cons_of_not_tied (h : ¬ Tied c d) (changes : List SpeedChange) :
    tiedWith c (d :: changes) = tiedWith c changes :=
  List.filter_cons_of_neg (by simpa using h)

theorem tiedWith_append (c : SpeedChange) (changes more : List SpeedChange) :
    tiedWith c (changes ++ more) = tiedWith c changes ++ tiedWith c more :=
  List.filter_append changes more

/-- Only the order among tied changes matters. -/
theorem resolve_eq_of_tiedWith_eq (intervals : List Interval)
    (hchanges : ∀ c ∈ changes, c.time ≠ .nan) (hreordered : ∀ c ∈ reordered, c.time ≠ .nan)
    (h : ∀ c, tiedWith c changes = tiedWith c reordered) :
    resolve intervals changes = resolve intervals reordered := by
  induction changes generalizing intervals reordered with
  | nil =>
    cases reordered with
    | nil => rfl
    | cons d rest =>
      have hempty := h d
      rw [tiedWith_cons_of_tied (tied_self (hreordered d List.mem_cons_self))] at hempty
      cases hempty
  | cons c changes ih =>
    obtain ⟨hc, hchanges⟩ := List.forall_mem_cons.mp hchanges
    -- The first change is found in the other list, behind changes that it commutes with.
    have hsame := h c
    rw [tiedWith_cons_of_tied (tied_self hc), eq_comm, tiedWith, List.filter_eq_cons_iff] at hsame
    obtain ⟨before, after, rfl, hbefore, -, -⟩ := hsame
    have huntied : ∀ d ∈ before, ¬ Tied c d := fun d hd htied ↦
      hbefore d hd (decide_eq_true htied)
    rw [resolve_move_front intervals huntied, resolve_cons, resolve_cons]
    refine ih _ hchanges (fun d hd ↦ hreordered d (by grind)) fun d ↦ ?_
    have hd := h d
    rw [tiedWith_append] at hd ⊢
    by_cases htied : Tied d c
    · have hnone : tiedWith d before = [] := by
        refine List.filter_eq_nil_iff.mpr fun e he hde ↦ huntied e he ?_
        exact htied.symm.trans (of_decide_eq_true hde)
      rw [tiedWith_cons_of_tied htied, tiedWith_cons_of_tied htied, hnone, List.nil_append,
        List.cons.injEq] at hd
      rw [hnone, List.nil_append]
      exact hd.2
    · rwa [tiedWith_cons_of_not_tied htied, tiedWith_cons_of_not_tied htied] at hd

/-! ### Reorderings -/

/-- The second list has the changes of the first in other places, but tied changes in the order
that they had. -/
def KeepsTies (changes reordered : List SpeedChange) : Prop :=
  ∃ place : Fin changes.length ≃ Fin reordered.length,
    (∀ k, reordered[place k] = changes[k]) ∧
      ∀ k l, k < l → Tied changes[k] changes[l] → place k < place l

/-- A reordering has no changes of its own. -/
theorem KeepsTies.mem_of_mem (h : KeepsTies changes reordered) (hc : c ∈ reordered) :
    c ∈ changes := by
  obtain ⟨place, hplace, -⟩ := h
  obtain ⟨k, rfl⟩ := List.get_of_mem hc
  obtain ⟨l, rfl⟩ := place.surjective k
  have hsame : reordered.get (place l) = changes[l] := hplace l
  rw [hsame]
  exact List.getElem_mem _

/-- The places in a list of the changes that are tied with a given one. -/
def tiedPlaces (c : SpeedChange) (changes : List SpeedChange) : List (Fin changes.length) :=
  (List.finRange changes.length).filter fun k ↦ Tied c changes[k]

theorem mem_tiedPlaces {k : Fin changes.length} :
    k ∈ tiedPlaces c changes ↔ Tied c changes[k] := by
  simp [tiedPlaces]

theorem pairwise_tiedPlaces (c : SpeedChange) (changes : List SpeedChange) :
    (tiedPlaces c changes).Pairwise (· < ·) :=
  (List.pairwise_lt_finRange _).filter _

theorem tiedWith_eq_map_tiedPlaces (c : SpeedChange) (changes : List SpeedChange) :
    tiedWith c changes = (tiedPlaces c changes).map fun k ↦ changes[k] := by
  conv_lhs => rw [tiedWith, ← List.map_getElem_finRange changes, List.filter_map]
  rfl

/-- A reordering that keeps ties leaves the changes tied with any one as they are. -/
theorem KeepsTies.tiedWith_eq (h : KeepsTies changes reordered) (c : SpeedChange) :
    tiedWith c changes = tiedWith c reordered := by
  obtain ⟨place, hplace, hordered⟩ := h
  -- The places of the tied changes correspond, and both lists of them are increasing.
  have hincreasing : ((tiedPlaces c changes).map place).Pairwise (· < ·) := by
    refine List.pairwise_map.mpr ((pairwise_tiedPlaces c changes).imp_of_mem ?_)
    intro k l hk hl hkl
    exact hordered k l hkl ((mem_tiedPlaces.mp hk).symm.trans (mem_tiedPlaces.mp hl))
  have hperm : ((tiedPlaces c changes).map place).Perm (tiedPlaces c reordered) := by
    refine (List.perm_ext_iff_of_nodup (hincreasing.imp ne_of_lt)
      ((pairwise_tiedPlaces c reordered).imp ne_of_lt)).mpr fun k ↦ ?_
    obtain ⟨l, rfl⟩ := place.surjective k
    rw [List.mem_map_of_injective place.injective, mem_tiedPlaces, mem_tiedPlaces, hplace l]
  have hplaces : (tiedPlaces c changes).map place = tiedPlaces c reordered :=
    hperm.eq_of_pairwise (fun a b _ _ hab hba ↦ absurd hab (lt_asymm hba)) hincreasing
      (pairwise_tiedPlaces c reordered)
  rw [tiedWith_eq_map_tiedPlaces, tiedWith_eq_map_tiedPlaces, ← hplaces, List.map_map]
  exact List.map_congr_left fun k _ ↦ (hplace k).symm

/-! ### Sorting by time -/

/-- The changes sorted by time, those at the same time in the order of their declaration. -/
def chronological (changes : List SpeedChange) : List SpeedChange :=
  changes.mergeSort fun c d ↦ c.time ≤ d.time

/-- The order of times as an order of whole numbers, which is total also where `nan` occurs. -/
def placeLE (c d : SpeedChange) : Bool := c.time.position.getD 0 ≤ d.time.position.getD 0

theorem chronological_eq_mergeSort (h : ∀ c ∈ changes, c.time ≠ .nan) :
    chronological changes = changes.mergeSort placeLE := by
  have hagree : ∀ c ∈ changes, ∀ d ∈ changes, decide (c.time ≤ d.time) = placeLE c d := by
    intro c hc d hd
    obtain ⟨x, hx⟩ := Binary64.exists_position (h c hc)
    obtain ⟨y, hy⟩ := Binary64.exists_position (h d hd)
    simp [placeLE, Binary64.le_iff, hx, hy]
  have hmap := List.map_mergeSort (f := id) (s := placeLE) hagree
  rwa [List.map_id, List.map_id] at hmap

/-- Sorting by time leaves the changes tied with any one as they are. -/
theorem tiedWith_chronological (h : ∀ c ∈ changes, c.time ≠ .nan) (c : SpeedChange) :
    tiedWith c changes = tiedWith c (chronological changes) := by
  have hperm : (chronological changes).Perm changes := List.mergeSort_perm changes _
  have hordered : (tiedWith c changes).Pairwise fun d e ↦ placeLE d e = true := by
    refine List.pairwise_of_forall_mem_list fun d hd e he ↦ ?_
    have hcd := of_decide_eq_true (List.mem_filter.mp hd).2
    have hce := of_decide_eq_true (List.mem_filter.mp he).2
    obtain ⟨x, y, hx, hy, hxy⟩ := Binary64.agrees_iff.mp (hcd.symm.trans hce).1
    simp [placeLE, hx, hy, hxy]
  have hsublist : (tiedWith c changes).Sublist (chronological changes) := by
    rw [chronological_eq_mergeSort h]
    exact List.sublist_mergeSort (by grind [placeLE]) (by grind [placeLE]) hordered
      List.filter_sublist
  have htied := hsublist.filter fun d ↦ Tied c d
  have hidem : (tiedWith c changes).filter (fun d ↦ Tied c d) = tiedWith c changes := by
    rw [tiedWith, List.filter_filter]
    simp
  rw [hidem] at htied
  exact htied.eq_of_length (hperm.filter _).length_eq.symm

/-- Reorderings of the changes that keep the order of those at the same time of the same recording
make no difference to the fragments, and neither does sorting the changes by time. -/
theorem resolve_of_keepsTies (intervals : List Interval) (changes reordered : List SpeedChange)
    (hnan : ∀ c ∈ changes, c.time ≠ .nan) (h : KeepsTies changes reordered) :
    resolve intervals changes = resolve intervals reordered ∧
      resolve intervals changes = resolve intervals (chronological changes) := by
  refine ⟨resolve_eq_of_tiedWith_eq intervals hnan (fun c hc ↦ ?_) h.tiedWith_eq,
    resolve_eq_of_tiedWith_eq intervals hnan (fun c hc ↦ ?_) (tiedWith_chronological hnan)⟩
  · exact hnan c (h.mem_of_mem hc)
  · exact hnan c (List.mem_mergeSort.mp hc)

/-- The first two of the sample changes, and the two after them, in the other order. -/
def sampleReordered : List SpeedChange :=
  [⟨.ofNat 3, .ofNat 4, ⟨"./clip.mp4"⟩⟩, ⟨.ofNat 6, .ofNat 2, ⟨"clip.mp4"⟩⟩,
    ⟨.ofNat 6, .ofNat 7, ⟨"clip.mp4"⟩⟩, ⟨.ofNat 3, .ofNat 5, ⟨"clip.mp4"⟩⟩,
    ⟨.ofNat 10, .ofNat 9, ⟨"clip.mp4"⟩⟩]

/-- Untied changes may change places, the two at six seconds stay in order. -/
theorem resolve_of_keepsTies_sample :
    KeepsTies sampleChanges sampleReordered ∧
      resolve [sampleInterval] sampleChanges = resolve [sampleInterval] sampleReordered ∧
      resolve [sampleInterval] sampleChanges =
        resolve [sampleInterval] (chronological sampleChanges) := by
  have hkeeps : KeepsTies sampleChanges sampleReordered :=
    ⟨(Equiv.swap (0 : Fin 5) 1).trans (Equiv.swap (2 : Fin 5) 3), by decide +kernel,
      by decide +kernel⟩
  exact ⟨hkeeps, resolve_of_keepsTies _ _ _ (by decide +kernel) hkeeps⟩

end Montage.Timing
