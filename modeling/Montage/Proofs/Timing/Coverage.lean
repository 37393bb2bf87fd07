import Mathlib.Data.List.Chain
import Montage.Proofs.Timing.Pieces

/-!
# Coverage of resolved intervals

Resolution cuts an interval but loses none of it. The fragments of an interval that spans some time
of a recording lie end to end over exactly that span (`Tiling`), and they are cut exactly at the
changes strictly inside it. `Coverage` collects what this says of the fragments one by one, and
`resolve_coverage` is the statement for a whole list of intervals: every interval contributes its
fragments in its place, and an interval that spans nothing contributes itself.

The induction is over the changes. The invariant is the tiling: however the changes before have cut
a span, a time inside it lies in exactly one of the fragments, and only that one is cut again.

Scope. Times are compared as the format compares them. Of several changes at times that agree, the
first one declared is the cut, so where both zeros occur a cut agrees with a change's time without
being the same number.
-/

set_option autoImplicit false
set_option relaxedAutoImplicit false

namespace Montage.Timing

open Numeric Montage.Timing.Interval

variable {source : Path} {start middle stop time : Binary64} {i f : Interval}
  {fragments more : List Interval} {changes : List SpeedChange} {c d : SpeedChange}

/-! ### Tilings -/

/-- Fragments of one recording that lie end to end from `start` to `stop`, none of them empty. -/
inductive Tiling (source : Path) : Binary64 → Binary64 → List Interval → Prop
  /-- One fragment over the whole span. -/
  | last {f : Interval} {start stop : Binary64} :
    f.Spans source start stop → Tiling source start stop [f]
  /-- A fragment in front of a tiling that begins where the fragment ends. -/
  | cons {f : Interval} {rest : List Interval} {start middle stop : Binary64} :
    f.Spans source start middle → Tiling source middle stop rest →
      Tiling source start stop (f :: rest)

namespace Tiling

/-- Two tilings that meet make one. -/
theorem append (hfirst : Tiling source start middle fragments)
    (hsecond : Tiling source middle stop more) : Tiling source start stop (fragments ++ more) := by
  induction hfirst with
  | last hspans => exact .cons hspans hsecond
  | cons hspans _ ih => exact .cons hspans (ih hsecond)

/-- The pieces of an interval tile its span. -/
theorem pieces (h : i.Spans source start stop) (change : SpeedChange) :
    Tiling source start stop (i.pieces change) := by
  by_cases hcontains : i.Contains change
  · obtain ⟨-, hstart, hstop⟩ := h.contains_iff.mp hcontains
    rcases Binary64.le_iff_lt_or_agrees.mp hstart with hlt | hagrees
    · rw [h.pieces_of_lt hcontains hlt]
      exact .cons (h.head hlt) (.last (h.tail hstop change.speed))
    · rw [h.pieces_of_agrees hcontains hagrees]
      exact .last (h.withSpeed change.speed)
  · rw [pieces_of_not_contains hcontains]
    exact .last h

/-- A change keeps a tiling: every fragment is replaced by pieces over the same span. -/
theorem applyChange (h : Tiling source start stop fragments) (change : SpeedChange) :
    Tiling source start stop (applyChange fragments change) := by
  induction h with
  | last hspans =>
    rw [applyChange_singleton]
    exact pieces hspans change
  | @cons f rest _ _ _ hspans _ ih =>
    rw [← List.singleton_append, applyChange_append, applyChange_singleton]
    exact (pieces hspans change).append ih

/-- All changes keep a tiling. -/
theorem resolve (h : Tiling source start stop fragments) (changes : List SpeedChange) :
    Tiling source start stop (resolve fragments changes) := by
  induction changes generalizing fragments with
  | nil => exact h
  | cons change changes ih => exact ih (h.applyChange change)

theorem start_lt_stop (h : Tiling source start stop fragments) : start < stop := by
  induction h with
  | last hspans => exact hspans.start_lt_stop
  | cons hspans _ ih => exact Binary64.lt_trans hspans.start_lt_stop ih

/-- A tiling begins with a fragment that begins at its start. -/
theorem exists_head (h : Tiling source start stop fragments) :
    ∃ f rest, fragments = f :: rest ∧ f.start = some start := by
  cases h with
  | last hspans => exact ⟨_, [], rfl, hspans.start_eq⟩
  | cons hspans _ => exact ⟨_, _, rfl, hspans.start_eq⟩

/-- A tiling ends with a fragment that ends at its end. -/
theorem getLast?_stop (h : Tiling source start stop fragments) :
    fragments.getLast?.bind (·.stop) = some stop := by
  induction h with
  | last hspans => exact hspans.stop_eq
  | cons _ htiling ih =>
    obtain ⟨g, rest, rfl, -⟩ := htiling.exists_head
    rw [List.getLast?_cons_cons]
    exact ih

/-- Every fragment of a tiling ends where the next one begins. -/
theorem isChain (h : Tiling source start stop fragments) :
    fragments.IsChain fun f g ↦ f.stop = g.start := by
  induction h with
  | last _ => exact List.isChain_singleton _
  | cons hspans htiling ih =>
    obtain ⟨g, rest, rfl, hg⟩ := htiling.exists_head
    exact List.isChain_cons_cons.mpr ⟨hspans.stop_eq.trans hg.symm, ih⟩

/-- Every fragment of a tiling spans a part of it. -/
theorem exists_spans (h : Tiling source start stop fragments) (hf : f ∈ fragments) :
    ∃ a b, f.Spans source a b ∧ start ≤ a ∧ b ≤ stop := by
  induction h with
  | last hspans =>
    obtain rfl := List.mem_singleton.mp hf
    have hlt := hspans.start_lt_stop
    exact ⟨_, _, hspans, by grind, by grind⟩
  | cons hspans htiling ih =>
    have hfirst := hspans.start_lt_stop
    have hrest := htiling.start_lt_stop
    rcases List.mem_cons.mp hf with rfl | hf
    · exact ⟨_, _, hspans, by grind, Binary64.le_of_lt hrest⟩
    · obtain ⟨a, b, hab, ha, hb⟩ := ih hf
      exact ⟨a, b, hab, Binary64.le_trans (Binary64.le_of_lt hfirst) ha, hb⟩

/-- A time inside a tiling lies in one of its fragments. -/
theorem exists_contains (h : Tiling source start stop fragments) (hsource : source.Same c.source)
    (hstart : start ≤ c.time) (hstop : c.time < stop) : ∃ f ∈ fragments, f.Contains c := by
  induction h with
  | last hspans =>
    exact ⟨_, List.mem_singleton_self _, hspans.contains_iff.mpr ⟨hsource, hstart, hstop⟩⟩
  | @cons f _ _ middle _ hspans htiling ih =>
    by_cases hmiddle : c.time < middle
    · exact ⟨f, List.mem_cons_self, hspans.contains_iff.mpr ⟨hsource, hstart, hmiddle⟩⟩
    · have hlt := htiling.start_lt_stop
      obtain ⟨g, hg, hcontains⟩ := ih (by grind) hstop
      exact ⟨g, List.mem_cons_of_mem f hg, hcontains⟩

end Tiling

/-! ### Starts of fragments -/

/-- The times at which fragments start. -/
def starts (fragments : List Interval) : List Binary64 := fragments.filterMap (·.start)

/-- The times at which fragments are cut off from the ones before them. -/
def cuts (fragments : List Interval) : List Binary64 := starts fragments.tail

theorem mem_starts : time ∈ starts fragments ↔ ∃ f ∈ fragments, f.start = some time :=
  List.mem_filterMap

/-- The starts of a tiling are its own start and, in increasing order, its cuts. -/
theorem Tiling.starts_eq (h : Tiling source start stop fragments) :
    starts fragments = start :: cuts fragments := by
  obtain ⟨f, rest, rfl, hf⟩ := h.exists_head
  rw [starts, List.filterMap_cons, hf]
  rfl

theorem Tiling.starts_lt_stop (h : Tiling source start stop fragments)
    (htime : time ∈ starts fragments) : time < stop := by
  obtain ⟨f, hf, hstart⟩ := mem_starts.mp htime
  obtain ⟨a, b, hspans, -, hb⟩ := h.exists_spans hf
  obtain rfl : a = time := Option.some.inj (hspans.start_eq.symm.trans hstart)
  exact Binary64.lt_of_lt_of_le hspans.start_lt_stop hb

theorem Tiling.pairwise_starts (h : Tiling source start stop fragments) :
    (starts fragments).Pairwise (· < ·) := by
  induction h with
  | last hspans => simp [starts, hspans.start_eq]
  | @cons f rest a middle stop hspans htiling ih =>
    rw [starts, List.filterMap_cons, hspans.start_eq]
    refine List.pairwise_cons.mpr ⟨fun time htime ↦ ?_, ih⟩
    obtain ⟨g, hg, hstart⟩ := List.mem_filterMap.mp htime
    obtain ⟨b, _, hb, hmiddle, -⟩ := htiling.exists_spans hg
    obtain rfl : b = time := Option.some.inj (hb.start_eq.symm.trans hstart)
    exact Binary64.lt_of_lt_of_le hspans.start_lt_stop hmiddle

/-- A piece starts where the interval starts, or at the change that cut it off. -/
theorem start_of_mem_pieces (hf : f ∈ i.pieces c) :
    f.start = i.start ∨ f.start = some c.time ∧ i.Contains c := by
  by_cases hcontains : i.Contains c
  · rw [Interval.pieces, if_pos hcontains, split] at hf
    split_ifs at hf
    · obtain rfl := List.mem_singleton.mp hf
      exact Or.inl rfl
    · rcases List.mem_pair.mp hf with rfl | rfl
      · exact Or.inl rfl
      · exact Or.inr ⟨rfl, hcontains⟩
  · rw [pieces_of_not_contains hcontains] at hf
    exact Or.inl (congrArg Interval.start (List.mem_singleton.mp hf))

/-- Some piece starts where the interval starts. -/
theorem exists_mem_pieces_start (i : Interval) (c : SpeedChange) :
    ∃ f ∈ i.pieces c, f.start = i.start := by
  rw [Interval.pieces, split]
  split_ifs
  · exact ⟨_, List.mem_cons_self, rfl⟩
  · exact ⟨_, List.mem_cons_self, rfl⟩
  · exact ⟨_, List.mem_cons_self, rfl⟩

/-- An interval that contains a change has a piece that starts at it. -/
theorem exists_mem_pieces_agrees (h : i.Contains c) :
    ∃ f ∈ i.pieces c, ∃ time, f.start = some time ∧ time.agrees c.time := by
  obtain ⟨source, start, stop, hspans, -, hstart, hstop⟩ := exists_spans_of_contains h
  rcases Binary64.le_iff_lt_or_agrees.mp hstart with hlt | hagrees
  · rw [hspans.pieces_of_lt h hlt]
    exact ⟨_, List.mem_cons_of_mem _ List.mem_cons_self, c.time, rfl, by grind⟩
  · rw [hspans.pieces_of_agrees h hagrees]
    exact ⟨_, List.mem_cons_self, start, hspans.start_eq, hagrees⟩

/-- A piece contains only changes that the interval contains. -/
theorem contains_of_mem_pieces (hf : f ∈ i.pieces c) (h : f.Contains d) : i.Contains d := by
  by_cases hcontains : i.Contains c
  · obtain ⟨source, start, stop, hspans, -, hstart, hstop⟩ := exists_spans_of_contains hcontains
    obtain ⟨a, b, hab, ha, hb⟩ := (Tiling.pieces hspans c).exists_spans hf
    obtain ⟨hsource, hda, hdb⟩ := hab.contains_iff.mp h
    exact hspans.contains_iff.mpr
      ⟨hsource, Binary64.le_trans ha hda, Binary64.lt_of_lt_of_le hdb hb⟩
  · rw [pieces_of_not_contains hcontains, List.mem_singleton] at hf
    rwa [hf] at h

theorem mem_applyChange : f ∈ applyChange fragments c ↔ ∃ g ∈ fragments, f ∈ g.pieces c :=
  List.mem_flatMap

/-- Fragments keep their starts under further changes. -/
theorem starts_subset_resolve (fragments : List Interval) (changes : List SpeedChange) :
    starts fragments ⊆ starts (resolve fragments changes) := by
  induction changes generalizing fragments with
  | nil => exact List.Subset.refl _
  | cons change changes ih =>
    refine List.Subset.trans (fun time htime ↦ ?_) (ih (applyChange fragments change))
    obtain ⟨f, hf, hstart⟩ := mem_starts.mp htime
    obtain ⟨g, hg, hsame⟩ := exists_mem_pieces_start f change
    exact mem_starts.mpr ⟨g, mem_applyChange.mpr ⟨f, hf, hg⟩, hsame.trans hstart⟩

/-- Fragments start only where they started before the changes, or at a change that one of them
contained. -/
theorem mem_starts_resolve (htime : time ∈ starts (resolve fragments changes)) :
    time ∈ starts fragments ∨ ∃ c ∈ changes, c.time = time ∧ ∃ f ∈ fragments, f.Contains c := by
  induction changes generalizing fragments with
  | nil => exact Or.inl htime
  | cons change changes ih =>
    rcases ih htime with hfirst | ⟨c, hc, hctime, g, hg, hcontains⟩
    · obtain ⟨g, hg, hstart⟩ := mem_starts.mp hfirst
      obtain ⟨f, hf, hpiece⟩ := mem_applyChange.mp hg
      rcases start_of_mem_pieces hpiece with hsame | ⟨hcut, hcontains⟩
      · exact Or.inl (mem_starts.mpr ⟨f, hf, hsame.symm.trans hstart⟩)
      · have heq : change.time = time := Option.some.inj (hcut.symm.trans hstart)
        exact Or.inr ⟨change, List.mem_cons_self, heq, f, hf, hcontains⟩
    · obtain ⟨f, hf, hpiece⟩ := mem_applyChange.mp hg
      exact Or.inr ⟨c, List.mem_cons_of_mem _ hc, hctime, f, hf,
        contains_of_mem_pieces hpiece hcontains⟩

/-- Every change inside a tiling is the start of a fragment. -/
theorem Tiling.exists_start_agrees (h : Tiling source start stop fragments) (hc : c ∈ changes)
    (hsource : source.Same c.source) (hstart : start ≤ c.time) (hstop : c.time < stop) :
    ∃ time ∈ starts (Timing.resolve fragments changes), time.agrees c.time := by
  induction changes generalizing fragments with
  | nil => cases hc
  | cons change changes ih =>
    rcases List.mem_cons.mp hc with rfl | hc
    · obtain ⟨f, hf, hcontains⟩ := h.exists_contains hsource hstart hstop
      obtain ⟨g, hg, time, htime, hagrees⟩ := exists_mem_pieces_agrees hcontains
      have hmem := mem_starts.mpr ⟨g, mem_applyChange.mpr ⟨f, hf, hg⟩, htime⟩
      exact ⟨time, starts_subset_resolve _ changes hmem, hagrees⟩
    · exact ih (h.applyChange change) hc

/-! ### Coverage -/

/-- What resolution makes of an interval that spans a recording from `start` to `stop`: fragments of
the same recording that follow each other without a gap from the start to the end, each ending after
it starts, cut once at every change strictly inside the span and nowhere else. -/
structure Coverage (changes : List SpeedChange) (source : Path) (start stop : Binary64)
    (fragments : List Interval) : Prop where
  ne_nil : fragments ≠ []
  source_eq : ∀ f ∈ fragments, f.source = some source
  head_start : fragments.head?.bind (·.start) = some start
  last_stop : fragments.getLast?.bind (·.stop) = some stop
  adjacent : fragments.IsChain fun f g ↦ f.stop = g.start
  start_lt_stop : ∀ f ∈ fragments, ∃ a b, f.start = some a ∧ f.stop = some b ∧ a < b
  increasing : (cuts fragments).Pairwise (· < ·)
  exists_change : ∀ time ∈ cuts fragments, ∃ c ∈ changes,
    c.time = time ∧ source.Same c.source ∧ start < time ∧ time < stop
  exists_cut : ∀ c ∈ changes, source.Same c.source → start < c.time → c.time < stop →
    ∃ time ∈ cuts fragments, time.agrees c.time

/-- Resolution covers the span of an interval exactly. -/
theorem Interval.Spans.coverage (h : i.Spans source start stop) (changes : List SpeedChange) :
    Coverage changes source start stop (resolve [i] changes) := by
  have htiling : Tiling source start stop (resolve [i] changes) := (Tiling.last h).resolve changes
  have hpairwise := htiling.pairwise_starts
  rw [htiling.starts_eq] at hpairwise
  obtain ⟨hcuts, hincreasing⟩ := List.pairwise_cons.mp hpairwise
  obtain ⟨first, rest, heq, hfirst⟩ := htiling.exists_head
  refine ⟨?_, ?_, ?_, htiling.getLast?_stop, htiling.isChain, ?_, hincreasing, ?_, ?_⟩
  · rw [heq]
    exact List.cons_ne_nil first rest
  · intro f hf
    obtain ⟨_, _, hspans, -⟩ := htiling.exists_spans hf
    exact hspans.source_eq
  · rw [heq]
    exact hfirst
  · intro f hf
    obtain ⟨a, b, hspans, -⟩ := htiling.exists_spans hf
    exact ⟨a, b, hspans.start_eq, hspans.stop_eq, hspans.start_lt_stop⟩
  · intro time htime
    have hmem : time ∈ starts (resolve [i] changes) := by
      rw [htiling.starts_eq]
      exact List.mem_cons_of_mem start htime
    have hlt := hcuts time htime
    rcases mem_starts_resolve hmem with hstart | ⟨c, hc, hctime, f, hf, hcontains⟩
    · -- The interval itself starts at `start`, which lies before every cut.
      obtain ⟨f, hf, hfstart⟩ := mem_starts.mp hstart
      rw [List.mem_singleton.mp hf, h.start_eq, Option.some.injEq] at hfstart
      rw [hfstart] at hlt
      exact absurd hlt (Binary64.lt_irrefl time)
    · rw [List.mem_singleton.mp hf] at hcontains
      obtain ⟨hsource, -⟩ := h.contains_iff.mp hcontains
      exact ⟨c, hc, hctime, hsource, hlt, htiling.starts_lt_stop hmem⟩
  · intro c hc hsource hstart hstop
    obtain ⟨time, htime, hagrees⟩ := (Tiling.last h).exists_start_agrees hc hsource
      (Binary64.le_of_lt hstart) hstop
    rw [htiling.starts_eq] at htime
    rcases List.mem_cons.mp htime with rfl | htime
    · grind
    · exact ⟨time, htime, hagrees⟩

/-- Resolution returns the fragments of every interval in its place. An interval that lacks a bound
or a recording, or does not start before it ends, is its own only fragment; every other interval is
covered exactly by its fragments, cut at the changes inside it. -/
theorem resolve_coverage (intervals : List Interval) (changes : List SpeedChange) :
    resolve intervals changes = (intervals.map fun i ↦ resolve [i] changes).flatten ∧
      ∀ i ∈ intervals,
        (i.bounds? = none ∨ i.source = none ∨
            (∃ start stop, i.bounds? = some (start, stop) ∧ ¬ start < stop) →
          resolve [i] changes = [i]) ∧
        ∀ source start stop, i.source = some source → i.bounds? = some (start, stop) →
          start < stop → Coverage changes source start stop (resolve [i] changes) := by
  refine ⟨resolve_eq_flatMap intervals changes, fun i _ ↦ ⟨fun hnothing ↦ ?_, ?_⟩⟩
  · refine resolve_of_spans_nothing (fun source start stop hspans ↦ ?_) changes
    rcases hnothing with hbounds | hsource | ⟨a, b, hbounds, hlt⟩
    · rw [hspans.bounds?_eq] at hbounds
      cases hbounds
    · rw [hspans.source_eq] at hsource
      cases hsource
    · rw [hspans.bounds?_eq, Option.some.injEq, Prod.mk.injEq] at hbounds
      obtain ⟨rfl, rfl⟩ := hbounds
      exact hlt hspans.start_lt_stop
  · intro source start stop hsource hbounds hlt
    exact (Spans.of_bounds? hsource hbounds hlt).coverage changes

/-- Ten seconds of a recording. -/
def sampleInterval : Interval := .between (.ofNat 0) (.ofNat 10) ⟨"clip.mp4"⟩

/-- Changes of one recording, declared out of order, two of them at the same time and one of them
outside the ten seconds, and a change of another recording. -/
def sampleChanges : List SpeedChange :=
  [⟨.ofNat 6, .ofNat 2, ⟨"clip.mp4"⟩⟩, ⟨.ofNat 3, .ofNat 4, ⟨"./clip.mp4"⟩⟩,
    ⟨.ofNat 3, .ofNat 5, ⟨"clip.mp4"⟩⟩, ⟨.ofNat 6, .ofNat 7, ⟨"clip.mp4"⟩⟩,
    ⟨.ofNat 10, .ofNat 9, ⟨"clip.mp4"⟩⟩]

/-- The ten seconds are cut at three and at six, and an interval without bounds is left alone. -/
theorem resolve_coverage_sample :
    Coverage sampleChanges ⟨"clip.mp4"⟩ (.ofNat 0) (.ofNat 10)
        (resolve [sampleInterval] sampleChanges) ∧
      cuts (resolve [sampleInterval] sampleChanges) = [.ofNat 3, .ofNat 6] ∧
      resolve [{}] sampleChanges = [{}] := by
  have hboth := (resolve_coverage [sampleInterval, {}] sampleChanges).2
  refine ⟨?_, by decide +kernel, ?_⟩
  · exact (hboth sampleInterval (by simp)).2 _ _ _ rfl rfl (by decide +kernel)
  · exact (hboth {} (by simp)).1 (Or.inl rfl)

end Montage.Timing
