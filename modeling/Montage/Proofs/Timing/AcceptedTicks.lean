import Mathlib.Data.List.TakeWhile
import Montage.Proofs.Timing.Recording

/-!
# Accepted ticks

A timeline is what the accepted ticks of its readings leave behind, in their order
(`Timeline.after_eq_enter`). A tick is accepted if it sets a bound or a positive speed; it then
comes with the time of its line and with the line's recording (`AcceptedTick.ofTick?`). Everything
else in a timing file, words, lines and whole texts, only says which ticks are accepted
(`ticksOfLine`, `Timeline.Reading.ticks`).

A line that has accepted ticks has one time. It is the first field behind the equals sign if this is
a number and another field follows, and otherwise the number in front (`TimedLine.Reads`,
`reads_of_ofLine`).
-/

set_option autoImplicit false
set_option relaxedAutoImplicit false

namespace Montage.Timing

open Numeric

/-! ### Ticks -/

/-- A tick that sets a bound of a slot, with its time and its recording. -/
structure BoundTick where
  /-- The run. -/
  code : RunCode
  /-- The slot of the run. -/
  slot : Slot
  /-- The bound of the slot. -/
  endpoint : Endpoint
  /-- When it is set. -/
  time : Binary64
  /-- The recording. -/
  source : Path
deriving DecidableEq

/-- A tick that leaves something behind. -/
inductive AcceptedTick where
  /-- It sets a bound. -/
  | bound (tick : BoundTick)
  /-- It declares a change of the speed. -/
  | speed (change : SpeedChange)
deriving DecidableEq

namespace AcceptedTick

/-- A tick at a time of a recording, if it is accepted. -/
def ofTick? (source : Path) (time : Binary64) : Tick → Option AcceptedTick
  | .boundary code slot endpoint => some (.bound ⟨code, slot, endpoint, time, source⟩)
  | .speed factor => some (.speed ⟨time, .ofNat factor, source⟩)
  | .counterOutOfRange | .standstill | .unrecognized => none

/-- The bound that is set. -/
def bound? : AcceptedTick → Option BoundTick
  | bound tick => some tick
  | speed _ => none

/-- The change that is declared. -/
def speed? : AcceptedTick → Option SpeedChange
  | bound _ => none
  | speed change => some change

end AcceptedTick

/-- The ticks that set bounds. -/
def boundTicks (ticks : List AcceptedTick) : List BoundTick := ticks.filterMap AcceptedTick.bound?

/-- The changes of the speed that are declared. -/
def speedTicks (ticks : List AcceptedTick) : List SpeedChange := ticks.filterMap AcceptedTick.speed?

/-- The accepted ticks of a line of a recording. -/
def ticksOfLine (source : Path) (line : List Char) : List AcceptedTick :=
  match TimedLine.ofLine line with
  | .timed time words =>
    words.filterMap fun word ↦ AcceptedTick.ofTick? source time (Tick.ofWord word)
  | _ => []

/-- The accepted ticks of a reading. -/
def Timeline.Reading.ticks : Timeline.Reading → List AcceptedTick
  | .line source characters => ticksOfLine source characters
  | .text source content => (Text.lines content.toList).flatMap (ticksOfLine source)

/-- The accepted ticks of readings, in the order in which they are read. -/
def acceptedTicks (readings : List Timeline.Reading) : List AcceptedTick :=
  readings.flatMap Timeline.Reading.ticks

/-! ### Words of a reading -/

namespace Timeline.Reading

/-- The recording that is read on. -/
def recording : Timeline.Reading → Path
  | line source _ => source
  | text source _ => source

/-- The lines that are read. -/
def lines : Timeline.Reading → List (List Char)
  | line _ characters => [characters]
  | text _ content => Text.lines content.toList

/-- A word at a time of the reading says something about a run. -/
def Says (reading : Timeline.Reading) (time : Binary64) (code : RunCode) (slot : Slot)
    (endpoint : Endpoint) : Prop :=
  ∃ line ∈ reading.lines, ∃ words, TimedLine.ofLine line = .timed time words ∧
    ∃ word ∈ words, Tick.ofWord word = .boundary code slot endpoint

theorem ticks_eq_flatMap (reading : Timeline.Reading) :
    reading.ticks = reading.lines.flatMap (ticksOfLine reading.recording) := by
  cases reading with
  | line source characters => exact (List.flatMap_singleton _ _).symm
  | text source content => rfl

end Timeline.Reading

theorem AcceptedTick.ofTick?_eq_bound_iff {source : Path} {time : Binary64} {tick : Tick}
    {bound : BoundTick} :
    ofTick? source time tick = some (.bound bound) ↔
      tick = .boundary bound.code bound.slot bound.endpoint ∧ time = bound.time ∧
        source = bound.source := by
  obtain ⟨code, slot, endpoint, other, recording⟩ := bound
  cases tick <;> simp [ofTick?, and_assoc]

theorem AcceptedTick.ofTick?_eq_speed_iff {source : Path} {time : Binary64} {tick : Tick}
    {change : SpeedChange} :
    ofTick? source time tick = some (.speed change) ↔
      ∃ factor, tick = .speed factor ∧ change = ⟨time, .ofNat factor, source⟩ := by
  cases tick <;> simp [ofTick?, eq_comm]

theorem mem_boundTicks {ticks : List AcceptedTick} {tick : BoundTick} :
    tick ∈ boundTicks ticks ↔ .bound tick ∈ ticks := by
  rw [boundTicks, List.mem_filterMap]
  constructor
  · rintro ⟨other | change, hmem, heq⟩
    · cases heq
      exact hmem
    · cases heq
  · intro hmem
    exact ⟨_, hmem, rfl⟩

theorem mem_speedTicks {ticks : List AcceptedTick} {change : SpeedChange} :
    change ∈ speedTicks ticks ↔ .speed change ∈ ticks := by
  rw [speedTicks, List.mem_filterMap]
  constructor
  · rintro ⟨tick | other, hmem, heq⟩
    · cases heq
    · cases heq
      exact hmem
  · intro hmem
    exact ⟨_, hmem, rfl⟩

/-- The accepted ticks of a line come from its words, at the time of the line. -/
theorem mem_ticksOfLine_iff {source : Path} {line : List Char} {accepted : AcceptedTick} :
    accepted ∈ ticksOfLine source line ↔
      ∃ time words, TimedLine.ofLine line = .timed time words ∧
        ∃ word ∈ words, AcceptedTick.ofTick? source time (Tick.ofWord word) = some accepted := by
  unfold ticksOfLine
  cases TimedLine.ofLine line with
  | untimed => simp
  | unusableTime field => simp
  | timed time words => simp

theorem mem_boundTicks_ofLine {source : Path} {line : List Char} {tick : BoundTick} :
    tick ∈ boundTicks (ticksOfLine source line) ↔
      tick.source = source ∧ ∃ words, TimedLine.ofLine line = .timed tick.time words ∧
        ∃ word ∈ words, Tick.ofWord word = .boundary tick.code tick.slot tick.endpoint := by
  rw [mem_boundTicks, mem_ticksOfLine_iff]
  simp only [AcceptedTick.ofTick?_eq_bound_iff]
  constructor
  · rintro ⟨time, words, hline, word, hword, htick, rfl, rfl⟩
    exact ⟨rfl, words, hline, word, hword, htick⟩
  · rintro ⟨rfl, words, hline, word, hword, htick⟩
    exact ⟨tick.time, words, hline, word, hword, htick, rfl, rfl⟩

/-- A reading declares a speed where one of its words says so, on its own recording. -/
theorem Timeline.Reading.mem_speedTicks_iff {reading : Timeline.Reading} {change : SpeedChange} :
    change ∈ speedTicks reading.ticks ↔
      change.source = reading.recording ∧ ∃ line ∈ reading.lines, ∃ words,
        TimedLine.ofLine line = .timed change.time words ∧
          ∃ word ∈ words, ∃ factor, Tick.ofWord word = .speed factor ∧
            change.speed = .ofNat factor := by
  rw [mem_speedTicks, ticks_eq_flatMap, List.mem_flatMap]
  simp only [mem_ticksOfLine_iff, AcceptedTick.ofTick?_eq_speed_iff]
  constructor
  · rintro ⟨line, hline, time, words, htimed, word, hword, factor, htick, rfl⟩
    exact ⟨rfl, line, hline, words, htimed, word, hword, factor, htick, rfl⟩
  · rintro ⟨hsource, line, hline, words, htimed, word, hword, factor, htick, hspeed⟩
    obtain ⟨time, speed, source⟩ := change
    obtain rfl := hsource
    obtain rfl := hspeed
    exact ⟨line, hline, time, words, htimed, word, hword, factor, htick, rfl⟩

/-- A reading sets a bound where one of its words says so, on its own recording. -/
theorem Timeline.Reading.mem_boundTicks_iff {reading : Timeline.Reading} {tick : BoundTick} :
    tick ∈ boundTicks reading.ticks ↔
      tick.source = reading.recording ∧
        reading.Says tick.time tick.code tick.slot tick.endpoint := by
  rw [ticks_eq_flatMap, boundTicks, List.filterMap_flatMap, List.mem_flatMap]
  constructor
  · rintro ⟨line, hline, htick⟩
    obtain ⟨hsource, hsays⟩ := mem_boundTicks_ofLine.mp htick
    exact ⟨hsource, line, hline, hsays⟩
  · rintro ⟨hsource, line, hline, hsays⟩
    exact ⟨line, hline, mem_boundTicks_ofLine.mpr ⟨hsource, hsays⟩⟩

/-- A bound of a list of readings is a bound of one of them. -/
theorem mem_boundTicks_acceptedTicks {readings : List Timeline.Reading} {tick : BoundTick} :
    tick ∈ boundTicks (acceptedTicks readings) ↔
      ∃ reading ∈ readings, tick ∈ boundTicks reading.ticks := by
  rw [acceptedTicks, boundTicks, List.filterMap_flatMap, List.mem_flatMap]
  rfl

/-- A speed of a list of readings is a speed of one of them. -/
theorem mem_speedTicks_acceptedTicks {readings : List Timeline.Reading} {change : SpeedChange} :
    change ∈ speedTicks (acceptedTicks readings) ↔
      ∃ reading ∈ readings, change ∈ speedTicks reading.ticks := by
  rw [acceptedTicks, speedTicks, List.filterMap_flatMap, List.mem_flatMap]
  rfl

/-! ### Entering ticks -/

/-- Sets the bound that a tick sets. -/
def markRuns (runs : List (RunCode × Run)) (tick : BoundTick) : List (RunCode × Run) :=
  Timeline.alterRun tick.code (·.mark tick.slot tick.endpoint tick.time tick.source) runs

namespace Timeline

variable {α : Type} {timeline : Timeline} {ticks more : List AcceptedTick}

/-- The timeline after more accepted ticks. -/
def enter (timeline : Timeline) (ticks : List AcceptedTick) : Timeline where
  runs := (boundTicks ticks).foldl markRuns timeline.runs
  changes := timeline.changes ++ speedTicks ticks

theorem enter_append (timeline : Timeline) (ticks more : List AcceptedTick) :
    timeline.enter (ticks ++ more) = (timeline.enter ticks).enter more := by
  simp only [enter, boundTicks, speedTicks, List.filterMap_append, List.foldl_append,
    List.append_assoc]

theorem enter_nil (timeline : Timeline) : timeline.enter [] = timeline := by
  obtain ⟨runs, changes⟩ := timeline
  exact congrArg (Timeline.mk runs) (List.append_nil changes)

/-- What leaves ticks behind item by item leaves the ticks of all items behind. -/
theorem foldl_eq_enter {step : Timeline → α → Timeline} {ticksOf : α → List AcceptedTick}
    (hstep : ∀ timeline a, step timeline a = timeline.enter (ticksOf a)) (items : List α)
    (timeline : Timeline) : items.foldl step timeline = timeline.enter (items.flatMap ticksOf) := by
  induction items generalizing timeline with
  | nil => exact (enter_nil timeline).symm
  | cons a items ih => rw [List.foldl_cons, List.flatMap_cons, ih, hstep, enter_append]

theorem recordTick_eq_enter (source : Path) (time : Binary64) (timeline : Timeline) (tick : Tick) :
    timeline.recordTick source time tick =
      timeline.enter (AcceptedTick.ofTick? source time tick).toList := by
  cases tick with
  | boundary code slot endpoint =>
    exact congrArg (Timeline.mk _) (List.append_nil timeline.changes).symm
  | speed factor => rfl
  | counterOutOfRange => exact (enter_nil timeline).symm
  | standstill => exact (enter_nil timeline).symm
  | unrecognized => exact (enter_nil timeline).symm

theorem recordLine_eq_enter (source : Path) (timeline : Timeline) (line : List Char) :
    timeline.recordLine source line = timeline.enter (ticksOfLine source line) := by
  unfold recordLine ticksOfLine
  cases TimedLine.ofLine line with
  | timed time words =>
    dsimp only
    rw [List.filterMap_eq_flatMap_toList]
    exact foldl_eq_enter
      (fun timeline word ↦ recordTick_eq_enter source time timeline (Tick.ofWord word)) words
      timeline
  | untimed => exact (enter_nil timeline).symm
  | unusableTime field => exact (enter_nil timeline).symm

theorem read_eq_enter (timeline : Timeline) (reading : Reading) :
    timeline.read reading = timeline.enter reading.ticks := by
  cases reading with
  | line source line => exact recordLine_eq_enter source timeline line
  | text source text => exact foldl_eq_enter (recordLine_eq_enter source) _ timeline

/-- A timeline is what its accepted ticks leave behind. -/
theorem after_eq_enter (readings : List Reading) :
    after readings = ({} : Timeline).enter (acceptedTicks readings) :=
  foldl_eq_enter read_eq_enter readings {}

end Timeline

/-! ### The time of a line -/

namespace TimedLine

/-- The line is a number and a text behind it, with an equals sign between them. The number is made
of digits and points, and blanks may be around it. -/
structure Splits (line numeral behind : List Char) : Prop where
  line_eq : ∃ before after, (∀ c ∈ before ++ after, Text.isBlank c) ∧
    line = before ++ numeral ++ after ++ '=' :: behind
  numeral_ne_nil : numeral ≠ []
  isNumeral : ∀ c ∈ numeral, c.isDigit ∨ c = '.'

/-- The words of fields, which are set off from each other by bars. -/
def wordsOf (fields : List (List Char)) : List (List Char) :=
  fields.flatMap fun field ↦ (Text.cut (· == '|') field).filter (· ≠ [])

/-- What a line says: its time, and the words at this time. -/
inductive Reads (line : List Char) : Binary64 → List (List Char) → Prop
  /-- The first field behind the equals sign is a number, and another field follows. -/
  | field {numeral behind first second : List Char} {rest : List (List Char)} {time : Binary64} :
      Splits line numeral behind → Text.words behind = first :: second :: rest →
      Binary64.ofChars? first = some time → Reads line time (wordsOf (second :: rest))
  /-- There is no such field, and the time is the number in front. -/
  | numeral {numeral behind : List Char} {time : Binary64} :
      Splits line numeral behind →
      (∀ first second rest, Text.words behind = first :: second :: rest →
        Binary64.ofChars? first = none) →
      Binary64.ofChars? numeral = some time → Reads line time (wordsOf (Text.words behind))

theorem splits_of_split? {line numeral behind : List Char}
    (h : split? line = some (numeral, behind)) : Splits line numeral behind := by
  unfold split? at h
  dsimp only at h
  split at h
  next rest hrest =>
    obtain ⟨⟨hnumeral, -⟩, heq⟩ := Option.ite_none_right_eq_some.mp h
    obtain ⟨rfl, rfl⟩ := Prod.mk.inj (Option.some.inj heq)
    refine ⟨⟨line.takeWhile Text.isBlank, ((Text.trimStart line).dropWhile fun c ↦
      c.isDigit || c == '.').takeWhile Text.isBlank, ?_, ?_⟩, hnumeral, ?_⟩
    · intro c hc
      rcases List.mem_append.mp hc with hbefore | hafter
      · exact List.mem_takeWhile_imp hbefore
      · exact List.mem_takeWhile_imp hafter
    · rw [← hrest, Text.trimStart, Text.trimStart, List.append_assoc, List.append_assoc,
        List.takeWhile_append_dropWhile, List.takeWhile_append_dropWhile,
        List.takeWhile_append_dropWhile]
    · intro c hc
      simpa using List.mem_takeWhile_imp hc
  · cases h

/-- A line with a time says what was read of it, and its time is finite. -/
theorem reads_of_ofLine {line : List Char} {time : Binary64} {words : List (List Char)}
    (h : ofLine line = .timed time words) : Reads line time words ∧ time.isFinite := by
  refine ⟨?_, isFinite_of_ofLine h⟩
  unfold ofLine at h
  cases hsplit : split? line with
  | none =>
    rw [hsplit] at h
    cases h
  | some parts =>
    obtain ⟨numeral, behind⟩ := parts
    have hsplits := splits_of_split? hsplit
    rw [hsplit] at h
    dsimp only at h
    -- The time is read from one of two texts, and the words come from the other fields.
    have hread {field : List Char} {fields : List (List Char)}
        (hfields : timeAndFields numeral behind = (field, fields)) :
        Binary64.ofChars? field = some time ∧ words = wordsOf fields := by
      rw [hfields] at h
      dsimp only at h
      split at h
      next found hfound =>
        split_ifs at h
        cases h
        exact ⟨hfound, rfl⟩
      · cases h
    unfold timeAndFields at hread
    split at hread
    next first second rest hwords =>
      by_cases hfirst : (Binary64.ofChars? first).isSome
      · obtain ⟨htime, rfl⟩ := hread (if_pos hfirst)
        exact Reads.field hsplits hwords htime
      · obtain ⟨htime, rfl⟩ := hread (if_neg hfirst)
        rw [← hwords]
        refine Reads.numeral hsplits (fun first' second' rest' hwords' ↦ ?_) htime
        rw [hwords] at hwords'
        cases hwords'
        simpa using hfirst
    next hfew =>
      obtain ⟨htime, rfl⟩ := hread rfl
      exact Reads.numeral hsplits (fun first second rest hwords ↦ absurd hwords (hfew _ _ _)) htime

end TimedLine

end Montage.Timing
