import Mathlib.Data.List.SplitBy
import Montage.Proofs.Timing.RunNames

/-!
# The runs of all teams

The runs of a timeline can be asked for in several ways, and all of them agree (`accessors_agree`).
They are stored by team and by counter (`Timeline.teams`) and listed under codes that are made anew
from the names of the teams (`Timeline.listing`). The list has every stored run once, in increasing
order of codes, since the names of the teams are in lower case already. Looking up a code finds the
run that is listed under it, and resolving all runs at once gives for every code what resolving its
run gives.

Resolving all runs gathers the results by code, and a later result would replace an earlier one of
the same code (`gather`). Nothing is replaced, because a list of increasing codes is gathered as it
is (`gather_eq_self`).
-/

set_option autoImplicit false
set_option relaxedAutoImplicit false

namespace Montage.Timing

open RunTable

/-! ### Gathering values by code -/

section Gathering

variable {α : Type} {code : RunCode} {value : α} {table entries : List (RunCode × α)}

/-- Enters a value under a code into a table that is ordered by code, in place of the old value if
there is one. -/
def enterValue (code : RunCode) (value : α) : List (RunCode × α) → List (RunCode × α)
  | [] => [(code, value)]
  | (other, old) :: rest =>
    if code = other then (other, value) :: rest
    else if code < other then (code, value) :: (other, old) :: rest
    else (other, old) :: enterValue code value rest

/-- The table of values that are entered one after the other. -/
def gather (entries : List (RunCode × α)) : List (RunCode × α) :=
  entries.foldl (fun table entry ↦ enterValue entry.1 entry.2 table) []

/-- A code behind all codes of a table is entered at its end. -/
theorem enterValue_of_forall_lt (h : ∀ entry ∈ table, entry.1 < code) :
    enterValue code value table = table ++ [(code, value)] := by
  induction table with
  | nil => rfl
  | cons first rest ih =>
    obtain ⟨hfirst, hrest⟩ := List.forall_mem_cons.mp h
    obtain ⟨other, old⟩ := first
    have hne : code ≠ other := by
      rintro rfl
      exact RunCode.lt_irrefl _ hfirst
    have hnot : ¬ code < other := fun hless ↦
      RunCode.lt_irrefl _ (RunCode.lt_trans hless hfirst)
    rw [enterValue, if_neg hne, if_neg hnot, ih hrest, List.cons_append]

/-- A list of increasing codes is gathered as it is. -/
theorem gather_eq_self (h : entries.Pairwise fun a b ↦ a.1 < b.1) : gather entries = entries := by
  induction entries using List.reverseRecOn with
  | nil => rfl
  | append_singleton entries entry ih =>
    obtain ⟨hentries, -, hlast⟩ := List.pairwise_append.mp h
    have hbehind : ∀ earlier ∈ entries, earlier.1 < entry.1 := fun earlier hearlier ↦
      hlast earlier hearlier entry (List.mem_singleton_self _)
    rw [gather, List.foldl_append, ← gather, ih hentries]
    exact enterValue_of_forall_lt hbehind

end Gathering

/-! ### Runs by team -/

namespace Timeline

variable {timeline : Timeline} {runs group : List (RunCode × Run)} {entry : RunCode × Run}
  {team : String} {counter : Nat} {run : Run}

/-- The runs, cut wherever the team changes. -/
def groups (runs : List (RunCode × Run)) : List (List (RunCode × Run)) :=
  runs.splitBy fun a b ↦ a.1.team == b.1.team

/-- The team of the first run. -/
def teamOf (group : List (RunCode × Run)) : String := (group.head?.map (·.1.team)).getD ""

/-- All runs of a group are of its team. -/
theorem team_eq_teamOf (hgroup : group ∈ groups runs) (hentry : entry ∈ group) :
    entry.1.team = teamOf group := by
  have hchain := List.isChain_of_mem_splitBy hgroup
  simp only [beq_iff_eq] at hchain
  have htrans : Trans (fun a b : RunCode × Run ↦ a.1.team = b.1.team)
      (fun a b : RunCode × Run ↦ a.1.team = b.1.team)
      (fun a b : RunCode × Run ↦ a.1.team = b.1.team) := ⟨Eq.trans⟩
  cases group with
  | nil => cases hentry
  | cons first rest =>
    rcases List.mem_cons.mp hentry with rfl | hrest
    · rfl
    · exact ((List.pairwise_cons.mp hchain.pairwise).1 entry hrest).symm

/-- The teams are the groups, with codes taken apart. -/
theorem teams_eq_map (timeline : Timeline) :
    timeline.teams = (groups timeline.runs).map fun group ↦
      (teamOf group, group.map fun entry ↦ (entry.1.counter, entry.2)) := by
  rw [← List.filterMap_eq_map]
  refine List.filterMap_congr fun group hgroup ↦ ?_
  obtain ⟨first, rest, rfl⟩ := List.exists_cons_of_ne_nil (List.ne_nil_of_mem_splitBy hgroup)
  rfl

/-- The runs that are stored by team and counter, put together, are all runs in their order. -/
theorem flatMap_teams (timeline : Timeline) :
    (timeline.teams.flatMap fun (team, runs) ↦ runs.map fun (counter, run) ↦
      ((⟨team, counter⟩ : RunCode), run)) = timeline.runs := by
  have hgroup (group : List (RunCode × Run)) (hmem : group ∈ groups timeline.runs) :
      (group.map fun entry ↦ (entry.1.counter, entry.2)).map
        (fun (counter, run) ↦ ((⟨teamOf group, counter⟩ : RunCode), run)) = group := by
    rw [List.map_map]
    refine (List.map_congr_left fun entry hentry ↦ ?_).trans (List.map_id' _)
    obtain ⟨⟨team, counter⟩, run⟩ := entry
    exact congrArg (fun team ↦ ((⟨team, counter⟩ : RunCode), run))
      (team_eq_teamOf hmem hentry).symm
  rw [teams_eq_map, List.flatMap_map]
  exact (List.flatMap_congr hgroup).trans
    (List.flatMap_id'.trans (List.flatten_splitBy _ _))

/-- A run is stored under the team and the counter of its code. -/
theorem mem_runs_iff :
    ((⟨team, counter⟩ : RunCode), run) ∈ timeline.runs ↔
      ∃ runs, (team, runs) ∈ timeline.teams ∧ (counter, run) ∈ runs := by
  rw [← flatMap_teams, List.mem_flatMap]
  constructor
  · rintro ⟨⟨other, runs⟩, hteam, hrun⟩
    obtain ⟨⟨place, found⟩, hfound, heq⟩ := List.mem_map.mp hrun
    cases heq
    exact ⟨runs, hteam, hfound⟩
  · rintro ⟨runs, hteam, hrun⟩
    exact ⟨_, hteam, List.mem_map.mpr ⟨_, hrun, rfl⟩⟩

/-- Every stored team has a run. -/
theorem exists_mem_runs_of_mem_teams {stored : String × List (Nat × Run)}
    (h : stored ∈ timeline.teams) : ∃ entry ∈ timeline.runs, entry.1.team = stored.1 := by
  rw [teams_eq_map] at h
  obtain ⟨group, hgroup, rfl⟩ := List.mem_map.mp h
  obtain ⟨first, rest, rfl⟩ := List.exists_cons_of_ne_nil (List.ne_nil_of_mem_splitBy hgroup)
  refine ⟨first, ?_, rfl⟩
  rw [← List.flatten_splitBy (fun a b ↦ a.1.team == b.1.team) timeline.runs]
  exact List.mem_flatten.mpr ⟨_, hgroup, List.mem_cons_self⟩

/-- Teams are stored in increasing order of names, and the runs of a team in increasing order of
counters. -/
theorem pairwise_teams (h : Ordered timeline.runs) :
    (timeline.teams.Pairwise fun a b ↦ a.1 < b.1) ∧
      ∀ stored ∈ timeline.teams, stored.2.Pairwise fun a b ↦ a.1 < b.1 := by
  rw [Ordered, ← List.flatten_splitBy (fun a b ↦ a.1.team == b.1.team) timeline.runs,
    List.pairwise_flatten] at h
  obtain ⟨hwithin, hbetween⟩ := h
  rw [teams_eq_map]
  constructor
  · have htrans : Trans (fun a b : List (RunCode × Run) ↦ teamOf a < teamOf b)
        (fun a b : List (RunCode × Run) ↦ teamOf a < teamOf b)
        (fun a b : List (RunCode × Run) ↦ teamOf a < teamOf b) := ⟨String.lt_trans⟩
    have hchain : (groups timeline.runs).IsChain fun a b ↦
        ∃ ha hb, ((a.getLast ha).1.team == (b.head hb).1.team) = false :=
      List.isChain_getLast_head_splitBy (fun a b ↦ a.1.team == b.1.team) timeline.runs
    rw [List.pairwise_map, ← List.isChain_iff_pairwise, List.isChain_iff_getElem]
    intro i hi
    obtain ⟨hlast, hfirst, hchange⟩ := List.isChain_iff_getElem.mp hchain i hi
    have hless := List.pairwise_iff_getElem.mp hbetween i (i + 1) (Nat.lt_of_succ_lt hi) hi
      (Nat.lt_succ_self i) _ (List.getLast_mem hlast) _ (List.head_mem hfirst)
    rw [← team_eq_teamOf (List.getElem_mem _) (List.getLast_mem hlast),
      ← team_eq_teamOf (List.getElem_mem _) (List.head_mem hfirst)]
    exact (RunCode.lt_iff.mp hless).resolve_right fun hsame ↦
      beq_eq_false_iff_ne.mp hchange hsame.1
  · rintro stored hstored
    obtain ⟨group, hgroup, rfl⟩ := List.mem_map.mp hstored
    rw [List.pairwise_map]
    refine (hwithin group hgroup).imp_of_mem fun {a b} ha hb hless ↦ ?_
    have hteam : a.1.team = b.1.team :=
      (team_eq_teamOf hgroup ha).trans (team_eq_teamOf hgroup hb).symm
    rcases RunCode.lt_iff.mp hless with hbefore | ⟨-, hcounter⟩
    · exact absurd hbefore (hteam ▸ String.lt_irrefl _)
    · exact hcounter

/-- The runs team by team, each under the code that is made of the name of its team and its
counter. -/
def listing (timeline : Timeline) : List (RunCode × Run) :=
  timeline.teams.flatMap fun (team, runs) ↦
    runs.map fun (counter, run) ↦ (.ofTeam team counter, run)

/-- Making codes anew changes none of them, if the names of all teams are in lower case. -/
theorem listing_eq (h : ∀ entry ∈ timeline.runs, entry.1.Recordable) :
    timeline.listing = timeline.runs := by
  have hlisting : timeline.listing =
      timeline.runs.map fun entry ↦ (.ofTeam entry.1.team entry.1.counter, entry.2) := by
    conv_rhs => rw [← flatMap_teams timeline]
    simp only [listing, List.map_flatMap, List.map_map]
    rfl
  rw [hlisting]
  refine (List.map_congr_left fun entry hentry ↦ ?_).trans (List.map_id' _)
  rw [(h entry hentry).ofTeam_eq]

/-! ### Resolved runs -/

/-- The results of resolving the listed runs, gathered by code. -/
def resolveListing (timeline : Timeline) : List (RunCode × List Interval) :=
  gather (timeline.listing.map fun entry ↦
    (entry.1, resolve entry.2.intervals timeline.changes))

theorem resolveListing_eq (h : Ordered timeline.runs)
    (hlisting : timeline.listing = timeline.runs) :
    timeline.resolveListing = timeline.resolveAll := by
  rw [resolveListing, hlisting]
  exact gather_eq_self (List.pairwise_map.mpr h)

/-- What is listed for a code among all results is the result for the code. -/
theorem mem_resolveAll_iff (h : Ordered timeline.runs) {code : RunCode}
    {intervals : List Interval} :
    (code, intervals) ∈ timeline.resolveAll ↔ timeline.resolveRun code = .ok intervals := by
  have hone : timeline.resolveRun code = .ok intervals ↔
      ∃ run, timeline.run? code = some run ∧
        resolve run.intervals timeline.changes = intervals := by
    rw [resolveRun]
    cases timeline.run? code with
    | none => simp
    | some run => simp
  rw [hone, resolveAll, List.mem_map]
  constructor
  · rintro ⟨⟨other, run⟩, hrun, heq⟩
    cases heq
    exact ⟨run, h.lookup_eq_some_iff.mpr hrun, rfl⟩
  · rintro ⟨run, hrun, rfl⟩
    exact ⟨_, h.lookup_eq_some_iff.mp hrun, rfl⟩

/-- A code without a run is unknown. -/
theorem resolveRun_eq_unknown_iff (h : Ordered timeline.runs) {code : RunCode} :
    timeline.resolveRun code = .error (.unknownRun code.toText) ↔
      code ∉ timeline.runs.map Prod.fst := by
  have hnone : timeline.resolveRun code = .error (.unknownRun code.toText) ↔
      timeline.run? code = none := by
    rw [resolveRun]
    cases timeline.run? code with
    | none => simp
    | some run => simp
  rw [hnone, Option.eq_none_iff_forall_ne_some]
  constructor
  · intro hnever hcode
    obtain ⟨⟨other, run⟩, hrun, rfl⟩ := List.mem_map.mp hcode
    exact hnever run (h.lookup_eq_some_iff.mpr hrun)
  · intro hcode run hrun
    exact hcode (List.mem_map_of_mem (h.lookup_eq_some_iff.mp hrun))

/-- All ways to ask for runs agree. -/
structure Agrees (timeline : Timeline) : Prop where
  /-- Teams are stored in increasing order, and so are the counters of each team. -/
  stored : (timeline.teams.Pairwise fun a b ↦ a.1 < b.1) ∧
    ∀ team ∈ timeline.teams, team.2.Pairwise fun a b ↦ a.1 < b.1
  /-- The codes of the runs increase, so none is listed twice. -/
  increasing : timeline.runs.Pairwise fun a b ↦ a.1 < b.1
  /-- The runs are what is stored for the teams, under codes made anew. -/
  listing_eq : timeline.listing = timeline.runs
  /-- A run is listed exactly if it is stored. -/
  mem_iff_stored : ∀ code run, (code, run) ∈ timeline.runs ↔
    ∃ runs, (code.team, runs) ∈ timeline.teams ∧ (code.counter, run) ∈ runs
  /-- A run is listed exactly if its code is found. -/
  mem_iff_run? : ∀ code run, (code, run) ∈ timeline.runs ↔ timeline.run? code = some run
  /-- Gathering the results by code merges and loses none. -/
  resolveAll_eq : timeline.resolveListing = timeline.resolveAll
  /-- All runs are resolved, and nothing else is. -/
  codes_resolveAll : timeline.resolveAll.map Prod.fst = timeline.runs.map Prod.fst
  /-- A run is resolved by itself to what it is resolved to among all runs. -/
  mem_resolveAll : ∀ code intervals, (code, intervals) ∈ timeline.resolveAll ↔
    timeline.resolveRun code = .ok intervals
  /-- Resolving fails for every other code, which it names. -/
  unknown : ∀ code, timeline.resolveRun code = .error (.unknownRun code.toText) ↔
    code ∉ timeline.runs.map Prod.fst

end Timeline

/-- All ways to ask for the runs of a timeline that was read agree. -/
theorem accessors_agree (readings : List Timeline.Reading) :
    (Timeline.after readings).Agrees := by
  have hordered : Ordered (Timeline.after readings).runs :=
    (Timeline.built_after readings).ordered
  have hlisting : (Timeline.after readings).listing = (Timeline.after readings).runs :=
    Timeline.listing_eq fun _ hentry ↦ RunCode.recordable_of_mem_runs hentry
  refine ⟨Timeline.pairwise_teams hordered, hordered, hlisting, ?_, ?_, ?_, ?_, ?_, ?_⟩
  · intro code run
    exact Timeline.mem_runs_iff
  · intro code run
    exact hordered.lookup_eq_some_iff.symm
  · exact Timeline.resolveListing_eq hordered hlisting
  · rw [Timeline.resolveAll, List.map_map]
    rfl
  · intro code intervals
    exact Timeline.mem_resolveAll_iff hordered
  · intro code
    exact Timeline.resolveRun_eq_unknown_iff hordered

end Montage.Timing
