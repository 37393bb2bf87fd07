import Montage.Graph.Serial
import Montage.Proofs.Graph.Lowering

/-!
# Writing legs

The walk through the graph of an output meets one leg after the other. Each leg adds its text to
what is written, uses up one label and notes its input (`Written.addLeg`, `writeChild_chain`), so
what the walk has written below the root is a fold over the legs (`foldlM_writeChild`). Two closed
forms follow from the fold: the text is the texts of the legs with rising labels
(`text_foldl_addLeg`), and the table of inputs has the files in the order of first use
(`inputs_foldl_addLeg`, `inputTable_tableOf`).
-/

set_option autoImplicit false
set_option relaxedAutoImplicit false

namespace Montage.Graph

open Media Registry

/-! ### One step of the walk -/

/-- The filters of a chain as text. -/
def chainText (filters : List Filter) : String := ",".intercalate (filters.map Filter.toText)

/-- The text of a leg whose result gets the label with a number. -/
def Leg.text (leg : Leg) (number : Nat) : String :=
  leafLabel leg.index leg.kind ++ chainText leg.filters ++ label number ++ ";"

/-- What is written after a leg. -/
def Written.addLeg (written : Written) (leg : Leg) : Written where
  text := written.text ++ leg.text written.nextLabel
  nextLabel := written.nextLabel + 1
  inputs := (written.addInput leg.index leg.path).inputs

@[simp]
theorem Written.addInput_text (written : Written) (index : Nat) (path : Path) :
    (written.addInput index path).text = written.text := by
  rw [Written.addInput]
  split_ifs <;> rfl

@[simp]
theorem Written.addInput_nextLabel (written : Written) (index : Nat) (path : Path) :
    (written.addInput index path).nextLabel = written.nextLabel := by
  rw [Written.addInput]
  split_ifs <;> rfl

theorem intercalate_empty (texts : List String) :
    "".intercalate texts = String.join texts := by
  induction texts with
  | nil => rfl
  | cons text texts ih =>
    cases texts with
    | nil => simp [String.join_cons]
    | cons next texts => rw [String.intercalate_cons_cons, ih]; simp

/-- Texts that are set off by semicolons are joined by them. -/
theorem join_terminated (texts : List String) (last : String) :
    String.join (texts.map (· ++ ";")) ++ last = ";".intercalate (texts ++ [last]) := by
  induction texts with
  | nil => simp
  | cons text texts ih =>
    rw [List.map_cons, String.join_cons, List.cons_append,
      String.intercalate_cons_of_ne_nil (by simp), ← ih, String.append_assoc, String.append_assoc]

theorem Written.addLabels_eq (written : Written) (count : Nat) :
    written.addLabels count =
      ((List.range' written.nextLabel count).map label, { written with
        text := written.text ++ String.join ((List.range' written.nextLabel count).map label)
        nextLabel := written.nextLabel + count }) := by
  rw [Written.addLabels, intercalate_empty]

/-- Writes one child of a chain after the others. -/
def writeChild (graph : Graph) (depth : Nat) (before : List String × Written) (child : Nat) :
    Except Failure (List String × Written) := do
  let (more, written) ← write graph depth child before.2
  let isChain := graph.nodes[child]?.any Node.isChain
  return (before.1 ++ more, if isChain then written.append ";" else written)

variable {graph : Graph} {depth id : Nat} {written : Written}

theorem checkRows_eq_ok {rows : Nat} (h : rows ≤ graph.nodes.size) :
    checkRows graph rows = .ok () :=
  if_neg (Nat.not_lt.mpr (Nat.le_trans h (Nat.le_max_right _ _)))

theorem write_leaf {index : Nat} {path : Path} {kind : StreamKind}
    (hnode : graph.nodes[id]? = some (.leaf index path kind)) (hrows : index < graph.nodes.size) :
    write graph (depth + 1) id written =
      .ok ([leafLabel index kind], written.addInput index path) := by
  simp only [write, hnode, checkRows_eq_ok hrows, Failure.ok_bind]
  rfl

/-- A chain is written by writing its children one after the other and then its own text. -/
theorem write_chain {children : List Nat} {filters : List Filter} {outputs : Nat}
    {target : Option Path}
    (hnode : graph.nodes[id]? = some (.chain children filters outputs target)) :
    write graph (depth + 1) id written = do
      let (labels, written) ← children.foldlM (writeChild graph depth) ([], written)
      checkRows graph outputs
      return (written.append (String.join labels ++ chainText filters)).addLabels outputs := by
  simp only [write, hnode, ← intercalate_empty]
  rfl

/-- The walk over a leg. -/
theorem writeChild_chain {legs : List Leg} {leg : Leg} {k : Nat} {labels : List String}
    (hlegs : HasLegs graph.nodes legs) (hleg : legs[k]? = some leg)
    (hindex : leg.index < graph.nodes.size) :
    writeChild graph (depth + 2) (labels, written) (2 * k + 1) =
      .ok (labels ++ [label written.nextLabel], written.addLeg leg) := by
  have hleaf := hlegs.leaf k leg hleg
  have hchain := hlegs.chain k leg hleg
  have hbelow : writeChild graph (depth + 1) ([], written) (2 * k) =
      .ok ([leafLabel leg.index leg.kind], written.addInput leg.index leg.path) := by
    simp only [writeChild, write_leaf hleaf hindex, Failure.ok_bind, hleaf]
    rfl
  have hrows : checkRows graph 1 = .ok () := checkRows_eq_ok (by omega)
  rw [writeChild, write_chain hchain, List.foldlM_cons, hbelow]
  simp only [Failure.ok_bind, List.foldlM_nil, hchain, hrows, pure, Except.pure,
    Written.addLabels_eq]
  refine congrArg Except.ok (Prod.ext ?_ ?_)
  · simp [Written.append]
  · simp [Written.append, Written.addLeg, Leg.text, Node.isChain, String.append_assoc]

theorem nextLabel_foldl_addLeg (legs : List Leg) (written : Written) :
    (legs.foldl Written.addLeg written).nextLabel = written.nextLabel + legs.length := by
  induction legs generalizing written with
  | nil => rfl
  | cons leg legs ih =>
    rw [List.foldl_cons, ih, List.length_cons]
    simp only [Written.addLeg]
    omega

/-- The walk over the legs adds them one after the other and hands out the labels from the first
one on. -/
theorem foldlM_writeChild {legs : List Leg} (hlegs : HasLegs graph.nodes legs)
    (hindex : ∀ leg ∈ legs, leg.index < graph.nodes.size) (depth : Nat) :
    (chainIds legs.length).foldlM (writeChild graph (depth + 2)) ([], {}) =
      .ok ((List.range legs.length).map fun k ↦ label (k + 1), legs.foldl Written.addLeg {}) := by
  induction legs using List.reverseRecOn with
  | nil => rfl
  | append_singleton legs leg ih =>
    have hearlier := ih hlegs.of_append fun other hother ↦
      hindex other (List.mem_append_left _ hother)
    have hmem : leg ∈ legs ++ [leg] := List.mem_append_right _ (List.mem_singleton_self leg)
    have hlast : (legs ++ [leg])[legs.length]? = some leg := by simp
    have hlabel : (legs.foldl Written.addLeg {}).nextLabel = legs.length + 1 := by
      rw [nextLabel_foldl_addLeg, Nat.add_comm]
    rw [List.length_append, List.length_singleton, chainIds_succ, List.foldlM_append, hearlier,
      Failure.ok_bind, List.foldlM_cons,
      writeChild_chain hlegs hlast (hindex leg hmem), Failure.ok_bind, List.foldlM_nil,
      List.range_succ, List.map_append, List.map_singleton, List.foldl_append, List.foldl_cons,
      List.foldl_nil, hlabel]
    rfl

/-! ### The text -/

/-- The text of the legs: one after the other, with rising labels. -/
theorem text_foldl_addLeg (legs : List Leg) :
    (legs.foldl Written.addLeg {}).text =
      String.join (legs.mapIdx fun k leg ↦ leg.text (k + 1)) := by
  induction legs using List.reverseRecOn with
  | nil => rfl
  | append_singleton legs leg ih =>
    rw [List.foldl_append, List.foldl_cons, List.foldl_nil, Written.addLeg, ih,
      nextLabel_foldl_addLeg, List.mapIdx_concat, String.join_append, Nat.add_comm]
    simp [String.join_cons]

/-! ### The table of inputs -/

/-- The files of inputs under their places. -/
def tableOf (inputs : Registry Input) (order : List Key) : List (Nat × Path) :=
  order.mapIdx fun index key ↦ (index, pathOf inputs key)

theorem tableOf_append_singleton (inputs : Registry Input) (order : List Key) (key : Key) :
    tableOf inputs (order ++ [key]) = tableOf inputs order ++ [(order.length, pathOf inputs key)] :=
  List.mapIdx_concat

theorem lookup_tableOf (inputs : Registry Input) (order : List Key) (index : Nat) :
    (tableOf inputs order).lookup index = order[index]?.map (pathOf inputs) := by
  induction order using List.reverseRecOn with
  | nil => rfl
  | append_singleton order key ih =>
    rw [tableOf_append_singleton, List.lookup_append, ih]
    rcases Nat.lt_trichotomy index order.length with hlt | rfl | hgt
    · rw [List.getElem?_append_left hlt, List.getElem?_eq_getElem hlt]
      rfl
    · simp
    · have hold : order[index]? = none := List.getElem?_eq_none (Nat.le_of_lt hgt)
      have hnew : (order ++ [key])[index]? = none :=
        List.getElem?_eq_none (by rw [List.length_append, List.length_singleton]; omega)
      simp [Nat.ne_of_gt hgt, hold, hnew]

/-- An input that has its place in the table is not noted again. -/
theorem addInput_inputs_of_mem {inputs : Registry Input} {order : List Key} {key : Key}
    (hwritten : written.inputs = tableOf inputs order) (hkey : key ∈ order) (path : Path) :
    (written.addInput (order.idxOf key) path).inputs = tableOf inputs order := by
  have hlookup : (written.inputs.lookup (order.idxOf key)).isSome := by
    rw [hwritten, lookup_tableOf, List.getElem?_idxOf hkey]
    rfl
  rw [Written.addInput, if_pos hlookup, hwritten]

/-- A new input takes the next place in the table. -/
theorem addInput_inputs_of_notMem {inputs : Registry Input} {order : List Key} {key : Key}
    (hwritten : written.inputs = tableOf inputs order) (hkey : key ∉ order) :
    (written.addInput (order.idxOf key) (pathOf inputs key)).inputs =
      tableOf inputs (order ++ [key]) := by
  have hlookup : ¬(written.inputs.lookup (order.idxOf key)).isSome := by
    rw [hwritten, lookup_tableOf, List.idxOf_eq_length hkey, List.getElem?_length]
    exact Bool.false_ne_true
  rw [Written.addInput, if_neg hlookup, tableOf_append_singleton, ← hwritten,
    List.idxOf_eq_length hkey]

/-- The walk over the legs of blocks notes the inputs in the order of their first use. -/
theorem inputs_foldl_addLeg (inputs : Registry Input) (interpolate : Bool) (blocks : List Block) :
    ((legsOf inputs interpolate (inputOrder blocks) blocks).foldl Written.addLeg {}).inputs =
      tableOf inputs (inputOrder blocks) := by
  induction blocks using List.reverseRecOn with
  | nil => rfl
  | append_singleton blocks block ih =>
    rw [legsOf_inputOrder_append, List.foldl_append, List.foldl_cons, List.foldl_cons,
      List.foldl_nil]
    generalize (legsOf inputs interpolate (inputOrder blocks) blocks).foldl Written.addLeg {} =
      written at ih
    -- The picture leg makes sure that the input is in the table, and the sound leg finds it there.
    have hpicture : (written.addLeg
        (.ofBlock inputs interpolate (inputOrder blocks) block .video)).inputs =
          tableOf inputs (inputOrder (blocks ++ [block])) := by
      rw [inputOrder_append_singleton]
      split_ifs with hmem
      · exact addInput_inputs_of_mem ih hmem _
      · exact addInput_inputs_of_notMem ih hmem
    have hmem : block.input ∈ inputOrder (blocks ++ [block]) :=
      mem_inputOrder.mpr ⟨block, List.mem_append_right _ (List.mem_singleton_self block), rfl⟩
    have hsound := addInput_inputs_of_mem hpicture hmem (pathOf inputs block.input)
    rwa [idxOf_inputOrder_append (Or.inr rfl)] at hsound

theorem rows_tableOf (inputs : Registry Input) (order : List Key) :
    (tableOf inputs order).foldl (fun count (index, _) ↦ max count (index + 1)) 0 =
      order.length := by
  induction order using List.reverseRecOn with
  | nil => rfl
  | append_singleton order key ih =>
    rw [tableOf_append_singleton, List.foldl_append, ih, List.length_append]
    simp

/-- The files of consecutive indices are there, unless the first of the indices that has no file is
missing. -/
theorem inputsFrom_outcome (found : List (Nat × Path)) (index count : Nat) :
    (∃ paths, inputsFrom found index count = .ok paths ∧ paths.length = count ∧
        ∀ k < count, paths[k]? = found.lookup (index + k)) ∨
      ∃ gap, inputsFrom found index count = .error (.missingInput gap) ∧
        gap < index + count ∧ found.lookup gap = none ∧
        ∀ smaller, index ≤ smaller → smaller < gap → (found.lookup smaller).isSome := by
  induction count generalizing index with
  | zero => exact Or.inl ⟨[], rfl, rfl, by simp⟩
  | succ count ih =>
    rw [inputsFrom]
    cases hlookup : found.lookup index with
    | none => exact Or.inr ⟨index, rfl, by omega, hlookup, by omega⟩
    | some path =>
      rcases ih (index + 1) with ⟨paths, hpaths, hlength, hget⟩ | ⟨gap, hgap, hlt, hnone, hfirst⟩
      · refine Or.inl ⟨path :: paths, ?_, by rw [List.length_cons, hlength], fun k hk ↦ ?_⟩
        · simp only [hpaths, Failure.ok_bind]
          rfl
        · cases k with
          | zero => exact hlookup.symm
          | succ k =>
            rw [List.getElem?_cons_succ, hget k (by omega), Nat.add_right_comm, Nat.add_assoc]
      · refine Or.inr ⟨gap, ?_, by omega, hnone, fun smaller hle hless ↦ ?_⟩
        · simp only [hgap, Failure.error_bind]
        · rcases Nat.eq_or_lt_of_le hle with rfl | hlater
          · exact Option.isSome_of_eq_some hlookup
          · exact hfirst smaller hlater hless

theorem inputsFrom_tableOf {inputs : Registry Input} {order : List Key} {index count : Nat}
    (h : index + count = order.length) :
    inputsFrom (tableOf inputs order) index count =
      .ok ((order.drop index).map (pathOf inputs)) := by
  induction count generalizing index with
  | zero =>
    rw [List.drop_of_length_le (by omega)]
    rfl
  | succ count ih =>
    have hindex : index < order.length := by omega
    rw [inputsFrom, lookup_tableOf, List.getElem?_eq_getElem hindex, Option.map_some,
      List.drop_eq_getElem_cons hindex, List.map_cons]
    simp only [ih (by omega : index + 1 + count = order.length), Failure.ok_bind]
    rfl

/-- The table of inputs gives the files in order. -/
theorem inputTable_tableOf (inputs : Registry Input) (order : List Key) :
    inputTable (tableOf inputs order) = .ok (order.map (pathOf inputs)) := by
  rw [inputTable, rows_tableOf, inputsFrom_tableOf (Nat.zero_add _), List.drop_zero]

end Montage.Graph
