import Mathlib.Order.Bounds.Defs
import Montage.Proofs.Graph.InputTable

/-!
# What serializing a graph ends with

A walk reads nothing but the nodes at and below the one that it starts from
(`write_eq_of_sameBelow`), so nodes that cannot be reached from the root have no influence on the
command (`toCommand_eq_of_sameBelow`).

If the nodes at and below the root ask for tables that fit into memory (`TablesFit`), a walk through
a well-formed graph succeeds. Then the outcome is decided by three questions in this order: whether
there is a root, whether the root writes a file (`targetOf`), and whether the indices of the leaves
have a gap (`outcome_of_toCommand`). A graph with a greater table ends with a defect.
-/

set_option autoImplicit false
set_option relaxedAutoImplicit false

namespace Montage.Graph

variable {graph twin : Graph} {depth depth' id root : Nat} {written : Written} {failure : Failure}

/-! ### Nodes that cannot be reached -/

/-- Two graphs have the same nodes at and below a node. -/
def SameBelow (graph twin : Graph) (root : Nat) : Prop :=
  ∀ id, Relation.ReflTransGen (IsChild graph) root id → twin.nodes[id]? = graph.nodes[id]?

theorem SameBelow.childrenOf_eq (h : SameBelow graph twin root)
    (hid : Relation.ReflTransGen (IsChild graph) root id) :
    childrenOf twin id = childrenOf graph id := by
  rw [childrenOf, childrenOf, h id hid]

theorem SameBelow.reaches (h : SameBelow graph twin root)
    (hid : Relation.ReflTransGen (IsChild twin) root id) :
    Relation.ReflTransGen (IsChild graph) root id := by
  induction hid with
  | refl => exact .refl
  | tail _ hchild ih =>
    rw [IsChild, h.childrenOf_eq ih] at hchild
    exact ih.tail hchild

theorem SameBelow.symm (h : SameBelow graph twin root) : SameBelow twin graph root :=
  fun id hid ↦ (h id (h.reaches hid)).symm

theorem SameBelow.below (h : SameBelow graph twin root)
    (hid : Relation.ReflTransGen (IsChild graph) root id) : SameBelow graph twin id :=
  fun below hbelow ↦ h below (hid.trans hbelow)

theorem SameBelow.wellFormed (h : SameBelow graph twin root) (hgraph : WellFormed graph root) :
    WellFormed twin root := by
  have hpath (id below : Nat) (hid : Relation.ReflTransGen (IsChild twin) root id)
      (hbelow : Relation.TransGen (IsChild twin) id below) :
      Relation.TransGen (IsChild graph) id below := by
    induction hbelow with
    | single hchild =>
      rw [IsChild, h.childrenOf_eq (h.reaches hid)] at hchild
      exact .single hchild
    | tail hpath hchild ih =>
      rw [IsChild, h.childrenOf_eq (h.reaches (hid.trans hpath.to_reflTransGen))] at hchild
      exact ih.tail hchild
  refine ⟨fun id hid ↦ ?_, fun id hid hcycle ↦
    hgraph.acyclic id (h.reaches hid) (hpath id id hid hcycle)⟩
  have hnode := h id (h.reaches hid)
  rw [Array.getElem?_eq_getElem (hgraph.inRange id (h.reaches hid))] at hnode
  exact (Array.getElem?_eq_some_iff.mp hnode).1

/-- The walk reads nothing but the nodes at and below the one that it starts from. If it does not
run out of depth, it may as well go deeper. -/
theorem write_eq_of_sameBelow (hsame : SameBelow graph twin id)
    (hrows : ∀ below, Relation.ReflTransGen (IsChild graph) id below →
      ∀ node, graph.nodes[below]? = some node →
        checkRows twin node.rows = checkRows graph node.rows)
    (hdepth : depth ≤ depth') (h : write graph depth id written ≠ .error (.defect .cyclicGraph)) :
    write twin depth' id written = write graph depth id written := by
  induction depth generalizing depth' id written with
  | zero => exact absurd rfl h
  | succ depth ih =>
    obtain ⟨depth', rfl⟩ := Nat.exists_eq_add_of_le' (Nat.zero_lt_of_lt hdepth)
    have hnode := hsame id .refl
    cases hid : graph.nodes[id]? with
    | none => simp only [write, hnode, hid]
    | some node =>
      rw [hid] at hnode
      have hcheck := hrows id .refl node hid
      cases node with
      | leaf index path kind =>
        simp only [Node.rows] at hcheck
        simp only [write, hnode, hid, hcheck]
      | chain children filters outputs target =>
        simp only [Node.rows] at hcheck
        rw [write_chain hid] at h
        have hfold : children.foldlM (writeChild twin depth') ([], written) =
            children.foldlM (writeChild graph depth) ([], written) := by
          refine Failure.foldlM_eq_of_ne (fun child hmem before hchild ↦ ?_) fun hfails ↦
            h (by rw [hfails, Failure.error_bind])
          have hreaches : Relation.ReflTransGen (IsChild graph) id child := by
            refine .single ?_
            rw [IsChild, childrenOf, hid]
            exact hmem
          rw [writeChild, writeChild, hsame child hreaches,
            ih (hsame.below hreaches) (fun below hbelow ↦ hrows below (hreaches.trans hbelow))
              (Nat.le_of_succ_le_succ hdepth) fun hfails ↦
                hchild (by rw [writeChild, hfails, Failure.error_bind])]
        rw [write_chain hnode, write_chain hid, hcheck, hfold]

/-! ### Tables that fit -/

/-- The nodes at and below the root ask for tables that fit into memory. -/
def TablesFit (graph : Graph) (root : Nat) : Prop :=
  ∀ id, Relation.ReflTransGen (IsChild graph) root id →
    ∀ node, graph.nodes[id]? = some node → node.rows ≤ maxRows

theorem checkRows_of_le {rows : Nat} (h : rows ≤ maxRows) : checkRows graph rows = .ok () :=
  if_neg (Nat.not_lt.mpr (Nat.le_trans h (Nat.le_max_left _ _)))

theorem SameBelow.tablesFit (h : SameBelow graph twin root) (htables : TablesFit graph root) :
    TablesFit twin root := fun id hid node hnode ↦
  htables id (h.reaches hid) node ((h id (h.reaches hid)).symm.trans hnode)

/-- A walk through a well-formed graph succeeds if the tables fit. -/
theorem exists_write_of_tablesFit (hgraph : WellFormed graph root)
    (htables : TablesFit graph root) :
    ∃ labels next, write graph (graph.nodes.size + 1) root {} = .ok (labels, next) := by
  cases hwrite : write graph (graph.nodes.size + 1) root {} with
  | ok result => exact ⟨result.1, result.2, rfl⟩
  | error failure =>
    obtain ⟨below, hbelow, node, hnode, hrows, -⟩ :=
      exists_oversized_of_write hgraph [] .refl (by simp) .nil (by simp) hwrite
    have hle := htables below hbelow node hnode
    omega

/-- A walk through a well-formed graph is not changed by adding nodes that cannot be reached. -/
theorem write_eq_of_size_le (hgraph : WellFormed graph root) (htables : TablesFit graph root)
    (hsame : SameBelow graph twin root) (hsize : graph.nodes.size ≤ twin.nodes.size) :
    write twin (twin.nodes.size + 1) root {} = write graph (graph.nodes.size + 1) root {} := by
  obtain ⟨labels, next, hwrite⟩ := exists_write_of_tablesFit hgraph htables
  refine write_eq_of_sameBelow hsame (fun below hbelow node hnode ↦ ?_) (Nat.succ_le_succ hsize) ?_
  · have hrows := htables below hbelow node hnode
    rw [checkRows_of_le hrows, checkRows_of_le hrows]
  · rw [hwrite]
    exact fun h ↦ nomatch h

/-- Nodes that cannot be reached from the root have no influence on the command. -/
theorem toCommand_eq_of_sameBelow (settings : Settings) (hroot : graph.root = some root)
    (htwin : twin.root = some root) (hgraph : WellFormed graph root)
    (htables : TablesFit graph root) (hsame : SameBelow graph twin root) :
    toCommand twin settings = toCommand graph settings := by
  have hwrite : write twin (twin.nodes.size + 1) root {} =
      write graph (graph.nodes.size + 1) root {} := by
    rcases Nat.le_total graph.nodes.size twin.nodes.size with hsize | hsize
    · exact write_eq_of_size_le hgraph htables hsame hsize
    · exact (write_eq_of_size_le (hsame.wellFormed hgraph) (hsame.tablesFit htables) hsame.symm
        hsize).symm
  simp only [toCommand, hroot, htwin, hwrite, hsame root .refl]

theorem le_of_checkRows {rows : Nat} (h : checkRows graph rows = .ok ()) :
    rows ≤ max maxRows graph.nodes.size := by
  unfold checkRows at h
  split_ifs at h with hrows
  exact Nat.not_lt.mp hrows

/-- A walk that succeeds has met no table that fits into no memory. -/
theorem rows_le_of_write {result : List String × Written} {below : Nat} {node : Node}
    (h : write graph depth id written = .ok result)
    (hbelow : Relation.ReflTransGen (IsChild graph) id below)
    (hnode : graph.nodes[below]? = some node) : node.rows ≤ max maxRows graph.nodes.size := by
  induction depth generalizing id written result with
  | zero => cases h
  | succ depth ih =>
    cases hid : graph.nodes[id]? with
    | none =>
      simp only [write, hid] at h
      cases h
    | some top =>
      cases top with
      | leaf index path kind =>
        obtain rfl := (reaches_leaf_iff hid).mp hbelow
        simp only [write, hid] at h
        obtain ⟨⟨⟩, hrows, -⟩ := Failure.bind_eq_ok.mp h
        cases hid.symm.trans hnode
        exact le_of_checkRows hrows
      | chain children filters outputs target =>
        rw [write_chain hid] at h
        obtain ⟨_, hfold, hrest⟩ := Failure.bind_eq_ok.mp h
        rcases (reaches_chain_iff hid).mp hbelow with rfl | ⟨child, hmem, hreaches⟩
        · obtain ⟨⟨⟩, hrows, -⟩ := Failure.bind_eq_ok.mp hrest
          cases hid.symm.trans hnode
          exact le_of_checkRows hrows
        · obtain ⟨before, after, hchild⟩ := Failure.exists_ok_of_foldlM hfold hmem
          obtain ⟨_, hwrite, -⟩ := Failure.bind_eq_ok.mp hchild
          exact ih hwrite hreaches

/-! ### The outcome -/

/-- The file that a node writes. -/
def targetOf (graph : Graph) (id : Nat) : Option Path :=
  match graph.nodes[id]? with
  | some (.chain _ _ _ target) => target
  | _ => none

/-- A leaf at or below the node has this index. -/
def UsesIndex (graph : Graph) (id index : Nat) : Prop := ∃ path, HasLeaf graph id index path

theorem Meets.usesIndex_iff {leaves : List (Nat × Path)} (h : Meets graph [root] leaves)
    {index : Nat} : UsesIndex graph root index ↔ (leaves.lookup index).isSome := by
  simp [UsesIndex, List.lookup_isSome_iff, h.mem_iff]

/-- The command of a graph: its output is the file that the root writes, and its inputs have the
file of the first leaf of each index, up to the greatest index. -/
structure Renders (graph : Graph) (root : Nat) (command : Command) : Prop where
  output : targetOf graph root = some command.output
  inputs : ∃ leaves, Meets graph [root] leaves ∧
    ∀ index : Nat, command.inputs[index]? = leaves.lookup index
  noInputs : (∀ index, ¬ UsesIndex graph root index) → command.inputs = []
  length : ∀ greatest, IsGreatest {index | UsesIndex graph root index} greatest →
    command.inputs.length = greatest + 1

theorem targetOf_eq_some_iff {target : Path} :
    targetOf graph id = some target ↔ ∃ children filters outputs,
      graph.nodes[id]? = some (.chain children filters outputs (some target)) := by
  unfold targetOf
  cases graph.nodes[id]? with
  | none => simp
  | some node => cases node <;> simp

/-- The file that the root writes is asked for after the walk and before the inputs. -/
theorem toCommand_of_write (settings : Settings) {maps : List String} {next : Written}
    (hroot : graph.root = some root)
    (hwrite : write graph (graph.nodes.size + 1) root {} = .ok (maps, next)) :
    (targetOf graph root = none → toCommand graph settings = .error .missingOutputPath) ∧
      ∀ output, targetOf graph root = some output →
        toCommand graph settings = (inputTable next.inputs).map fun inputs ↦ {
          program := settings.program
          inputs
          filterText := next.text
          maps
          qualityFlags := settings.qualityFlags
          output
          overwrite := settings.overwriteExisting } := by
  simp only [toCommand, hroot, hwrite, Failure.ok_bind]
  constructor
  · intro hnone
    split
    · next hnode => simp [targetOf, hnode] at hnone
    · rfl
  · intro output htarget
    obtain ⟨children, filters, outputs, hnode⟩ := targetOf_eq_some_iff.mp htarget
    simp only [hnode]
    cases inputTable next.inputs <;> rfl

/-- A table without gap that has the first file of each index is a table of the inputs. -/
theorem renders_of_meets {leaves : List (Nat × Path)} {command : Command}
    (htarget : targetOf graph root = some command.output) (hmeets : Meets graph [root] leaves)
    (hget : ∀ index : Nat, command.inputs[index]? = leaves.lookup index) :
    Renders graph root command := by
  have hlength (index : Nat) : index < command.inputs.length ↔ UsesIndex graph root index := by
    rw [hmeets.usesIndex_iff, ← hget]
    simp
  refine ⟨htarget, ⟨leaves, hmeets, hget⟩, fun hnone ↦ ?_, fun greatest hgreatest ↦ ?_⟩
  · refine List.eq_nil_iff_length_eq_zero.mpr (Nat.eq_zero_of_not_pos fun hpos ↦ ?_)
    exact hnone 0 ((hlength 0).mp hpos)
  · have hlt := (hlength greatest).mpr hgreatest.1
    -- The last row belongs to an index that is used.
    have hlast := hgreatest.2 ((hlength (command.inputs.length - 1)).mp (by omega))
    omega

/-- After a walk, the outcome is decided by the target and by the gaps. -/
theorem toCommand_cases (settings : Settings) {maps : List String} {next : Written}
    (hroot : graph.root = some root)
    (hwrite : write graph (graph.nodes.size + 1) root {} = .ok (maps, next)) :
    (targetOf graph root = none ∧ toCommand graph settings = .error .missingOutputPath) ∨
      (targetOf graph root ≠ none ∧ ∃ index, FirstGap (UsesIndex graph root) index ∧
        toCommand graph settings = .error (.missingInput index)) ∨
      ((∀ index, ¬ FirstGap (UsesIndex graph root) index) ∧
        ∃ command, Renders graph root command ∧ toCommand graph settings = .ok command) := by
  obtain ⟨hnone, hsome⟩ := toCommand_of_write settings hroot hwrite
  cases htarget : targetOf graph root with
  | none => exact Or.inl ⟨rfl, hnone htarget⟩
  | some output =>
    obtain ⟨children, filters, outputs, hnode⟩ := targetOf_eq_some_iff.mp htarget
    obtain ⟨leaves, hmeets, hlookup⟩ :=
      notes_of_write_chain (notes_of_writeChild graph.nodes.size) hnode hwrite
    have hused : (fun index ↦ (next.inputs.lookup index).isSome = true) = UsesIndex graph root := by
      funext index
      rw [hmeets.usesIndex_iff, hlookup]
      rfl
    rw [hsome output htarget, ← hused]
    rcases inputTable_outcome next.inputs with ⟨paths, hpaths, hgaps, hget⟩ | ⟨gap, hfails, hgap⟩
    · refine Or.inr (Or.inr ⟨hgaps, _, ?_, by rw [hpaths]; rfl⟩)
      refine renders_of_meets htarget hmeets fun index ↦ ?_
      rw [hget, hlookup]
      rfl
    · exact Or.inr (Or.inl ⟨Option.some_ne_none _, gap, hgap, by rw [hfails]; rfl⟩)

theorem FirstGap.unique {used : Nat → Prop} {index other : Nat} (h : FirstGap used index)
    (hother : FirstGap used other) : index = other := by
  rcases Nat.lt_trichotomy index other with hlt | heq | hlt
  · exact absurd (hother.first index hlt) h.unused
  · exact heq
  · exact absurd (h.first other hlt) hother.unused

/-- A walk that fails has met a table that fits into no memory, and the outcome is its failure. -/
theorem toCommand_of_write_eq_error (settings : Settings) (hroot : graph.root = some root)
    (hgraph : WellFormed graph root)
    (hwrite : write graph (graph.nodes.size + 1) root {} = .error failure) :
    ∃ rows, maxRows < rows ∧ toCommand graph settings = .error (.defect (.tableTooLong rows)) := by
  obtain ⟨below, -, node, -, hrows, rfl⟩ :=
    exists_oversized_of_write hgraph [] .refl (by simp) .nil (by simp) hwrite
  refine ⟨node.rows, Nat.lt_of_le_of_lt (Nat.le_max_left _ _) hrows, ?_⟩
  simp only [toCommand, hroot, hwrite, Failure.error_bind]

theorem toCommand_ne_emptyGraph (settings : Settings) (hroot : graph.root = some root)
    (hgraph : WellFormed graph root) : toCommand graph settings ≠ .error .emptyGraph := by
  cases hwrite : write graph (graph.nodes.size + 1) root {} with
  | error failure =>
    obtain ⟨rows, -, hdefect⟩ := toCommand_of_write_eq_error settings hroot hgraph hwrite
    simp [hdefect]
  | ok result =>
    rcases toCommand_cases settings hroot hwrite with
      ⟨-, h⟩ | ⟨-, index, -, h⟩ | ⟨-, command, -, h⟩ <;> simp [h]

/-- What serializing ends with, if the nodes below the root are in range, none is below itself and
the tables fit into memory. Without a root, the graph is empty. Otherwise it is the output path that
is missing if the root writes no file, whatever the indices are. Otherwise it is the first index
that no leaf at or below the root has, although one of them has a greater index. Otherwise there is
a command, with the file of the first leaf of each index. Nodes that cannot be reached from the root
have no influence. A table that fits into no memory is a defect, if the nodes themselves fit. -/
theorem outcome_of_toCommand (graph : Graph) (settings : Settings)
    (hgraph : ∀ root, graph.root = some root → WellFormed graph root) :
    (toCommand graph settings = .error .emptyGraph ↔ graph.root = none) ∧
      ∀ root, graph.root = some root →
        (TablesFit graph root →
          (toCommand graph settings = .error .missingOutputPath ↔ targetOf graph root = none) ∧
          (∀ index, toCommand graph settings = .error (.missingInput index) ↔
            targetOf graph root ≠ none ∧ FirstGap (UsesIndex graph root) index) ∧
          (targetOf graph root ≠ none → (∀ index, ¬ FirstGap (UsesIndex graph root) index) →
            ∃ command, toCommand graph settings = .ok command ∧ Renders graph root command) ∧
          ∀ twin : Graph, twin.root = some root → SameBelow graph twin root →
            toCommand twin settings = toCommand graph settings) ∧
        (¬ TablesFit graph root → graph.nodes.size ≤ maxRows →
          ∃ rows, maxRows < rows ∧
            toCommand graph settings = .error (.defect (.tableTooLong rows))) := by
  constructor
  · cases hroot : graph.root with
    | none => simp [toCommand, hroot]
    | some root => simp [toCommand_ne_emptyGraph settings hroot (hgraph root hroot)]
  intro root hroot
  specialize hgraph root hroot
  refine ⟨fun htables ↦ ?_, fun htables hsize ↦ ?_⟩
  · have hsame (twin : Graph) (htwin : twin.root = some root) :=
      toCommand_eq_of_sameBelow settings hroot htwin hgraph htables
    obtain ⟨maps, next, hwrite⟩ := exists_write_of_tablesFit hgraph htables
    rcases toCommand_cases settings hroot hwrite with
      ⟨htarget, h⟩ | ⟨htarget, gap, hgap, h⟩ | ⟨hgaps, command, hrenders, h⟩
    · exact ⟨by simp [h, htarget], by simp [h, htarget], fun hne ↦ absurd htarget hne, hsame⟩
    · refine ⟨by simp [h, htarget], fun index ↦ ?_, fun _ hgaps ↦ absurd hgap (hgaps gap), hsame⟩
      rw [h, Except.error.injEq, Failure.missingInput.injEq]
      constructor
      · rintro rfl
        exact ⟨htarget, hgap⟩
      · exact fun hother ↦ hgap.unique hother.2
    · refine ⟨by simp [h, hrenders.output], by simp [h, hgaps], fun _ _ ↦ ?_, hsame⟩
      exact ⟨command, h, hrenders⟩
  · cases hwrite : write graph (graph.nodes.size + 1) root {} with
    | error failure => exact toCommand_of_write_eq_error settings hroot hgraph hwrite
    | ok result =>
      refine absurd (fun id hid node hnode ↦ ?_) htables
      exact (rows_le_of_write hwrite hid hnode).trans (Nat.max_le.mpr ⟨Nat.le_refl _, hsize⟩)

/-- A graph in which two files compete for the first index and a leaf cannot be reached. -/
def crossedGraph : Graph where
  nodes := #[.leaf 1 ⟨"other.mp4"⟩ .audio, .leaf 0 ⟨"clip.mp4"⟩ .video,
    .leaf 0 ⟨"late.mp4"⟩ .audio,
    .chain [0, 1, 2, 1] [{ name := "concat", named := [("n", "4")] }] 1 (some ⟨"out.mp4"⟩),
    .leaf 3 ⟨"lost.mp4"⟩ .video]
  root := some 3

/-- The first file in the order of the children wins, and the index of the lost leaf is no gap. -/
theorem outcome_of_toCommand_crossed :
    WellFormed crossedGraph 3 ∧ TablesFit crossedGraph 3 ∧
      ∃ command, toCommand crossedGraph {} = .ok command ∧ Renders crossedGraph 3 command ∧
        command.inputs = [⟨"clip.mp4"⟩, ⟨"other.mp4"⟩] := by
  have hgraph : WellFormed crossedGraph 3 :=
    wellFormed_of_height (fun id ↦ if id = 3 then 1 else 0) (by decide) (by decide)
  have htables : TablesFit crossedGraph 3 := by
    intro id _ node hnode
    have hrows : ∀ node ∈ crossedGraph.nodes.toList, node.rows ≤ maxRows := by decide +kernel
    exact hrows node (Array.mem_toList_iff.mpr (Array.mem_of_getElem? hnode))
  obtain ⟨-, houtcome⟩ := outcome_of_toCommand crossedGraph {}
    (by rintro root ⟨⟩; exact hgraph)
  obtain ⟨-, hmissing, hok, -⟩ := (houtcome 3 rfl).1 htables
  have htarget : targetOf crossedGraph 3 ≠ none := by decide
  obtain ⟨command, hcommand, hrenders⟩ := hok htarget fun index hgap ↦ by
    have hfails := (hmissing index).mpr ⟨htarget, hgap⟩
    have hsucceeds : (toCommand crossedGraph {}).isOk := by decide +kernel
    rw [hfails] at hsucceeds
    cases hsucceeds
  refine ⟨hgraph, htables, command, hcommand, hrenders, ?_⟩
  have hinputs : (toCommand crossedGraph {}).toOption.map Command.inputs =
      some [⟨"clip.mp4"⟩, ⟨"other.mp4"⟩] := by decide +kernel
  rw [hcommand] at hinputs
  exact Option.some.inj hinputs

/-- A graph whose only leaf has an index that asks for a table that fits into no memory. -/
def farGraph : Graph where
  nodes := #[.leaf 1152921504606846975 ⟨"a"⟩ .audio,
    .chain [0] [{ name := "anull" }] 1 (some ⟨"o"⟩)]
  root := some 1

/-- The first index is missing, but the walk ends with a defect before this is found. -/
theorem defect_of_far_index :
    WellFormed farGraph 1 ∧ targetOf farGraph 1 = some ⟨"o"⟩ ∧
      (∀ node ∈ farGraph.nodes.toList, node.rows < 2 ^ 64) ∧
      FirstGap (UsesIndex farGraph 1) 0 ∧
      toCommand farGraph {} = .error (.defect (.tableTooLong 1152921504606846976)) := by
  have hgraph : WellFormed farGraph 1 :=
    wellFormed_of_height id (by decide) (by decide)
  have hmeets : Meets farGraph [1] [(1152921504606846975, ⟨"a"⟩)] :=
    .chain rfl (.leaf rfl .nil) .nil
  have hused (index : Nat) : UsesIndex farGraph 1 index ↔ index = 1152921504606846975 := by
    rw [hmeets.usesIndex_iff]
    simp
  refine ⟨hgraph, rfl, by decide, ⟨?_, ?_, ?_⟩, ?_⟩
  · simp [hused]
  · exact ⟨1152921504606846975, by decide, (hused _).mpr rfl⟩
  · intro smaller hsmaller
    cases hsmaller
  · decide +kernel

end Montage.Graph
