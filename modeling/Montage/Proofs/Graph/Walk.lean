import Mathlib.Data.List.Nodup
import Mathlib.Data.List.Perm.Subperm
import Mathlib.Logic.Relation
import Montage.Proofs.Failure.Traversal
import Montage.Proofs.Graph.Visits

/-!
# The walk through any graph

Whatever the graph, a walk that succeeds has written the chains of its visits, each set off from the
next by a semicolon (`wrote_of_writeChild`). If the nodes below the root are in range and none is
below itself (`WellFormed`), the walk cannot run out of depth: the nodes above the one it visits
are all different, so there are at most as many as the graph has (`exists_oversized_of_write`).

`chains_of_toCommand` says what the command of such a graph is.
-/

set_option autoImplicit false
set_option relaxedAutoImplicit false

namespace Montage.Graph

open Media

variable {graph : Graph} {ids more : List Nat} {depth id root : Nat}
  {before between after : List String × Written} {written : Written} {failure : Failure}

/-! ### What the walk has written -/

/-- Between two points of a walk over the children of a node, the given nodes were visited: the
labels of their streams were collected, and their chains were written. -/
def Wrote (graph : Graph) (ids : List Nat) (before after : List String × Written) : Prop :=
  ∃ chains results, Visits graph ids before.2.nextLabel chains results ∧
    after.1 = before.1 ++ results ∧
    after.2.text = before.2.text ++ String.join (chains.map fun chain ↦ chain.text ++ ";") ∧
    after.2.nextLabel = before.2.nextLabel + Chain.total chains

theorem wrote_nil (before : List String × Written) : Wrote graph [] before before :=
  ⟨[], [], .nil, by simp, by simp, rfl⟩

theorem Wrote.append (h : Wrote graph ids before between) (hmore : Wrote graph more between after) :
    Wrote graph (ids ++ more) before after := by
  obtain ⟨chains, results, hvisits, hlabels, htext, hnext⟩ := h
  obtain ⟨later, rest, hlater, hlabels', htext', hnext'⟩ := hmore
  rw [hnext] at hlater
  refine ⟨chains ++ later, results ++ rest, hvisits.append hlater, ?_, ?_, ?_⟩
  · rw [hlabels', hlabels, List.append_assoc]
  · rw [htext', htext, List.map_append, String.join_append, String.append_assoc]
  · rw [hnext', hnext, Chain.total_append, Nat.add_assoc]

/-- What relates the points before and after each child, and can be put together, relates the points
before and after all children. -/
theorem related_of_foldlM
    {Related : List Nat → List String × Written → List String × Written → Prop}
    (hnil : ∀ before, Related [] before before)
    (happend : ∀ {ids more before between after}, Related ids before between →
      Related more between after → Related (ids ++ more) before after)
    (hchild : ∀ id before after, writeChild graph depth before id = .ok after →
      Related [id] before after)
    (h : ids.foldlM (writeChild graph depth) before = .ok after) :
    Related ids before after := by
  induction ids generalizing before with
  | nil =>
    cases h
    exact hnil _
  | cons id ids ih =>
    rw [List.foldlM_cons] at h
    obtain ⟨between, hbetween, hafter⟩ := Failure.bind_eq_ok.mp h
    exact happend (hchild id before between hbetween) (ih hafter)

/-- If each child is visited, all of them are. -/
theorem wrote_of_foldlM
    (hchild : ∀ id before after, writeChild graph depth before id = .ok after →
      Wrote graph [id] before after)
    (h : ids.foldlM (writeChild graph depth) before = .ok after) :
    Wrote graph ids before after :=
  related_of_foldlM wrote_nil Wrote.append hchild h

/-- A chain node is written as the chains of its children and its own chain. -/
theorem visits_of_write_chain {children : List Nat} {filters : List Filter} {outputs : Nat}
    {target : Option Path} {labels : List String} {next : Written}
    (hchild : ∀ id before after, writeChild graph depth before id = .ok after →
      Wrote graph [id] before after)
    (hnode : graph.nodes[id]? = some (.chain children filters outputs target))
    (h : write graph (depth + 1) id written = .ok (labels, next)) :
    ∃ below own, Visits graph [id] written.nextLabel (below ++ [own]) labels ∧
      next.text = written.text ++
        (String.join (below.map fun chain ↦ chain.text ++ ";") ++ own.text) ∧
      next.nextLabel = written.nextLabel + Chain.total (below ++ [own]) := by
  rw [write_chain hnode] at h
  obtain ⟨⟨takes, between⟩, hfold, hrest⟩ := Failure.bind_eq_ok.mp h
  obtain ⟨below, results, hvisits, htakes, htext, hnext⟩ := wrote_of_foldlM hchild hfold
  obtain ⟨-, -, hlast⟩ := Failure.bind_eq_ok.mp hrest
  rw [Written.addLabels_eq] at hlast
  obtain ⟨rfl, rfl⟩ := Prod.mk.inj (Except.ok.inj hlast)
  rw [List.nil_append] at htakes
  subst htakes
  dsimp only at htext hnext
  refine ⟨below, ⟨id, takes, filters, between.nextLabel, outputs⟩, ?_, ?_, ?_⟩
  · have hlater : Visits graph [] (written.nextLabel + Chain.total below + outputs) [] [] := .nil
    have hown := Visits.chain hnode hvisits hlater
    rw [← hnext, List.append_nil] at hown
    exact hown
  · simp only [Written.append, htext, Chain.text, Chain.makes, labelsFrom, String.append_assoc]
  · simp [Written.append, hnext, Chain.total, Nat.add_assoc]

/-- The walk over a child that succeeds has visited it. -/
theorem wrote_of_writeChild (depth id : Nat) (before after : List String × Written)
    (h : writeChild graph depth before id = .ok after) : Wrote graph [id] before after := by
  induction depth generalizing id before after with
  | zero => cases h
  | succ depth ih =>
    obtain ⟨⟨labels, next⟩, hwrite, hafter⟩ := Failure.bind_eq_ok.mp h
    cases hafter
    cases hnode : graph.nodes[id]? with
    | none =>
      simp only [write, hnode] at hwrite
      cases hwrite
    | some node =>
      cases node with
      | leaf index path kind =>
        simp only [write, hnode] at hwrite
        obtain ⟨-, -, hlast⟩ := Failure.bind_eq_ok.mp hwrite
        cases hlast
        refine ⟨[], [leafLabel index kind], .leaf hnode .nil, rfl, ?_, ?_⟩
        · simp [Node.isChain]
        · simp [Node.isChain, Chain.total]
      | chain children filters outputs target =>
        obtain ⟨below, own, hvisits, htext, hnext⟩ := visits_of_write_chain ih hnode hwrite
        refine ⟨below ++ [own], labels, hvisits, rfl, ?_, ?_⟩
        · simp [Node.isChain, Written.append, htext, String.append_assoc]
        · simpa [Node.isChain, Written.append] using hnext

/-! ### Depth -/

/-- One node is a child of another. -/
def IsChild (graph : Graph) (parent child : Nat) : Prop := child ∈ childrenOf graph parent

/-- Below the root all nodes are in range, and none is below itself. -/
structure WellFormed (graph : Graph) (root : Nat) : Prop where
  inRange : ∀ id, Relation.ReflTransGen (IsChild graph) root id → id < graph.nodes.size
  acyclic : ∀ id, Relation.ReflTransGen (IsChild graph) root id →
    ¬ Relation.TransGen (IsChild graph) id id

theorem lt_size_of_isChild {child : Nat} (h : IsChild graph id child) : id < graph.nodes.size := by
  by_contra hid
  rw [IsChild, childrenOf, Array.getElem?_eq_none (Nat.not_lt.mp hid)] at h
  cases h

/-- A graph is well-formed if children are in range and lower than their parents. -/
theorem wellFormed_of_height (height : Nat → Nat) (hroot : root < graph.nodes.size)
    (h : ∀ id < graph.nodes.size, ∀ child ∈ childrenOf graph id,
      child < graph.nodes.size ∧ height child < height id) :
    WellFormed graph root := by
  have hstep (id child : Nat) (hchild : IsChild graph id child) :=
    h id (lt_size_of_isChild hchild) child hchild
  have hlower (id other : Nat) (hpath : Relation.TransGen (IsChild graph) id other) :
      height other < height id := by
    induction hpath with
    | single hchild => exact (hstep _ _ hchild).2
    | tail _ hchild ih => exact Nat.lt_trans (hstep _ _ hchild).2 ih
  refine ⟨fun id hid ↦ ?_, fun id _ hcycle ↦ Nat.lt_irrefl _ (hlower id id hcycle)⟩
  cases hid with
  | refl => exact hroot
  | tail _ hchild => exact (hstep _ _ hchild).1

/-- The rows of the table that a node asks for: the inputs up to its index, or the labels of its
streams. -/
def Node.rows : Node → Nat
  | leaf index _ _ => index + 1
  | chain _ _ outputs _ => outputs

theorem checkRows_eq_error {rows : Nat} (h : checkRows graph rows = .error failure) :
    max maxRows graph.nodes.size < rows ∧ failure = .defect (.tableTooLong rows) := by
  unfold checkRows at h
  split_ifs at h with hrows
  cases h
  exact ⟨hrows, rfl⟩

/-- A node asks for a table that fits into no memory, and the failure says so. -/
def Oversized (graph : Graph) (id : Nat) (failure : Failure) : Prop :=
  ∃ node, graph.nodes[id]? = some node ∧ max maxRows graph.nodes.size < node.rows ∧
    failure = .defect (.tableTooLong node.rows)

/-- The walk over a leaf fails only on a table that fits into no memory. -/
theorem oversized_of_write_leaf {index : Nat} {path : Path} {kind : StreamKind}
    (hnode : graph.nodes[id]? = some (.leaf index path kind))
    (h : write graph (depth + 1) id written = .error failure) : Oversized graph id failure := by
  simp only [write, hnode] at h
  rcases Failure.bind_eq_error.mp h with hrows | ⟨_, -, hlast⟩
  · exact ⟨_, hnode, checkRows_eq_error hrows⟩
  · cases hlast

/-- The walk over a chain node fails on such a table, or because the walk over a child fails. -/
theorem oversized_or_of_write_chain {children : List Nat} {filters : List Filter}
    {outputs : Nat} {target : Option Path}
    (hnode : graph.nodes[id]? = some (.chain children filters outputs target))
    (h : write graph (depth + 1) id written = .error failure) :
    Oversized graph id failure ∨
      ∃ child ∈ children, ∃ before, write graph depth child before = .error failure := by
  rw [write_chain hnode] at h
  rcases Failure.bind_eq_error.mp h with hfold | ⟨_, -, hrest⟩
  · obtain ⟨child, hmem, before, hchild⟩ := Failure.exists_of_foldlM_eq_error hfold
    rcases Failure.bind_eq_error.mp hchild with hwrite | ⟨_, -, hlast⟩
    · exact Or.inr ⟨child, hmem, before.2, hwrite⟩
    · cases hlast
  · rcases Failure.bind_eq_error.mp hrest with hrows | ⟨_, -, hlast⟩
    · exact Or.inl ⟨_, hnode, checkRows_eq_error hrows⟩
    · cases hlast

/-- The walk through a well-formed graph fails only on a table that fits into no memory, which some
node below the root asks for, if it may go deeper than the graph has nodes. The nodes above the
visited one are all different. -/
theorem exists_oversized_of_write (hgraph : WellFormed graph root) (above : List Nat)
    (hid : Relation.ReflTransGen (IsChild graph) root id)
    (habove : ∀ other ∈ above, Relation.ReflTransGen (IsChild graph) root other ∧
      Relation.TransGen (IsChild graph) other id)
    (hnodup : above.Nodup) (hdepth : graph.nodes.size < above.length + depth)
    (h : write graph depth id written = .error failure) :
    ∃ below, Relation.ReflTransGen (IsChild graph) root below ∧ Oversized graph below failure := by
  induction depth generalizing id above written with
  | zero =>
    have hrange : above ⊆ List.range graph.nodes.size := fun other hother ↦
      List.mem_range.mpr (hgraph.inRange other (habove other hother).1)
    have hle := (List.Nodup.subperm hnodup hrange).length_le
    rw [List.length_range] at hle
    omega
  | succ depth ih =>
    obtain ⟨node, hnode⟩ : ∃ node, graph.nodes[id]? = some node :=
      ⟨_, Array.getElem?_eq_getElem (hgraph.inRange id hid)⟩
    cases node with
    | leaf index path kind => exact ⟨id, hid, oversized_of_write_leaf hnode h⟩
    | chain children filters outputs target =>
      rcases oversized_or_of_write_chain hnode h with hrows | ⟨child, hmem, before, hwrite⟩
      · exact ⟨id, hid, hrows⟩
      · have hstep : IsChild graph id child := by
          rw [IsChild, childrenOf, hnode]
          exact hmem
        refine ih (id :: above) (hid.tail hstep) ?_ ?_ ?_ hwrite
        · intro other hother
          rcases List.mem_cons.mp hother with rfl | hmem
          · exact ⟨hid, .single hstep⟩
          · exact ⟨(habove other hmem).1, (habove other hmem).2.tail hstep⟩
        · exact List.nodup_cons.mpr ⟨fun hmem ↦ hgraph.acyclic id hid (habove id hmem).2, hnodup⟩
        · rw [List.length_cons]
          omega

theorem tableTooLong_of_write (hgraph : WellFormed graph root) (above : List Nat)
    (hid : Relation.ReflTransGen (IsChild graph) root id)
    (habove : ∀ other ∈ above, Relation.ReflTransGen (IsChild graph) root other ∧
      Relation.TransGen (IsChild graph) other id)
    (hnodup : above.Nodup) (hdepth : graph.nodes.size < above.length + depth)
    (h : write graph depth id written = .error failure) :
    ∃ rows, failure = .defect (.tableTooLong rows) := by
  obtain ⟨_, -, node, -, -, hfailure⟩ :=
    exists_oversized_of_write hgraph above hid habove hnodup hdepth h
  exact ⟨node.rows, hfailure⟩

theorem missingInput_of_inputsFrom {found : List (Nat × Path)} {index count : Nat}
    (h : inputsFrom found index count = .error failure) :
    ∃ index, failure = .missingInput index := by
  rcases inputsFrom_outcome found index count with ⟨paths, hpaths, -⟩ | ⟨gap, hgap, -⟩
  · rw [hpaths] at h
    cases h
  · exact ⟨gap, Except.error.inj (h.symm.trans hgap)⟩

/-! ### The command -/

/-- A label that a chain makes is made by no other chain and used once, in the result or by a chain
that comes later. -/
theorem Visits.used_once {first : Nat} {chains : List Chain} {results : List String}
    (h : Visits graph ids first chains results) {place : Nat} {chain : Chain}
    (hchain : chains[place]? = some chain) {name : String} (hname : name ∈ chain.makes) :
    (chains.flatMap Chain.makes).count name = 1 ∧
      (chains.flatMap Chain.takes ++ results).count name = 1 ∧
      ∀ (later : Nat) (taker : Chain), chains[later]? = some taker → name ∈ taker.takes →
        place < later := by
  obtain ⟨number, -, rfl⟩ := List.mem_map.mp hname
  have hrange := label_mem_labelsFrom.mp hname
  have honce : (chains.flatMap Chain.makes).count (label number) = 1 := by
    refine List.count_eq_one_of_mem ?_ (List.mem_flatMap.mpr
      ⟨chain, List.mem_of_getElem? hchain, hname⟩)
    rw [h.flatMap_makes]
    exact List.Nodup.map label_injective List.nodup_range'
  refine ⟨honce, (h.count_label number).trans honce, fun later taker htaker htakes ↦ ?_⟩
  have hbefore := h.lt_of_takes.2 taker (List.mem_of_getElem? htaker) number htakes
  by_contra hle
  rcases Nat.lt_or_eq_of_le (Nat.not_lt.mp hle) with hlt | rfl
  · -- The chain that makes the label comes after the one that takes it.
    obtain ⟨hlater, rfl⟩ := List.getElem?_eq_some_iff.mp htaker
    obtain ⟨hplace, rfl⟩ := List.getElem?_eq_some_iff.mp hchain
    have horder := List.pairwise_iff_getElem.mp h.pairwise_first later place hlater hplace hlt
    omega
  · obtain rfl := Option.some.inj (hchain.symm.trans htaker)
    omega

/-- The command of a well-formed graph with a target can be built unless an input is missing or a
table fits into no memory. Its text joins one chain for each visit of a chain node, children first.
The labels that the chains make are numbered without gap from one on, and each of them is used once:
by a later chain or as a stream that is kept. -/
theorem chains_of_toCommand (graph : Graph) (settings : Settings) {root outputs : Nat}
    {children : List Nat} {filters : List Filter} {target : Path}
    (hroot : graph.root = some root)
    (hnode : graph.nodes[root]? = some (.chain children filters outputs (some target)))
    (hgraph : WellFormed graph root) :
    (∀ failure, toCommand graph settings = .error failure →
        (∃ index, failure = .missingInput index) ∨
          ∃ rows, failure = .defect (.tableTooLong rows)) ∧
      ∀ command, toCommand graph settings = .ok command →
        ∃ chains, Visits graph [root] 1 chains command.maps ∧
          command.filterText = ";".intercalate (chains.map Chain.text) ∧
          (∀ id, graph.nodes[id]?.any Node.isChain → (chains.map Chain.node).count id =
            [root].count id + (chains.flatMap fun chain ↦ childrenOf graph chain.node).count id) ∧
          chains.flatMap Chain.makes = labelsFrom 1 (Chain.total chains) ∧
          ∀ (place : Nat) (chain : Chain), chains[place]? = some chain → ∀ name ∈ chain.makes,
            (chains.flatMap Chain.makes).count name = 1 ∧
              (chains.flatMap Chain.takes ++ command.maps).count name = 1 ∧
              ∀ (later : Nat) (taker : Chain), chains[later]? = some taker → name ∈ taker.takes →
                place < later := by
  rw [toCommand, hroot]
  dsimp only
  constructor
  · intro failure hfails
    rcases Failure.bind_eq_error.mp hfails with hwrite | ⟨_, -, hrest⟩
    · exact Or.inr
        (tableTooLong_of_write hgraph [] .refl (by simp) .nil (by simp) hwrite)
    · simp only [hnode] at hrest
      rcases Failure.bind_eq_error.mp hrest with hinputs | ⟨_, -, hlast⟩
      · exact Or.inl (missingInput_of_inputsFrom hinputs)
      · cases hlast
  · intro command hcommand
    obtain ⟨⟨maps, written⟩, hwrite, hrest⟩ := Failure.bind_eq_ok.mp hcommand
    simp only [hnode] at hrest
    obtain ⟨_, -, hlast⟩ := Failure.bind_eq_ok.mp hrest
    cases hlast
    obtain ⟨below, own, hvisits, htext, -⟩ := visits_of_write_chain
      (wrote_of_writeChild graph.nodes.size) hnode hwrite
    refine ⟨below ++ [own], hvisits, ?_, fun id hid ↦ hvisits.count_node hid,
      hvisits.flatMap_makes, fun place chain hchain name hname ↦ hvisits.used_once hchain hname⟩
    have hjoined := join_terminated (below.map Chain.text) own.text
    rw [List.map_map] at hjoined
    rw [htext, List.map_append, List.map_singleton, ← hjoined]
    exact String.empty_append

/-- A graph whose root comes first and has a chain node twice as a child. -/
def sampleGraph : Graph where
  nodes := #[.chain [2, 1, 2] [{ name := "concat", named := [("n", "5")] }] 1 (some ⟨"out.mp4"⟩),
    .leaf 0 ⟨"clip.mp4"⟩ .video,
    .chain [3, 1] [{ name := "mix", named := [("n", "2")] },
      { name := "copies", argument := some "2" }] 2 none,
    .leaf 1 ⟨"other.mp4"⟩ .audio]
  root := some 0

/-- The chain node gives two chains with labels of their own. -/
theorem chains_of_toCommand_sample :
    WellFormed sampleGraph 0 ∧ ∃ command chains, toCommand sampleGraph {} = .ok command ∧
      Visits sampleGraph [0] 1 chains command.maps ∧
      chains.flatMap Chain.makes = labelsFrom 1 (Chain.total chains) ∧
      ";".intercalate (chains.map Chain.text) =
        "[1:a][0:v]mix=n=2,copies=2[z1][z2];[1:a][0:v]mix=n=2,copies=2[z3][z4];" ++
          "[z1][z2][0:v][z3][z4]concat=n=5[z5]" := by
  have hgraph : WellFormed sampleGraph 0 :=
    wellFormed_of_height (fun id ↦ if id = 0 then 2 else if id = 2 then 1 else 0) (by decide)
      (by decide)
  obtain ⟨command, hcommand⟩ := Failure.exists_eq_ok
    (toCommand sampleGraph {}) (by decide +kernel)
  obtain ⟨chains, hvisits, htext, -, hlabels, -⟩ :=
    (chains_of_toCommand sampleGraph {} rfl rfl hgraph).2 command hcommand
  refine ⟨hgraph, command, chains, hcommand, hvisits, hlabels, htext.symm.trans ?_⟩
  have hfilterText : (toCommand sampleGraph {}).toOption.map Command.filterText =
      some ("[1:a][0:v]mix=n=2,copies=2[z1][z2];[1:a][0:v]mix=n=2,copies=2[z3][z4];" ++
        "[z1][z2][0:v][z3][z4]concat=n=5[z5]") := by decide +kernel
  rw [hcommand] at hfilterText
  exact Option.some.inj hfilterText

end Montage.Graph
