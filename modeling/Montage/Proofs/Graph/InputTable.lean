import Mathlib.Order.MinMax
import Montage.Proofs.Graph.Walk

/-!
# The table of inputs

A walk notes a file for every leaf that it meets, children first and in order (`Meets`), and the
first file of an index stays. So what is noted for an index is the file of the first leaf that has
it (`notes_of_writeChild`), and the leaves that are met are the leaves that can be reached
(`Meets.mem_iff`).

The table of inputs has a row for every index up to the greatest one that is used. It is there
unless one of them is not used, and then the first such index is missing (`FirstGap`,
`inputTable_outcome`).
-/

set_option autoImplicit false
set_option relaxedAutoImplicit false

namespace Montage.Graph

variable {graph : Graph} {ids more : List Nat} {depth id : Nat} {leaves rest : List (Nat × Path)}

/-! ### Leaves -/

/-- Visiting the nodes one after the other, children first, meets leaves with these indices and
files, in this order. A node that is visited more than once is met as often. -/
inductive Meets (graph : Graph) : List Nat → List (Nat × Path) → Prop
  /-- There is nothing to visit. -/
  | nil : Meets graph [] []
  /-- A leaf, and other nodes after it. -/
  | leaf {id index : Nat} {path : Path} {kind : StreamKind} {ids : List Nat}
      {leaves : List (Nat × Path)} :
      graph.nodes[id]? = some (.leaf index path kind) → Meets graph ids leaves →
      Meets graph (id :: ids) ((index, path) :: leaves)
  /-- A chain node, and other nodes after it. -/
  | chain {id outputs : Nat} {children ids : List Nat} {filters : List Filter}
      {target : Option Path} {below leaves : List (Nat × Path)} :
      graph.nodes[id]? = some (.chain children filters outputs target) →
      Meets graph children below → Meets graph ids leaves →
      Meets graph (id :: ids) (below ++ leaves)

theorem Meets.append (h : Meets graph ids leaves) (hmore : Meets graph more rest) :
    Meets graph (ids ++ more) (leaves ++ rest) := by
  induction h with
  | nil => exact hmore
  | leaf hnode _ ih => exact .leaf hnode ih
  | chain hnode hbelow _ _ ih =>
    rw [List.append_assoc]
    exact .chain hnode hbelow ih

/-- At or below a leaf there is the leaf alone. -/
theorem reaches_leaf_iff {index below : Nat} {path : Path} {kind : StreamKind}
    (hnode : graph.nodes[id]? = some (.leaf index path kind)) :
    Relation.ReflTransGen (IsChild graph) id below ↔ id = below := by
  rw [Relation.ReflTransGen.cases_head_iff]
  simp [IsChild, childrenOf, hnode]

/-- At or below a chain node there are the node and what is at or below its children. -/
theorem reaches_chain_iff {children : List Nat} {filters : List Filter} {outputs below : Nat}
    {target : Option Path}
    (hnode : graph.nodes[id]? = some (.chain children filters outputs target)) :
    Relation.ReflTransGen (IsChild graph) id below ↔
      id = below ∨ ∃ child ∈ children, Relation.ReflTransGen (IsChild graph) child below := by
  rw [Relation.ReflTransGen.cases_head_iff]
  simp [IsChild, childrenOf, hnode]

/-- A leaf with this index and file is at or below the node. -/
def HasLeaf (graph : Graph) (id index : Nat) (path : Path) : Prop :=
  ∃ below kind, Relation.ReflTransGen (IsChild graph) id below ∧
    graph.nodes[below]? = some (.leaf index path kind)

theorem hasLeaf_leaf_iff {index other : Nat} {path file : Path} {kind : StreamKind}
    (hnode : graph.nodes[id]? = some (.leaf index path kind)) :
    HasLeaf graph id other file ↔ (other, file) = (index, path) := by
  simp only [HasLeaf, reaches_leaf_iff hnode]
  constructor
  · rintro ⟨below, kind', rfl, hbelow⟩
    cases hnode.symm.trans hbelow
    rfl
  · rintro ⟨⟩
    exact ⟨id, kind, rfl, hnode⟩

theorem hasLeaf_chain_iff {children : List Nat} {filters : List Filter} {outputs index : Nat}
    {target : Option Path} {path : Path}
    (hnode : graph.nodes[id]? = some (.chain children filters outputs target)) :
    HasLeaf graph id index path ↔ ∃ child ∈ children, HasLeaf graph child index path := by
  simp only [HasLeaf, reaches_chain_iff hnode]
  constructor
  · rintro ⟨below, kind, rfl | ⟨child, hmem, hreaches⟩, hbelow⟩
    · cases hnode.symm.trans hbelow
    · exact ⟨child, hmem, below, kind, hreaches, hbelow⟩
  · rintro ⟨child, hmem, below, kind, hreaches, hbelow⟩
    exact ⟨below, kind, Or.inr ⟨child, hmem, hreaches⟩, hbelow⟩

/-- The leaves that are met are those at or below the visited nodes. -/
theorem Meets.mem_iff (h : Meets graph ids leaves) {index : Nat} {path : Path} :
    (index, path) ∈ leaves ↔ ∃ id ∈ ids, HasLeaf graph id index path := by
  induction h with
  | nil => simp
  | leaf hnode _ ih =>
    rw [List.mem_cons, ih, List.exists_mem_cons_iff, hasLeaf_leaf_iff hnode]
  | chain hnode _ _ ihbelow ih =>
    rw [List.mem_append, ihbelow, ih, List.exists_mem_cons_iff, hasLeaf_chain_iff hnode]

/-! ### What is noted -/

/-- Between two points of a walk over the children of a node, leaves were met, and the first file of
each index was noted. -/
def Notes (graph : Graph) (ids : List Nat) (before after : List String × Written) : Prop :=
  ∃ leaves, Meets graph ids leaves ∧
    ∀ index, after.2.inputs.lookup index = (before.2.inputs ++ leaves).lookup index

theorem notes_nil (before : List String × Written) : Notes graph [] before before :=
  ⟨[], .nil, fun index ↦ by rw [List.append_nil]⟩

theorem Notes.append {before between after : List String × Written}
    (h : Notes graph ids before between) (hmore : Notes graph more between after) :
    Notes graph (ids ++ more) before after := by
  obtain ⟨leaves, hmeets, hlookup⟩ := h
  obtain ⟨rest, hrest, hlookup'⟩ := hmore
  refine ⟨leaves ++ rest, hmeets.append hrest, fun index ↦ ?_⟩
  rw [hlookup', List.lookup_append, hlookup, ← List.lookup_append, List.append_assoc]

/-- An index that has a file keeps it. -/
theorem lookup_addInput (written : Written) (index : Nat) (path : Path) (other : Nat) :
    (written.addInput index path).inputs.lookup other =
      (written.inputs ++ [(index, path)]).lookup other := by
  unfold Written.addInput
  split_ifs with hnoted
  · rw [List.lookup_append]
    by_cases hother : other = index
    · obtain ⟨file, hfile⟩ := Option.isSome_iff_exists.mp hnoted
      rw [hother, hfile, Option.some_or]
    · rw [List.lookup_cons, beq_false_of_ne hother, List.lookup_nil, Option.or_none]
  · rfl

/-- The walk over a chain node notes what the walks over its children note. -/
theorem notes_of_write_chain {children : List Nat} {filters : List Filter} {outputs : Nat}
    {target : Option Path} {labels : List String} {written next : Written}
    (hchild : ∀ id before after, writeChild graph depth before id = .ok after →
      Notes graph [id] before after)
    (hnode : graph.nodes[id]? = some (.chain children filters outputs target))
    (h : write graph (depth + 1) id written = .ok (labels, next)) :
    ∃ leaves, Meets graph [id] leaves ∧
      ∀ index, next.inputs.lookup index = (written.inputs ++ leaves).lookup index := by
  rw [write_chain hnode] at h
  obtain ⟨⟨takes, between⟩, hfold, hrest⟩ := Failure.bind_eq_ok.mp h
  obtain ⟨leaves, hmeets, hlookup⟩ := related_of_foldlM notes_nil Notes.append hchild hfold
  obtain ⟨-, -, hlast⟩ := Failure.bind_eq_ok.mp hrest
  rw [Written.addLabels_eq] at hlast
  obtain ⟨-, rfl⟩ := Prod.mk.inj (Except.ok.inj hlast)
  have hone := Meets.chain hnode hmeets .nil
  rw [List.append_nil] at hone
  exact ⟨leaves, hone, hlookup⟩

/-- The walk over a child notes the first file of each index. -/
theorem notes_of_writeChild (depth id : Nat) (before after : List String × Written)
    (h : writeChild graph depth before id = .ok after) : Notes graph [id] before after := by
  induction depth generalizing id before after with
  | zero => cases h
  | succ depth ih =>
    obtain ⟨⟨labels, next⟩, hwrite, hafter⟩ := Failure.bind_eq_ok.mp h
    have hinputs : after.2.inputs = next.inputs := by
      cases hafter
      dsimp only
      split_ifs <;> rfl
    cases hnode : graph.nodes[id]? with
    | none =>
      simp only [write, hnode] at hwrite
      cases hwrite
    | some node =>
      cases node with
      | leaf index path kind =>
        simp only [write, hnode] at hwrite
        obtain ⟨-, -, hlast⟩ := Failure.bind_eq_ok.mp hwrite
        cases hlast
        refine ⟨[(index, path)], .leaf hnode .nil, fun other ↦ ?_⟩
        rw [hinputs, lookup_addInput]
      | chain children filters outputs target =>
        obtain ⟨leaves, hmeets, hlookup⟩ := notes_of_write_chain ih hnode hwrite
        refine ⟨leaves, hmeets, fun other ↦ ?_⟩
        rw [hinputs, hlookup]

/-! ### The rows of the table -/

/-- The first index that is not used, although a greater one is. -/
structure FirstGap (used : Nat → Prop) (index : Nat) : Prop where
  unused : ¬ used index
  below : ∃ greater, index < greater ∧ used greater
  first : ∀ smaller < index, used smaller

variable {found : List (Nat × Path)} {index count gap : Nat}

theorem lt_rows_iff {start : Nat} :
    index < found.foldl (fun count (index, _) ↦ max count (index + 1)) start ↔
      index < start ∨ ∃ entry ∈ found, index ≤ entry.1 := by
  induction found generalizing start with
  | nil => simp
  | cons entry found ih =>
    rw [List.foldl_cons, ih, List.exists_mem_cons_iff, lt_max_iff, Nat.lt_succ_iff, or_assoc]

/-- The table has the files of all indices up to the greatest one that has a file, unless the first
one that has none is missing. -/
theorem inputTable_outcome (found : List (Nat × Path)) :
    (∃ paths, inputTable found = .ok paths ∧
        (∀ index, ¬ FirstGap (fun index ↦ (found.lookup index).isSome) index) ∧
        ∀ index, paths[index]? = found.lookup index) ∨
      ∃ gap, inputTable found = .error (.missingInput gap) ∧
        FirstGap (fun index ↦ (found.lookup index).isSome) gap := by
  rw [inputTable]
  have hrows (index : Nat) :
      index < found.foldl (fun count (index, _) ↦ max count (index + 1)) 0 ↔
        ∃ greater, index ≤ greater ∧ (found.lookup greater).isSome := by
    simp only [lt_rows_iff, List.lookup_isSome_iff, beq_iff_eq, Nat.not_lt_zero, false_or]
    constructor
    · rintro ⟨entry, hmem, hle⟩
      exact ⟨entry.1, hle, entry, hmem, rfl⟩
    · rintro ⟨_, hle, entry, hmem, rfl⟩
      exact ⟨entry, hmem, hle⟩
  generalize found.foldl (fun count (index, _) ↦ max count (index + 1)) 0 = rows at hrows ⊢
  rcases inputsFrom_outcome found 0 rows with
    ⟨paths, hpaths, hlength, hget⟩ | ⟨gap, hgap, hlt, hnone, hfirst⟩
  · have hlookup (index : Nat) : paths[index]? = found.lookup index := by
      by_cases hlt : index < rows
      · rw [hget index hlt, Nat.zero_add]
      · have hnone : ¬ (found.lookup index).isSome := fun hsome ↦
          hlt ((hrows index).mpr ⟨index, Nat.le_refl _, hsome⟩)
        rw [List.getElem?_eq_none (by omega), Option.not_isSome_iff_eq_none.mp hnone]
    refine Or.inl ⟨paths, hpaths, fun index hgap ↦ hgap.unused ?_, hlookup⟩
    obtain ⟨greater, hless, hgreater⟩ := hgap.below
    have hindex : index < paths.length := by
      rw [hlength, hrows]
      exact ⟨greater, Nat.le_of_lt hless, hgreater⟩
    rw [← hlookup, List.getElem?_eq_getElem hindex, Option.isSome_some]
  · rw [Nat.zero_add, hrows] at hlt
    obtain ⟨greater, hle, hgreater⟩ := hlt
    have hunused : ¬ (found.lookup gap).isSome := by simp [hnone]
    refine Or.inr ⟨gap, hgap, hunused, ⟨greater, Nat.lt_of_le_of_ne hle ?_, hgreater⟩,
      fun smaller ↦ hfirst smaller (Nat.zero_le _)⟩
    rintro rfl
    exact hunused hgreater

end Montage.Graph
