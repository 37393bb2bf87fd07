import Mathlib.Algebra.GroupWithZero.Nat
import Mathlib.Data.List.Basic
import Montage.Proofs.Graph.Writing
import Montage.Proofs.Numeric.Numerals

/-!
# Visits

A walk that visits nodes one after the other, children first, meets a chain node once for every
parent that it visits (`Visits.count_node`). Each visit of a chain node gives one chain of the text
(`Chain`), and the chains stand in post-order (`Visits`).

All labels that the chains make are numbered without gap in the order of the chains
(`Visits.flatMap_makes`). Every label that is made goes to one place, which is a later chain or the
result (`Visits.count_label`, `Visits.lt_of_takes`).
-/

set_option autoImplicit false
set_option relaxedAutoImplicit false

namespace Montage.Graph

open Media

/-! ### Chains -/

/-- Labels with consecutive numbers. -/
def labelsFrom (first count : Nat) : List String := (List.range' first count).map label

/-- One chain of the text: what a visit of a chain node writes. -/
structure Chain where
  /-- The node. -/
  node : Nat
  /-- The labels of the streams that the chain takes. -/
  takes : List String
  /-- The filters. -/
  filters : List Filter
  /-- The number of the first label that the chain makes. -/
  first : Nat
  /-- The number of labels that the chain makes. -/
  outputs : Nat

namespace Chain

/-- The labels of the streams that a chain makes. -/
def makes (chain : Chain) : List String := labelsFrom chain.first chain.outputs

/-- The text of a chain: what it takes, its filters and what it makes. -/
def text (chain : Chain) : String :=
  String.join chain.takes ++ chainText chain.filters ++ String.join chain.makes

/-- The number of labels that chains make. -/
def total (chains : List Chain) : Nat := (chains.map outputs).sum

@[simp]
theorem total_append (chains more : List Chain) :
    total (chains ++ more) = total chains + total more := by
  simp [total]

@[simp]
theorem total_cons (chain : Chain) (chains : List Chain) :
    total (chain :: chains) = chain.outputs + total chains := by
  simp [total]

end Chain

/-- The children of a node. -/
def childrenOf (graph : Graph) (id : Nat) : List Nat :=
  match graph.nodes[id]? with
  | some (.chain children _ _ _) => children
  | _ => []

/-- Visiting the nodes one after the other, with labels numbered from `first` on, gives the chains
and then the labels of the nodes' streams. A chain node gives the chains of its children and then
its own chain, which takes what the children give. A leaf gives no chain. -/
inductive Visits (graph : Graph) : List Nat → Nat → List Chain → List String → Prop
  /-- There is nothing to visit. -/
  | nil {first : Nat} : Visits graph [] first [] []
  /-- A leaf, and other nodes after it. -/
  | leaf {id first index : Nat} {path : Path} {kind : StreamKind} {ids : List Nat}
      {chains : List Chain} {results : List String} :
      graph.nodes[id]? = some (.leaf index path kind) → Visits graph ids first chains results →
      Visits graph (id :: ids) first chains (leafLabel index kind :: results)
  /-- A chain node, and other nodes after it. -/
  | chain {id first outputs : Nat} {children ids : List Nat} {filters : List Filter}
      {target : Option Path} {below later : List Chain} {takes results : List String} :
      graph.nodes[id]? = some (.chain children filters outputs target) →
      Visits graph children first below takes →
      Visits graph ids (first + Chain.total below + outputs) later results →
      Visits graph (id :: ids) first
        (below ++ ⟨id, takes, filters, first + Chain.total below, outputs⟩ :: later)
        (labelsFrom (first + Chain.total below) outputs ++ results)

variable {graph : Graph} {ids more : List Nat} {first : Nat} {chains later : List Chain}
  {results rest : List String} {chain : Chain}

theorem Visits.append (h : Visits graph ids first chains results)
    (hmore : Visits graph more (first + Chain.total chains) later rest) :
    Visits graph (ids ++ more) first (chains ++ later) (results ++ rest) := by
  induction h with
  | nil => exact hmore
  | leaf hnode _ ih => exact .leaf hnode (ih hmore)
  | chain hnode hbelow _ _ ih =>
    rw [List.append_assoc, List.cons_append, List.append_assoc]
    refine .chain hnode hbelow (ih ?_)
    simpa [Nat.add_assoc] using hmore

/-- There is one chain of a chain node for each time that it is listed: among the nodes that are
visited or among the children of a node that is visited. -/
theorem Visits.count_node (h : Visits graph ids first chains results) {id : Nat}
    (hid : graph.nodes[id]?.any Node.isChain) :
    (chains.map Chain.node).count id =
      ids.count id + (chains.flatMap fun chain ↦ childrenOf graph chain.node).count id := by
  induction h with
  | nil => rfl
  | @leaf other _ _ _ _ _ _ _ hnode _ ih =>
    have hne : other ≠ id := by
      rintro rfl
      simp [hnode, Node.isChain] at hid
    rw [ih, List.count_cons_of_ne hne]
  | @chain other _ _ children _ _ _ _ _ _ _ hnode _ _ ihbelow ih =>
    have hchildren : childrenOf graph other = children := by
      rw [childrenOf, hnode]
    simp only [List.map_append, List.map_cons, List.count_append, List.count_cons, ihbelow, ih,
      List.flatMap_append, List.flatMap_cons, hchildren]
    omega

/-! ### Labels -/

theorem labelsFrom_append (first count more : Nat) :
    labelsFrom first count ++ labelsFrom (first + count) more =
      labelsFrom first (count + more) := by
  rw [labelsFrom, labelsFrom, labelsFrom, ← List.map_append, List.range'_append_1]

theorem label_injective : Function.Injective label := by
  intro m n h
  have hchars := congrArg String.toList h
  simp only [label, String.toList_append, List.append_cancel_left_eq, List.append_cancel_right_eq,
    String.toList_inj] at hchars
  exact Numeric.toString_injective hchars

theorem label_mem_labelsFrom {first count number : Nat} :
    label number ∈ labelsFrom first count ↔ first ≤ number ∧ number < first + count := by
  rw [labelsFrom, List.mem_map_of_injective label_injective, List.mem_range'_1]

/-- The label of an input has a digit where every other label has a letter. -/
theorem leafLabel_ne_label (index : Nat) (kind : StreamKind) (number : Nat) :
    leafLabel index kind ≠ label number := by
  intro h
  have hchars := congrArg (fun text ↦ text.toList[1]?) h
  obtain ⟨c, digits, hdigits⟩ := List.exists_cons_of_ne_nil (Numeric.digitsOf_ne_nil index)
  have hdigit : c.isDigit := Numeric.isDigit_of_mem_digitsOf (hdigits ▸ List.mem_cons_self)
  simp only [leafLabel, label, String.toList_append, Numeric.toList_toString, hdigits] at hchars
  cases hchars
  exact absurd hdigit (by decide)

/-- The labels that the chains make are numbered without gap in the order of the chains. -/
theorem Visits.flatMap_makes (h : Visits graph ids first chains results) :
    chains.flatMap Chain.makes = labelsFrom first (Chain.total chains) := by
  induction h with
  | nil => rfl
  | leaf _ _ ih => exact ih
  | chain _ _ _ ihbelow ih =>
    simp only [List.flatMap_append, List.flatMap_cons, ihbelow, ih, Chain.makes, labelsFrom_append,
      Chain.total_append, Chain.total_cons]

/-- A label is taken or left over as often as it is made. -/
theorem Visits.count_label (h : Visits graph ids first chains results) (number : Nat) :
    (chains.flatMap Chain.takes ++ results).count (label number) =
      (chains.flatMap Chain.makes).count (label number) := by
  induction h with
  | nil => rfl
  | leaf _ _ ih =>
    rw [← ih, List.count_append, List.count_append,
      List.count_cons_of_ne (leafLabel_ne_label _ _ number)]
  | chain _ _ _ ihbelow ih =>
    simp only [List.flatMap_append, List.flatMap_cons, List.count_append, Chain.makes]
      at ihbelow ih ⊢
    omega

/-- The labels of all chains are numbered from the first one on. -/
theorem Visits.le_first (h : Visits graph ids first chains results) (hchain : chain ∈ chains) :
    first ≤ chain.first ∧ chain.first + chain.outputs ≤ first + Chain.total chains := by
  induction h with
  | nil => cases hchain
  | leaf _ _ ih => exact ih hchain
  | chain _ _ _ ihbelow ih =>
    simp only [Chain.total_append, Chain.total_cons]
    rcases List.mem_append.mp hchain with hmem | hmem
    · have := ihbelow hmem
      omega
    · rcases List.mem_cons.mp hmem with rfl | hmem
      · dsimp only
        omega
      · have := ih hmem
        omega

/-- A chain makes its labels before the next chains make theirs. -/
theorem Visits.pairwise_first (h : Visits graph ids first chains results) :
    chains.Pairwise fun earlier later ↦ earlier.first + earlier.outputs ≤ later.first := by
  induction h with
  | nil => exact .nil
  | leaf _ _ ih => exact ih
  | chain _ hbelow hlater ihbelow ih =>
    refine List.pairwise_append.mpr ⟨ihbelow, List.pairwise_cons.mpr
      ⟨fun chain hchain ↦ (hlater.le_first hchain).1, ih⟩, fun earlier hearlier chain hchain ↦ ?_⟩
    have hbefore := hbelow.le_first hearlier
    rcases List.mem_cons.mp hchain with rfl | hmem
    · exact hbefore.2
    · have := hlater.le_first hmem
      omega

/-- A label that is taken or left over was made before. -/
theorem Visits.lt_of_takes (h : Visits graph ids first chains results) :
    (∀ number, label number ∈ results → number < first + Chain.total chains) ∧
      ∀ chain ∈ chains, ∀ number, label number ∈ chain.takes → number < chain.first := by
  induction h with
  | nil => simp
  | leaf _ _ ih =>
    refine ⟨fun number hnumber ↦ ih.1 number ?_, ih.2⟩
    exact (List.mem_cons.mp hnumber).resolve_left (leafLabel_ne_label _ _ number).symm
  | chain _ _ _ ihbelow ih =>
    refine ⟨fun number hnumber ↦ ?_, fun chain hchain ↦ ?_⟩
    · simp only [Chain.total_append, Chain.total_cons]
      rcases List.mem_append.mp hnumber with hmem | hmem
      · have := label_mem_labelsFrom.mp hmem
        omega
      · have := ih.1 number hmem
        omega
    · rcases List.mem_append.mp hchain with hmem | hmem
      · exact ihbelow.2 chain hmem
      · rcases List.mem_cons.mp hmem with rfl | hmem
        · exact ihbelow.1
        · exact ih.2 chain hmem

end Montage.Graph
