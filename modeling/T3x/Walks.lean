import Mathlib.Logic.Relation
import Mathlib.Data.List.Chain

/-!
# Walks and cycles of a relation

A relation between nodes is a directed graph. A node is cyclic when some walk of
at least one edge leads back to it, and leads to a cycle when some walk from it ends
in a cyclic node. Leading to a cycle goes from a node to one of its successors, so
a search that follows the edges decides it.
-/

namespace T3x.Walks

open Relation

variable {N : Type*} {E : N → N → Prop}

/-- Some walk of at least one edge leads from the node back to it. -/
def Cyclic (E : N → N → Prop) (n : N) : Prop := TransGen E n n

/-- Some walk leads from one node to the other. -/
abbrev Reaches (E : N → N → Prop) (n m : N) : Prop := ReflTransGen E n m

/-- Some walk from the node ends in a cyclic node. -/
def LeadsToCycle (E : N → N → Prop) (n : N) : Prop := ∃ m, Reaches E n m ∧ Cyclic E m

/-- Some node is cyclic. -/
def HasCycle (E : N → N → Prop) : Prop := ∃ n, Cyclic E n

/-- A cyclic node leads to a cycle. -/
theorem Cyclic.leadsToCycle {n : N} (h : Cyclic E n) : LeadsToCycle E n :=
  ⟨n, ReflTransGen.refl, h⟩

/-- Every node reaches itself. -/
theorem Reaches.refl (n : N) : Reaches E n n := ReflTransGen.refl

/-- A node that is reached from a successor of its own closes a cycle. -/
theorem Reaches.cyclic {n m : N} (h : Reaches E n m) (hedge : E m n) : Cyclic E n :=
  TransGen.tail' h hedge

/-- What leads to a node that leads to a cycle leads to that cycle. -/
theorem LeadsToCycle.of_walk {n m : N} (hwalk : Reaches E n m) (h : LeadsToCycle E m) :
    LeadsToCycle E n := by
  obtain ⟨k, hmk, hk⟩ := h
  exact ⟨k, hwalk.trans hmk, hk⟩

/-- A node leads to a cycle exactly when one of its successors does. -/
theorem leadsToCycle_iff {n : N} : LeadsToCycle E n ↔ ∃ m, E n m ∧ LeadsToCycle E m := by
  constructor
  · rintro ⟨k, hnk, hk⟩
    rcases hnk.cases_head with rfl | ⟨m, hnm, hmk⟩
    · obtain ⟨m, hnm, hmn⟩ := TransGen.head'_iff.mp hk
      exact ⟨m, hnm, n, hmn, hk⟩
    · exact ⟨m, hnm, k, hmk, hk⟩
  · rintro ⟨m, hnm, hm⟩
    exact hm.of_walk (ReflTransGen.single hnm)

/-- There is a cycle exactly when a node with a successor leads to one. -/
theorem hasCycle_iff : HasCycle E ↔ ∃ n, (∃ m, E n m) ∧ LeadsToCycle E n := by
  constructor
  · rintro ⟨n, hn⟩
    obtain ⟨m, hnm, -⟩ := TransGen.head'_iff.mp hn
    exact ⟨n, ⟨m, hnm⟩, hn.leadsToCycle⟩
  · rintro ⟨-, -, m, -, hm⟩
    exact ⟨m, hm⟩

/-- A cycle is one of every relation with more edges. -/
theorem LeadsToCycle.mono {E' : N → N → Prop} (hle : ∀ n m, E n m → E' n m) {n : N}
    (h : LeadsToCycle E n) : LeadsToCycle E' n := by
  obtain ⟨m, hnm, hm⟩ := h
  exact ⟨m, ReflTransGen.mono hle _ _ hnm, TransGen.mono hle _ _ hm⟩

/-- Where the edges behind a node are edges of a second relation, so are its walks. -/
theorem Reaches.of_edges {E' : N → N → Prop} {n m : N}
    (hedges : ∀ k l, Reaches E' n k → E k l → E' k l) (h : Reaches E n m) : Reaches E' n m := by
  induction h with
  | refl => exact ReflTransGen.refl
  | tail _ hedge ih => exact ih.tail (hedges _ _ ih hedge)

/-- Where the edges behind a node are edges of a second relation, so are its cycles. -/
theorem LeadsToCycle.of_edges {E' : N → N → Prop} {n : N}
    (hedges : ∀ k l, Reaches E' n k → E k l → E' k l) (h : LeadsToCycle E n) :
    LeadsToCycle E' n := by
  obtain ⟨m, hnm, hm⟩ := h
  have hreach : Reaches E' n m := hnm.of_edges hedges
  refine ⟨m, hreach, ?_⟩
  have hcycle : ∀ k, TransGen E m k → TransGen E' m k := by
    intro k hk
    induction hk with
    | single hedge => exact TransGen.single (hedges _ _ hreach hedge)
    | tail _ hedge ih => exact ih.tail (hedges _ _ (hreach.trans ih.to_reflTransGen) hedge)
  exact hcycle m hm

/-- A walk that is listed node by node leads from its first node to each of them. -/
theorem walk_of_isChain {n m : N} {nodes : List N} (h : (n :: nodes).IsChain E)
    (hm : m ∈ n :: nodes) : Reaches E n m := by
  induction nodes generalizing n with
  | nil =>
    rw [List.mem_singleton.mp hm]
  | cons k nodes ih =>
    rcases List.mem_cons.mp hm with rfl | hm
    · exact ReflTransGen.refl
    · exact ReflTransGen.head (List.isChain_cons_cons.mp h).1
        (ih (List.isChain_cons_cons.mp h).2 hm)

/-- A list of nodes along edges that begins and ends in one node. -/
structure ClosedWalk (E : N → N → Prop) (walk : List N) : Prop where
  /-- Every node is followed by one of its successors. -/
  chain : walk.IsChain E
  /-- There is at least one edge. -/
  two_le : 2 ≤ walk.length
  /-- The walk ends where it begins. -/
  closed : walk.head? = walk.getLast?

/-- A node of a closed walk is cyclic. -/
theorem ClosedWalk.hasCycle {walk : List N} (h : ClosedWalk E walk) : HasCycle E := by
  obtain ⟨hchain, hlength, hclosed⟩ := h
  match walk, hlength with
  | n :: m :: nodes, _ =>
    rw [List.head?_cons, List.getLast?_cons_cons] at hclosed
    obtain ⟨hnm, hrest⟩ := List.isChain_cons_cons.mp hchain
    have hlast : n ∈ m :: nodes := List.mem_of_getLast? hclosed.symm
    exact ⟨n, TransGen.head' hnm (walk_of_isChain hrest hlast)⟩

/-- A walk whose last node has an edge to one of its nodes closes there. -/
theorem closedWalk_of_edge {before after : List N} {n : N}
    (h : (before ++ n :: (after ++ [n])).IsChain E) : ClosedWalk E (n :: (after ++ [n])) where
  chain := (List.isChain_append.mp h).2.1
  two_le := by simp
  closed := by
    rw [← List.cons_append, List.getLast?_concat]
    rfl

end T3x.Walks
