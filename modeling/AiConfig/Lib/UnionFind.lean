import Mathlib.Tactic.Common
import Mathlib.Logic.Function.Basic

/-! # Union-find over a parent function -/

namespace AiConfig.Lib.UnionFind

variable {κ : Type} [DecidableEq κ]

/-- The root of a node, and the parents after path halving. -/
def find : Nat → (κ → κ) → κ → κ × (κ → κ)
  | 0, parent, node => (node, parent)
  | fuel + 1, parent, node =>
    if parent node = node then (node, parent)
    else find fuel (Function.update parent node (parent (parent node))) (parent (parent node))

/-- The second node's root gets the first node's root as its parent. -/
def union (fuel : Nat) (parent : κ → κ) (a b : κ) : κ → κ :=
  let (rootA, parent) := find fuel parent a
  let (rootB, parent) := find fuel parent b
  if rootA = rootB then parent else Function.update parent rootB rootA

end AiConfig.Lib.UnionFind
