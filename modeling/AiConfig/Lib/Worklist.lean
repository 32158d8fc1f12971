import Mathlib.Tactic.Common
import Mathlib.Data.List.Basic
import Mathlib.Data.List.Perm.Subperm

/-! # Exploring a graph by a worklist

Nodes are told apart by a key; a node found a second time, under whatever value, is
dropped.  `explore fuel seen queue` takes the queue's nodes one by one.

* `subset_explore` — nothing is lost.
* `explore_induct` — what every step keeps holds of all that is found. -/

namespace AiConfig.Lib

section

variable {α κ : Type} [DecidableEq κ] (key : α → κ)

/-- The nodes whose keys are new, each key once. -/
def unseen : List κ → List α → List α
  | _, [] => []
  | seen, node :: rest =>
    if key node ∈ seen then unseen seen rest else node :: unseen (key node :: seen) rest

def explore (next : α → List α) : Nat → List α → List α → List α
  | 0, seen, _ => seen
  | _ + 1, seen, [] => seen
  | fuel + 1, seen, node :: queue =>
    let fresh := unseen key (seen.map key) (next node)
    explore next fuel (seen ++ fresh) (queue ++ fresh)

variable {key} {next : α → List α}

theorem unseen_subset {seen : List κ} {nodes : List α} : ∀ node ∈ unseen key seen nodes,
    node ∈ nodes := by
  induction nodes generalizing seen with
  | nil => simp [unseen]
  | cons head rest inductionHypothesis =>
    intro node member
    rw [unseen] at member
    split at member
    · exact List.mem_cons_of_mem _ (inductionHypothesis node member)
    · rcases List.mem_cons.mp member with rfl | later
      · exact List.mem_cons_self
      · exact List.mem_cons_of_mem _ (inductionHypothesis node later)

theorem subset_explore {fuel : Nat} {seen queue : List α} :
    ∀ node ∈ seen, node ∈ explore key next fuel seen queue := by
  induction fuel generalizing seen queue with
  | zero => exact fun _ member => member
  | succ fuel inductionHypothesis =>
    cases queue with
    | nil => exact fun _ member => member
    | cons head queue =>
      exact fun node member => inductionHypothesis node (List.mem_append_left _ member)

/-- What an invariant of the steps holds of the start, it holds of all that is found. -/
theorem explore_induct {invariant : α → Prop}
    (step : ∀ node, invariant node → ∀ found ∈ next node, invariant found)
    {fuel : Nat} {seen queue : List α} (known : ∀ node ∈ seen, invariant node)
    (waiting : ∀ node ∈ queue, invariant node) : ∀ node ∈ explore key next fuel seen queue,
    invariant node := by
  induction fuel generalizing seen queue with
  | zero => exact known
  | succ fuel inductionHypothesis =>
    cases queue with
    | nil => exact known
    | cons head queue =>
      have fresh : ∀ node ∈ unseen key (seen.map key) (next head), invariant node :=
          fun node member =>
        step head (waiting head List.mem_cons_self) node (unseen_subset node member)
      apply inductionHypothesis
      · intro node member
        rcases List.mem_append.mp member with old | new
        · exact known node old
        · exact fresh node new
      · intro node member
        rcases List.mem_append.mp member with old | new
        · exact waiting node (List.mem_cons_of_mem _ old)
        · exact fresh node new

end

end AiConfig.Lib
