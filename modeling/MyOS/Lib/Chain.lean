import Mathlib.Data.List.Nodup
import Mathlib.Logic.Function.Basic

namespace MyOS.Lib

/-!
# Null-terminated chains

A singly linked list in memory is a start node and a link function.  `Chain`
says which nodes are met before the null node.  A chain is unique and free of
duplicates because it ends.
-/

/-- Following `link` from the first argument meets the listed nodes, then null. -/
inductive Chain
    {Node : Type}
    (null : Node)
    (link : Node → Node) :
    Node → List Node → Prop where
  | nil :
      Chain null link null []
  | cons
      {node : Node}
      {rest : List Node}
      (notNull : node ≠ null)
      (tail : Chain null link (link node) rest) :
      Chain null link node (node :: rest)

namespace Chain

variable {Node : Type} {null : Node} {link : Node → Node}

theorem unique
    {node : Node}
    {first second : List Node}
    (chain : Chain null link node first)
    (other : Chain null link node second) :
    first = second := by
  induction chain generalizing second with
  | nil =>
      cases other with
      | nil =>
          rfl
      | cons notNull _ =>
          exact (notNull rfl).elim
  | cons notNull _ inductionHypothesis =>
      cases other with
      | nil =>
          exact (notNull rfl).elim
      | cons _ tail =>
          rw [inductionHypothesis tail]

theorem eq_cons
    {node : Node}
    {nodes : List Node}
    (chain : Chain null link node nodes)
    (notNull : node ≠ null) :
    ∃ rest, nodes = node :: rest ∧ Chain null link (link node) rest := by
  cases chain with
  | nil =>
      exact (notNull rfl).elim
  | cons _ tail =>
      exact ⟨_, rfl, tail⟩

theorem of_mem
    {node member : Node}
    {nodes : List Node}
    (chain : Chain null link node nodes)
    (inNodes : member ∈ nodes) :
    ∃ later,
      Chain null link member later ∧ later.length ≤ nodes.length := by
  induction chain with
  | nil =>
      simp at inNodes
  | @cons first rest notNull tail inductionHypothesis =>
      rcases List.mem_cons.mp inNodes with isFirst | inRest
      · subst isFirst
        exact ⟨member :: rest, .cons notNull tail, Nat.le_refl _⟩
      · obtain ⟨later, laterChain, shorter⟩ := inductionHypothesis inRest
        exact ⟨later, laterChain, Nat.le_succ_of_le shorter⟩

theorem nodup
    {node : Node}
    {nodes : List Node}
    (chain : Chain null link node nodes) :
    nodes.Nodup := by
  induction chain with
  | nil =>
      exact List.nodup_nil
  | @cons first rest notNull tail inductionHypothesis =>
      refine List.nodup_cons.mpr ⟨?_, inductionHypothesis⟩
      intro again
      -- Meeting `first` again would give it a second, shorter chain.
      obtain ⟨later, laterChain, shorter⟩ := tail.of_mem again
      have same := laterChain.unique (.cons notNull tail)
      subst same
      exact Nat.not_succ_le_self _ shorter

theorem congr
    {other : Node → Node}
    {node : Node}
    {nodes : List Node}
    (chain : Chain null link node nodes)
    (agree : ∀ member ∈ nodes, other member = link member) :
    Chain null other node nodes := by
  induction chain with
  | nil =>
      exact .nil
  | @cons first rest notNull tail inductionHypothesis =>
      refine .cons notNull ?_
      rw [agree first List.mem_cons_self]
      exact inductionHypothesis
        (fun member inRest => agree member (List.mem_cons_of_mem _ inRest))

theorem update
    [DecidableEq Node]
    {node : Node}
    {nodes : List Node}
    (chain : Chain null link node nodes)
    {outside : Node}
    (notMember : outside ∉ nodes)
    (target : Node) :
    Chain null (Function.update link outside target) node nodes := by
  refine chain.congr ?_
  intro member inNodes
  refine Function.update_of_ne ?_ _ _
  rintro rfl
  exact notMember inNodes

theorem push
    [DecidableEq Node]
    {node : Node}
    {nodes : List Node}
    (chain : Chain null link node nodes)
    {fresh : Node}
    (notNull : fresh ≠ null)
    (notMember : fresh ∉ nodes) :
    Chain null (Function.update link fresh node) fresh (fresh :: nodes) := by
  refine .cons notNull ?_
  rw [Function.update_self]
  exact chain.update notMember node

end Chain

end MyOS.Lib
