import ScriptVet.Ast

namespace ScriptVet.Ast.Node

/-- Visits the queued nodes and what is below them. The visitor carries a state along and says after
each node whether the search goes on. -/
def walkFrom {σ : Type} (visit : σ → Node → σ × Bool) (s : σ) : List Node → σ
  | [] => s
  | n :: queue =>
    match visit s n with
    | (s, false) => s
    | (s, true) => walkFrom visit s (queue ++ n.children)
  termination_by queue => totalSize queue
  decreasing_by
    rw [totalSize_append, totalSize, size_eq]
    omega

theorem walkFrom_nil {σ : Type} (visit : σ → Node → σ × Bool) (s : σ) :
    walkFrom visit s [] = s := by
  rw [walkFrom]

theorem walkFrom_cons {σ : Type} (visit : σ → Node → σ × Bool) (s : σ) (n : Node)
    (queue : List Node) :
    walkFrom visit s (n :: queue) =
      if (visit s n).2 then walkFrom visit (visit s n).1 (queue ++ n.children)
      else (visit s n).1 := by
  rw [walkFrom]
  obtain ⟨s, goOn⟩ := visit s n
  cases goOn <;> rfl

/-- Visits the nodes of a tree, starting at its root. -/
def walk {σ : Type} (root : Node) (visit : σ → Node → σ × Bool) (s : σ) : σ :=
  walkFrom visit s [root]

/-- The first node, in order of search, that satisfies `p`. -/
def find? (root : Node) (p : Node → Bool) : Option Node :=
  root.walk (fun found n => if p n then (some n, false) else (found, true)) none

/-- All nodes that satisfy `p`, in order of search. -/
def findAll (root : Node) (p : Node → Bool) : List Node :=
  (root.walk (fun found n => (if p n then n :: found else found, true)) []).reverse

/-- Some node of the tree satisfies `p`. -/
def any (root : Node) (p : Node → Bool) : Bool :=
  root.walk (fun _ n => if p n then (true, false) else (false, true)) false

/-- The nodes at a depth: the root alone at depth 0, and below each level the children of its nodes
from left to right. -/
def level (root : Node) : Nat → List Node
  | 0 => [root]
  | depth + 1 => (level root depth).flatMap (·.children)

/-- All nodes, level by level; a tree has fewer levels than nodes or as many. -/
def byLevel (root : Node) : List Node := (List.range root.size).flatMap root.level

end ScriptVet.Ast.Node
