import OpenVoxDB.QueryExpansion
import OpenVoxDB.TreeVisits

/-!
# The expansion as a visit

The source expands a query by a loop over a zipper, with three visitors. The loop ends, and gives
what the recursion over the query gives.
-/

namespace OpenVoxDB.ExpansionVisits

open QueryExpansion Zippers TreeVisits

def children : Ast → List Ast
  | .vec _ xs => xs
  | _ => []

/-- A vector keeps its context. -/
def makeNode : Ast → List Ast → Ast
  | .vec ctx _, xs => .vec ctx xs
  | a, _ => a

mutual

def size : Ast → Nat
  | .vec _ xs => sizes xs + 1
  | _ => 0

def sizes : List Ast → Nat
  | [] => 0
  | x :: xs => size x + sizes xs

end

theorem size_le_sizes (c : Ast) (xs : List Ast) (h : c ∈ xs) : size c ≤ sizes xs := by
  induction xs with
  | nil => cases h
  | cons x xs ih =>
    rw [sizes]
    rcases List.mem_cons.mp h with rfl | h
    · omega
    · have := ih h
      omega

theorem size_lt (a c : Ast) (h : c ∈ children a) : size c < size a := by
  cases a with
  | vec ctx xs =>
    have hc := size_le_sizes c xs h
    rw [size]
    omega
  | lit v => cases h
  | elide => cases h

/-- `tree-zipper`, on vectors. Any other value is a leaf. -/
def treeZipper : Shape Ast where
  children := children
  makeNode := makeNode
  size := size
  size_lt := size_lt
  makeNode_children := fun a => by cases a <;> rfl

def removeElided : Ast → Option Ast
  | .vec ctx xs => some (removeElidedNodes (.vec ctx xs))
  | _ => none

/-- The visitors of `expand-user-query`. The second one throws, or does nothing. -/
def visitors (env : Env) : List (Ast → Except String (Option Ast)) :=
  [expandQueryNode env, fun a => (validateBinaryOperators env a).map fun _ => none,
   fun a => .ok (removeElided a)]

theorem rewriteNode_visitors (env : Env) (a : Ast) :
    rewriteNode (visitors env) a = visit env a := by
  simp only [rewriteNode, visitors, QueryExpansion.visit]
  cases expandQueryNode env a with
  | error e => rfl
  | ok expanded =>
    show _ = (validateBinaryOperators env (expanded.getD a) >>= _)
    simp only [bind, Except.bind]
    cases validateBinaryOperators env (expanded.getD a) with
    | error e => rfl
    | ok u => cases expanded.getD a <;> rfl

mutual

theorem rewriteTree_eq_expand (env : Env) : (q : Ast) →
    rewriteTree treeZipper (visitors env) q = expandUserQuery env q
  | .vec ctx xs => by
    rw [rewriteTree_eq, expandUserQuery]
    show (xs.mapM _ >>= _) = _
    rw [mapM_rewriteTree_eq_expand env xs]
    simp only [rewriteNode_visitors]
    rfl
  | .lit v => by
    rw [rewriteTree_eq, expandUserQuery]
    show (List.mapM _ [] >>= _) = _
    rw [List.mapM_nil, pure_bind]
    exact rewriteNode_visitors env _
  | .elide => by
    rw [rewriteTree_eq, expandUserQuery]
    show (List.mapM _ [] >>= _) = _
    rw [List.mapM_nil, pure_bind]
    exact rewriteNode_visitors env _

theorem mapM_rewriteTree_eq_expand (env : Env) : (qs : List Ast) →
    qs.mapM (rewriteTree treeZipper (visitors env)) = expandAll env qs
  | [] => by
    rw [List.mapM_nil, expandAll]
  | q :: qs => by
    rw [List.mapM_cons, expandAll, rewriteTree_eq_expand env q, mapM_rewriteTree_eq_expand env qs]

end

end OpenVoxDB.ExpansionVisits
