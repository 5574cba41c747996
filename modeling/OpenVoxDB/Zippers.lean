import Mathlib

/-!
# Zippers

A location in a tree: the node in focus, and for each step of the way down to it the parent with
the children on both sides. What the nodes are is left open.
-/

namespace OpenVoxDB.Zippers

/-- How nodes are taken apart and put together. A child is smaller than its parent. -/
structure Shape (α : Type) where
  children : α → List α
  makeNode : α → List α → α
  size : α → Nat
  size_lt : ∀ x, ∀ c ∈ children x, size c < size x
  makeNode_children : ∀ x, makeNode x (children x) = x

/-- A step of the way down. The parent is made anew on the way up when a child has changed. -/
structure Crumb (α : Type) where
  parent : α
  left : List α
  right : List α
  changed : Bool

structure Loc (α : Type) where
  node : α
  path : List (Crumb α)

variable {α : Type}

/-- The way down, with a change below its last step. -/
def mark (changed : Bool) : List (Crumb α) → List (Crumb α)
  | [] => []
  | c :: path => { c with changed := c.changed || changed } :: path

@[simp] theorem mark_false (path : List (Crumb α)) : mark false path = path := by
  cases path with
  | nil => rfl
  | cons c path => simp [mark]

@[simp] theorem mark_mark (a b : Bool) (path : List (Crumb α)) :
    mark a (mark b path) = mark (b || a) path := by
  cases path with
  | nil => rfl
  | cons c path => simp [mark, Bool.or_assoc]

namespace Loc

def replace (loc : Loc α) (node : α) : Loc α := ⟨node, mark true loc.path⟩

def down (T : Shape α) (loc : Loc α) : Option (Loc α) :=
  match T.children loc.node with
  | [] => none
  | c :: cs => some ⟨c, ⟨loc.node, [], cs, false⟩ :: loc.path⟩

def right (loc : Loc α) : Option (Loc α) :=
  match loc.path with
  | ⟨parent, left, r :: rs, changed⟩ :: path =>
    some ⟨r, ⟨parent, left ++ [loc.node], rs, changed⟩ :: path⟩
  | _ => none

/-- The parent, from the node in focus and the step that led to it. -/
def close (T : Shape α) (node : α) (c : Crumb α) (path : List (Crumb α)) : Loc α :=
  ⟨if c.changed then T.makeNode c.parent (c.left ++ node :: c.right) else c.parent,
    mark c.changed path⟩

def up (T : Shape α) (loc : Loc α) : Option (Loc α) :=
  match loc.path with
  | [] => none
  | c :: path => some (close T loc.node c path)

/-- The tree on the way up, `changed` when something below has changed. -/
def rebuild (T : Shape α) : α → Bool → List (Crumb α) → α
  | node, _, [] => node
  | node, changed, c :: path =>
    let changed := c.changed || changed
    rebuild T (if changed then T.makeNode c.parent (c.left ++ node :: c.right) else c.parent)
      changed path

def root (T : Shape α) (loc : Loc α) : α := rebuild T loc.node false loc.path

theorem rebuild_mark (T : Shape α) (node : α) (changed : Bool) (path : List (Crumb α)) :
    rebuild T node false (mark changed path) = rebuild T node changed path := by
  cases path with
  | nil => rfl
  | cons c path => simp [mark, rebuild]

/-- The root of the parent is the root. -/
theorem root_close (T : Shape α) (node : α) (c : Crumb α) (path : List (Crumb α)) :
    root T (close T node c path) = root T ⟨node, c :: path⟩ := by
  simp [root, close, rebuild, rebuild_mark]

end Loc

end OpenVoxDB.Zippers
