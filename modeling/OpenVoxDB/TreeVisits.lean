import OpenVoxDB.Zippers

/-!
# Stateful visits of a tree

The loop that walks a zipper and calls the visitors on the way down and on the way up. A
post-order visit, whose visitors act on the way up only, is a recursion over the children.
-/

namespace OpenVoxDB.TreeVisits

open Zippers

inductive Dir where
  | pre
  | inner
  | post
  deriving DecidableEq, Repr

/-- The map that a visitor returns. The empty one stands for no map too. -/
structure Reply (α σ : Type) where
  node : Option α
  state : Option σ
  breaks : Bool
  cut : Bool

variable {ε α σ : Type}

def Reply.silent : Reply α σ := ⟨none, none, false, false⟩

abbrev Visitor (ε α σ : Type) := Dir → α → σ → Except ε (Reply α σ)

/-- Each visitor sees what the one before it left. The node of the reply is there when one of
them has replaced it. -/
def visitNode (dir : Dir) : List (Visitor ε α σ) → α → Option α → σ → Except ε (Reply α σ)
  | [], _, newNode, state => .ok ⟨newNode, some state, false, false⟩
  | v :: visitors, node, newNode, state => do
    let r ← v dir node state
    if r.breaks || r.cut then return r
    else visitNode dir visitors (r.node.getD node) (r.node.or newNode) (r.state.getD state)

structure Visited (α σ : Type) where
  loc : Loc α
  state : σ
  breaks : Bool
  cut : Bool

def visitLocation (dir : Dir) (loc : Loc α) (state : σ) (visitors : List (Visitor ε α σ)) :
    Except ε (Visited α σ) := do
  let context ← visitNode dir visitors loc.node none state
  return ⟨(context.node.map loc.replace).getD loc, context.state.getD state, context.breaks,
    context.cut⟩

inductive Next where
  | down
  | right
  deriving DecidableEq, Repr

structure Config (α σ : Type) where
  loc : Loc α
  next : Next
  state : σ

/-- The loop goes on, or returns a node and a state. -/
abbrev Turn (α σ : Type) := Config α σ ⊕ (α × σ)

def breakVisit (T : Shape α) (loc : Loc α) (state : σ) : Turn α σ := .inr (loc.root T, state)

/-- Where the loop goes from a location whose visit is over. -/
def leave (T : Shape α) (visitors : List (Visitor ε α σ)) (loc : Loc α) (state : σ) :
    Except ε (Turn α σ) :=
  match loc.right, loc.up T with
  | some loc', some parent => do
    let r ← visitNode .inner visitors parent.node none state
    let state := r.state.getD state
    if r.breaks then return breakVisit T loc' state else return .inl ⟨loc', .down, state⟩
  | _, some parent => return .inl ⟨parent, .right, state⟩
  | _, none => return .inr (loc.node, state)

/-- One turn of the loop. -/
def turn (T : Shape α) (visitors : List (Visitor ε α σ)) (c : Config α σ) :
    Except ε (Turn α σ) :=
  match c.next with
  | .down => do
    let r ← visitLocation .pre c.loc c.state visitors
    if r.breaks then return breakVisit T r.loc r.state
    else match if r.cut then none else r.loc.down T with
      | some loc => return .inl ⟨loc, .down, r.state⟩
      | none => return .inl ⟨r.loc, .right, r.state⟩
  | .right => do
    let r ← visitLocation .post c.loc c.state visitors
    if r.breaks then return breakVisit T r.loc r.state else leave T visitors r.loc r.state

/-- The loop, for as many turns as there is fuel. -/
def loop (T : Shape α) (visitors : List (Visitor ε α σ)) :
    Nat → Config α σ → Option (Except ε (α × σ))
  | 0, _ => none
  | n + 1, c =>
    match turn T visitors c with
    | .error e => some (.error e)
    | .ok (.inr result) => some (.ok result)
    | .ok (.inl c) => loop T visitors n c

/-- The rest of the loop after a turn. -/
def resume (T : Shape α) (visitors : List (Visitor ε α σ)) (n : Nat) :
    Except ε (Turn α σ) → Option (Except ε (α × σ))
  | .error e => some (.error e)
  | .ok (.inr result) => some (.ok result)
  | .ok (.inl c) => loop T visitors n c

@[simp] theorem resume_next (T : Shape α) (visitors : List (Visitor ε α σ)) (n : Nat)
    (c : Config α σ) : resume T visitors n (.ok (.inl c)) = loop T visitors n c := rfl

theorem loop_succ (T : Shape α) (visitors : List (Visitor ε α σ)) (n : Nat) (c : Config α σ) :
    loop T visitors (n + 1) c = resume T visitors n (turn T visitors c) := by
  rw [loop]
  rcases turn T visitors c with e | c | result <;> rfl

/-- `visit`, from the root on. -/
def visit (T : Shape α) (x : α) (state : σ) (visitors : List (Visitor ε α σ)) (fuel : Nat) :
    Option (Except ε (α × σ)) :=
  loop T visitors fuel ⟨⟨x, []⟩, .down, state⟩

/-- A visitor of a post-order visit. -/
abbrev NodeVisitor (ε α σ : Type) := α → σ → Except ε (Reply α σ)

def only (dir : Dir) (f : NodeVisitor ε α σ) : Visitor ε α σ := fun d node state =>
  if d = dir then f node state else .ok .silent

def postOrderVisit (T : Shape α) (x : α) (state : σ) (visitors : List (NodeVisitor ε α σ))
    (fuel : Nat) : Option (Except ε (α × σ)) :=
  visit T x state (visitors.map (only .post)) fuel

/-- A visitor that takes the node alone, and may put another in its place. -/
def replacing (f : α → Except ε (Option α)) : NodeVisitor ε α Unit := fun node _ => do
  return ⟨← f node, none, false, false⟩

def postOrderTransform (T : Shape α) (x : α) (visitors : List (α → Except ε (Option α)))
    (fuel : Nat) : Option (Except ε α) :=
  (postOrderVisit T x () (visitors.map replacing) fuel).map (·.map Prod.fst)

/-! ## The recursion -/

/-- What a visit leaves of a subtree. -/
structure Walked (α σ : Type) where
  node : α
  changed : Bool
  state : σ
  breaks : Bool

/-- What it leaves of siblings, up to the one at which it breaks. -/
structure WalkedAll (α σ : Type) where
  nodes : List α
  changed : Bool
  state : σ
  breaks : Bool

def walkAll {β : Type} (walk : β → σ → Except ε (Walked α σ)) :
    List β → σ → Except ε (WalkedAll α σ)
  | [], state => .ok ⟨[], false, state, false⟩
  | x :: xs, state => do
    let w ← walk x state
    if w.breaks then return ⟨[w.node], w.changed, w.state, true⟩
    else
      let ws ← walkAll walk xs w.state
      return ⟨w.node :: ws.nodes, w.changed || ws.changed, ws.state, ws.breaks⟩

theorem walkAll_map {β γ : Type} (walk : β → σ → Except ε (Walked α σ)) (f : γ → β)
    (xs : List γ) (state : σ) :
    walkAll walk (xs.map f) state = walkAll (fun x => walk (f x)) xs state := by
  induction xs generalizing state with
  | nil => rfl
  | cons x xs ih => simp only [List.map_cons, walkAll, ih]

theorem walkAll_cons {β : Type} (walk : β → σ → Except ε (Walked α σ)) (x : β) (xs : List β)
    (state : σ) (w : Walked α σ) (hw : walk x state = .ok w) (hbreaks : w.breaks = false) :
    walkAll walk (x :: xs) state = (walkAll walk xs w.state).map fun ws =>
      ⟨w.node :: ws.nodes, w.changed || ws.changed, ws.state, ws.breaks⟩ := by
  simp only [walkAll, hw, hbreaks, bind, Except.bind, Bool.false_eq_true, if_false]
  cases walkAll walk xs w.state <;> rfl

/-- The node over its children as they are left. -/
def regrown (T : Shape α) (x : α) (ws : WalkedAll α σ) : α :=
  if ws.changed then T.makeNode x (ws.nodes ++ (T.children x).drop ws.nodes.length) else x

/-- The visitors on the way up, over what is left of the children. -/
def finish (T : Shape α) (visitors : List (NodeVisitor ε α σ)) (x : α) (ws : WalkedAll α σ) :
    Except ε (Walked α σ) :=
  if ws.breaks then return ⟨regrown T x ws, ws.changed, ws.state, true⟩
  else do
    let r ← visitNode .post (visitors.map (only .post)) (regrown T x ws) none ws.state
    return ⟨r.node.getD (regrown T x ws), ws.changed || r.node.isSome, r.state.getD ws.state,
      r.breaks⟩

def postOrder (T : Shape α) (visitors : List (NodeVisitor ε α σ)) (x : α) (state : σ) :
    Except ε (Walked α σ) := do
  let ws ← walkAll (fun (c : { c // c ∈ T.children x }) state =>
    postOrder T visitors c.1 state) (T.children x).attach state
  finish T visitors x ws
termination_by T.size x
decreasing_by exact T.size_lt x c.1 c.2

theorem postOrder_eq (T : Shape α) (visitors : List (NodeVisitor ε α σ)) (x : α) (state : σ) :
    postOrder T visitors x state =
      walkAll (postOrder T visitors) (T.children x) state >>= finish T visitors x := by
  rw [postOrder, ← walkAll_map (postOrder T visitors) Subtype.val, List.attach_map_subtype_val]

/-! ## The loop is the recursion -/

theorem visitNode_silent (dir : Dir) (visitors : List (Visitor ε α σ))
    (hsilent : ∀ v ∈ visitors, ∀ node state, v dir node state = .ok .silent)
    (node : α) (newNode : Option α) (state : σ) :
    visitNode dir visitors node newNode state = .ok ⟨newNode, some state, false, false⟩ := by
  induction visitors with
  | nil => rfl
  | cons v visitors ih =>
    have hv := hsilent v List.mem_cons_self node state
    have hrest := ih fun v hv => hsilent v (List.mem_cons_of_mem _ hv)
    simpa [visitNode, hv, Reply.silent, bind, Except.bind] using hrest

theorem only_silent (dir : Dir) (visitors : List (NodeVisitor ε α σ)) (hdir : dir ≠ .post) :
    ∀ v ∈ visitors.map (only .post), ∀ node state, v dir node state = .ok .silent := by
  intro v hv node state
  obtain ⟨f, -, rfl⟩ := List.mem_map.mp hv
  exact if_neg hdir

section

variable (T : Shape α) (visitors : List (NodeVisitor ε α σ))

/-- On the way down nothing happens. -/
theorem turn_down (loc : Loc α) (state : σ) :
    turn T (visitors.map (only .post)) ⟨loc, .down, state⟩ =
      .ok (.inl (match loc.down T with
        | some child => ⟨child, .down, state⟩
        | none => ⟨loc, .right, state⟩)) := by
  have hpre := visitNode_silent .pre _ (only_silent .pre visitors (by decide)) loc.node none state
  simp only [turn, visitLocation, hpre, bind, Except.bind, pure, Except.pure, Option.map_none,
    Option.getD_none, Option.getD_some]
  cases loc.down T <;> rfl

/-- The end of a visit of a subtree. -/
def settle (path : List (Crumb α)) (w : Walked α σ) : Except ε (Turn α σ) :=
  if w.breaks then .ok (breakVisit T ⟨w.node, mark w.changed path⟩ w.state)
  else leave T (visitors.map (only .post)) ⟨w.node, mark w.changed path⟩ w.state

/-- On the way up the visitors are called. -/
theorem turn_right (path : List (Crumb α)) (x : α) (ws : WalkedAll α σ)
    (hbreaks : ws.breaks = false) :
    turn T (visitors.map (only .post)) ⟨⟨regrown T x ws, mark ws.changed path⟩, .right, ws.state⟩ =
      finish T visitors x ws >>= settle T visitors path := by
  simp only [turn, visitLocation, finish, hbreaks, Bool.false_eq_true, if_false]
  cases visitNode .post (visitors.map (only .post)) (regrown T x ws) none ws.state with
  | error e => rfl
  | ok r =>
    cases hnode : r.node with
    | none => simp [bind, Except.bind, pure, Except.pure, settle, hnode]
    | some node => simp [bind, Except.bind, pure, Except.pure, settle, hnode, Loc.replace]

/-- The way up from the siblings, when those on the left are behind. -/
def ascend (path : List (Crumb α)) (parent : α) (left : List α) (changed : Bool)
    (siblings : List α) (ws : WalkedAll α σ) : Turn α σ :=
  let node := if changed || ws.changed then
      T.makeNode parent (left ++ ws.nodes ++ siblings.drop ws.nodes.length)
    else parent
  if ws.breaks then breakVisit T ⟨node, mark (changed || ws.changed) path⟩ ws.state
  else .inl ⟨⟨node, mark (changed || ws.changed) path⟩, .right, ws.state⟩

theorem ascend_cons (path : List (Crumb α)) (parent : α) (left : List α) (changed : Bool) (x : α)
    (siblings : List α) (w : Walked α σ) (ws : WalkedAll α σ) :
    ascend T path parent (left ++ [w.node]) (changed || w.changed) siblings ws =
      ascend T path parent left changed (x :: siblings)
        ⟨w.node :: ws.nodes, w.changed || ws.changed, ws.state, ws.breaks⟩ := by
  simp [ascend, Bool.or_assoc]

theorem ascend_children (path : List (Crumb α)) (x : α) (ws : WalkedAll α σ) :
    ascend T path x [] false (T.children x) ws =
      if ws.breaks then breakVisit T ⟨regrown T x ws, mark ws.changed path⟩ ws.state
      else .inl ⟨⟨regrown T x ws, mark ws.changed path⟩, .right, ws.state⟩ := by
  simp [ascend, regrown]

/-- The loop walks the subtree in focus as the recursion does. -/
def Follows (x : α) : Prop :=
  ∀ path state, ∃ turns, ∀ n,
    loop T (visitors.map (only .post)) (turns + n) ⟨⟨x, path⟩, .down, state⟩ =
      resume T (visitors.map (only .post)) n
        (postOrder T visitors x state >>= settle T visitors path)

/-- From one child on, the loop walks the siblings and comes back to the parent. -/
theorem follows_siblings (xs : List α) (hxs : ∀ x ∈ xs, Follows T visitors x) (x : α)
    (hx : Follows T visitors x) (parent : α) (left : List α) (changed : Bool)
    (path : List (Crumb α)) (state : σ) :
    ∃ turns, ∀ n,
      loop T (visitors.map (only .post)) (turns + n)
          ⟨⟨x, ⟨parent, left, xs, changed⟩ :: path⟩, .down, state⟩ =
        resume T (visitors.map (only .post)) n
          (walkAll (postOrder T visitors) (x :: xs) state >>= fun ws =>
            .ok (ascend T path parent left changed (x :: xs) ws)) := by
  induction xs generalizing x left changed state with
  | nil =>
    obtain ⟨turns, hturns⟩ := hx (⟨parent, left, [], changed⟩ :: path) state
    refine ⟨turns, fun n => ?_⟩
    rw [hturns]
    cases hw : postOrder T visitors x state with
    | error e => simp [walkAll, hw, bind, Except.bind, resume]
    | ok w =>
      by_cases hbreaks : w.breaks
      · simp [walkAll, hw, hbreaks, bind, Except.bind, pure, Except.pure, settle, breakVisit,
          ascend, mark, ← Loc.root_close, Loc.close]
      · simp [walkAll, hw, hbreaks, bind, Except.bind, pure, Except.pure, settle, leave, ascend,
          mark, Loc.right, Loc.up, Loc.close]
  | cons y ys ih =>
    obtain ⟨turns, hturns⟩ := hx (⟨parent, left, y :: ys, changed⟩ :: path) state
    cases hw : postOrder T visitors x state with
    | error e =>
      refine ⟨turns, fun n => ?_⟩
      rw [hturns]
      simp [walkAll, hw, bind, Except.bind, resume]
    | ok w =>
      by_cases hbreaks : w.breaks
      · refine ⟨turns, fun n => ?_⟩
        rw [hturns]
        simp [walkAll, hw, hbreaks, bind, Except.bind, pure, Except.pure, settle, breakVisit,
          ascend, mark, ← Loc.root_close, Loc.close]
      · obtain ⟨turns', hturns'⟩ := ih (fun z hz => hxs z (List.mem_cons_of_mem _ hz)) y
          (hxs y List.mem_cons_self) (left ++ [w.node]) (changed || w.changed) w.state
        refine ⟨turns + turns', fun n => ?_⟩
        have hnext : settle T visitors (⟨parent, left, y :: ys, changed⟩ :: path) w =
            .ok (.inl ⟨⟨y, ⟨parent, left ++ [w.node], ys, changed || w.changed⟩ :: path⟩, .down,
              w.state⟩) := by
          have hinner := visitNode_silent .inner _ (only_silent .inner visitors (by decide))
            (Loc.close T w.node ⟨parent, left, y :: ys, changed || w.changed⟩ path).node none
            w.state
          simp only [settle, hbreaks, leave, mark, Loc.right, Loc.up, hinner]
          rfl
        rw [Nat.add_assoc, hturns, hw, walkAll_cons _ x (y :: ys) state w hw (by simpa using hbreaks)]
        simp only [bind, Except.bind, hnext, resume]
        rw [hturns']
        cases walkAll (postOrder T visitors) (y :: ys) w.state with
        | error e => rfl
        | ok ws =>
          show resume T _ n (.ok _) = resume T _ n (.ok _)
          rw [ascend_cons]

/-- Every subtree is walked so. -/
theorem follows (x : α) : Follows T visitors x := by
  induction hn : T.size x using Nat.strong_induction_on generalizing x with
  | h n ih =>
  intro path state
  cases hcs : T.children x with
  | nil =>
    refine ⟨2, fun n => ?_⟩
    have hwalk : postOrder T visitors x state = finish T visitors x ⟨[], false, state, false⟩ := by
      rw [postOrder_eq, hcs]
      rfl
    rw [show 2 + n = n + 1 + 1 by omega, loop_succ, turn_down, hwalk]
    simp only [Loc.down, hcs]
    have hturn := turn_right T visitors path x ⟨[], false, state, false⟩ rfl
    simp only [regrown, mark_false, Bool.false_eq_true, if_false] at hturn
    rw [resume_next, loop_succ, hturn]
  | cons c cs =>
    have hchild (d : α) (hd : d ∈ T.children x) : Follows T visitors d :=
      ih (T.size d) (by have := T.size_lt x d hd; omega) d rfl
    obtain ⟨turns, hturns⟩ := follows_siblings T visitors cs
      (fun d hd => hchild d (by rw [hcs]; exact List.mem_cons_of_mem _ hd)) c
      (hchild c (by rw [hcs]; exact List.mem_cons_self)) x [] false path state
    have hdown (m : Nat) : loop T (visitors.map (only .post)) (m + 1) ⟨⟨x, path⟩, .down, state⟩ =
        loop T (visitors.map (only .post)) m ⟨⟨c, ⟨x, [], cs, false⟩ :: path⟩, .down, state⟩ := by
      rw [loop_succ, turn_down]
      simp only [Loc.down, hcs, resume]
    have hwalk : postOrder T visitors x state =
        walkAll (postOrder T visitors) (c :: cs) state >>= finish T visitors x := by
      rw [postOrder_eq, hcs]
    cases hws : walkAll (postOrder T visitors) (c :: cs) state with
    | error e =>
      refine ⟨turns + 1, fun n => ?_⟩
      rw [show turns + 1 + n = turns + n + 1 by omega, hdown, hturns, hwalk, hws]
      rfl
    | ok ws =>
      have hascend := ascend_children T path x ws
      rw [hcs] at hascend
      by_cases hbreaks : ws.breaks
      · refine ⟨turns + 1, fun n => ?_⟩
        rw [show turns + 1 + n = turns + n + 1 by omega, hdown, hturns, hwalk, hws]
        simp only [bind, Except.bind, hascend, hbreaks, if_true, finish, pure, Except.pure, settle]
      · refine ⟨turns + 2, fun n => ?_⟩
        have hturn := turn_right T visitors path x ws (by simpa using hbreaks)
        rw [show turns + 2 + n = turns + (n + 1) + 1 by omega, hdown, hturns, hwalk, hws]
        simp only [bind, Except.bind, hascend, if_neg hbreaks]
        rw [resume_next, loop_succ, hturn]
        rfl

end

/-! ## Transformations -/

/-- The visitors on one node, each on what the one before it left. -/
def rewriteNode : List (α → Except ε (Option α)) → α → Except ε α
  | [], x => .ok x
  | f :: fs, x => do
    let y ← f x
    rewriteNode fs (y.getD x)

/-- A tree from the leaves up, each node over the new children. -/
def rewriteTree (T : Shape α) (visitors : List (α → Except ε (Option α))) (x : α) :
    Except ε α := do
  let ys ← (T.children x).attach.mapM fun c => rewriteTree T visitors c.1
  rewriteNode visitors (T.makeNode x ys)
termination_by T.size x
decreasing_by exact T.size_lt x c.1 c.2

theorem rewriteTree_eq (T : Shape α) (visitors : List (α → Except ε (Option α))) (x : α) :
    rewriteTree T visitors x =
      (T.children x).mapM (rewriteTree T visitors) >>= fun ys =>
        rewriteNode visitors (T.makeNode x ys) := by
  have hmap : (T.children x).attach.mapM (fun c => rewriteTree T visitors c.1) =
      ((T.children x).attach.map Subtype.val).mapM (rewriteTree T visitors) :=
    List.mapM_map.symm
  rw [rewriteTree, hmap, List.attach_map_subtype_val]

section

variable (T : Shape α) (visitors : List (α → Except ε (Option α)))

/-- Replies that carry nothing but a node put it in the place of the one visited. -/
theorem visitNode_replacing (x : α) (newNode : Option α) :
    (visitNode .post ((visitors.map replacing).map (only .post)) (newNode.getD x) newNode ()).map
        (fun r => (r.node.getD x, r.breaks)) =
      (rewriteNode visitors (newNode.getD x)).map fun y => (y, false) := by
  induction visitors generalizing newNode with
  | nil => rfl
  | cons f fs ih =>
    simp only [List.map_cons, visitNode, only, replacing, if_true, rewriteNode]
    cases f (newNode.getD x) with
    | error e => rfl
    | ok y =>
      cases y with
      | none => simpa [bind, Except.bind, pure, Except.pure] using ih newNode
      | some y => simpa [bind, Except.bind, pure, Except.pure] using ih (some y)

/-- The visit of the subtree is its rewriting, or throws what that throws. -/
inductive Rewrites (x : α) : Except ε (Walked α Unit) → Except ε α → Prop where
  | throws (e : ε) : Rewrites x (.error e) (.error e)
  | returns (w : Walked α Unit) (hbreaks : w.breaks = false)
      (hchanged : w.changed = false → w.node = x) : Rewrites x (.ok w) (.ok w.node)

inductive RewritesAll (xs : List α) : Except ε (WalkedAll α Unit) → Except ε (List α) → Prop where
  | throws (e : ε) : RewritesAll xs (.error e) (.error e)
  | returns (ws : WalkedAll α Unit) (hbreaks : ws.breaks = false)
      (hlength : ws.nodes.length = xs.length) (hchanged : ws.changed = false → ws.nodes = xs) :
      RewritesAll xs (.ok ws) (.ok ws.nodes)

theorem rewritesAll (xs : List α)
    (hxs : ∀ x ∈ xs, Rewrites x (postOrder T (visitors.map replacing) x ())
      (rewriteTree T visitors x)) :
    RewritesAll xs (walkAll (postOrder T (visitors.map replacing)) xs ())
      (xs.mapM (rewriteTree T visitors)) := by
  induction xs with
  | nil => exact .returns _ rfl rfl fun _ => rfl
  | cons x xs ih =>
    have hx := hxs x List.mem_cons_self
    have hrest := ih fun y hy => hxs y (List.mem_cons_of_mem _ hy)
    rw [List.mapM_cons]
    generalize hw : postOrder T (visitors.map replacing) x () = walked at hx
    generalize rewriteTree T visitors x = tree at hx ⊢
    cases hx with
    | throws e =>
      rw [walkAll, hw]
      exact .throws e
    | returns w hbreaks hchanged =>
      rw [walkAll_cons _ x xs () w hw hbreaks]
      generalize walkAll (postOrder T (visitors.map replacing)) xs () = walked at hrest ⊢
      generalize xs.mapM (rewriteTree T visitors) = trees at hrest ⊢
      cases hrest with
      | throws e => exact .throws e
      | returns ws hbreaks' hlength hchanged' =>
        refine .returns _ hbreaks' (by simp [hlength]) fun h => ?_
        obtain ⟨hw, hws⟩ := Bool.or_eq_false_iff.mp h
        show w.node :: ws.nodes = x :: xs
        rw [hchanged hw, hchanged' hws]

theorem rewrites (x : α) :
    Rewrites x (postOrder T (visitors.map replacing) x ()) (rewriteTree T visitors x) := by
  induction hn : T.size x using Nat.strong_induction_on generalizing x with
  | h n ih =>
  have hall := rewritesAll T visitors (T.children x) fun c hc =>
    ih (T.size c) (by have := T.size_lt x c hc; omega) c rfl
  rw [postOrder_eq, rewriteTree_eq]
  generalize walkAll (postOrder T (visitors.map replacing)) (T.children x) () = walked at hall ⊢
  generalize (T.children x).mapM (rewriteTree T visitors) = trees at hall ⊢
  cases hall with
  | throws e => exact .throws e
  | returns ws hbreaks hlength hchanged =>
    have hregrown : regrown T x ws = T.makeNode x ws.nodes := by
      by_cases hc : ws.changed
      · simp [regrown, hc, hlength]
      · simp [regrown, hc, hchanged (by simpa using hc), T.makeNode_children]
    have hnode := visitNode_replacing visitors (T.makeNode x ws.nodes) none
    rw [Option.getD_none] at hnode
    show Rewrites x (finish T (visitors.map replacing) x ws)
      (rewriteNode visitors (T.makeNode x ws.nodes))
    rw [finish, if_neg (by simp [hbreaks]), hregrown]
    cases hvisit : visitNode .post ((visitors.map replacing).map (only .post))
        (T.makeNode x ws.nodes) none () with
    | error e =>
      rw [hvisit] at hnode
      cases hr : rewriteNode visitors (T.makeNode x ws.nodes) with
      | error e' =>
        rw [hr] at hnode
        cases hnode
        exact .throws e
      | ok y =>
        rw [hr] at hnode
        cases hnode
    | ok r =>
      rw [hvisit] at hnode
      cases hr : rewriteNode visitors (T.makeNode x ws.nodes) with
      | error e =>
        rw [hr] at hnode
        cases hnode
      | ok y =>
        rw [hr] at hnode
        obtain ⟨rfl, hbreak⟩ := Prod.mk.inj (Except.ok.inj hnode)
        refine .returns ⟨_, ws.changed || r.node.isSome, _, r.breaks⟩ hbreak fun h => ?_
        obtain ⟨hc, hnone⟩ := Bool.or_eq_false_iff.mp h
        rw [Option.isSome_eq_false_iff, Option.isNone_iff_eq_none] at hnone
        rw [hnone, Option.getD_none, hchanged hc, T.makeNode_children]

end

end OpenVoxDB.TreeVisits
