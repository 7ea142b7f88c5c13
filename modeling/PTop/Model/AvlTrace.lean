import PTop.Framework.Traced
import PTop.Model.AvlTree

/-!
# `avltree.c` — what happens during `insert`

`insert` once more, with a trace: the tree that `*root` points to after each
assignment, the rotations that are called and what they are called with, and each
call of `insert` when it returns.
-/

namespace PTop

open Framework

namespace AvlTree

/-- The four rotation functions. -/
inductive Rotation where
  | singleWithLeft | singleWithRight | doubleWithLeft | doubleWithRight
deriving DecidableEq

def Rotation.apply : Rotation → AvlTree → Option AvlTree
  | .singleWithLeft => singleRotateWithLeft
  | .singleWithRight => singleRotateWithRight
  | .doubleWithLeft => doubleRotateWithLeft
  | .doubleWithRight => doubleRotateWithRight

/-- `K->Left`, and `K->Right`. -/
def leftLink : AvlTree → AvlTree
  | .nil => .nil
  | .node l _ _ _ => l

def rightLink : AvlTree → AvlTree
  | .nil => .nil
  | .node _ _ _ r => r

/-- The links that a rotation reads through are not `NULL`: those to the child and, for
a double rotation, to the grandchild. -/
def Rotation.NonNull : Rotation → AvlTree → Prop
  | .singleWithLeft, K => leftLink K ≠ .nil
  | .singleWithRight, K => rightLink K ≠ .nil
  | .doubleWithLeft, K => leftLink K ≠ .nil ∧ rightLink (leftLink K) ≠ .nil
  | .doubleWithRight, K => rightLink K ≠ .nil ∧ leftLink (rightLink K) ≠ .nil

/-- What happens during a call of `insert`. A rotation that a double rotation calls is
`inner`. -/
inductive Event where
  | moment (root : AvlTree)
  | rotate (k : Rotation) (inner : Bool) (K : AvlTree)
  | returned (before after : AvlTree)

/-- An event in a subtree, seen from the node above. -/
def Event.within (f : AvlTree → AvlTree) : Event → Event
  | .moment root => .moment (f root)
  | .rotate k inner K => .rotate k inner K
  | .returned before after => .returned before after

/-- A rotation that `insert` itself calls. -/
def Event.isRebalancing : Event → Bool
  | .rotate _ inner _ => !inner
  | .moment _ | .returned _ _ => false

open Traced

/-- Call a single rotation. -/
def tracedSingle (k : Rotation) (inner : Bool) (K : AvlTree) : Traced Event AvlTree := do
  tell (.rotate k inner K)
  lift (k.apply K)

def tracedDoubleWithLeft (K : AvlTree) : Traced Event AvlTree := do
  tell (.rotate .doubleWithLeft false K)
  match K with
  | .nil => lift none
  | .node l k3 h r => do
      let l ← tracedSingle .singleWithRight true l
      tell (.moment (.node l k3 h r))
      tracedSingle .singleWithLeft true (.node l k3 h r)

def tracedDoubleWithRight (K : AvlTree) : Traced Event AvlTree := do
  tell (.rotate .doubleWithRight false K)
  match K with
  | .nil => lift none
  | .node l k1 h r => do
      let r ← tracedSingle .singleWithLeft true r
      tell (.moment (.node l k1 h r))
      tracedSingle .singleWithRight true (.node l k1 h r)

/-- Assign to `*root`. -/
def assign (x : Traced Event AvlTree) : Traced Event AvlTree := do
  let root ← x
  tell (.moment root)
  return root

def tracedRebalanceLeft (X : ElementType) : AvlTree → Traced Event AvlTree
  | .nil => lift none
  | .node l n h r =>
      if l.height - r.height = 2 then
        match l with
        | .nil => lift none
        | .node _ ln _ _ =>
            if X < ln.element then
              assign (tracedSingle .singleWithLeft false (.node l n h r))
            else assign (tracedDoubleWithLeft (.node l n h r))
      else return (.node l n h r)

def tracedRebalanceRight (X : ElementType) : AvlTree → Traced Event AvlTree
  | .nil => lift none
  | .node l n h r =>
      if r.height - l.height = 2 then
        match r with
        | .nil => lift none
        | .node _ rn _ _ =>
            if X > rn.element then
              assign (tracedSingle .singleWithRight false (.node l n h r))
            else assign (tracedDoubleWithRight (.node l n h r))
      else return (.node l n h r)

/-- The end of a call that began with `before`: the height is refreshed. -/
def tracedReturn (before root : AvlTree) : Traced Event AvlTree := do
  let root ← assign (lift (setHeight root))
  tell (.returned before root)
  return root

/-- `insert`, with its trace. -/
def tracedInsert (X : ElementType) (fd : PCFile) (addr : Position) :
    AvlTree → Option Position → Traced Event (AvlTree × Option Position)
  | .nil, _ => do
      tell (.moment (.node .nil (newNode X fd addr) 0 .nil))
      let root ← tracedReturn .nil (.node .nil (newNode X fd addr) 0 .nil)
      return (root, some addr)
  | .node l n h r, np =>
      if X < n.element then do
        let (l', np) ← (tracedInsert X fd addr l np).within (Event.within fun l => .node l n h r)
        let root ← tracedRebalanceLeft X (.node l' n h r)
        let root ← tracedReturn (.node l n h r) root
        return (root, np)
      else if X > n.element then do
        let (r', np) ← (tracedInsert X fd addr r np).within (Event.within fun r => .node l n h r)
        let root ← tracedRebalanceRight X (.node l n h r')
        let root ← tracedReturn (.node l n h r) root
        return (root, np)
      else do
        let root ← tracedReturn (.node l n h r) (.node l n h r)
        return (root, np)

end AvlTree

end PTop
