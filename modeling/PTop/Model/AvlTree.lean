import PTop.Framework.HeightTree
import PTop.Model.Common

/-!
# `avltree.c` — the tree of processes

A node's `addr` stands for the address `malloc` returned for it, so that "the
same node" can be said of a node that rotations have moved. `none` as a result
stands for a dereference of `NULL`.
-/

namespace PTop

open Framework

/-- A pointer to a tree node. -/
abbrev Position := ℕ

/-- The part of a node that sampling reads and writes: the counter descriptor
and the two sample slots, indexed by the C index (`true` for 1). -/
structure PidEntry where
  fd : PCFile
  pstList : Bool → PidStats

/-- Store a sample in one slot. -/
def PidEntry.setSlot (e : PidEntry) (i : Bool) (st : PidStats) : PidEntry :=
  { e with pstList := Function.update e.pstList i st }

@[simp] theorem PidEntry.setSlot_fd (e : PidEntry) (i : Bool) (st : PidStats) :
    (e.setSlot i st).fd = e.fd := rfl

@[simp] theorem PidEntry.setSlot_same (e : PidEntry) (i : Bool) (st : PidStats) :
    (e.setSlot i st).pstList i = st := Function.update_self ..

@[simp] theorem PidEntry.setSlot_other (e : PidEntry) (i : Bool) (st : PidStats) :
    (e.setSlot i st).pstList (!i) = e.pstList (!i) :=
  Function.update_of_ne (by cases i <;> decide) ..

@[simp] theorem PidEntry.setSlot_setSlot (e : PidEntry) (i : Bool) (st st' : PidStats) :
    (e.setSlot i st).setSlot i st' = e.setSlot i st' := by
  simp [PidEntry.setSlot]

/-- `salloc_pid`: two zeroed slots. -/
def sallocPid : Bool → PidStats := fun _ => {}

/-- A `struct AvlNode` without its links and height, which the tree holds. -/
structure AvlNode extends PidEntry where
  addr : Position
  element : ElementType

abbrev AvlTree := HTree AvlNode

namespace AvlTree

def find (X : ElementType) : AvlTree → Option Position
  | .nil => none
  | .node l n _ r =>
      if X < n.element then find X l
      else if X > n.element then find X r
      else some n.addr

/-- `Max` of the source. -/
def maxInt (lhs rhs : Int) : Int := if lhs > rhs then lhs else rhs

/-- Recompute the stored height at the root. -/
def setHeight : AvlTree → Option AvlTree
  | .nil => none
  | .node l n _ r => some (.node l n (maxInt l.height r.height + 1) r)

def singleRotateWithLeft : AvlTree → Option AvlTree
  | .node (.node a k1 _ b) k2 _ c =>
      let h2 := maxInt b.height c.height + 1
      let h1 := maxInt a.height h2 + 1
      some (.node a k1 h1 (.node b k2 h2 c))
  | _ => none

def singleRotateWithRight : AvlTree → Option AvlTree
  | .node a k1 _ (.node b k2 _ c) =>
      let h1 := maxInt a.height b.height + 1
      let h2 := maxInt c.height h1 + 1
      some (.node (.node a k1 h1 b) k2 h2 c)
  | _ => none

def doubleRotateWithLeft : AvlTree → Option AvlTree
  | .nil => none
  | .node l k3 h r => do
      let l ← singleRotateWithRight l
      singleRotateWithLeft (.node l k3 h r)

def doubleRotateWithRight : AvlTree → Option AvlTree
  | .nil => none
  | .node l k1 h r => do
      let r ← singleRotateWithLeft r
      singleRotateWithRight (.node l k1 h r)

/-- The test after an insertion to the left: `X` is compared with the left
child's key, which is read through the link. -/
def rebalanceLeft (X : ElementType) : AvlTree → Option AvlTree
  | .nil => none
  | .node l n h r =>
      if l.height - r.height = 2 then
        match l with
        | .nil => none
        | .node _ ln _ _ =>
            if X < ln.element then singleRotateWithLeft (.node l n h r)
            else doubleRotateWithLeft (.node l n h r)
      else some (.node l n h r)

def rebalanceRight (X : ElementType) : AvlTree → Option AvlTree
  | .nil => none
  | .node l n h r =>
      if r.height - l.height = 2 then
        match r with
        | .nil => none
        | .node _ rn _ _ =>
            if X > rn.element then singleRotateWithRight (.node l n h r)
            else doubleRotateWithRight (.node l n h r)
      else some (.node l n h r)

/-- The node `insert` fills in; `addr` is what `malloc` returned. -/
def newNode (X : ElementType) (fd : PCFile) (addr : Position) : AvlNode :=
  { fd := fd, pstList := sallocPid, addr := addr, element := X }

/-- `insert`; the out-parameter `np` is passed in and returned. -/
def insert (X : ElementType) (fd : PCFile) (addr : Position) :
    AvlTree → Option Position → Option (AvlTree × Option Position)
  | .nil, _ => do
      let root ← setHeight (.node .nil (newNode X fd addr) 0 .nil)
      return (root, some addr)
  | .node l n h r, np =>
      if X < n.element then do
        let (l, np) ← insert X fd addr l np
        let root ← rebalanceLeft X (.node l n h r)
        let root ← setHeight root
        return (root, np)
      else if X > n.element then do
        let (r, np) ← insert X fd addr r np
        let root ← rebalanceRight X (.node l n h r)
        let root ← setHeight root
        return (root, np)
      else do
        let root ← setHeight (.node l n h r)
        return (root, np)

/-! ## Access through a pointer -/

/-- What a pointer to a node reads. -/
def load (p : Position) (T : AvlTree) : Option AvlNode :=
  T.toList.find? fun n => n.addr = p

/-- Write the sampling part of the node a pointer points to. -/
def store (p : Position) (e : PidEntry) (T : AvlTree) : AvlTree :=
  T.map fun n => if n.addr = p then { n with toPidEntry := e } else n

end AvlTree

end PTop
