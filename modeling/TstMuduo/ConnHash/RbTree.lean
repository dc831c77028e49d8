import TstMuduo.Lib.Machine
import TstMuduo.Lib.RedBlack

/-!
# The red-black tree (tstconnhash/util_rbtree.cpp)

The nodes are in memory and belong to the caller; the tree has the pointer to its root, the sentinel
`null` and the number of nodes. A pointer that is `NULL` must not be followed, and a loop that makes
more passes than there are nodes does not end. What is written twice in the source, for the left and
for the right, is written once here with the side as a parameter.
-/

namespace TstMuduo.ConnHash
open TstMuduo.Lib

inductive Ptr where
  | NULL
  | null
  | node (addr : Nat)
  deriving DecidableEq, Repr

/- `struct util_rbtree_node_s` without `data`, which the tree does not use. -/
structure RbNode where
  key : Int
  parent : Ptr
  right : Ptr
  left : Ptr
  color : Int
  deriving DecidableEq, Repr

inductive RbFault where
  | nullPointer
  | noReturn
  deriving DecidableEq, Repr

/-- `struct util_rbtree_s`, with what is in the sentinel and in all nodes of the program. -/
structure RbTree where
  root : Ptr
  size : BitVec 32
  mem : Ptr → RbNode

namespace RbNode

def child (n : RbNode) : Dir → Ptr
  | .left => n.left
  | .right => n.right

def setChild (d : Dir) (p : Ptr) (n : RbNode) : RbNode :=
  match d with
  | .left => { n with left := p }
  | .right => { n with right := p }

def setParent (p : Ptr) (n : RbNode) : RbNode := { n with parent := p }

/- `util_rbt_black` and `util_rbt_red` (`util_rbtree.h:31`). -/
def black (n : RbNode) : RbNode := { n with color := 1 }
def red (n : RbNode) : RbNode := { n with color := 0 }

def isblack (n : RbNode) : Bool := n.color = 1
def isred (n : RbNode) : Bool := n.color = 0

/- `rbt_clear_node`. -/
def clear (n : RbNode) : RbNode := { n with left := .NULL, right := .NULL, parent := .NULL }

end RbNode

namespace RbTree

def load (s : RbTree) (p : Ptr) : Except RbFault RbNode :=
  if p = .NULL then .error .nullPointer else .ok (s.mem p)

def modify (s : RbTree) (p : Ptr) (f : RbNode → RbNode) : Except RbFault RbTree :=
  if p = .NULL then .error .nullPointer
  else .ok { s with mem := Function.update s.mem p (f (s.mem p)) }

/- `util_rbtree_init` (`util_rbtree.cpp:30`). -/
def init (mem : Ptr → RbNode) : RbTree where
  root := .null
  size := 0
  mem := Function.update mem .null (mem .null).black

/- The loop of `util_rbsubtree_min`. -/
def leftmost (s : RbTree) : Nat → Ptr → Except RbFault Ptr
  | 0, _ => .error .noReturn
  | fuel + 1, node => do
    let left := (← s.load node).left
    if left ≠ .null then s.leftmost fuel left
    else return node

/- `util_rbsubtree_min` (`util_rbtree.cpp:40`). -/
def subtreeMin (s : RbTree) (fuel : Nat) (node : Ptr) : Except RbFault Ptr :=
  if node = .null then return .NULL
  else s.leftmost fuel node

/-! ### Rotations -/

/- The child `node` of its parent is replaced by `child`. -/
def relink (s : RbTree) (parent node child : Ptr) : Except RbFault RbTree := do
  if (← s.load parent).left = node then s.modify parent (RbNode.setChild .left child)
  else s.modify parent (RbNode.setChild .right child)

/- `child` takes the place of `node`, which may be the root. -/
def replace (s : RbTree) (node child : Ptr) : Except RbFault RbTree := do
  if node = s.root then return { s with root := child }
  s.relink (← s.load node).parent node child

/- `node` becomes a child of `rc`; the two functions store the two links in a different order. -/
def linkDown (s : RbTree) (d : Dir) (node rc : Ptr) : Except RbFault RbTree :=
  match d with
  | .left => do
    let s ← s.modify node (RbNode.setParent rc)
    s.modify rc (RbNode.setChild .left node)
  | .right => do
    let s ← s.modify rc (RbNode.setChild .right node)
    s.modify node (RbNode.setParent rc)

/- The parent of `child` is stored, unless `child` is the sentinel. -/
def reparent (s : RbTree) (child parent : Ptr) : Except RbFault RbTree :=
  if child ≠ .null then s.modify child (RbNode.setParent parent)
  else .ok s

/- `rbtree_left_rotate` and `rbtree_right_rotate` (`util_rbtree.cpp:334`, `366`). -/
def rotate (s : RbTree) (d : Dir) (node : Ptr) : Except RbFault RbTree := do
  let rc := (← s.load node).child d.flip
  let rclc := (← s.load rc).child d
  let s ← s.modify rc (RbNode.setParent (← s.load node).parent)
  let s ← s.replace node rc
  let s ← s.linkDown d node rc
  let s ← s.modify node (RbNode.setChild d.flip rclc)
  s.reparent rclc node

/-! ### `util_rbtree_insert` -/

def sideOf (parent : RbNode) (node : Ptr) : Dir := if node = parent.left then .left else .right

/- Case 2 (`util_rbtree.cpp:110`): `node` and its parent afterwards. -/
def straighten (s : RbTree) (d : Dir) (node p : Ptr) : Except RbFault (RbTree × Ptr × Ptr) := do
  if node = (← s.load p).child d.flip then
    let s ← s.rotate d p
    return (s, p, (← s.load p).parent)
  else return (s, node, p)

/- Case 3 (`util_rbtree.cpp:116`). -/
def lift (s : RbTree) (d : Dir) (p : Ptr) : Except RbFault RbTree := do
  let s ← s.modify p RbNode.black
  let s ← s.modify (← s.load p).parent RbNode.red
  s.rotate d.flip (← s.load p).parent

/- `rbtree_insert_fixup` (`util_rbtree.cpp:92`). -/
def insertFixup (s : RbTree) : Nat → Ptr → Except RbFault RbTree
  | 0, _ => .error .noReturn
  | fuel + 1, node => do
    let p := (← s.load node).parent
    if (← s.load p).isred then
      let g := (← s.load p).parent
      let d := sideOf (← s.load g) p
      let u := (← s.load g).child d.flip
      if (← s.load u).isred then
        let s ← s.modify u RbNode.black
        let s ← s.modify p RbNode.black
        let s ← s.modify g RbNode.red
        s.insertFixup fuel g
      else
        let (s, node, p) ← s.straighten d node p
        let s ← s.lift d p
        s.insertFixup fuel node
    else s.modify s.root RbNode.black

/- The search for the position (`util_rbtree.cpp:70`): the parent of the new node. -/
def findParent (s : RbTree) (key : Int) : Nat → Ptr → Ptr → Except RbFault Ptr
  | 0, _, _ => .error .noReturn
  | fuel + 1, x, y => do
    if x = .null then return y
    let n ← s.load x
    s.findParent key fuel (if key < n.key then n.left else n.right) x

/- The links of the parent and of the new node (`util_rbtree.cpp:62` to `80`). -/
def link (s : RbTree) (fuel : Nat) (node : Ptr) : Except RbFault RbTree := do
  if s.root = .null then
    ({ s with root := node } : RbTree).modify node (RbNode.setParent .null)
  else
    let key := (← s.load node).key
    let y ← s.findParent key fuel s.root .NULL
    let s ← s.modify node (RbNode.setParent y)
    if key < (← s.load y).key then s.modify y (RbNode.setChild .left node)
    else s.modify y (RbNode.setChild .right node)

/- The links and the colour of the new node (`util_rbtree.cpp:83` to `85`). -/
def initNode (s : RbTree) (node : Ptr) : Except RbFault RbTree := do
  let s ← s.modify node (RbNode.setChild .left .null)
  let s ← s.modify node (RbNode.setChild .right .null)
  s.modify node RbNode.red

/- `util_rbtree_insert` (`util_rbtree.cpp:54`). -/
def insert (s : RbTree) (fuel : Nat) (node : Ptr) : Except RbFault RbTree := do
  if node = .NULL ∨ node = .null then return s
  let s ← s.link fuel node
  let s ← s.initNode node
  let s ← s.insertFixup fuel node
  return { s with size := s.size + 1 }

/-! ### `util_rbtree_delete` -/

/- A red sibling is rotated above the parent (`util_rbtree.cpp:267`); the sibling afterwards. -/
def blackSibling (s : RbTree) (d : Dir) (node w : Ptr) : Except RbFault (RbTree × Ptr) := do
  if (← s.load w).isred then
    let s ← s.modify w RbNode.black
    let s ← s.modify (← s.load node).parent RbNode.red
    let s ← s.rotate d (← s.load node).parent
    return (s, (← s.load (← s.load node).parent).child d.flip)
  else return (s, w)

/- The far child of the sibling becomes red (`util_rbtree.cpp:281`); the sibling afterwards. -/
def redFar (s : RbTree) (d : Dir) (node w : Ptr) : Except RbFault (RbTree × Ptr) := do
  if (← s.load ((← s.load w).child d.flip)).isblack then
    let s ← s.modify ((← s.load w).child d) RbNode.black
    let s ← s.modify w RbNode.red
    let s ← s.rotate d.flip w
    return (s, (← s.load (← s.load node).parent).child d.flip)
  else return (s, w)

/- The last rotation (`util_rbtree.cpp:288`). -/
def rotateUp (s : RbTree) (d : Dir) (node w : Ptr) : Except RbFault RbTree := do
  let parent := (← s.load node).parent
  let color := (← s.load parent).color
  let s ← s.modify w fun n => { n with color := color }
  let s ← s.modify parent RbNode.black
  let s ← s.modify ((← s.load w).child d.flip) RbNode.black
  s.rotate d parent

/- The condition of the loop (`util_rbtree.cpp:261`). -/
def lacksBlack (s : RbTree) (node : Ptr) : Except RbFault Bool := do
  if node ≠ s.root then return (← s.load node).isblack
  else return false

/- The test of the sibling's children (`util_rbtree.cpp:274`). -/
def blackChildren (s : RbTree) (w : Ptr) : Except RbFault Bool := do
  if (← s.load (← s.load w).left).isblack then return (← s.load (← s.load w).right).isblack
  else return false

/- The rest of a pass with a black sibling (`util_rbtree.cpp:274`); `node` for the next pass. -/
def settle (s : RbTree) (d : Dir) (node w : Ptr) : Except RbFault (RbTree × Ptr) := do
  if (← s.blackChildren w) then
    let s ← s.modify w RbNode.red
    return (s, (← s.load node).parent)
  else
    let (s, w) ← s.redFar d node w
    let s ← s.rotateUp d node w
    return (s, s.root)

/- A pass of the loop (`util_rbtree.cpp:263`). -/
def deletePass (s : RbTree) (node : Ptr) : Except RbFault (RbTree × Ptr) := do
  let parent ← s.load (← s.load node).parent
  let d := sideOf parent node
  let (s, w) ← s.blackSibling d node (parent.child d.flip)
  s.settle d node w

/- `rbtree_delete_fixup` (`util_rbtree.cpp:257`). -/
def deleteFixup (s : RbTree) : Nat → Ptr → Except RbFault RbTree
  | 0, _ => .error .noReturn
  | fuel + 1, node => do
    if (← s.lacksBlack node) then
      let (s, node) ← s.deletePass node
      s.deleteFixup fuel node
    else s.modify node RbNode.black

/- `temp` and `subst` (`util_rbtree.cpp:161` to `182`). -/
def chooseTemp (s : RbTree) (fuel : Nat) (node : Ptr) : Except RbFault (Ptr × Ptr) := do
  let n ← s.load node
  if n.left = .null then return (node, n.right)
  else if n.right = .null then return (node, n.left)
  else
    let temp ← s.subtreeMin fuel n.right
    let t ← s.load temp
    return (temp, if t.left ≠ .null then t.left else t.right)

/- `temp` is taken from its position (`util_rbtree.cpp:196` to `212`). -/
def unlink (s : RbTree) (node temp subst : Ptr) : Except RbFault RbTree := do
  let parent := (← s.load temp).parent
  let s ← s.modify subst (RbNode.setParent (if parent = node then temp else parent))
  s.relink (← s.load temp).parent temp subst

/- `temp` takes the place of `node` (`util_rbtree.cpp:217` to `246`). -/
def takePlace (s : RbTree) (node temp : Ptr) : Except RbFault RbTree := do
  let s ← s.modify temp (RbNode.setParent (← s.load node).parent)
  let s ← s.replace node temp
  let s ← s.modify temp (RbNode.setChild .right (← s.load node).right)
  let s ← s.modify temp (RbNode.setChild .left (← s.load node).left)
  let s ← s.reparent (← s.load temp).left temp
  let s ← s.reparent (← s.load temp).right temp
  let color := (← s.load node).color
  s.modify temp fun n => { n with color := color }

/- `util_rbtree_delete` (`util_rbtree.cpp:151`). -/
def delete (s : RbTree) (fuel : Nat) (node : Ptr) : Except RbFault RbTree := do
  if node = .NULL ∨ node = .null then return s
  let s : RbTree := { s with size := s.size - 1 }
  let (temp, subst) ← s.chooseTemp fuel node
  if temp = s.root then
    let s ← ({ s with root := subst } : RbTree).modify subst RbNode.black
    s.modify temp RbNode.clear
  else
    let isblack := (← s.load temp).isblack
    let s ← s.unlink node temp subst
    let s ← if temp ≠ node then s.takePlace node temp else pure s
    let s ← s.modify node RbNode.clear
    if isblack then s.deleteFixup fuel subst
    else return s

end RbTree

end TstMuduo.ConnHash
