import TstMuduo.Lib.ByteMemory
import TstMuduo.Lib.CInt
import TstMuduo.Lib.Endian
import TstMuduo.Lib.Machine
import Mathlib.Tactic.Linarith

/-!
# The queue in shared memory (tst_wrshamem/shm_queue.cpp)

A ring of `ele_count + 1` nodes of equal size. A message takes as many nodes as it needs, one
behind the other; where they would pass the end of the ring it begins at node 0, and the nodes
behind `tail_pos` are skipped. The reader finds the next message by the start token of its node.

An `int` that overflows and an access outside of the segment are faults.
-/

namespace TstMuduo.ShmQueue
open TstMuduo.Lib

abbrev Bytes := List UInt8

/- `START_TOKEN` (`shm_queue.cpp:43`). -/
def startToken : Nat := 0x0000db03

/- `MAX_SQ_DATA_LENGTH` (`shm_queue.h:38`). -/
def maxSqDataLength : Int := 65536

/- `sizeof(struct sq_node_head_t)`, which is packed: the token, the length and the time. -/
def sizeofNodeHead : Int := 24

/- `sizeof(struct sq_head_t)`. -/
def sizeofHead : Int := 296

inductive SqFault where
  | overflow
  | outOfBounds
  | noReturn
  deriving DecidableEq, Repr

/-- A `struct timeval` as it lies in memory. -/
structure Timeval where
  bytes : Bytes
  length_eq : bytes.length = 16

/-- `struct sq_head_t`: `limit` is how much of the segment follows it, and `nodes` what is there. -/
structure SqHead where
  ele_size : Int
  ele_count : Int
  head_pos : Int
  tail_pos : Int
  limit : Int
  nodes : Int → UInt8

/- An `int` in an expression. -/
def int (x : Int) : Except SqFault Int :=
  match int32 x with
  | some x => .ok x
  | none => .error .overflow

namespace SqHead

/-! ### The macros -/

/- `SQ_ADD_POS`, and `SQ_ADD_TAIL` at `tail_pos` (`shm_queue.cpp:94`, `100`). -/
def addPos (q : SqHead) (pos val : Int) : Except SqFault Int := do
  return (← int (pos + val)).tmod (← int (q.ele_count + 1))

/- `SQ_EMPTY_NODES2`, and `SQ_EMPTY_NODES` at `head_pos` (`shm_queue.cpp:105`, `108`). -/
def emptyNodes2 (q : SqHead) (head : Int) : Except SqFault Int := do
  let sum ← int (head + q.ele_count)
  return (← int (sum - q.tail_pos)).tmod (← int (q.ele_count + 1))

/- `SQ_USED_NODES2` (`shm_queue.cpp:109`). -/
def usedNodes2 (q : SqHead) (head : Int) : Except SqFault Int := do
  int (q.ele_count - (← q.emptyNodes2 head))

/- `SQ_NODE_SIZE` (`shm_queue.cpp:113`), a `size_t`. -/
def nodeSize (q : SqHead) : Int := (sizeofNodeHead + q.ele_size) % 18446744073709551616

/- `SQ_GET` (`shm_queue.cpp:116`), relative to `nodes`; the pointer stays in the segment. -/
def nodePtr (q : SqHead) (idx : Int) : Except SqFault Int :=
  let off := (idx * q.nodeSize) % 18446744073709551616
  if off ≤ q.limit then .ok off else .error .outOfBounds

/- `SQ_NUM_NEEDED_NODES` (`shm_queue.cpp:119`), a `size_t` that goes into an `int`. -/
def numNeededNodes (q : SqHead) (datalen : Int) : Int :=
  castInt32 ((datalen + sizeofNodeHead + q.nodeSize - 1) % 18446744073709551616 / q.nodeSize)

/-! ### The memory -/

def read (q : SqHead) (off len : Int) : Except SqFault Bytes :=
  if 0 ≤ len ∧ off + len ≤ q.limit then .ok (slice q.nodes off len.toNat) else .error .outOfBounds

def write (q : SqHead) (off : Int) (bytes : Bytes) : Except SqFault SqHead :=
  if off + bytes.length ≤ q.limit then .ok { q with nodes := store q.nodes off bytes }
  else .error .outOfBounds

/- A `u32_t`. -/
def readU32 (q : SqHead) (off : Int) : Except SqFault Nat := do
  return leVal (← q.read off 4)

/-! ### `sq_create` -/

/- `sq_create` (`shm_queue.cpp:354`) and `open_shm_queue` with a new segment (`shm_queue.cpp:302`):
the rounded size goes into an `int`. -/
def sqCreate (ele_size ele_count : Int) : Option SqHead :=
  if ele_size ≤ 0 ∨ ele_count ≤ 0 then none
  else
    let aligned := (ele_size + 7) / 8 * 8
    let needed := sizeofHead + (sizeofNodeHead + aligned) * (ele_count + 1)
    let allocate_size := (needed + 4194303) / 4194304 * 4194304
    some {
      ele_size := castInt32 aligned
      ele_count := ele_count
      head_pos := 0
      tail_pos := 0
      limit := allocate_size - sizeofHead
      nodes := fun _ => 0 }

/-! ### `sq_put` -/

/- The nodes for the message and the new tail (`shm_queue.cpp:410` to `435`); `none` where there
are not enough. -/
def putPlan (q : SqHead) (datalen : Int) : Except SqFault (Option (Int × Int)) := do
  let nr_nodes := q.numNeededNodes datalen
  if (← q.emptyNodes2 q.head_pos) < nr_nodes then return none
  let idx := q.tail_pos
  let _ ← q.nodePtr idx
  let new_tail ← q.addPos q.tail_pos nr_nodes
  if new_tail < q.tail_pos then
    if (← int (q.head_pos - 1)) < nr_nodes then return none
    return some (0, nr_nodes)
  return some (idx, new_tail)

/- The header and the data (`shm_queue.cpp:438` to `441`). -/
def putWrite (q : SqHead) (idx : Int) (data : Bytes) (now : Timeval) : Except SqFault SqHead := do
  let node ← q.nodePtr idx
  let q ← q.write node (leBytes 4 startToken)
  let q ← q.write (node + 4) (leBytes 4 data.length)
  let q ← q.write (node + 8) now.bytes
  q.write (node + 24) data

def storeTail (q : SqHead) (new_tail : Int) : SqHead := { q with tail_pos := new_tail }

/- `sq_put` (`shm_queue.cpp:396`) without the signals. -/
def sqPut (q : SqHead) (data : Bytes) (now : Timeval) : Except SqFault (Int × SqHead) := do
  if (data.length : Int) ≤ 0 ∨ (data.length : Int) > maxSqDataLength then return (-1, q)
  match ← q.putPlan data.length with
  | none => return (-2, q)
  | some (idx, new_tail) =>
    let q ← q.putWrite idx data now
    return (0, q.storeTail new_tail)

/-! ### `sq_get` -/

/-- What the scan of `sq_get` ends with: the tail, or a message with its length and the position
behind it. -/
inductive Scan where
  | atTail (head : Int)
  | found (head datalen new_head : Int)
  deriving DecidableEq, Repr

/- The passes of the loop up to a `CAS32` or a `return` (`shm_queue.cpp:492` to `519`). -/
def scan (q : SqHead) : Nat → Int → Except SqFault Scan
  | 0, _ => .error .noReturn
  | fuel + 1, head => do
    if q.tail_pos = head then return .atTail head
    let node ← q.nodePtr head
    if (← q.readU32 node) ≠ startToken then
      q.scan fuel (← q.addPos head 1)
    else
      let datalen := castInt32 (← q.readU32 (node + 4))
      let nr_nodes := q.numNeededNodes datalen
      if (← q.usedNodes2 head) < nr_nodes then
        q.scan fuel (← q.addPos head 1)
      else
        return .found head datalen (← q.addPos head nr_nodes)

/- `CAS32` on `head_pos`. -/
def cas (q : SqHead) (val_old val_new : Int) : Option SqHead :=
  if q.head_pos = val_old then some { q with head_pos := val_new } else none

def clearToken (q : SqHead) (pos : Int) : Except SqFault SqHead := do
  q.write (← q.nodePtr pos) (leBytes 4 0)

/- The loop that clears the tokens (`shm_queue.cpp:539`). -/
def clearTokens (q : SqHead) : Nat → Int → Int → Except SqFault SqHead
  | 0, _, _ => .error .noReturn
  | fuel + 1, old_head, new_head => do
    if old_head = new_head then return q
    let q ← q.clearToken old_head
    q.clearTokens fuel (← q.addPos old_head 1) new_head

/-- What `sq_get` returns, and what it has put into `buf` and `enqueue_time`. -/
structure Got where
  ret : Int
  buf : Bytes
  enqueue_time : Option Bytes
  deriving DecidableEq, Repr

def fuel (q : SqHead) : Nat := (q.ele_count + 2).toNat

/- The outer loop of `sq_get`; a `CAS32` that fails starts over. While nobody else moves
`head_pos` the first one succeeds. -/
def getLoop (q : SqHead) (buf_sz : Int) : Nat → Except SqFault (Got × SqHead)
  | 0 => .error .noReturn
  | tries + 1 => do
    let old_head := q.head_pos
    match ← q.scan q.fuel old_head with
    | .atTail head =>
      match if head ≠ old_head then q.cas old_head head else none with
      | none => return (⟨0, [], none⟩, q)
      | some q =>
        let q ← q.clearTokens q.fuel old_head head
        return (⟨0, [], none⟩, q)
    | .found head datalen new_head =>
      match q.cas old_head new_head with
      | none => q.getLoop buf_sz tries
      | some q =>
        let node ← q.nodePtr head
        let time ← q.read (node + 8) 16
        if datalen > buf_sz then return (⟨-2, [], some time⟩, q)
        let data ← q.read (node + 24) datalen
        let q ← q.clearTokens q.fuel old_head new_head
        return (⟨datalen, data, some time⟩, q)

/- `sq_get` (`shm_queue.cpp:478`). -/
def sqGet (q : SqHead) (buf_sz : Int) : Except SqFault (Got × SqHead) :=
  if buf_sz < 1 then .ok (⟨-1, [], none⟩, q) else q.getLoop buf_sz 1

/-! ### The arithmetic -/

/-- The sizes for which no `int` overflows and all nodes lie in the segment. -/
structure Sized (q : SqHead) : Prop where
  size_ge : 8 ≤ q.ele_size
  size_le : q.ele_size ≤ 2147483640
  count_ge : 1 ≤ q.ele_count
  count_lt : q.ele_count < 1073741824
  limit_ge : (q.ele_count + 1) * (24 + q.ele_size) ≤ q.limit

def width (q : SqHead) : Int := 24 + q.ele_size

/- The number of nodes of width `w` that `len` bytes need. -/
def need (w len : Int) : Int := (len + 24 + w - 1) / w

def Pos (q : SqHead) (p : Int) : Prop := 0 ≤ p ∧ p ≤ q.ele_count

variable {q : SqHead} {p v len : Int}

theorem Sized.width_pos (h : q.Sized) : 0 < q.width := by
  have hsize := h.size_ge
  unfold width
  omega

theorem Sized.width_ge (h : q.Sized) : 4 ≤ q.width := by
  have hsize := h.size_ge
  unfold width
  omega

theorem int_ok {x : Int} (h : -2147483648 ≤ x ∧ x ≤ 2147483647) : int x = .ok x := by
  rw [int, int32_ok h]

theorem int_bind {α : Type} {x : Int} (h : -2147483648 ≤ x ∧ x ≤ 2147483647)
    (f : Int → Except SqFault α) : (int x >>= f) = f x := by
  rw [int_ok h]
  rfl

theorem Sized.nodeSize_eq (h : q.Sized) : q.nodeSize = q.width := by
  have hge := h.size_ge
  have hle := h.size_le
  unfold nodeSize width sizeofNodeHead
  omega

theorem Sized.mul_width_le (h : q.Sized) (hp : p ≤ q.ele_count + 1) :
    p * q.width ≤ q.limit := by
  have hmul := Int.mul_le_mul_of_nonneg_right hp (Int.le_of_lt h.width_pos)
  exact hmul.trans h.limit_ge

theorem Sized.nodePtr_eq (h : q.Sized) (hp : q.Pos p) : q.nodePtr p = .ok (p * q.width) := by
  have hge := h.size_ge
  have hle := h.size_le
  have hcount := h.count_lt
  have hlow : 0 ≤ p * q.width := Int.mul_nonneg hp.1 (Int.le_of_lt h.width_pos)
  have hhigh : p * q.width ≤ 1073741824 * 4294967296 := by
    apply Int.mul_le_mul
    · exact hp.2.trans (Int.le_of_lt hcount)
    · unfold width
      omega
    · exact Int.le_of_lt h.width_pos
    · decide
  have hmod : p * q.width % 18446744073709551616 = p * q.width :=
    Int.emod_eq_of_lt hlow (by omega)
  have hlimit : p * q.width ≤ q.limit := h.mul_width_le (by have := hp.2; omega)
  simp only [nodePtr, h.nodeSize_eq, hmod, if_pos hlimit]

theorem Sized.addPos_eq (h : q.Sized) (hp : q.Pos p) (hv : 0 ≤ v ∧ v ≤ q.ele_count) :
    q.addPos p v = .ok (if p + v ≤ q.ele_count then p + v else p + v - (q.ele_count + 1)) := by
  obtain ⟨hp0, hp1⟩ := hp
  have hcount := h.count_lt
  have hpos := h.count_ge
  rw [addPos, int_bind (by omega), int_bind (by omega),
    Int.tmod_eq_emod_of_nonneg (by omega)]
  split
  next hle => rw [Int.emod_eq_of_lt (by omega) (by omega)]; rfl
  next hgt =>
    have hsub : (p + v) % (q.ele_count + 1) = p + v - (q.ele_count + 1) := by
      rw [← Int.sub_emod_right, Int.emod_eq_of_lt (by omega) (by omega)]
    rw [hsub]
    rfl

theorem Sized.emptyNodes2_eq (h : q.Sized) (hp : q.Pos p) (ht : q.Pos q.tail_pos) :
    q.emptyNodes2 p = .ok (if p ≤ q.tail_pos then p + q.ele_count - q.tail_pos
      else p - q.tail_pos - 1) := by
  obtain ⟨hp0, hp1⟩ := hp
  obtain ⟨ht0, ht1⟩ := ht
  have hcount := h.count_lt
  have hpos := h.count_ge
  rw [emptyNodes2, int_bind (by omega), int_bind (by omega), int_bind (by omega),
    Int.tmod_eq_emod_of_nonneg (by omega)]
  split
  next hle => rw [Int.emod_eq_of_lt (by omega) (by omega)]; rfl
  next hgt =>
    have hsub : (p + q.ele_count - q.tail_pos) % (q.ele_count + 1) = p - q.tail_pos - 1 := by
      rw [← Int.sub_emod_right, Int.emod_eq_of_lt (by omega) (by omega)]
      omega
    rw [hsub]
    rfl

theorem Sized.usedNodes2_eq (h : q.Sized) (hp : q.Pos p) (ht : q.Pos q.tail_pos) :
    q.usedNodes2 p = .ok (if p ≤ q.tail_pos then q.tail_pos - p
      else q.tail_pos + (q.ele_count + 1) - p) := by
  rw [usedNodes2, h.emptyNodes2_eq hp ht]
  obtain ⟨hp0, hp1⟩ := hp
  obtain ⟨ht0, ht1⟩ := ht
  have hcount := h.count_lt
  split
  next hle =>
    rw [ok_bind, int_ok (by omega)]
    congr 1
    omega
  next hgt =>
    rw [ok_bind, int_ok (by omega)]
    congr 1
    omega

theorem need_fits {w : Int} (hw : 0 < w) (hlen : 1 ≤ len) :
    1 ≤ need w len ∧ 24 + len ≤ need w len * w := by
  constructor
  · rw [need, Int.le_ediv_iff_mul_le hw]
    omega
  · have hrem := Int.emod_lt_of_pos (len + 24 + w - 1) hw
    have hdiv := Int.mul_ediv_add_emod (len + 24 + w - 1) w
    have hneed : w * ((len + 24 + w - 1) / w) = need w len * w := by
      rw [need, Int.mul_comm]
    omega

theorem Sized.numNeededNodes_eq (h : q.Sized) (hlen : 1 ≤ len ∧ len ≤ maxSqDataLength) :
    q.numNeededNodes len = need q.width len := by
  have hge := h.size_ge
  have hle := h.size_le
  have hw := h.width_pos
  have hmax : len ≤ 65536 := hlen.2
  have hwidth : 32 ≤ q.width ∧ q.width ≤ 2147483664 := by
    unfold width
    omega
  have hone := (need_fits hw hlen.1).1
  have hbound : need q.width len < 65601 := by
    rw [need, Int.ediv_lt_iff_lt_mul hw]
    nlinarith
  have hmod : (len + sizeofNodeHead + q.width - 1) % 18446744073709551616 =
      len + 24 + q.width - 1 := by
    unfold sizeofNodeHead
    exact Int.emod_eq_of_lt (by omega) (by omega)
  rw [numNeededNodes, h.nodeSize_eq, hmod]
  exact castInt32_ok (by rw [← need]; omega)

end SqHead

end TstMuduo.ShmQueue
