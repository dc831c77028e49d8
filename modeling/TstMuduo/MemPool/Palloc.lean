import Mathlib.Algebra.Order.Ring.Int
import Mathlib.Data.List.Basic
import TstMuduo.Lib.Machine

/-!
# The pool allocator (examples/tst_memleak/nmx_palloc.cpp)

A pool is a chain of blocks that the system has allocated. A small allocation is cut off
the first block that has room for it, from `current` on; a large one comes from the system
and leaves a header in the pool. Addresses are natural numbers; the difference of two
pointers that is cast to `size_t` wraps at `2 ^ 64`.
-/

namespace TstMuduo.MemPool
open TstMuduo.Lib

def NMX_POOL_ALIGNMENT : Nat := 16

/- The sizes of `nmx_pool_data_t`, `nmx_pool_t` and `nmx_pool_large_t`. -/
def sizeofPoolData : Nat := 32
def sizeofPool : Nat := 56
def sizeofPoolLarge : Nat := 16

/- `nmx_align_ptr` (`nmx_alloc.h:20`) for `NMX_POOL_ALIGNMENT`, a power of two. -/
def nmxAlignPtr (p : Nat) : Nat :=
  (p + (NMX_POOL_ALIGNMENT - 1)) / NMX_POOL_ALIGNMENT * NMX_POOL_ALIGNMENT

/- `(size_t) (p - q)`. -/
def sizeDiff (p q : Nat) : Nat := (((p : Int) - q) % 2 ^ 64).toNat

/- A block. `base` is its address, and `header` the size of what stands there: the first
block has an `nmx_pool_t`, the others an `nmx_pool_data_t`. -/
structure Block where
  base : Nat
  header : Nat
  last : Nat
  endd : Nat
  failed : Nat
  deriving DecidableEq, Repr

/- `blocks` is the chain of `d.next`, `current` the place of `pool->current` in it; `large`
has the `alloc` of each large header. -/
structure Pool where
  blocks : List Block
  current : Nat
  max : Nat
  large : List (Option Nat)
  deriving DecidableEq, Repr

inductive PoolFault where
  | endlessRecursion
  | noBlock
  deriving DecidableEq, Repr

/- `nmx_create_pool` (`nmx_palloc.cpp:19`) with the block at `p` that `nmx_memalign` gives. -/
def nmxCreatePool (pagesize size p : Nat) : Pool where
  blocks := [⟨p, sizeofPool, p + sizeofPool, p + size, 0⟩]
  current := 0
  max := if size - sizeofPool < pagesize - 1 then size - sizeofPool else pagesize - 1
  large := []

/- `nmx_reset_pool` (`nmx_palloc.cpp:66`). -/
def nmxResetPool (pool : Pool) : Pool :=
  { pool with
    blocks := pool.blocks.map fun b => { b with last := b.base + sizeofPool, failed := 0 }
    current := 0
    large := [] }

def Block.start (aligned : Bool) (b : Block) : Nat := if aligned then nmxAlignPtr b.last else b.last

/- The loops of `nmx_palloc` and `nmx_pnalloc` over the chain: the address, and the chain
after it; `none` if no block takes the allocation. -/
def takeFrom (aligned : Bool) (size : Nat) : List Block → Option (Nat × List Block)
  | [] => none
  | b :: rest =>
    let m := b.start aligned
    if size ≤ sizeDiff b.endd m then some (m, { b with last := m + size } :: rest)
    else (takeFrom aligned size rest).map fun r => (r.1, b :: r.2)

/- The loop of `nmx_palloc_block` over the chain: it counts the failures of all blocks but
the last one and moves `current` behind those that have failed often. -/
def countFailed (i current : Nat) : List Block → List Block × Nat
  | [] => ([], current)
  | b :: rest =>
    if rest = [] then ([b], current)
    else
      let next := if 4 < b.failed then i + 1 else current
      let r := countFailed (i + 1) next rest
      ({ b with failed := (b.failed + 1) % 2 ^ 32 } :: r.1, r.2)

/- `nmx_palloc_block` (`nmx_palloc.cpp:143`), with `m` from `nmx_memalign`. -/
def nmxPallocBlock (pool : Pool) (size m : Nat) : Except PoolFault (Nat × Pool) :=
  match pool.blocks with
  | [] => .error .noBlock
  | first :: _ =>
    let psize := sizeDiff first.endd first.base
    let start := nmxAlignPtr (m + sizeofPoolData)
    let counted := countFailed pool.current pool.current (pool.blocks.drop pool.current)
    .ok (start, { pool with
      blocks := pool.blocks.take pool.current ++ counted.1 ++
        [⟨m, sizeofPoolData, start + size, m + psize, 0⟩]
      current := counted.2 })

/- What `nmx_palloc` and `nmx_pnalloc` do with a small size. -/
def smallAlloc (aligned : Bool) (pool : Pool) (size m : Nat) : Except PoolFault (Nat × Pool) :=
  match takeFrom aligned size (pool.blocks.drop pool.current) with
  | some (p, chain) => .ok (p, { pool with blocks := pool.blocks.take pool.current ++ chain })
  | none => nmxPallocBlock pool size m

/-! ### Allocations -/

inductive AllocKind where
  | palloc
  | pnalloc
  | large
  deriving DecidableEq, Repr

structure Alloc where
  kind : AllocKind
  addr : Nat
  size : Nat
  deriving DecidableEq, Repr

/- `nmx_palloc_large` (`nmx_palloc.cpp:178`), with `p` from `nmx_alloc`. It looks for a free
header among the first five; without one `nmx_palloc` makes a header, which is small. -/
def nmxPallocLarge (pool : Pool) (size m p : Nat) : Except PoolFault (List Alloc × Pool) :=
  match (pool.large.take 5).findIdx? (fun l => l.isNone) with
  | some i => .ok ([⟨.large, p, size⟩], { pool with large := pool.large.set i (some p) })
  | none =>
    if sizeofPoolLarge ≤ pool.max then do
      let (header, q) ← smallAlloc true pool sizeofPoolLarge m
      return ([⟨.large, p, size⟩, ⟨.palloc, header, sizeofPoolLarge⟩],
        { q with large := some p :: q.large })
    else .error .endlessRecursion

/- `nmx_palloc` (`nmx_palloc.cpp:85`): the allocations that it makes. `m` is what
`nmx_memalign` gives if it is called, and `p` what `nmx_alloc` gives. -/
def nmxPalloc (pool : Pool) (size m p : Nat) : Except PoolFault (List Alloc × Pool) :=
  if size ≤ pool.max then do
    let (addr, q) ← smallAlloc true pool size m
    return ([⟨.palloc, addr, size⟩], q)
  else nmxPallocLarge pool size m p

/- `nmx_pnalloc` (`nmx_palloc.cpp:113`). -/
def nmxPnalloc (pool : Pool) (size m p : Nat) : Except PoolFault (List Alloc × Pool) :=
  if size ≤ pool.max then do
    let (addr, q) ← smallAlloc false pool size m
    return ([⟨.pnalloc, addr, size⟩], q)
  else nmxPallocLarge pool size m p

/-! ### Runs -/

/- A pool and what it has given out since the last reset. -/
structure PoolState where
  pool : Pool
  allocs : List Alloc

def Apart (p n q k : Nat) : Prop := p + n ≤ q ∨ q + k ≤ p

instance (p n q k : Nat) : Decidable (Apart p n q k) := by
  unfold Apart
  infer_instance

inductive PoolCall where
  | palloc (size m p : Nat)
  | pnalloc (size m p : Nat)
  | reset

/- What the system promises of the addresses `m` and `p` that it gives: aligned, and apart
from what it has given before and not got back. -/
def Admissible (psize : Nat) (s : PoolState) (size m p : Nat) : Prop :=
  m % NMX_POOL_ALIGNMENT = 0 ∧ Apart m psize p size ∧
    (∀ b ∈ s.pool.blocks, Apart m psize b.base psize ∧ Apart p size b.base psize) ∧
    ∀ a ∈ s.allocs, a.kind = .large → Apart m psize a.addr a.size ∧ Apart p size a.addr a.size

instance (psize : Nat) (s : PoolState) (size m p : Nat) :
    Decidable (Admissible psize s size m p) := by
  unfold Admissible
  infer_instance

def PoolState.record (s : PoolState) (r : List Alloc × Pool) : PoolState :=
  ⟨r.2, r.1 ++ s.allocs⟩

def PoolState.step (psize : Nat) (s : PoolState) : PoolCall → Option (Except PoolFault PoolState)
  | .palloc size m p =>
    if Admissible psize s size m p then some ((nmxPalloc s.pool size m p).map s.record) else none
  | .pnalloc size m p =>
    if Admissible psize s size m p then some ((nmxPnalloc s.pool size m p).map s.record) else none
  | .reset => some (.ok ⟨nmxResetPool s.pool, []⟩)

def PoolState.create (pagesize psize base : Nat) : PoolState :=
  ⟨nmxCreatePool pagesize psize base, []⟩

def PoolState.machine (pagesize psize base : Nat) : Machine PoolState PoolCall PoolFault where
  init := .create pagesize psize base
  step := PoolState.step psize

/-- What is to hold of the allocations since the last reset. -/
structure Sound (s : PoolState) : Prop where
  inside : ∀ a ∈ s.allocs, a.kind ≠ .large →
    ∃ b ∈ s.pool.blocks, b.base + b.header ≤ a.addr ∧ a.addr + a.size ≤ b.endd
  disjoint : s.allocs.Pairwise fun a c => Apart a.addr a.size c.addr c.size
  aligned : ∀ a ∈ s.allocs, a.kind = .palloc → a.addr % NMX_POOL_ALIGNMENT = 0

end TstMuduo.MemPool
