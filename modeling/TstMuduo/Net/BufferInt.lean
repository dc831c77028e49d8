import TstMuduo.Lib.Endian
import TstMuduo.Net.BufferQueue

/-!
# Integers in the buffer (muduo/net/Buffer.h, Endian.h)

The integer operations of `Buffer` copy the object representation of a swapped integer
in and out of the readable bytes. They are modelled on a host of either byte order; the
last section has the two that the codecs use as byte strings, without the host.
-/

namespace TstMuduo.Net
open TstMuduo.Lib

/-! ### Endian.h -/

namespace sockets

variable (host : Endian)

def hostToNetwork64 (host64 : BitVec 64) : BitVec 64 := host.htobe 8 host64
def hostToNetwork32 (host32 : BitVec 32) : BitVec 32 := host.htobe 4 host32
def hostToNetwork16 (host16 : BitVec 16) : BitVec 16 := host.htobe 2 host16
def networkToHost64 (net64 : BitVec 64) : BitVec 64 := host.htobe 8 net64
def networkToHost32 (net32 : BitVec 32) : BitVec 32 := host.htobe 4 net32
def networkToHost16 (net16 : BitVec 16) : BitVec 16 := host.htobe 2 net16

end sockets

/-! ### The operations of each width -/

namespace Buffer.OnHost

variable (host : Endian)

/- `append(&x, sizeof x)` for an integer of `n` bytes. -/
def appendObject (n : Nat) (b : Buffer) (x : BitVec (8 * n)) : Except Assertion Buffer :=
  b.append (host.objectBytes n x)

/- `prepend(&x, sizeof x)`. -/
def prependObject (n : Nat) (b : Buffer) (x : BitVec (8 * n)) : Except Assertion Buffer :=
  b.prepend (host.objectBytes n x)

/- The assert on the length and the `memcpy` from `peek()` into an integer of `n` bytes. -/
def peekObject (n : Nat) (b : Buffer) : Except Assertion (BitVec (8 * n)) := do
  check (n ≤ b.readableBytes) .bufferPeekInt
  return host.ofObjectBytes n (b.contents.take n)

/- `appendInt64` and the other three (`Buffer.h:263`); a byte is not swapped. -/
def appendInt64 (b : Buffer) (x : BitVec 64) : Except Assertion Buffer :=
  appendObject host 8 b (sockets.hostToNetwork64 host x)

def appendInt32 (b : Buffer) (x : BitVec 32) : Except Assertion Buffer :=
  appendObject host 4 b (sockets.hostToNetwork32 host x)

def appendInt16 (b : Buffer) (x : BitVec 16) : Except Assertion Buffer :=
  appendObject host 2 b (sockets.hostToNetwork16 host x)

def appendInt8 (b : Buffer) (x : BitVec 8) : Except Assertion Buffer :=
  appendObject host 1 b x

/- `peekInt64` and the other three (`Buffer.h:329`). -/
def peekInt64 (b : Buffer) : Except Assertion (BitVec 64) := do
  let be64 ← peekObject host 8 b
  return sockets.networkToHost64 host be64

def peekInt32 (b : Buffer) : Except Assertion (BitVec 32) := do
  let be32 ← peekObject host 4 b
  return sockets.networkToHost32 host be32

def peekInt16 (b : Buffer) : Except Assertion (BitVec 16) := do
  let be16 ← peekObject host 2 b
  return sockets.networkToHost16 host be16

def peekInt8 (b : Buffer) : Except Assertion (BitVec 8) :=
  peekObject host 1 b

/- `retrieveInt64` and the other three (`Buffer.h:162`). -/
def retrieveInt64 (b : Buffer) : Except Assertion Buffer := b.retrieve 8
def retrieveInt32 (b : Buffer) : Except Assertion Buffer := b.retrieve 4
def retrieveInt16 (b : Buffer) : Except Assertion Buffer := b.retrieve 2
def retrieveInt8 (b : Buffer) : Except Assertion Buffer := b.retrieve 1

/- `readInt64` and the other three (`Buffer.h:293`). -/
def readInt64 (b : Buffer) : Except Assertion (BitVec 64 × Buffer) := do
  let result ← peekInt64 host b
  let r ← retrieveInt64 b
  return (result, r)

def readInt32 (b : Buffer) : Except Assertion (BitVec 32 × Buffer) := do
  let result ← peekInt32 host b
  let r ← retrieveInt32 b
  return (result, r)

def readInt16 (b : Buffer) : Except Assertion (BitVec 16 × Buffer) := do
  let result ← peekInt16 host b
  let r ← retrieveInt16 b
  return (result, r)

def readInt8 (b : Buffer) : Except Assertion (BitVec 8 × Buffer) := do
  let result ← peekInt8 host b
  let r ← retrieveInt8 b
  return (result, r)

/- `prependInt64` and the other three (`Buffer.h:367`). -/
def prependInt64 (b : Buffer) (x : BitVec 64) : Except Assertion Buffer :=
  prependObject host 8 b (sockets.hostToNetwork64 host x)

def prependInt32 (b : Buffer) (x : BitVec 32) : Except Assertion Buffer :=
  prependObject host 4 b (sockets.hostToNetwork32 host x)

def prependInt16 (b : Buffer) (x : BitVec 16) : Except Assertion Buffer :=
  prependObject host 2 b (sockets.hostToNetwork16 host x)

def prependInt8 (b : Buffer) (x : BitVec 8) : Except Assertion Buffer :=
  prependObject host 1 b x

/-! ### Calls by width

A caller's value is an integer in the range of the type it passes. -/

inductive IntWidth where
  | int8
  | int16
  | int32
  | int64
  deriving DecidableEq, Repr

def IntWidth.size : IntWidth → Nat
  | int8 => 1
  | int16 => 2
  | int32 => 4
  | int64 => 8

/-- A value of the signed type of some width. -/
structure IntField where
  width : IntWidth
  value : Int
  lower : -2 ^ (8 * width.size - 1) ≤ value
  upper : value < 2 ^ (8 * width.size - 1)

def IntField.bytes (f : IntField) : Bytes := twosComplement f.width.size f.value

def appendInt (b : Buffer) (f : IntField) : Except Assertion Buffer :=
  match f.width with
  | .int8 => appendInt8 host b (.ofInt 8 f.value)
  | .int16 => appendInt16 host b (.ofInt 16 f.value)
  | .int32 => appendInt32 host b (.ofInt 32 f.value)
  | .int64 => appendInt64 host b (.ofInt 64 f.value)

def prependInt (b : Buffer) (f : IntField) : Except Assertion Buffer :=
  match f.width with
  | .int8 => prependInt8 host b (.ofInt 8 f.value)
  | .int16 => prependInt16 host b (.ofInt 16 f.value)
  | .int32 => prependInt32 host b (.ofInt 32 f.value)
  | .int64 => prependInt64 host b (.ofInt 64 f.value)

def readInt (b : Buffer) : IntWidth → Except Assertion (Int × Buffer)
  | .int8 => do let (x, r) ← readInt8 host b; return (x.toInt, r)
  | .int16 => do let (x, r) ← readInt16 host b; return (x.toInt, r)
  | .int32 => do let (x, r) ← readInt32 host b; return (x.toInt, r)
  | .int64 => do let (x, r) ← readInt64 host b; return (x.toInt, r)

def appendInts (b : Buffer) : List IntField → Except Assertion Buffer
  | [] => .ok b
  | f :: fs => do
    let r ← appendInt host b f
    appendInts r fs

def readInts (b : Buffer) : List IntWidth → Except Assertion (List Int × Buffer)
  | [] => .ok ([], b)
  | w :: ws => do
    let (v, r) ← readInt host b w
    let (vs, rest) ← readInts r ws
    return (v :: vs, rest)

/-! ### One width -/

theorem objectBytes_one (x : BitVec (8 * 1)) :
    host.objectBytes 1 x = (leBytes 1 x.toNat).reverse := by
  cases host with
  | little => rfl
  | big => rfl

theorem ofObjectBytes_one (bytes : Bytes) (h : bytes.length = 1) :
    host.ofObjectBytes 1 bytes = host.htobe 1 (host.ofObjectBytes 1 bytes) := by
  cases host with
  | little =>
    rw [Endian.htobe_ofObjectBytes .little 1 bytes h]
    obtain ⟨a, rfl⟩ := List.length_eq_one_iff.mp h
    rfl
  | big => rfl

theorem appendInt_eq (b : Buffer) (f : IntField) : appendInt host b f = b.append f.bytes := by
  obtain ⟨w, v, hl, hu⟩ := f
  cases w with
  | int8 =>
    have h := (objectBytes_one host (.ofInt _ v)).trans (leBytes_toNat_ofInt 1 v)
    exact congrArg b.append h
  | int16 => exact congrArg b.append (host.objectBytes_htobe_ofInt 2 v)
  | int32 => exact congrArg b.append (host.objectBytes_htobe_ofInt 4 v)
  | int64 => exact congrArg b.append (host.objectBytes_htobe_ofInt 8 v)

theorem prependInt_eq (b : Buffer) (f : IntField) : prependInt host b f = b.prepend f.bytes := by
  obtain ⟨w, v, hl, hu⟩ := f
  cases w with
  | int8 =>
    have h := (objectBytes_one host (.ofInt _ v)).trans (leBytes_toNat_ofInt 1 v)
    exact congrArg b.prepend h
  | int16 => exact congrArg b.prepend (host.objectBytes_htobe_ofInt 2 v)
  | int32 => exact congrArg b.prepend (host.objectBytes_htobe_ofInt 4 v)
  | int64 => exact congrArg b.prepend (host.objectBytes_htobe_ofInt 8 v)

theorem peekObject_spec (n : Nat) (b : Buffer) (bytes rest : Bytes) (hn : bytes.length = n)
    (hc : b.contents = bytes ++ rest) :
    peekObject host n b = .ok (host.ofObjectBytes n bytes) := by
  have hlen : n ≤ b.readableBytes := by
    rw [← length_contents, hc, List.length_append]
    omega
  have htake : b.contents.take n = bytes := by
    rw [hc, ← hn]
    exact List.take_left
  simp only [peekObject, check_ok hlen, htake]
  rfl

theorem read_steps (n : Nat) (b : Buffer) (v : Int) (rest : Bytes) (hn : 0 < n)
    (hl : -2 ^ (8 * n - 1) ≤ v) (hu : v < 2 ^ (8 * n - 1))
    (hc : b.contents = twosComplement n v ++ rest) :
    ∃ be r, peekObject host n b = .ok be ∧ b.retrieve n = .ok r ∧ r.contents = rest ∧
      be = host.ofObjectBytes n (twosComplement n v) ∧ (host.htobe n be).toInt = v := by
  have hsize := length_twosComplement n v
  have hlen : n ≤ b.readableBytes := by
    rw [← length_contents, hc, List.length_append]
    omega
  obtain ⟨r, hr, hrc⟩ := b.retrieve_spec n hlen
  have hrest : r.contents = rest := by
    rw [hrc, hc]
    exact List.drop_left' hsize
  have hvalue : (host.htobe n (host.ofObjectBytes n (twosComplement n v))).toInt = v := by
    rw [host.htobe_ofObjectBytes_twosComplement]
    exact BitVec.toInt_ofInt_eq_self (by omega) hl hu
  exact ⟨_, r, peekObject_spec host n b _ rest hsize hc, hr, hrest, rfl, hvalue⟩

theorem readInt_spec (b : Buffer) (f : IntField) (rest : Bytes)
    (hc : b.contents = f.bytes ++ rest) :
    ∃ r, readInt host b f.width = .ok (f.value, r) ∧ r.contents = rest := by
  obtain ⟨w, v, hl, hu⟩ := f
  cases w with
  | int8 =>
    obtain ⟨be, r, hp, hr, hrest, hbe, hv⟩ := read_steps host 1 b v rest (by decide) hl hu hc
    refine ⟨r, ?_, hrest⟩
    have hsame : be = host.htobe 1 be := by
      rw [hbe]
      exact ofObjectBytes_one host _ (length_twosComplement 1 v)
    simp only [readInt, readInt8, peekInt8, retrieveInt8, hp, hr, ok_bind]
    rw [← hsame] at hv
    exact congrArg (fun i => Except.ok (i, r)) hv
  | int16 =>
    obtain ⟨be, r, hp, hr, hrest, -, hv⟩ := read_steps host 2 b v rest (by decide) hl hu hc
    refine ⟨r, ?_, hrest⟩
    simp only [readInt, readInt16, peekInt16, retrieveInt16, hp, hr, ok_bind]
    exact congrArg (fun i => Except.ok (i, r)) hv
  | int32 =>
    obtain ⟨be, r, hp, hr, hrest, -, hv⟩ := read_steps host 4 b v rest (by decide) hl hu hc
    refine ⟨r, ?_, hrest⟩
    simp only [readInt, readInt32, peekInt32, retrieveInt32, hp, hr, ok_bind]
    exact congrArg (fun i => Except.ok (i, r)) hv
  | int64 =>
    obtain ⟨be, r, hp, hr, hrest, -, hv⟩ := read_steps host 8 b v rest (by decide) hl hu hc
    refine ⟨r, ?_, hrest⟩
    simp only [readInt, readInt64, peekInt64, retrieveInt64, hp, hr, ok_bind]
    exact congrArg (fun i => Except.ok (i, r)) hv

/-! ### Any sequence of integers -/

def encoding (fs : List IntField) : Bytes := fs.flatMap IntField.bytes

theorem appendInts_spec (b : Buffer) (fs : List IntField) :
    ∃ r, appendInts host b fs = .ok r ∧ r.contents = b.contents ++ encoding fs := by
  induction fs generalizing b with
  | nil => exact ⟨b, rfl, (List.append_nil _).symm⟩
  | cons f fs ih =>
    obtain ⟨r, hr, hrc⟩ := b.append_spec f.bytes
    obtain ⟨q, hq, hqc⟩ := ih r
    refine ⟨q, ?_, ?_⟩
    · rw [appendInts, appendInt_eq, hr]
      exact hq
    · rw [hqc, hrc, List.append_assoc]
      rfl

theorem readInts_spec (b : Buffer) (fs : List IntField) (rest : Bytes)
    (hc : b.contents = encoding fs ++ rest) :
    ∃ r, readInts host b (fs.map IntField.width) = .ok (fs.map IntField.value, r) ∧
      r.contents = rest := by
  induction fs generalizing b with
  | nil => exact ⟨b, rfl, hc⟩
  | cons f fs ih =>
    have hcons : b.contents = f.bytes ++ (encoding fs ++ rest) := by
      rw [hc, ← List.append_assoc]
      rfl
    obtain ⟨q, hq, hqc⟩ := readInt_spec host b f _ hcons
    obtain ⟨r, hr, hrc⟩ := ih q hqc
    refine ⟨r, ?_, hrc⟩
    simp only [List.map_cons, readInts, hq, hr, ok_bind]
    rfl

/-- Integers of any widths come back in the order they were appended in, whatever the buffer
held before and gets after them; a prepended one comes back in front of the contents. In
both cases the bytes are the big-endian two's complement encodings. -/
theorem int_framing (b : Buffer) :
    (∀ fs later, ∃ filled extended,
      appendInts host b fs = .ok filled ∧ filled.contents = b.contents ++ encoding fs ∧
      filled.append later = .ok extended ∧
      (∃ ready, extended.retrieve b.readableBytes = .ok ready) ∧
      ∀ ready, extended.retrieve b.readableBytes = .ok ready ∨
          b.readableBytes = 0 ∧ ready = extended →
        ∃ rest, readInts host ready (fs.map IntField.width) =
          .ok (fs.map IntField.value, rest) ∧ rest.contents = later) ∧
    ∀ f : IntField, f.width.size ≤ b.prependableBytes → ∃ r rest,
      prependInt host b f = .ok r ∧ r.contents = f.bytes ++ b.contents ∧
      readInt host r f.width = .ok (f.value, rest) ∧ rest.contents = b.contents := by
  constructor
  · intro fs later
    obtain ⟨filled, hf, hfc⟩ := appendInts_spec host b fs
    obtain ⟨extended, he, hec⟩ := filled.append_spec later
    have hall : extended.contents = b.contents ++ (encoding fs ++ later) := by
      rw [hec, hfc, List.append_assoc]
    have hlen : b.readableBytes ≤ extended.readableBytes := by
      rw [← length_contents, ← length_contents, hall, List.length_append]
      omega
    obtain ⟨next, hn, hnc⟩ := extended.retrieve_spec _ hlen
    refine ⟨filled, extended, hf, hfc, he, ⟨next, hn⟩, ?_⟩
    intro ready hready
    apply readInts_spec
    rcases hready with hready | ⟨hzero, rfl⟩
    · cases hn.symm.trans hready
      rw [hnc, hall]
      exact List.drop_left' (length_contents b)
    · rw [hall, (contents_eq_nil b).mpr hzero, List.nil_append]
  · intro f hroom
    have hsize : f.bytes.length = f.width.size := length_twosComplement _ _
    obtain ⟨r, hr, hrc, -⟩ := b.prepend_spec f.bytes (by omega)
    obtain ⟨rest, hrest, hc⟩ := readInt_spec host r f b.contents hrc
    refine ⟨r, rest, ?_, hrc, hrest, hc⟩
    rw [prependInt_eq, hr]

/- The least value of each width, and -2, through a buffer of four bytes. -/
def leastInts : List IntField :=
  [⟨.int8, -128, by decide, by decide⟩, ⟨.int16, -32768, by decide, by decide⟩,
    ⟨.int32, -2147483648, by decide, by decide⟩,
    ⟨.int64, -9223372036854775808, by decide, by decide⟩, ⟨.int16, -2, by decide, by decide⟩]

theorem int_framing_least :
    (∃ filled, appendInts .little (Buffer.new 4) leastInts = .ok filled ∧
      filled.contents = [0x80, 0x80, 0, 0x80, 0, 0, 0, 0x80, 0, 0, 0, 0, 0, 0, 0, 0xff, 0xfe]) ∧
    ∃ r rest, prependInt .little (Buffer.new 4) ⟨.int64, -2, by decide, by decide⟩ = .ok r ∧
      readInt .little r .int64 = .ok (-2, rest) ∧ rest.contents = [] := by
  obtain ⟨happend, hprepend⟩ := int_framing .little (Buffer.new 4)
  constructor
  · obtain ⟨filled, _, hf, hc, -⟩ := happend leastInts []
    exact ⟨filled, hf, hc⟩
  · obtain ⟨r, rest, hr, -, hread, hc⟩ :=
      hprepend ⟨.int64, -2, by decide, by decide⟩ (by decide)
    exact ⟨r, rest, hr, hread, hc⟩

end Buffer.OnHost

/-! ### Integers in network order, as the codecs use them -/

/- `hostToNetwork32`, as the four bytes that are copied out of its result. -/
def hostToNetwork32 (x : BitVec 32) : Bytes :=
  [.ofNat (x.toNat / 2 ^ 24), .ofNat (x.toNat / 2 ^ 16), .ofNat (x.toNat / 2 ^ 8), .ofNat x.toNat]

def networkToHost32 (bytes : Bytes) : BitVec 32 :=
  .ofNat 32 (bytes.foldl (fun v b => v * 256 + b.toNat) 0)

theorem length_hostToNetwork32 (x : BitVec 32) : (hostToNetwork32 x).length = 4 := rfl

theorem networkToHost32_hostToNetwork32 (x : BitVec 32) :
    networkToHost32 (hostToNetwork32 x) = x := by
  have hx := x.isLt
  apply BitVec.eq_of_toNat_eq
  simp only [networkToHost32, hostToNetwork32, List.foldl_cons, List.foldl_nil, BitVec.toNat_ofNat,
    UInt8.toNat_ofNat']
  omega

theorem hostToNetwork32_networkToHost32 (bytes : Bytes) (h : bytes.length = 4) :
    hostToNetwork32 (networkToHost32 bytes) = bytes := by
  match bytes, h with
  | [a, b, c, d], _ =>
    have ha := a.toNat_lt
    have hb := b.toNat_lt
    have hc := c.toNat_lt
    have hd := d.toNat_lt
    simp only [hostToNetwork32, networkToHost32, List.foldl_cons, List.foldl_nil,
      BitVec.toNat_ofNat, List.cons.injEq, and_true]
    refine ⟨?_, ?_, ?_, ?_⟩ <;>
    · apply UInt8.toNat_inj.mp
      rw [UInt8.toNat_ofNat']
      omega

theorem objectBytes_hostToNetwork32 (host : Endian) (x : BitVec 32) :
    host.objectBytes 4 (host.htobe 4 x) = hostToNetwork32 x := by
  rw [Endian.objectBytes_htobe]
  simp only [leBytes, hostToNetwork32, List.reverse_cons, List.reverse_nil, List.nil_append,
    List.cons_append, Nat.div_div_eq_div_mul]
  rfl

theorem ofObjectBytes_networkToHost32 (host : Endian) {bytes : Bytes} (h : bytes.length = 4) :
    host.htobe 4 (host.ofObjectBytes 4 bytes) = networkToHost32 bytes := by
  refine (host.htobe_ofObjectBytes 4 bytes h).trans ?_
  obtain ⟨p, q, r, s, rfl⟩ := List.length_eq_four.mp h
  simp only [networkToHost32, leVal, List.reverse_cons, List.reverse_nil, List.nil_append,
    List.cons_append, List.foldl_cons, List.foldl_nil]
  congr 1
  omega

namespace Buffer

/- `appendInt32` (`Buffer.h:272`). -/
def appendInt32 (b : Buffer) (x : BitVec 32) : Except Assertion Buffer :=
  b.append (hostToNetwork32 x)

/- `peekInt32` (`Buffer.h:342`). -/
def peekInt32 (b : Buffer) : Except Assertion (BitVec 32) := do
  check (4 ≤ b.readableBytes) .bufferPeekInt
  return networkToHost32 (b.contents.take 4)

theorem appendInt32_onHost (host : Endian) (b : Buffer) (x : BitVec 32) :
    OnHost.appendInt32 host b x = b.appendInt32 x :=
  congrArg b.append (objectBytes_hostToNetwork32 host x)

theorem peekInt32_onHost (host : Endian) (b : Buffer) :
    OnHost.peekInt32 host b = b.peekInt32 := by
  by_cases hlen : 4 ≤ b.readableBytes
  · have htake : (b.contents.take 4).length = 4 := by
      rw [List.length_take, length_contents]
      omega
    simp only [OnHost.peekInt32, OnHost.peekObject, peekInt32, check_ok hlen, ok_bind,
      sockets.networkToHost32]
    exact congrArg Except.ok (ofObjectBytes_networkToHost32 host htake)
  · simp only [OnHost.peekInt32, OnHost.peekObject, peekInt32, check, hlen, if_false]
    rfl

end Buffer

end TstMuduo.Net
