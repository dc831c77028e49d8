import Mathlib.Data.Nat.ModEq
import TstMuduo.Lib.BlockHash
import TstMuduo.Lib.Endian

/-!
# MD5 (examples/tstconnhash/md5.h, md5.cpp)

The object hashes what is given to `init` in pieces, and `getDigest` finishes a copy of
the state in the object's own buffer.
-/

namespace TstMuduo.ConnHash
open TstMuduo.Lib

abbrev Bit32 := BitVec 32

/-! ### The compression function -/

/-- The functions `F`, `G`, `H` and `I` of `md5.h`. -/
inductive Md5Round where
  | FF
  | GG
  | HH
  | II
  deriving DecidableEq, Repr

def Md5Round.fn : Md5Round → Bit32 → Bit32 → Bit32 → Bit32
  | .FF, x, y, z => (x &&& y) ||| (~~~x &&& z)
  | .GG, x, y, z => (x &&& z) ||| (y &&& ~~~z)
  | .HH, x, y, z => x ^^^ y ^^^ z
  | .II, x, y, z => y ^^^ (x ||| ~~~z)

structure Md5State where
  a : Bit32
  b : Bit32
  c : Bit32
  d : Bit32
  deriving DecidableEq, Repr

def rotateLeft (num : Bit32) (n : Nat) : Bit32 := (num <<< n) ||| (num >>> (32 - n))

/-- One of the 64 macro calls of `transform`: the round, the index of the word, the rotation
and the constant. -/
structure Md5Op where
  round : Md5Round
  index : Nat
  shift : Nat
  ac : Bit32

def Md5State.apply (x : List Bit32) (s : Md5State) (op : Md5Op) : Md5State :=
  let a := s.a + (op.round.fn s.b s.c s.d + x.getD op.index 0 + op.ac)
  ⟨s.d, rotateLeft a op.shift + s.b, s.b, s.c⟩

def ops1 : List Md5Op :=
  [⟨.FF, 0, 7, 0xd76aa478⟩, ⟨.FF, 1, 12, 0xe8c7b756⟩, ⟨.FF, 2, 17, 0x242070db⟩,
    ⟨.FF, 3, 22, 0xc1bdceee⟩, ⟨.FF, 4, 7, 0xf57c0faf⟩, ⟨.FF, 5, 12, 0x4787c62a⟩,
    ⟨.FF, 6, 17, 0xa8304613⟩, ⟨.FF, 7, 22, 0xfd469501⟩, ⟨.FF, 8, 7, 0x698098d8⟩,
    ⟨.FF, 9, 12, 0x8b44f7af⟩, ⟨.FF, 10, 17, 0xffff5bb1⟩, ⟨.FF, 11, 22, 0x895cd7be⟩,
    ⟨.FF, 12, 7, 0x6b901122⟩, ⟨.FF, 13, 12, 0xfd987193⟩, ⟨.FF, 14, 17, 0xa679438e⟩,
    ⟨.FF, 15, 22, 0x49b40821⟩]

def ops2 : List Md5Op :=
  [⟨.GG, 1, 5, 0xf61e2562⟩, ⟨.GG, 6, 9, 0xc040b340⟩, ⟨.GG, 11, 14, 0x265e5a51⟩,
    ⟨.GG, 0, 20, 0xe9b6c7aa⟩, ⟨.GG, 5, 5, 0xd62f105d⟩, ⟨.GG, 10, 9, 0x2441453⟩,
    ⟨.GG, 15, 14, 0xd8a1e681⟩, ⟨.GG, 4, 20, 0xe7d3fbc8⟩, ⟨.GG, 9, 5, 0x21e1cde6⟩,
    ⟨.GG, 14, 9, 0xc33707d6⟩, ⟨.GG, 3, 14, 0xf4d50d87⟩, ⟨.GG, 8, 20, 0x455a14ed⟩,
    ⟨.GG, 13, 5, 0xa9e3e905⟩, ⟨.GG, 2, 9, 0xfcefa3f8⟩, ⟨.GG, 7, 14, 0x676f02d9⟩,
    ⟨.GG, 12, 20, 0x8d2a4c8a⟩]

def ops3 : List Md5Op :=
  [⟨.HH, 5, 4, 0xfffa3942⟩, ⟨.HH, 8, 11, 0x8771f681⟩, ⟨.HH, 11, 16, 0x6d9d6122⟩,
    ⟨.HH, 14, 23, 0xfde5380c⟩, ⟨.HH, 1, 4, 0xa4beea44⟩, ⟨.HH, 4, 11, 0x4bdecfa9⟩,
    ⟨.HH, 7, 16, 0xf6bb4b60⟩, ⟨.HH, 10, 23, 0xbebfbc70⟩, ⟨.HH, 13, 4, 0x289b7ec6⟩,
    ⟨.HH, 0, 11, 0xeaa127fa⟩, ⟨.HH, 3, 16, 0xd4ef3085⟩, ⟨.HH, 6, 23, 0x4881d05⟩,
    ⟨.HH, 9, 4, 0xd9d4d039⟩, ⟨.HH, 12, 11, 0xe6db99e5⟩, ⟨.HH, 15, 16, 0x1fa27cf8⟩,
    ⟨.HH, 2, 23, 0xc4ac5665⟩]

def ops4 : List Md5Op :=
  [⟨.II, 0, 6, 0xf4292244⟩, ⟨.II, 7, 10, 0x432aff97⟩, ⟨.II, 14, 15, 0xab9423a7⟩,
    ⟨.II, 5, 21, 0xfc93a039⟩, ⟨.II, 12, 6, 0x655b59c3⟩, ⟨.II, 3, 10, 0x8f0ccc92⟩,
    ⟨.II, 10, 15, 0xffeff47d⟩, ⟨.II, 1, 21, 0x85845dd1⟩, ⟨.II, 8, 6, 0x6fa87e4f⟩,
    ⟨.II, 15, 10, 0xfe2ce6e0⟩, ⟨.II, 6, 15, 0xa3014314⟩, ⟨.II, 13, 21, 0x4e0811a1⟩,
    ⟨.II, 4, 6, 0xf7537e82⟩, ⟨.II, 11, 10, 0xbd3af235⟩, ⟨.II, 2, 15, 0x2ad7d2bb⟩,
    ⟨.II, 9, 21, 0xeb86d391⟩]

/- `encode` of one word (`md5.cpp:209`). -/
def encodeWord (w : Bit32) : List UInt8 :=
  [⟨(w &&& 0xff).setWidth 8⟩, ⟨(w >>> 8 &&& 0xff).setWidth 8⟩, ⟨(w >>> 16 &&& 0xff).setWidth 8⟩,
    ⟨(w >>> 24 &&& 0xff).setWidth 8⟩]

/- `decode` (`md5.cpp:229`). -/
def decode : List UInt8 → List Bit32
  | b0 :: b1 :: b2 :: b3 :: rest =>
    (b0.toBitVec.setWidth 32 ||| b1.toBitVec.setWidth 32 <<< 8 |||
      b2.toBitVec.setWidth 32 <<< 16 ||| b3.toBitVec.setWidth 32 <<< 24) :: decode rest
  | _ => []

/- `transform` (`md5.cpp:112`). -/
def transform (s : Md5State) (block : List UInt8) : Md5State :=
  let t := (ops1 ++ ops2 ++ ops3 ++ ops4).foldl (Md5State.apply (decode block)) s
  ⟨s.a + t.a, s.b + t.b, s.c + t.c, s.d + t.d⟩

/-! ### The object -/

/-- `MD5`; `count0` and `count1` are `count[0]` and `count[1]`. -/
structure MD5 where
  finished : Bool
  state : Md5State
  count0 : Bit32
  count1 : Bit32
  buffer : List UInt8
  digest : List UInt8
  deriving DecidableEq, Repr

inductive Md5Call where
  | init (input : List UInt8)
  | getDigest
  deriving DecidableEq, Repr

namespace MD5

/- `PADDING` (`md5.cpp:14`). -/
def padding : List UInt8 := 0x80 :: List.replicate 63 0

/- `memcpy` of `data` to the place `i` of an array. -/
def copyTo (buf : List UInt8) (i : Nat) (data : List UInt8) : List UInt8 :=
  buf.take i ++ data ++ buf.drop (i + data.length)

/- The loop of `init` (`md5.cpp:94`) with its `bit32 i`, for at most `fuel` turns. -/
def transformAll (input : List UInt8) : Nat → Md5State → Bit32 → Option (Md5State × Bit32)
  | 0, _, _ => none
  | fuel + 1, s, i =>
    if (i + 63).toNat < input.length then
      transformAll input fuel (transform s ((input.drop i.toNat).take 64)) (i + 64)
    else some (s, i)

/- `init` (`md5.cpp:79`); `none` where its loop does not end. -/
def init (s : MD5) (input : List UInt8) : Option MD5 :=
  let len := BitVec.ofNat 32 input.length
  let index := (s.count0 >>> 3 &&& 0x3f).toNat
  let count0 := s.count0 + len <<< 3
  let count1 := (if count0 < len <<< 3 then s.count1 + 1 else s.count1) + len >>> 29
  let counted := { s with finished := false, count0 := count0, count1 := count1 }
  let partLen := 64 - index
  if partLen ≤ input.length then do
    let filled := copyTo s.buffer index (input.take partLen)
    let (state, i) ← transformAll input (input.length + 1) (transform s.state filled)
      (BitVec.ofNat 32 partLen)
    return { counted with state := state, buffer := copyTo filled 0 (input.drop i.toNat) }
  else some { counted with buffer := copyTo s.buffer index input }

/- The object in its constructor before it has the message; the arrays hold anything. -/
def blank (buffer digest : List UInt8) : MD5 where
  finished := false
  state := ⟨0x67452301, 0xefcdab89, 0x98badcfe, 0x10325476⟩
  count0 := 0
  count1 := 0
  buffer := buffer
  digest := digest

def encode (s : Md5State) : List UInt8 :=
  encodeWord s.a ++ encodeWord s.b ++ encodeWord s.c ++ encodeWord s.d

/- `getDigest` (`md5.cpp:44`). -/
def getDigest (s : MD5) : Option (List UInt8 × MD5) :=
  if s.finished then some (s.digest, s)
  else do
    let started := { s with finished := true }
    let bits := encodeWord s.count0 ++ encodeWord s.count1
    let index := (s.count0 >>> 3 &&& 0x3f).toNat
    let padLen := if index < 56 then 56 - index else 120 - index
    let padded ← started.init (padding.take padLen)
    let closed ← padded.init bits
    let digest := encode closed.state
    return (digest, { closed with
      digest := digest
      state := s.state
      count0 := s.count0
      count1 := s.count1 })

/- A user's calls in a row, with the digests returned. -/
def run : MD5 → List Md5Call → Option (List (List UInt8) × MD5)
  | s, [] => some ([], s)
  | s, .init input :: calls => do
    let t ← s.init input
    t.run calls
  | s, .getDigest :: calls => do
    let (digest, t) ← s.getDigest
    let (digests, u) ← t.run calls
    return (digest :: digests, u)

end MD5

/-! ### The hash of a message -/

namespace Md5

def blocks : BlockHash Md5State UInt8 := ⟨64, by decide, transform⟩

def iv : Md5State := ⟨0x67452301, 0xefcdab89, 0x98badcfe, 0x10325476⟩

def pad (len : Nat) : List UInt8 :=
  0x80 :: List.replicate ((119 - len % 64) % 64) 0 ++ leBytes 8 (8 * len)

/-- The digest of a message in one piece. -/
def hash (m : List UInt8) : List UInt8 := MD5.encode (blocks.absorb iv (m ++ pad m.length)).1

example : hash [] = [0xd4, 0x1d, 0x8c, 0xd9, 0x8f, 0x00, 0xb2, 0x04, 0xe9, 0x80, 0x09, 0x98, 0xec,
    0xf8, 0x42, 0x7e] := by decide +kernel

/-- The message that the object goes on with after a digest: where the number of bits had no
room in the last block, the block that was made for it is left in the buffer. -/
def again (m : List UInt8) : List UInt8 :=
  if m.length % 64 < 56 then m
  else m.take (m.length - m.length % 64) ++
    (List.replicate 56 0 ++ leBytes 8 (8 * m.length)).take (m.length % 64)

/-- The digests of an object that has been given `m`. -/
def answers : List UInt8 → List Md5Call → List (List UInt8)
  | _, [] => []
  | m, .init input :: calls => answers (m ++ input) calls
  | m, .getDigest :: calls => hash m :: answers (again m) calls

/-- Every digest is that of all that was given. -/
def hashes : List UInt8 → List Md5Call → List (List UInt8)
  | _, [] => []
  | m, .init input :: calls => hashes (m ++ input) calls
  | m, .getDigest :: calls => hash m :: hashes m calls

end Md5

namespace MD5

open Md5

theorem length_copyTo {buf data : List UInt8} {i : Nat} (h : i + data.length ≤ buf.length) :
    (copyTo buf i data).length = buf.length := by
  simp only [copyTo, List.length_append, List.length_take, List.length_drop]
  omega

theorem take_copyTo {buf data : List UInt8} {i : Nat} (h : i ≤ buf.length) :
    (copyTo buf i data).take (i + data.length) = buf.take i ++ data := by
  have hl : (buf.take i ++ data).length = i + data.length := by
    rw [List.length_append, List.length_take]
    omega
  rw [copyTo, List.take_left' hl]

theorem take_copyTo_of_le {buf data : List UInt8} {i j : Nat} (hj : j ≤ i) (h : i ≤ buf.length) :
    (copyTo buf i data).take j = buf.take j := by
  rw [copyTo, List.append_assoc, List.take_append_of_le_length (by rw [List.length_take]; omega),
    List.take_take, Nat.min_eq_left hj]

/-- The object has been given the message `m`. -/
structure Rep (m : List UInt8) (s : MD5) : Prop where
  state : s.state = (blocks.absorb iv m).1
  count : s.count1.toNat * 2 ^ 32 + s.count0.toNat = 8 * m.length % 2 ^ 64
  buffer : s.buffer.length = 64
  rest : s.buffer.take (m.length % 64) = (blocks.absorb iv m).2

theorem rep_blank {buffer : List UInt8} (digest : List UInt8) (h : buffer.length = 64) :
    Rep [] (blank buffer digest) := ⟨rfl, by simp [blank], h, rfl⟩

variable {m p : List UInt8} {s : MD5}

theorem Rep.index_eq (hs : Rep m s) : (s.count0 >>> 3 &&& 0x3f).toNat = m.length % 64 := by
  have hcount := hs.count
  have h0 := s.count0.isLt
  have hmask : (s.count0 >>> 3 &&& 0x3f).toNat = s.count0.toNat / 8 % 64 := by
    rw [BitVec.toNat_and, BitVec.toNat_ushiftRight, Nat.shiftRight_eq_div_pow]
    exact Nat.and_two_pow_sub_one_eq_mod _ 6
  rw [hmask]
  omega

theorem add_words {c0 c1 q r : Nat} (h0 : c0 < 2 ^ 32) (hr : r < 2 ^ 32) :
    (c1 + (if (c0 + r) % 2 ^ 32 < r then 1 else 0) + q) % 2 ^ 32 * 2 ^ 32 + (c0 + r) % 2 ^ 32 =
      (c1 * 2 ^ 32 + c0 + (q * 2 ^ 32 + r)) % 2 ^ 64 := by
  split
  next h =>
    have hwrap : c0 + r = 2 ^ 32 + (c0 + r) % 2 ^ 32 := by omega
    generalize (c0 + r) % 2 ^ 32 = low at hwrap h
    omega
  next h =>
    have hsmall : (c0 + r) % 2 ^ 32 = c0 + r := Nat.mod_eq_of_lt (by omega)
    omega

theorem count_add {c0 c1 : Bit32} {n : Nat} (len : Nat) (hlen : len < 2 ^ 32)
    (h : c1.toNat * 2 ^ 32 + c0.toNat = 8 * n % 2 ^ 64) :
    ((if c0 + BitVec.ofNat 32 len <<< 3 < BitVec.ofNat 32 len <<< 3 then c1 + 1 else c1) +
        BitVec.ofNat 32 len >>> 29).toNat * 2 ^ 32 + (c0 + BitVec.ofNat 32 len <<< 3).toNat =
      8 * (n + len) % 2 ^ 64 := by
  have hlow : (BitVec.ofNat 32 len <<< 3).toNat = len * 8 % 2 ^ 32 := by
    rw [BitVec.toNat_shiftLeft, BitVec.toNat_ofNat, Nat.mod_eq_of_lt hlen, Nat.shiftLeft_eq]
  have hhigh : (BitVec.ofNat 32 len >>> 29).toNat = len / 2 ^ 29 := by
    rw [BitVec.toNat_ushiftRight, BitVec.toNat_ofNat, Nat.mod_eq_of_lt hlen,
      Nat.shiftRight_eq_div_pow]
  have hsum : (c0 + BitVec.ofNat 32 len <<< 3).toNat =
      (c0.toNat + len * 8 % 2 ^ 32) % 2 ^ 32 := by
    rw [BitVec.toNat_add, hlow]
  have hcarry :
      (if c0 + BitVec.ofNat 32 len <<< 3 < BitVec.ofNat 32 len <<< 3 then c1 + 1 else c1).toNat %
        2 ^ 32 = (c1.toNat +
          if (c0.toNat + len * 8 % 2 ^ 32) % 2 ^ 32 < len * 8 % 2 ^ 32 then 1 else 0) % 2 ^ 32 := by
    simp only [BitVec.lt_def, hsum, hlow]
    split
    · rw [BitVec.toNat_add, Nat.mod_mod]
      rfl
    · rfl
  have hbits : 8 * len = len / 2 ^ 29 * 2 ^ 32 + len * 8 % 2 ^ 32 := by omega
  rw [BitVec.toNat_add, hhigh, hsum, ← Nat.mod_add_mod, hcarry, Nat.mod_add_mod,
    add_words c0.isLt (Nat.mod_lt _ (by decide)), h, ← hbits, Nat.mod_add_mod, Nat.mul_add]

theorem transformAll_spec {input : List UInt8} (hlen : input.length + 64 ≤ 2 ^ 32) (fuel : Nat)
    (st : Md5State) {i : Bit32} (hi : i.toNat ≤ input.length)
    (hfuel : input.length - i.toNat < fuel) :
    ∃ j : Bit32, transformAll input fuel st i =
        some ((blocks.absorb st (input.drop i.toNat)).1, j) ∧
      input.drop j.toNat = (blocks.absorb st (input.drop i.toNat)).2 := by
  induction fuel generalizing st i with
  | zero => omega
  | succ fuel ih =>
    have h63 : (i + 63).toNat = i.toNat + 63 := by
      rw [BitVec.toNat_add]
      exact Nat.mod_eq_of_lt (by change i.toNat + 63 < 2 ^ 32; omega)
    simp only [transformAll, h63]
    split
    next hlt =>
      have h64 : (i + 64).toNat = i.toNat + 64 := by
        rw [BitVec.toNat_add]
        exact Nat.mod_eq_of_lt (by change i.toNat + 64 < 2 ^ 32; omega)
      have hle : blocks.blockLen ≤ (input.drop i.toNat).length := by
        rw [List.length_drop]
        change 64 ≤ _
        omega
      have hdrop : (input.drop i.toNat).drop blocks.blockLen = input.drop (i + 64).toNat := by
        rw [List.drop_drop, h64]
        rfl
      rw [BlockHash.absorb_of_le hle, hdrop]
      exact ih _ (by omega) (by omega)
    next hge =>
      have hlt : (input.drop i.toNat).length < blocks.blockLen := by
        rw [List.length_drop]
        change _ < 64
        omega
      rw [BlockHash.absorb_of_lt hlt]
      exact ⟨i, rfl, rfl⟩

/-- `init` appends to the message; the buffer keeps what is behind its last complete block. -/
theorem Rep.init (hs : Rep m s) (hlen : p.length + 64 ≤ 2 ^ 32) :
    ∃ t, s.init p = some t ∧ Rep (m ++ p) t ∧ t.finished = false ∧
      (m.length % 64 + p.length < 64 → t.buffer = copyTo s.buffer (m.length % 64) p) ∧
      (64 ≤ m.length % 64 + p.length → t.buffer =
        copyTo (copyTo s.buffer (m.length % 64) (p.take (64 - m.length % 64))) 0
          (blocks.absorb iv (m ++ p)).2) := by
  have hbuf := hs.buffer
  have hidx := Nat.mod_lt m.length (show 0 < 64 by decide)
  have hcount := count_add p.length (by omega) hs.count
  have hrestlen := blocks.length_rest iv m
  change _ = m.length % 64 at hrestlen
  have happ : blocks.absorb iv (m ++ p) =
      blocks.absorb s.state (s.buffer.take (m.length % 64) ++ p) := by
    rw [BlockHash.absorb_append, hs.state, hs.rest]
  simp only [MD5.init, hs.index_eq]
  by_cases hfull : 64 - m.length % 64 ≤ p.length
  · have htl : (p.take (64 - m.length % 64)).length = 64 - m.length % 64 := by
      rw [List.length_take]
      omega
    have hfilled : copyTo s.buffer (m.length % 64) (p.take (64 - m.length % 64)) =
        s.buffer.take (m.length % 64) ++ p.take (64 - m.length % 64) := by
      rw [copyTo, List.drop_eq_nil_of_le (by omega), List.append_nil]
    have hfl : (s.buffer.take (m.length % 64) ++ p.take (64 - m.length % 64)).length =
        blocks.blockLen := by
      rw [List.length_append, htl, List.length_take]
      change _ = 64
      omega
    have hpart : (BitVec.ofNat 32 (64 - m.length % 64)).toNat = 64 - m.length % 64 := by
      rw [BitVec.toNat_ofNat]
      omega
    obtain ⟨j, hj, hrest⟩ := transformAll_spec hlen (p.length + 1)
      (transform s.state (s.buffer.take (m.length % 64) ++ p.take (64 - m.length % 64)))
      (i := BitVec.ofNat 32 (64 - m.length % 64)) (by omega) (by omega)
    have habs : blocks.absorb iv (m ++ p) = blocks.absorb
        (transform s.state (s.buffer.take (m.length % 64) ++ p.take (64 - m.length % 64)))
        (p.drop (64 - m.length % 64)) := by
      have hsplit := BlockHash.absorb_block_append (H := blocks) (s := s.state) hfl
        (p.drop (64 - m.length % 64))
      rw [List.append_assoc, List.take_append_drop] at hsplit
      exact happ.trans hsplit
    rw [hpart, ← habs] at hj hrest
    have hlen' := blocks.length_rest iv (m ++ p)
    change _ = (m ++ p).length % 64 at hlen'
    have hless := Nat.mod_lt (m ++ p).length (show 0 < 64 by decide)
    change _ = 64 at hfl
    rw [if_pos hfull, hfilled, hj]
    refine ⟨_, rfl, ⟨rfl, ?_, ?_, ?_⟩, rfl, fun h => by omega, fun _ => ?_⟩
    · rw [List.length_append]
      exact hcount
    · rw [hrest, length_copyTo (by omega), hfl]
    · rw [hrest, ← hlen', ← Nat.zero_add (blocks.absorb iv (m ++ p)).2.length]
      exact take_copyTo (Nat.zero_le _)
    · simp only [hrest]
  · rw [if_neg hfull]
    have hlt : (s.buffer.take (m.length % 64) ++ p).length < blocks.blockLen := by
      rw [List.length_append, List.length_take]
      change _ < 64
      omega
    have hmod : (m ++ p).length % 64 = m.length % 64 + p.length := by
      rw [List.length_append]
      omega
    rw [BlockHash.absorb_of_lt hlt] at happ
    refine ⟨_, rfl, ⟨?_, ?_, ?_, ?_⟩, rfl, fun _ => rfl, fun h => by omega⟩
    · rw [happ]
    · rw [List.length_append]
      exact hcount
    · exact (length_copyTo (by omega)).trans hbuf
    · rw [happ, hmod]
      exact take_copyTo (by omega)

theorem byte_eq (w : Bit32) (k : Nat) :
    (⟨(w >>> k &&& 0xff).setWidth 8⟩ : UInt8) = UInt8.ofNat (w.toNat / 2 ^ k) := by
  apply UInt8.toNat_inj.mp
  have hmask : (w >>> k &&& 0xff).toNat = w.toNat / 2 ^ k % 2 ^ 8 := by
    rw [BitVec.toNat_and, BitVec.toNat_ushiftRight, Nat.shiftRight_eq_div_pow]
    exact Nat.and_two_pow_sub_one_eq_mod _ 8
  have hleft : (⟨(w >>> k &&& 0xff).setWidth 8⟩ : UInt8).toNat =
      ((w >>> k &&& 0xff).setWidth 8).toNat := rfl
  rw [hleft, BitVec.toNat_setWidth, hmask, Nat.mod_mod, UInt8.toNat_ofNat']

theorem encodeWord_eq (w : Bit32) : encodeWord w = leBytes 4 w.toNat := by
  have h0 := byte_eq w 0
  rw [BitVec.ushiftRight_zero, Nat.pow_zero, Nat.div_one] at h0
  simp only [encodeWord, h0, byte_eq, leBytes, Nat.div_div_eq_div_mul, Nat.reducePow,
    Nat.reduceMul]

theorem Rep.bits_eq (hs : Rep m s) :
    encodeWord s.count0 ++ encodeWord s.count1 = leBytes 8 (8 * m.length) := by
  have h0 := s.count0.isLt
  have hlow : leBytes 4 s.count0.toNat = leBytes 4 (8 * m.length) := by
    rw [← leBytes_mod 4 (8 * m.length)]
    have hcount := hs.count
    congr 1
    omega
  have hhigh : leBytes 4 s.count1.toNat = leBytes 4 (8 * m.length / 256 ^ 4) := by
    rw [← leBytes_mod 4 (8 * m.length / 256 ^ 4)]
    have hcount := hs.count
    congr 1
    omega
  rw [encodeWord_eq, encodeWord_eq, hlow, hhigh, leBytes_add 4 4]

theorem take_padding {k : Nat} (hk : k < 64) :
    padding.take (k + 1) = 0x80 :: List.replicate k 0 := by
  rw [padding, List.take_succ_cons, List.take_replicate, Nat.min_eq_left (by omega)]

theorem pad_eq (n : Nat) :
    padding.take (if n % 64 < 56 then 56 - n % 64 else 120 - n % 64) ++ leBytes 8 (8 * n) =
      pad n := by
  have hmod := Nat.mod_lt n (show 0 < 64 by decide)
  rw [pad, ← take_padding (by omega)]
  congr 2
  split <;> omega

theorem length_pad (n : Nat) : (n + (pad n).length) % 64 = 0 := by
  simp only [pad, List.length_append, List.length_cons, List.length_replicate, length_leBytes]
  omega

theorem length_again (m : List UInt8) : (again m).length = m.length := by
  rw [again]
  split
  · rfl
  · have hle := Nat.mod_le m.length 64
    have hmod := Nat.mod_lt m.length (show 0 < 64 by decide)
    rw [List.length_append, List.length_take, List.length_take, List.length_append,
      List.length_replicate, length_leBytes]
    omega

theorem copyTo_nil {buf : List UInt8} : copyTo buf 0 [] = buf := by
  rw [copyTo, List.take_zero, List.length_nil, List.drop_zero, List.nil_append, List.nil_append]

theorem again_of_lt (h : m.length % 64 < 56) : again m = m := if_pos h

theorem absorb_again (h : 56 ≤ m.length % 64) : blocks.absorb iv (again m) =
    ((blocks.absorb iv m).1,
      (List.replicate 56 0 ++ leBytes 8 (8 * m.length)).take (m.length % 64)) := by
  have htail : ((List.replicate 56 0 ++ leBytes 8 (8 * m.length)).take
      (m.length % 64)).length < blocks.blockLen := by
    rw [List.length_take]
    exact Nat.lt_of_le_of_lt (Nat.min_le_left _ _) (Nat.mod_lt _ (by decide))
  rw [again, if_neg (Nat.not_lt_of_le h)]
  exact BlockHash.absorb_front htail

theorem rest_of_ge (h : 56 ≤ m.length % 64) :
    (blocks.absorb iv (m ++ padding.take (120 - m.length % 64))).2 = List.replicate 56 0 := by
  have hmod := Nat.mod_lt m.length (show 0 < 64 by decide)
  obtain ⟨k, hk⟩ : ∃ k, 64 - m.length % 64 = k + 1 := ⟨63 - m.length % 64, by omega⟩
  have hsplit : padding.take (120 - m.length % 64) =
      padding.take (k + 1) ++ List.replicate 56 0 := by
    rw [show 120 - m.length % 64 = k + 56 + 1 by omega, take_padding (by omega),
      take_padding (by omega), List.cons_append, List.replicate_append_replicate]
  have hblocks : (m ++ padding.take (k + 1)).length % blocks.blockLen = 0 := by
    rw [List.length_append, take_padding (by omega), List.length_cons, List.length_replicate]
    change _ % 64 = 0
    omega
  rw [hsplit, ← List.append_assoc, BlockHash.absorb_blocks_append hblocks _,
    BlockHash.absorb_of_lt (by rw [List.length_replicate]; decide)]

theorem Rep.finish (hs : Rep m s) :
    ∃ padded closed,
      s.init (padding.take (if m.length % 64 < 56 then 56 - m.length % 64
        else 120 - m.length % 64)) = some padded ∧
      padded.init (leBytes 8 (8 * m.length)) = some closed ∧
      closed.state = (blocks.absorb iv (m ++ pad m.length)).1 ∧ closed.finished = false ∧
      closed.buffer.length = 64 ∧
      closed.buffer.take (m.length % 64) = (blocks.absorb iv (again m)).2 := by
  have hmod := Nat.mod_lt m.length (show 0 < 64 by decide)
  have hbuf := hs.buffer
  set padLen := if m.length % 64 < 56 then 56 - m.length % 64 else 120 - m.length % 64 with hpadLen
  have hpos : padLen ≤ 64 ∧ 0 < padLen ∧ (m.length % 64 + padLen) % 64 = 56 := by
    rw [hpadLen]
    split <;> omega
  have hpl : (padding.take padLen).length = padLen := by
    rw [List.length_take, padding, List.length_cons, List.length_replicate]
    omega
  obtain ⟨padded, hpadded, hrp, -, hshort, hlong⟩ := hs.init (p := padding.take padLen) (by omega)
  have hlen56 : (m ++ padding.take padLen).length % 64 = 56 := by
    rw [List.length_append, hpl]
    omega
  have hb8 := length_leBytes 8 (8 * m.length)
  obtain ⟨closed, hclosed, hrc, hfin, -, hlast⟩ :=
    hrp.init (p := leBytes 8 (8 * m.length)) (by omega)
  have hall : m ++ padding.take padLen ++ leBytes 8 (8 * m.length) = m ++ pad m.length := by
    rw [List.append_assoc, hpadLen, pad_eq]
  rw [hall] at hrc hlast
  have hnil : (blocks.absorb iv (m ++ pad m.length)).2 = [] := by
    apply List.eq_nil_of_length_eq_zero
    rw [BlockHash.length_rest, List.length_append]
    exact length_pad m.length
  have hclosedbuf : closed.buffer = copyTo padded.buffer 56 (leBytes 8 (8 * m.length)) := by
    rw [hlast (by omega), hnil, copyTo_nil, hlen56, List.take_of_length_le (by omega)]
  refine ⟨padded, closed, hpadded, hclosed, hrc.state, hfin, hrc.buffer, ?_⟩
  have hpb := hrp.buffer
  by_cases h56 : m.length % 64 < 56
  · have hle : m.length % 64 + padLen < 64 := by
      rw [hpadLen, if_pos h56]
      omega
    rw [again_of_lt h56, hclosedbuf, take_copyTo_of_le (by omega) (by omega),
      hshort (by omega), take_copyTo_of_le (Nat.le_refl _) (by omega), hs.rest]
  · have hpad : padLen = 120 - m.length % 64 := if_neg h56
    have hrest := hrp.rest
    rw [hlen56, hpad, rest_of_ge (by omega)] at hrest
    rw [absorb_again (by omega), hclosedbuf, copyTo, hrest, List.drop_eq_nil_of_le (by omega),
      List.append_nil]

theorem Rep.getDigest (hs : Rep m s) (hfin : s.finished = false) :
    ∃ t, s.getDigest = some (Md5.hash m, t) ∧ Rep (again m) t ∧ t.finished = false := by
  have hstart : Rep m { s with finished := true } := ⟨hs.state, hs.count, hs.buffer, hs.rest⟩
  obtain ⟨padded, closed, hpadded, hclosed, hstate, hcfin, hbuf, hrest⟩ := hstart.finish
  have hlen := length_again m
  have hfront : (blocks.absorb iv (again m)).1 = (blocks.absorb iv m).1 := by
    by_cases h : m.length % 64 < 56
    · rw [again_of_lt h]
    · rw [absorb_again (Nat.le_of_not_lt h)]
  simp only [MD5.getDigest, hfin, hs.index_eq, hs.bits_eq]
  rw [hpadded]
  simp only [Option.bind_eq_bind, Option.bind_some, hclosed, hstate]
  refine ⟨_, rfl, ⟨?_, ?_, hbuf, ?_⟩, hcfin⟩
  · exact hs.state.trans hfront.symm
  · rw [hlen]
    exact hs.count
  · rw [hlen]
    exact hrest

/-- The lengths that the counters of `init` take in. -/
def Fits (calls : List Md5Call) : Prop :=
  ∀ input, .init input ∈ calls → input.length + 64 ≤ 2 ^ 32

theorem Rep.run {calls : List Md5Call} (hs : Rep m s) (hfin : s.finished = false)
    (hfits : Fits calls) : ∃ t, s.run calls = some (answers m calls, t) := by
  induction calls generalizing m s with
  | nil => exact ⟨s, rfl⟩
  | cons call calls ih =>
    have hrest : Fits calls := fun input h => hfits input (List.mem_cons_of_mem _ h)
    cases call with
    | init input =>
      obtain ⟨t, ht, hrep, htfin, -⟩ := hs.init (hfits input List.mem_cons_self)
      obtain ⟨u, hu⟩ := ih hrep htfin hrest
      refine ⟨u, ?_⟩
      simp only [MD5.run, ht, Option.bind_eq_bind, Option.bind_some, hu, answers]
    | getDigest =>
      obtain ⟨t, ht, hrep, htfin⟩ := hs.getDigest hfin
      obtain ⟨u, hu⟩ := ih hrep htfin hrest
      refine ⟨u, ?_⟩
      simp only [MD5.run, ht, Option.bind_eq_bind, Option.bind_some, hu, answers]
      rfl

/-- Whatever the arrays held, the digests of any calls in a row are those of `answers`. -/
theorem calls_answers (buffer digest message : List UInt8) (calls : List Md5Call)
    (hbuf : buffer.length = 64) (hfits : Fits (.init message :: calls)) :
    ∃ t, (blank buffer digest).run (.init message :: calls) =
      some (answers message calls, t) := by
  obtain ⟨t, ht⟩ := (rep_blank digest hbuf).run rfl hfits
  exact ⟨t, ht⟩

theorem fits_of_length {calls : List Md5Call} {k : Nat} (hk : k + 64 ≤ 2 ^ 32)
    (h : calls.all fun | .init input => input.length ≤ k | .getDigest => true) : Fits calls := by
  intro input hmem
  have hle := List.all_eq_true.mp h _ hmem
  have := of_decide_eq_true hle
  omega

/- The second digest of 56 bytes is that of another message. -/
theorem calls_answers_twice :
    (∃ t, (blank (List.replicate 64 7) []).run
      [.init (List.replicate 56 97), .getDigest, .getDigest] =
        some ([Md5.hash (List.replicate 56 97), Md5.hash (again (List.replicate 56 97))], t)) ∧
      again (List.replicate 56 97) = List.replicate 56 0 :=
  ⟨calls_answers (List.replicate 64 7) [] (List.replicate 56 97) [.getDigest, .getDigest] rfl
    (fits_of_length (k := 56) (by decide) (by decide)), by decide⟩

/-- At every digest but the last the number of bits had room in the last block. -/
def Roomy : Nat → List Md5Call → Prop
  | _, [] => True
  | n, .init input :: calls => Roomy (n + input.length) calls
  | n, .getDigest :: calls => (n % 64 < 56 ∨ .getDigest ∉ calls) ∧ Roomy n calls

theorem answers_of_notMem {calls : List Md5Call} (h : .getDigest ∉ calls) :
    answers m calls = [] ∧ hashes m calls = [] := by
  induction calls generalizing m with
  | nil => exact ⟨rfl, rfl⟩
  | cons call calls ih =>
    cases call with
    | init input => exact ih fun hmem => h (List.mem_cons_of_mem _ hmem)
    | getDigest => exact absurd List.mem_cons_self h

theorem answers_of_roomy {calls : List Md5Call} (h : Roomy m.length calls) :
    answers m calls = hashes m calls := by
  induction calls generalizing m with
  | nil => rfl
  | cons call calls ih =>
    cases call with
    | init input =>
      apply ih
      rw [List.length_append]
      exact h
    | getDigest =>
      rw [answers, hashes]
      obtain hroom | hlast := h.1
      · rw [again_of_lt hroom, ih h.2]
      · rw [(answers_of_notMem hlast).1, (answers_of_notMem hlast).2]

/-- Where there is room, every digest is the hash of all that has been given, however it was cut
into pieces. -/
theorem calls_hashes (buffer digest message : List UInt8) (calls : List Md5Call)
    (hbuf : buffer.length = 64) (hfits : Fits (.init message :: calls))
    (hroom : Roomy message.length calls) :
    ∃ t, (blank buffer digest).run (.init message :: calls) = some (hashes message calls, t) := by
  obtain ⟨t, ht⟩ := (rep_blank digest hbuf).run rfl hfits
  exact ⟨t, ht.trans (by rw [answers, List.nil_append, answers_of_roomy hroom])⟩

theorem calls_hashes_pieces :
    ∃ t, (blank (List.replicate 64 7) []).run
      [.init [97], .getDigest, .init (List.replicate 60 98), .getDigest] =
        some ([Md5.hash [97], Md5.hash (97 :: List.replicate 60 98)], t) :=
  calls_hashes (List.replicate 64 7) [] [97]
    [.getDigest, .init (List.replicate 60 98), .getDigest] rfl
    (fits_of_length (k := 60) (by decide) (by decide))
    ⟨.inl (by decide), .inr (by decide), trivial⟩

end MD5

end TstMuduo.ConnHash
