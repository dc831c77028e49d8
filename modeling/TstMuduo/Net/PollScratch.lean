import Mathlib.Data.Nat.Log
import TstMuduo.Net.Poller

/-!
# The scratch text of `EPollPoller::poll` (muduo/net/poller/EPollPoller.cc)

Before it waits, `poll` writes the descriptor of every channel into an array of 4098 characters,
and never asks whether the text still fits.
-/

namespace TstMuduo.Net
open TstMuduo.Lib

variable {C : Type}

/-- What the loop over `channels_` meets: every entry of the map, in the order of the
descriptors. -/
structure EPollPoller.Entries (p : EPollPoller C) where
  list : List (Int × C)
  sorted : list.Pairwise fun a b => a.1 < b.1
  mem_iff : ∀ fd c, (fd, c) ∈ list ↔ p.channels fd = some c

/-! ### The loop -/

/- The array `tmpbuffer`, and `pPtr` as an offset in it. -/
structure Scratch where
  tmpbuffer : List Char
  pPtr : Nat

/- What `sprintf` prints for `"channelfd=%d "`. -/
def channelText (fd : Int) : List Char :=
  ['c', 'h', 'a', 'n', 'n', 'e', 'l', 'f', 'd', '='] ++
    (if fd < 0 then ['-'] else []) ++ Nat.toDigits 10 fd.natAbs ++ [' ']

/- `sprintf(pPtr, ...)`: the text and a NUL. No result: it writes past the end of the array. -/
def sprintf (s : Scratch) (text : List Char) : Option (List Char) :=
  if s.pPtr + text.length + 1 ≤ s.tmpbuffer.length then
    some (s.tmpbuffer.take s.pPtr ++ text ++ '\x00' :: s.tmpbuffer.drop (s.pPtr + text.length + 1))
  else
    none

/- `strlen(pPtr)`: no result when no NUL comes before the end of the array. -/
def strlen (tmpbuffer : List Char) (pPtr : Nat) : Option Nat :=
  (tmpbuffer.drop pPtr).findIdx? (· = '\x00')

/- The loop at the start of `EPollPoller::poll` (`EPollPoller.cc:65`). -/
def writeChannels : List (Int × C) → Scratch → Option Scratch
  | [], s => some s
  | itKv :: rest, s => do
    let tmpbuffer ← sprintf s (channelText itKv.1)
    let n ← strlen tmpbuffer s.pPtr
    writeChannels rest ⟨tmpbuffer, s.pPtr + n⟩

/- The start of `EPollPoller::poll`, with whatever `tmpbuffer` held before. -/
def EPollPoller.pollScratch {p : EPollPoller C} (channels : p.Entries)
    (tmpbuffer : Vector Char 4098) : Option Scratch :=
  writeChannels channels.list ⟨tmpbuffer.toList, 0⟩

/-! ### One entry -/

theorem nul_not_mem_channelText (fd : Int) : '\x00' ∉ channelText fd := by
  have hdigits : '\x00' ∉ Nat.toDigits 10 fd.natAbs := by
    intro h
    exact absurd (Nat.isDigit_of_mem_toDigits (by decide) (by decide) h) (by decide)
  rw [channelText]
  split_ifs <;> simp [hdigits]

theorem strlen_sprintf {s : Scratch} {text tmpbuffer : List Char} (h0 : '\x00' ∉ text)
    (h : sprintf s text = some tmpbuffer) : strlen tmpbuffer s.pPtr = some text.length := by
  unfold sprintf at h
  split_ifs at h with hfit
  obtain rfl := Option.some.inj h
  have hlen : (s.tmpbuffer.take s.pPtr).length = s.pPtr := by
    rw [List.length_take]
    omega
  rw [strlen, List.append_assoc, List.drop_left' hlen]
  rw [List.findIdx?_append]
  have hnone : List.findIdx? (· = '\x00') text = none := by
    rw [List.findIdx?_eq_none_iff]
    intro c hc
    exact decide_eq_false fun (e : c = '\x00') => h0 (e ▸ hc)
  simp [hnone, List.findIdx?_cons]

theorem length_sprintf {s : Scratch} {text tmpbuffer : List Char}
    (h : sprintf s text = some tmpbuffer) : tmpbuffer.length = s.tmpbuffer.length := by
  unfold sprintf at h
  split_ifs at h with hfit
  obtain rfl := Option.some.inj h
  simp only [List.length_append, List.length_take, List.length_cons, List.length_drop]
  omega

theorem sprintf_isSome {s : Scratch} {text : List Char} :
    (∃ tmpbuffer, sprintf s text = some tmpbuffer) ↔
      s.pPtr + text.length + 1 ≤ s.tmpbuffer.length := by
  unfold sprintf
  split_ifs with h
  · exact ⟨fun _ => h, fun _ => ⟨_, rfl⟩⟩
  · exact ⟨fun ⟨_, he⟩ => absurd he (by simp), fun hle => absurd hle h⟩

/-! ### All of them -/

/-- The text of the entries. -/
def channelsText (l : List (Int × C)) : List Char := l.flatMap fun itKv => channelText itKv.1

theorem writeChannels_isSome (l : List (Int × C)) (s : Scratch)
    (hs : s.pPtr + 1 ≤ s.tmpbuffer.length) :
    (∃ t, writeChannels l s = some t) ↔
      s.pPtr + (channelsText l).length + 1 ≤ s.tmpbuffer.length := by
  induction l generalizing s with
  | nil => exact ⟨fun _ => hs, fun _ => ⟨s, rfl⟩⟩
  | cons itKv rest ih =>
    have htext : (channelsText (itKv :: rest)).length =
        (channelText itKv.1).length + (channelsText rest).length := by
      rw [channelsText, List.flatMap_cons, List.length_append]
      rfl
    rw [writeChannels, htext]
    cases hw : sprintf s (channelText itKv.1) with
    | none =>
      have hno : ¬ s.pPtr + (channelText itKv.1).length + 1 ≤ s.tmpbuffer.length := by
        rw [← sprintf_isSome, hw]
        simp
      simp only [Option.bind_eq_bind, Option.bind_none]
      exact ⟨fun ⟨_, he⟩ => absurd he (by simp), fun hle => absurd (by omega) hno⟩
    | some tmpbuffer =>
      have hfit := sprintf_isSome.mp ⟨tmpbuffer, hw⟩
      have hlen := length_sprintf hw
      simp only [Option.bind_eq_bind, Option.bind_some,
        strlen_sprintf (nul_not_mem_channelText itKv.1) hw]
      rw [ih ⟨tmpbuffer, s.pPtr + (channelText itKv.1).length⟩ (by rw [hlen]; omega)]
      show s.pPtr + (channelText itKv.1).length + (channelsText rest).length + 1 ≤
        tmpbuffer.length ↔ _
      rw [hlen, Nat.add_assoc s.pPtr]

theorem length_channelText {fd : Int} (h : 0 ≤ fd) :
    (channelText fd).length = 12 + Nat.log 10 fd.toNat := by
  have hdigits : (Nat.toDigits 10 fd.natAbs).length = Nat.log 10 fd.toNat + 1 := by
    have habs : fd.natAbs = fd.toNat := by omega
    rw [habs]
    apply Nat.le_antisymm
    · rw [Nat.length_toDigits_le_iff (by decide) (Nat.succ_pos _)]
      exact Nat.lt_pow_succ_log_self (by decide) _
    · have hpos : 0 < (Nat.toDigits 10 fd.toNat).length := Nat.length_toDigits_pos
      have hlt := (Nat.length_toDigits_le_iff (by decide) hpos).mp (le_refl _)
      exact Nat.log_lt_of_lt_pow' hpos.ne' hlt
  rw [channelText, if_neg (by omega), List.append_nil, List.length_append, List.length_append,
    hdigits]
  simp only [List.length_cons, List.length_nil]
  omega

theorem length_channelsText {l : List (Int × C)} (h : ∀ e ∈ l, 0 ≤ e.1) :
    (channelsText l).length = (l.map fun e => 12 + Nat.log 10 e.1.toNat).sum := by
  rw [channelsText, List.length_flatMap]
  congr 1
  exact List.map_congr_left fun e he => length_channelText (h e he)

/-- The text of the descriptors stays in the array exactly as long as it comes, at 12 characters
for a channel and one more for each further digit of its descriptor, to 4097. -/
theorem EPollPoller.pollScratch_iff {p : EPollPoller C} (channels : p.Entries)
    (tmpbuffer : Vector Char 4098) (hfd : ∀ e ∈ channels.list, 0 ≤ e.1) :
    ((channelsText channels.list).length + 1 ≤ 4098 ↔
        (channels.list.map fun e => 12 + Nat.log 10 e.1.toNat).sum ≤ 4097) ∧
      ((∃ s, EPollPoller.pollScratch channels tmpbuffer = some s) ↔
        (channels.list.map fun e => 12 + Nat.log 10 e.1.toNat).sum ≤ 4097) := by
  have hlen : tmpbuffer.toList.length = 4098 := by simp
  have hwrite : (∃ t, writeChannels channels.list ⟨tmpbuffer.toList, 0⟩ = some t) ↔
      0 + (channelsText channels.list).length + 1 ≤ tmpbuffer.toList.length :=
    writeChannels_isSome channels.list ⟨tmpbuffer.toList, 0⟩ (by simp)
  rw [hlen, length_channelsText hfd] at hwrite
  rw [length_channelsText hfd]
  refine ⟨by omega, ?_⟩
  rw [EPollPoller.pollScratch, hwrite]
  omega

/-! ### A busy loop -/

/-- The poller with the channels of the `n` descriptors from 3 on, each its own channel. -/
def busy (n : Nat) : EPollPoller Nat where
  channels fd := if 3 ≤ fd ∧ fd < 3 + (n : Int) then some fd.toNat else none
  index c := if 3 ≤ c ∧ c < 3 + n then .kAdded else .kNew
  kernel fd := if 3 ≤ fd ∧ fd < 3 + (n : Int) then some kReadEvent else none

/-- The calls of `updateChannel` that lead there. -/
def enableAll (n : Nat) : Except Assertion (EPollPoller Nat) :=
  (List.range n).foldlM (fun p i => p.updateChannel (3 + i) ((3 + i : Nat) : Int) kReadEvent) .new

theorem busy_updateChannel (n : Nat) :
    (busy n).updateChannel (3 + n) ((3 + n : Nat) : Int) kReadEvent = .ok (busy (n + 1)) := by
  have hi : (busy n).index (3 + n) = .kNew := if_neg (by omega)
  have hc : (busy n).channels ((3 + n : Nat) : Int) = none := if_neg (by omega)
  have hk : (busy n).kernel ((3 + n : Nat) : Int) = none := if_neg (by omega)
  simp only [EPollPoller.updateChannel, hi, check_ok hc, ok_bind, EPollPoller.update,
    EPollPoller.setIndex, EPollPoller.setChannel, hk, Option.isSome_none, Bool.false_eq_true,
    if_false]
  congr 1
  simp only [busy, EPollPoller.mk.injEq]
  refine ⟨?_, ?_, ?_⟩
  · funext fd
    simp only [Function.update_apply]
    split_ifs <;> first | rfl | omega | (congr 1; omega)
  · funext c
    simp only [Function.update_apply]
    split_ifs <;> first | rfl | omega
  · funext fd
    simp only [Function.update_apply]
    split_ifs <;> first | rfl | omega

theorem enableAll_eq (n : Nat) : enableAll n = .ok (busy n) := by
  induction n with
  | zero =>
    show Except.ok EPollPoller.new = _
    congr 1
    simp only [busy, EPollPoller.new, EPollPoller.mk.injEq]
    refine ⟨?_, ?_, ?_⟩
    all_goals
      funext x
      exact (if_neg (by omega)).symm
  | succ n ih =>
    rw [enableAll, List.range_succ, List.foldlM_append]
    rw [enableAll] at ih
    rw [ih]
    show ((busy n).updateChannel (3 + n) ((3 + n : Nat) : Int) kReadEvent >>= pure) = _
    rw [busy_updateChannel]
    rfl

def busyEntries (n : Nat) : (busy n).Entries where
  list := (List.range n).map fun i => (((3 + i : Nat) : Int), 3 + i)
  sorted := by
    rw [List.pairwise_map]
    apply List.pairwise_lt_range.imp
    intro a b h
    show ((3 + a : Nat) : Int) < ((3 + b : Nat) : Int)
    omega
  mem_iff fd c := by
    simp only [List.mem_map, List.mem_range, Prod.mk.injEq, busy]
    constructor
    · rintro ⟨i, hi, rfl, rfl⟩
      rw [if_pos (by omega)]
      congr 1
    · intro h
      split_ifs at h with hfd
      obtain rfl := Option.some.inj h
      exact ⟨fd.toNat - 3, by omega, by omega, by omega⟩

theorem pollScratch_iff_busy :
    ((channelsText (busyEntries 2).list).length + 1 ≤ 4098 ↔
        ((busyEntries 2).list.map fun e => 12 + Nat.log 10 e.1.toNat).sum ≤ 4097) ∧
      ((∃ s, EPollPoller.pollScratch (busyEntries 2) (Vector.replicate 4098 'x') = some s) ↔
        ((busyEntries 2).list.map fun e => 12 + Nat.log 10 e.1.toNat).sum ≤ 4097) :=
  EPollPoller.pollScratch_iff (busyEntries 2) (Vector.replicate 4098 'x') (by decide)

/- With the 301 descriptors from 3 on, the text does not fit. -/
theorem pollScratch_overrun : ∃ p, enableAll 301 = .ok p ∧ ∃ channels : p.Entries,
    (∀ e ∈ channels.list, 0 ≤ e.1) ∧ 4098 < (channelsText channels.list).length + 1 ∧
      ∀ tmpbuffer, EPollPoller.pollScratch channels tmpbuffer = none := by
  have hlong : 4098 < (channelsText (busyEntries 301).list).length + 1 := by decide +kernel
  have hfd : ∀ e ∈ (busyEntries 301).list, 0 ≤ e.1 := by decide +kernel
  refine ⟨busy 301, enableAll_eq 301, busyEntries 301, hfd, hlong, fun tmpbuffer => ?_⟩
  by_contra hs
  obtain ⟨s, hs⟩ := Option.ne_none_iff_exists'.mp hs
  have hfit := (writeChannels_isSome (busyEntries 301).list ⟨tmpbuffer.toList, 0⟩
    (by simp)).mp ⟨s, hs⟩
  have hlen : tmpbuffer.toList.length = 4098 := by simp
  rw [hlen] at hfit
  omega

end TstMuduo.Net
