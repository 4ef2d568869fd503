import Mathlib.Algebra.BigOperators.Intervals
import SfcCapio.Foundation.OnesComplement

/-!
# The two variants of `in_cksumdata`

`in_cksumdata` adds the 32-bit words of a buffer.  At an unaligned start, and for the 1 to
3 bytes after the last whole word, the original reads the aligned word around the bytes and
masks it; compiled for pure-capability mode it copies the bytes themselves into a zeroed
word, since the capability does not cover the rest.

`inCksumdata pureCap` is the function for either compilation, on a little-endian machine,
with the loads it performs.  Both variants return the sum of the aligned words of `padded`,
the memory that is zero outside of the buffer (`inCksumdata_eq`).
-/

namespace SfcCapio
namespace Fstack

open Foundation

abbrev Memory := Nat → BitVec 8

/-- The bytes of a load: address and size. -/
abbrev Load := Nat × Nat

/-- The 32-bit word at `a`. -/
def word (mem : Memory) (a : Nat) : BitVec 32 :=
  mem (a + 3) ++ mem (a + 2) ++ mem (a + 1) ++ mem a

/-- `lw[i]`, promoted. -/
def lane (mem : Memory) (lw i : Nat) : BitVec 64 := (word mem (lw + 4 * i)).setWidth 64

def laneLoad (lw i : Nat) : Load := (lw + 4 * i, 4)

/-- `first + lw[i] + lw[j] + ..`, from the left. -/
def lanes (mem : Memory) (lw : Nat) (first : BitVec 64) (is : List Nat) : BitVec 64 :=
  is.foldl (fun acc i => acc + lane mem lw i) first

/-- `memcpy` of `n` bytes from `src` to byte `off` of a zeroed word. -/
def placed (mem : Memory) (src off n : Nat) : BitVec 32 :=
  word (fun j => if off ≤ j ∧ j < off + n then mem (src + (j - off)) else 0#8) 0

/-- `in_masks`. -/
def inMasks : List (BitVec 32) :=
  [0x00000000#32, 0x000000FF#32, 0x0000FFFF#32, 0x00FFFFFF#32,
    0x00000000#32, 0x0000FF00#32, 0x00FFFF00#32, 0xFFFFFF00#32,
    0x00000000#32, 0x00FF0000#32, 0xFFFF0000#32, 0xFFFF0000#32,
    0x00000000#32, 0xFF000000#32, 0xFF000000#32, 0xFF000000#32]

/-- `REDUCE32`. -/
def reduce32 (sum : BitVec 64) : BitVec 64 :=
  (sum.extractLsb' 0 16).setWidth 64 + (sum.extractLsb' 16 16).setWidth 64 +
    (sum.extractLsb' 32 16).setWidth 64 + (sum.extractLsb' 48 16).setWidth 64

/-- The variables of the function and the loads so far. -/
structure Cksum where
  lw : Nat
  len : Int
  sum : BitVec 64
  loads : List Load

/-- The state at the start. -/
def Cksum.start (buf len : Nat) : Cksum := { lw := buf, len := len, sum := 0#64, loads := [] }

/-- The unaligned start, with `offset = 3 & (long) lw`. -/
def head (pureCap : Bool) (mem : Memory) (offset : Nat) (c : Cksum) : Cksum :=
  if pureCap then
    let nhead := if c.len < 4 - (offset : Int) then c.len.toNat else 4 - offset
    { lw := c.lw + nhead
      len := c.len - (4 - offset)
      sum := (placed mem c.lw offset nhead).setWidth 64
      loads := c.loads ++ [(c.lw, nhead)] }
  else
    let mask := inMasks.getD (4 * offset + if 3 ≤ c.len then 3 else c.len.toNat) 0#32
    { lw := c.lw - offset + 4
      len := c.len - (4 - offset)
      sum := (word mem (c.lw - offset) &&& mask).setWidth 64
      loads := c.loads ++ [(c.lw - offset, 4)] }

/-- `sum += first + lw[i] + ..` over the words behind `first`, and `lw` past them. -/
def Cksum.add (mem : Memory) (first : BitVec 64) (is : List Nat) (c : Cksum) : Cksum :=
  { c with
    lw := c.lw + 4 * (is.length + 1)
    sum := c.sum + lanes mem c.lw first is
    loads := c.loads ++ is.map (laneLoad c.lw) }

/-- A load whose value is kept elsewhere. -/
def Cksum.load (i : Nat) (c : Cksum) : Cksum :=
  { c with loads := c.loads ++ [laneLoad c.lw i] }

/-- `len += k`. -/
def Cksum.lenAdd (k : Int) (c : Cksum) : Cksum := { c with len := c.len + k }

/-- `while ((len -= 32) >= 4)`, with `prefilled`; the word after the eight is loaded
first. -/
def loop32 (mem : Memory) : Nat → BitVec 64 → Cksum → BitVec 64 × Cksum
  | 0, prefilled, c => (prefilled, c)
  | fuel + 1, prefilled, c =>
    let c := c.lenAdd (-32)
    if 4 ≤ c.len then
      let prefilling := lane mem c.lw 8
      loop32 mem fuel prefilling ((c.load 8).add mem prefilled [1, 2, 3, 4, 5, 6, 7])
    else (prefilled, c)

/-- The last 32 bytes, or `len` put right. -/
def rest32 (mem : Memory) (prefilled : BitVec 64) (c : Cksum) : Cksum :=
  if 0 ≤ c.len then c.add mem prefilled [1, 2, 3, 4, 5, 6, 7] else c.lenAdd 32

/-- `while ((len -= 16) >= 0)` and `len += 16`. -/
def loop16 (mem : Memory) : Nat → Cksum → Cksum
  | 0, c => c
  | fuel + 1, c =>
    let c := c.lenAdd (-16)
    if 0 ≤ c.len then loop16 mem fuel ((c.load 0).add mem (lane mem c.lw 0) [1, 2, 3])
    else c.lenAdd 16

/-- `while ((len -= 4) >= 0)` and `len += 4`. -/
def loop4 (mem : Memory) : Nat → Cksum → Cksum
  | 0, c => c
  | fuel + 1, c =>
    let c := c.lenAdd (-4)
    if 0 ≤ c.len then loop4 mem fuel ((c.load 0).add mem (lane mem c.lw 0) [])
    else c.lenAdd 4

/-- The last 1 to 3 bytes. -/
def tail (pureCap : Bool) (mem : Memory) (c : Cksum) : Cksum :=
  if 0 < c.len then
    if pureCap then
      { c with
        sum := c.sum + (placed mem c.lw 0 c.len.toNat).setWidth 64
        loads := c.loads ++ [(c.lw, c.len.toNat)] }
    else
      { c with
        sum := c.sum + (inMasks.getD c.len.toNat 0#32 &&& word mem c.lw).setWidth 64
        loads := c.loads ++ [(c.lw, 4)] }
  else c

/-- From the first aligned word on.  A loop of the source makes fewer rounds than there are
bytes left. -/
def body (pureCap : Bool) (mem : Memory) (c : Cksum) : Cksum :=
  let prefilled := lane mem c.lw 0
  let c := c.load 0
  let out := loop32 mem (c.len.toNat + 1) prefilled c
  let c := rest32 mem out.1 out.2
  let c := loop16 mem (c.len.toNat + 1) c
  let c := loop4 mem (c.len.toNat + 1) c
  tail pureCap mem c

/-- `in_cksumdata`: what it returns, and its loads in order. -/
def inCksumdata (pureCap : Bool) (mem : Memory) (buf len : Nat) : BitVec 64 × List Load :=
  if buf % 4 = 0 ∧ len = 20 then
    (reduce32 (lanes mem buf (lane mem buf 0) [1, 2, 3, 4]),
      [0, 1, 2, 3, 4].map (laneLoad buf))
  else
    let offset := buf % 4
    let c := Cksum.start buf len
    let c := if offset ≠ 0 then head pureCap mem offset c else c
    if offset ≠ 0 ∧ c.len ≤ 0 then (reduce32 c.sum, c.loads)
    else
      let c := body pureCap mem c
      (reduce32 c.sum, c.loads)

/-! ## Words -/

theorem word_congr {mem mem' : Memory} {a a' : Nat}
    (h : ∀ j, j < 4 → mem (a + j) = mem' (a' + j)) : word mem a = word mem' a' := by
  have h₀ : mem a = mem' a' := h 0 (by decide)
  rw [word, word, h₀, h 1 (by decide), h 2 (by decide), h 3 (by decide)]

theorem append_and_append {m n : Nat} (a c : BitVec m) (b d : BitVec n) :
    (a ++ b) &&& (c ++ d) = (a &&& c) ++ (b &&& d) := by
  ext i hi
  simp only [BitVec.getElem_and, BitVec.getElem_append]
  split <;> rfl

theorem word_and (mem mask : Memory) (a : Nat) :
    word mem a &&& word mask 0 = word (fun j => mem (a + j) &&& mask j) 0 := by
  have hupper := append_and_append (mem (a + 3)) (mask 3) (mem (a + 2)) (mask 2)
  have hthree := append_and_append (mem (a + 3) ++ mem (a + 2)) (mask 3 ++ mask 2)
    (mem (a + 1)) (mask 1)
  have hbytes := append_and_append (mem (a + 3) ++ mem (a + 2) ++ mem (a + 1))
    (mask 3 ++ mask 2 ++ mask 1) (mem a) (mask 0)
  rw [hthree, hupper] at hbytes
  exact hbytes

/-- The masks select the bytes from `offset` on, at most `k` of them. -/
theorem inMasks_eq : ∀ offset < 4, ∀ k < 4,
    inMasks.getD (4 * offset + k) 0#32 =
      word (fun j => if offset ≤ j ∧ j < offset + k then 0xff#8 else 0#8) 0 := by
  decide

theorem masked_byte (b : BitVec 8) (p : Prop) [Decidable p] :
    (b &&& if p then 0xff#8 else 0#8) = if p then b else 0#8 := by
  by_cases hp : p
  · simp only [hp, if_true]
    exact BitVec.and_allOnes
  · simp only [hp, if_false]
    exact BitVec.and_zero

variable {offset k buf len a : Nat}

/-- The masked word keeps the selected bytes. -/
theorem word_and_inMasks (mem : Memory) (a : Nat) (hoffset : offset < 4) (hk : k < 4) :
    word mem a &&& inMasks.getD (4 * offset + k) 0#32 =
      word (fun j => if offset ≤ j ∧ j < offset + k then mem (a + j) else 0#8) 0 := by
  rw [inMasks_eq offset hoffset k hk, word_and]
  simp only [masked_byte]

/-! ## The padded words -/

/-- The buffer, zero elsewhere. -/
def padded (mem : Memory) (buf len : Nat) : Memory := fun a =>
  if buf ≤ a ∧ a < buf + len then mem a else 0#8

/-- The `k`th aligned word around the buffer. -/
def paddedWord (mem : Memory) (buf len k : Nat) : BitVec 64 :=
  lane (padded mem buf len) (buf - buf % 4) k

/-- The sum of the first `n` of them. -/
def paddedSum (mem : Memory) (buf len : Nat) : Nat → BitVec 64
  | 0 => 0#64
  | n + 1 => paddedSum mem buf len n + paddedWord mem buf len n

/-- The bytes from `offset` on, at most `k` of them, are those of the buffer. -/
def Selects (buf len a offset k : Nat) : Prop :=
  ∀ j, j < 4 → (offset ≤ j ∧ j < offset + k ↔ buf ≤ a + j ∧ a + j < buf + len)

theorem word_of_selects {mem : Memory} (hselects : Selects buf len a offset k) :
    word (fun j => if offset ≤ j ∧ j < offset + k then mem (a + j) else 0#8) 0 =
      word (padded mem buf len) a := by
  refine word_congr fun j hj => ?_
  simp only [Nat.zero_add, padded, hselects j hj]

theorem placed_of_selects (mem : Memory) (hselects : Selects buf len a offset k) :
    placed mem (a + offset) offset k = word (padded mem buf len) a := by
  rw [← word_of_selects hselects]
  refine word_congr fun j hj => ?_
  simp only [Nat.zero_add]
  split
  · next hin => rw [show a + offset + (j - offset) = a + j by omega]
  · rfl

theorem masked_of_selects (mem : Memory) (hselects : Selects buf len a offset k)
    (hoffset : offset < 4) (hk : k < 4) :
    word mem a &&& inMasks.getD (4 * offset + k) 0#32 = word (padded mem buf len) a := by
  rw [word_and_inMasks mem a hoffset hk]
  exact word_of_selects hselects

/-- The load touches the buffer only. -/
def Within (buf len : Nat) (l : Load) : Prop := buf ≤ l.1 ∧ l.1 + l.2 ≤ buf + len

instance (buf len : Nat) : DecidablePred (Within buf len) :=
  fun _ => inferInstanceAs (Decidable (_ ∧ _))

variable {mem : Memory} {buf len : Nat}

theorem word_padded (hwithin : Within buf len (a, 4)) :
    word mem a = word (padded mem buf len) a := by
  obtain ⟨hlow, hhigh⟩ := hwithin
  refine word_congr fun j hj => ?_
  rw [padded, if_pos]
  dsimp only at hlow hhigh
  omega

/-- The position of a run of the function: `n` words are added, `lw` is behind them, and
after `late` more bytes than `len` says the buffer ends.  The loads after `pre` were all
inside of the buffer. -/
structure Summed (mem : Memory) (buf len : Nat) (pre : List Load) (late n : Nat) (c : Cksum) :
    Prop where
  inside : buf ≤ c.lw
  lw : c.lw = buf - buf % 4 + 4 * n
  sum : c.sum = paddedSum mem buf len n
  rest : (c.lw : Int) + c.len + late = buf + len
  loads : ∃ more, c.loads = pre ++ more ∧ ∀ l ∈ more, Within buf len l

section Rounds

variable {pre : List Load} {late n : Nat} {c : Cksum}

theorem Summed.within (h : Summed mem buf len pre late n c) {i : Nat}
    (hi : 4 * (i : Int) + 4 ≤ c.len + late) : Within buf len (laneLoad c.lw i) := by
  have hinside := h.inside
  have hrest := h.rest
  constructor
  · show buf ≤ c.lw + 4 * i
    omega
  · show c.lw + 4 * i + 4 ≤ buf + len
    omega

theorem Summed.lane_eq (h : Summed mem buf len pre late n c) {i : Nat}
    (hi : 4 * (i : Int) + 4 ≤ c.len + late) :
    lane mem c.lw i = paddedWord mem buf len (n + i) := by
  rw [lane, word_padded (h.within hi), paddedWord, lane, h.lw, Nat.add_assoc, Nat.mul_add]

theorem Summed.lenAdd (h : Summed mem buf len pre late n c) {k : Int} {m : Nat}
    (hlate : (late : Int) = k + m) : Summed mem buf len pre m n (c.lenAdd k) where
  inside := h.inside
  lw := h.lw
  sum := h.sum
  rest := by
    have hrest := h.rest
    show (c.lw : Int) + (c.len + k) + m = buf + len
    omega
  loads := h.loads

theorem Summed.loads_append (h : Summed mem buf len pre late n c) (is : List Nat)
    (his : ∀ i ∈ is, 4 * (i : Int) + 4 ≤ c.len + late) :
    ∃ more, c.loads ++ is.map (laneLoad c.lw) = pre ++ more ∧ ∀ l ∈ more, Within buf len l := by
  obtain ⟨more, hmore, hwithin⟩ := h.loads
  refine ⟨more ++ is.map (laneLoad c.lw), ?_, ?_⟩
  · rw [hmore, List.append_assoc]
  · intro l hl
    rcases List.mem_append.mp hl with hold | hnew
    · exact hwithin l hold
    · obtain ⟨i, hi, rfl⟩ := List.mem_map.mp hnew
      exact h.within (his i hi)

theorem Summed.load (h : Summed mem buf len pre late n c) {i : Nat}
    (hi : 4 * (i : Int) + 4 ≤ c.len + late) : Summed mem buf len pre late n (c.load i) where
  inside := h.inside
  lw := h.lw
  sum := h.sum
  rest := h.rest
  loads := h.loads_append [i] fun j hj => by
    rw [List.mem_singleton.mp hj]
    exact hi

theorem lanes_eq_paddedSum {lw : Nat} (m : Nat)
    (hlane : ∀ i, i < m + 1 → lane mem lw i = paddedWord mem buf len (n + i)) :
    paddedSum mem buf len n + lanes mem lw (lane mem lw 0) (List.range' 1 m) =
      paddedSum mem buf len (n + (m + 1)) := by
  induction m with
  | zero =>
    show _ + lane mem lw 0 = paddedSum mem buf len n + paddedWord mem buf len n
    rw [hlane 0 (by omega), Nat.add_zero]
  | succ m ih =>
    have hprev := ih fun i hi => hlane i (by omega)
    have hlast : lanes mem lw (lane mem lw 0) (List.range' 1 (m + 1)) =
        lanes mem lw (lane mem lw 0) (List.range' 1 m) + lane mem lw (m + 1) := by
      rw [List.range'_concat, Nat.one_mul, Nat.add_comm 1 m]
      exact List.foldl_append
    rw [hlast, ← BitVec.add_assoc, hprev, hlane (m + 1) (by omega)]
    rfl

/-- `m + 1` words that are all inside, the first of them loaded before. -/
theorem Summed.add (h : Summed mem buf len pre late n c) {first : BitVec 64}
    (late' m : Nat) (hfirst : first = lane mem c.lw 0) (hlate : late = late' + 4 * (m + 1))
    (hlen : 0 ≤ c.len + late') :
    Summed mem buf len pre late' (n + (m + 1)) (c.add mem first (List.range' 1 m)) where
  inside := Nat.le_add_right_of_le h.inside
  lw := by
    show c.lw + 4 * ((List.range' 1 m).length + 1) = _
    rw [List.length_range', h.lw]
    omega
  sum := by
    show c.sum + lanes mem c.lw first (List.range' 1 m) = _
    rw [hfirst, h.sum]
    exact lanes_eq_paddedSum m fun i hi => h.lane_eq (by omega)
  rest := by
    have hrest := h.rest
    show ((c.lw + 4 * ((List.range' 1 m).length + 1) : Nat) : Int) + c.len + late' = _
    rw [List.length_range']
    omega
  loads := h.loads_append _ fun i hi => by
    have hrange := List.mem_range'_1.mp hi
    omega

/-- The first loop ends with at most 3 bytes beyond the 32 it has not added yet. -/
theorem loop32_summed (fuel : Nat) : ∀ (n : Nat) (c : Cksum), Summed mem buf len pre 0 n c →
    0 ≤ c.len → c.len < 32 * fuel → ∀ prefilled out, prefilled = lane mem c.lw 0 →
    loop32 mem fuel prefilled c = out →
    ∃ n', Summed mem buf len pre 32 n' out.2 ∧ out.1 = lane mem out.2.lw 0 ∧
      -32 ≤ out.2.len ∧ out.2.len < 4 := by
  induction fuel with
  | zero =>
    intro n c _ hlow hhigh
    omega
  | succ fuel ih =>
    intro n c hsummed hlow hhigh prefilled out hprefilled hout
    have hlowered := hsummed.lenAdd (k := -32) (m := 32) rfl
    have hlen : (c.lenAdd (-32)).len = c.len - 32 := rfl
    unfold loop32 at hout
    dsimp only at hout
    split at hout
    · next hmore =>
        -- the prefetched word is followed by at least 4 bytes of the buffer
        have hnext := (hlowered.load (i := 8) (by omega)).add 0 7 hprefilled rfl
          (by show 0 ≤ (c.lenAdd (-32)).len + _; omega)
        refine ih _ _ hnext ?_ ?_ _ _ rfl hout
        · show 0 ≤ (c.lenAdd (-32)).len
          omega
        · show (c.lenAdd (-32)).len < _
          omega
    · next hdone =>
        subst hout
        exact ⟨n, hlowered, hprefilled, by dsimp only; omega, by dsimp only; omega⟩

theorem rest32_summed (h : Summed mem buf len pre 32 n c) (hlow : -32 ≤ c.len)
    {prefilled : BitVec 64} (hprefilled : prefilled = lane mem c.lw 0) :
    ∃ n', Summed mem buf len pre 0 n' (rest32 mem prefilled c) ∧
      0 ≤ (rest32 mem prefilled c).len := by
  unfold rest32
  split
  · next hmore => exact ⟨n + 8, h.add 0 7 hprefilled rfl (by omega), hmore⟩
  · next hdone =>
      refine ⟨n, h.lenAdd (k := 32) (m := 0) rfl, ?_⟩
      show 0 ≤ c.len + 32
      omega

theorem loop16_summed (fuel : Nat) : ∀ (n : Nat) (c : Cksum), Summed mem buf len pre 0 n c →
    0 ≤ c.len → c.len < 16 * fuel →
    ∃ n', Summed mem buf len pre 0 n' (loop16 mem fuel c) ∧ 0 ≤ (loop16 mem fuel c).len := by
  induction fuel with
  | zero =>
    intro n c _ hlow hhigh
    omega
  | succ fuel ih =>
    intro n c hsummed hlow hhigh
    have hlowered := hsummed.lenAdd (k := -16) (m := 16) rfl
    have hlen : (c.lenAdd (-16)).len = c.len - 16 := rfl
    unfold loop16
    dsimp only
    split
    · next hmore =>
        have hnext := (hlowered.load (i := 0) (by omega)).add 0 3 rfl rfl
          (by show 0 ≤ (c.lenAdd (-16)).len + _; omega)
        refine ih _ _ hnext hmore ?_
        show (c.lenAdd (-16)).len < _
        omega
    · next hdone =>
        refine ⟨n, hlowered.lenAdd (k := 16) (m := 0) rfl, ?_⟩
        show 0 ≤ (c.lenAdd (-16)).len + 16
        omega

theorem loop4_summed (fuel : Nat) : ∀ (n : Nat) (c : Cksum), Summed mem buf len pre 0 n c →
    0 ≤ c.len → c.len < 4 * fuel →
    ∃ n', Summed mem buf len pre 0 n' (loop4 mem fuel c) ∧ 0 ≤ (loop4 mem fuel c).len ∧
      (loop4 mem fuel c).len < 4 := by
  induction fuel with
  | zero =>
    intro n c _ hlow hhigh
    omega
  | succ fuel ih =>
    intro n c hsummed hlow hhigh
    have hlowered := hsummed.lenAdd (k := -4) (m := 4) rfl
    have hlen : (c.lenAdd (-4)).len = c.len - 4 := rfl
    unfold loop4
    dsimp only
    split
    · next hmore =>
        have hnext := (hlowered.load (i := 0) (by omega)).add 0 0 rfl rfl
          (by show 0 ≤ (c.lenAdd (-4)).len + _; omega)
        refine ih _ _ hnext hmore ?_
        show (c.lenAdd (-4)).len < _
        omega
    · next hdone =>
        refine ⟨n, hlowered.lenAdd (k := 4) (m := 0) rfl, ?_, ?_⟩
        · show 0 ≤ (c.lenAdd (-4)).len + 4
          omega
        · show (c.lenAdd (-4)).len + 4 < 4
          omega

/-- The words that the buffer reaches into. -/
def wordCount (buf len : Nat) : Nat := (buf % 4 + len + 3) / 4

theorem tail_sum (pureCap : Bool) (h : Summed mem buf len pre 0 n c) (hlow : 0 ≤ c.len)
    (hhigh : c.len < 4) :
    (tail pureCap mem c).sum = paddedSum mem buf len (wordCount buf len) := by
  have hinside := h.inside
  have hlw := h.lw
  have hrest := h.rest
  unfold tail
  split
  · next hpos =>
      have hcount : wordCount buf len = n + 1 := by
        unfold wordCount
        omega
      have hselects : Selects buf len c.lw 0 c.len.toNat := by
        intro j hj
        omega
      have hword : (word (padded mem buf len) c.lw).setWidth 64 = paddedWord mem buf len n := by
        rw [paddedWord, lane, hlw]
      rw [hcount, paddedSum, ← h.sum, ← hword]
      cases pureCap with
      | false =>
        have hmasked := masked_of_selects mem hselects (by decide) (by omega)
        rw [Nat.mul_zero, Nat.zero_add] at hmasked
        rw [← hmasked, BitVec.and_comm]
        rfl
      | true =>
        rw [← placed_of_selects mem hselects]
        rfl
  · next hnone =>
      have hcount : wordCount buf len = n := by
        unfold wordCount
        omega
      rw [hcount]
      exact h.sum

/-- In pure-capability mode the last load is exact. -/
theorem tail_loads (h : Summed mem buf len pre 0 n c) :
    ∃ more, (tail true mem c).loads = pre ++ more ∧ ∀ l ∈ more, Within buf len l := by
  obtain ⟨more, hmore, hwithin⟩ := h.loads
  have hinside := h.inside
  have hrest := h.rest
  unfold tail
  split
  · next hpos =>
      refine ⟨more ++ [(c.lw, c.len.toNat)], ?_, ?_⟩
      · rw [← List.append_assoc, ← hmore]
        rfl
      · intro l hl
        rcases List.mem_append.mp hl with hold | hnew
        · exact hwithin l hold
        · rw [List.mem_singleton.mp hnew]
          exact ⟨hinside, by dsimp only; omega⟩
  · exact ⟨more, hmore, hwithin⟩

/-- From an aligned word on: the sum in either variant, and the loads of the
pure-capability one, all inside but perhaps the first. -/
theorem body_spec (pureCap : Bool) (h : Summed mem buf len pre 0 n c) (hlow : 0 ≤ c.len) :
    (body pureCap mem c).sum = paddedSum mem buf len (wordCount buf len) ∧
      ∃ more, (body true mem c).loads = c.loads ++ [laneLoad c.lw 0] ++ more ∧
        ∀ l ∈ more, Within buf len l := by
  have hstart : Summed mem buf len (c.loads ++ [laneLoad c.lw 0]) 0 n (c.load 0) :=
    ⟨h.inside, h.lw, h.sum, h.rest, [], (List.append_nil _).symm, nofun⟩
  have hlen : (c.load 0).len = c.len := rfl
  unfold body
  dsimp only
  generalize hout : loop32 mem ((c.load 0).len.toNat + 1) (lane mem c.lw 0) (c.load 0) = out
  obtain ⟨n₁, h₁, hfirst, hlow₁, -⟩ :=
    loop32_summed _ n _ hstart hlow (by omega) _ out rfl hout
  obtain ⟨n₂, h₂, hlow₂⟩ := rest32_summed h₁ hlow₁ hfirst
  generalize rest32 mem out.1 out.2 = c₂ at h₂ hlow₂ ⊢
  obtain ⟨n₃, h₃, hlow₃⟩ := loop16_summed (c₂.len.toNat + 1) n₂ _ h₂ hlow₂ (by omega)
  generalize loop16 mem (c₂.len.toNat + 1) c₂ = c₃ at h₃ hlow₃ ⊢
  obtain ⟨n₄, h₄, hlow₄, hhigh₄⟩ := loop4_summed (c₃.len.toNat + 1) n₃ _ h₃ hlow₃ (by omega)
  exact ⟨tail_sum pureCap h₄ hlow₄ hhigh₄, tail_loads h₄⟩

end Rounds

/-! ## The whole function -/

theorem head_sum (pureCap : Bool) (hoffset : buf % 4 ≠ 0) :
    (head pureCap mem (buf % 4) (.start buf len)).sum = paddedSum mem buf len 1 := by
  have hone : paddedSum mem buf len 1 =
      (word (padded mem buf len) (buf - buf % 4)).setWidth 64 := by
    rw [paddedSum, paddedSum, BitVec.zero_add]
    rfl
  rw [hone]
  cases pureCap with
  | false =>
    -- three bytes stand for all that fit
    have hselects : Selects buf len (buf - buf % 4) (buf % 4)
        (if 3 ≤ (len : Int) then 3 else (len : Int).toNat) := by
      intro j hj
      split <;> omega
    rw [← masked_of_selects mem hselects (Nat.mod_lt _ (by decide)) (by split <;> omega)]
    rfl
  | true =>
    have hselects : Selects buf len (buf - buf % 4) (buf % 4)
        (if (len : Int) < 4 - ((buf % 4 : Nat) : Int) then (len : Int).toNat
          else 4 - buf % 4) := by
      intro j hj
      split <;> omega
    have hplaced := placed_of_selects mem hselects
    rw [Nat.sub_add_cancel (Nat.mod_le buf 4)] at hplaced
    rw [← hplaced]
    rfl

theorem head_lw (pureCap : Bool) (hlong : 4 - buf % 4 ≤ len) :
    (head pureCap mem (buf % 4) (.start buf len)).lw = buf - buf % 4 + 4 := by
  cases pureCap with
  | false => rfl
  | true =>
    show buf + (if (len : Int) < 4 - ((buf % 4 : Nat) : Int) then (len : Int).toNat
      else 4 - buf % 4) = _
    rw [if_neg (by omega)]
    omega

theorem head_len (pureCap : Bool) :
    (head pureCap mem (buf % 4) (.start buf len)).len = len - (4 - (buf % 4 : Nat)) := by
  cases pureCap <;> rfl

/-- In pure-capability mode the bytes before the first aligned word are read exactly. -/
theorem head_loads (mem : Memory) (buf len : Nat) : ∃ nhead, nhead ≤ len ∧
    (head true mem (buf % 4) (.start buf len)).loads = [(buf, nhead)] := by
  refine ⟨_, ?_, rfl⟩
  show (if (len : Int) < 4 - ((buf % 4 : Nat) : Int) then (len : Int).toNat
    else 4 - buf % 4) ≤ len
  split <;> omega

theorem start_summed (mem : Memory) (len : Nat) (haligned : buf % 4 = 0) :
    Summed mem buf len [] 0 0 (.start buf len) where
  inside := Nat.le_refl _
  lw := by
    show buf = _
    omega
  sum := rfl
  rest := by
    show (buf : Int) + (len : Int) + 0 = _
    omega
  loads := ⟨[], rfl, nofun⟩

/-- More bytes follow the first aligned word. -/
theorem head_summed (pureCap : Bool) (mem : Memory) (hoffset : buf % 4 ≠ 0)
    (hlong : 4 - buf % 4 ≤ len) :
    Summed mem buf len (head pureCap mem (buf % 4) (.start buf len)).loads 0 1
      (head pureCap mem (buf % 4) (.start buf len)) where
  inside := by
    rw [head_lw pureCap hlong]
    omega
  lw := head_lw pureCap hlong
  sum := head_sum pureCap hoffset
  rest := by
    rw [head_lw pureCap hlong, head_len]
    omega
  loads := ⟨[], (List.append_nil _).symm, nofun⟩

/-- Both variants reduce the sum of the padded words. -/
theorem inCksumdata_eq (pureCap : Bool) (mem : Memory) (buf len : Nat) :
    (inCksumdata pureCap mem buf len).1 =
      reduce32 (paddedSum mem buf len (wordCount buf len)) := by
  unfold inCksumdata
  split
  · next h =>
      obtain ⟨haligned, rfl⟩ := h
      have hsummed := start_summed mem 20 haligned
      have hfive := lanes_eq_paddedSum (n := 0) 4 fun i hi => hsummed.lane_eq (i := i) (by
        show 4 * (i : Int) + 4 ≤ 20 + 0
        omega)
      have hcount : wordCount buf 20 = 5 := by
        rw [wordCount, haligned]
      rw [hcount, ← hfive, paddedSum, BitVec.zero_add]
      rfl
  · next h =>
      by_cases haligned : buf % 4 = 0
      · simp only [haligned, ne_eq, not_true_eq_false, if_false, false_and]
        rw [(body_spec pureCap (start_summed mem len haligned) (Int.natCast_nonneg len)).1]
      · simp only [haligned, ne_eq, not_false_eq_true, if_true, true_and]
        split
        · next hshort =>
            rw [head_len] at hshort
            have hcount : wordCount buf len = 1 := by
              unfold wordCount
              omega
            rw [head_sum pureCap haligned, hcount]
        · next hlong =>
            rw [head_len] at hlong
            have hbytes : 4 - buf % 4 ≤ len := by omega
            rw [(body_spec pureCap (head_summed pureCap mem haligned hbytes)
              (by rw [head_len]; omega)).1]

/-! ## The value modulo 65535 -/

/-- The `k`th aligned 16-bit word around the buffer, zero where the buffer is not. -/
def paddedHalf (mem : Memory) (buf len k : Nat) : Nat :=
  (padded mem buf len (buf - buf % 4 + 2 * k)).toNat +
    256 * (padded mem buf len (buf - buf % 4 + 2 * k + 1)).toNat

/-- The sum of the 16-bit little-endian words of the buffer, laid out at its alignment. -/
def halfSum (mem : Memory) (buf len : Nat) : Nat :=
  ∑ k ∈ Finset.range ((buf % 4 + len + 1) / 2), paddedHalf mem buf len k

theorem toNat_word (mem : Memory) (a : Nat) :
    (word mem a).toNat = (mem a).toNat + 256 * (mem (a + 1)).toNat +
      65536 * ((mem (a + 2)).toNat + 256 * (mem (a + 3)).toNat) := by
  unfold word
  have h₀ := (mem a).isLt
  have h₁ := (mem (a + 1)).isLt
  have h₂ := (mem (a + 2)).isLt
  simp only [BitVec.toNat_append]
  rw [← Nat.shiftLeft_add_eq_or_of_lt h₂, ← Nat.shiftLeft_add_eq_or_of_lt h₁,
    ← Nat.shiftLeft_add_eq_or_of_lt h₀]
  simp only [Nat.shiftLeft_eq]
  omega

theorem toNat_paddedWord (mem : Memory) (buf len k : Nat) :
    (paddedWord mem buf len k).toNat =
      paddedHalf mem buf len (2 * k) + 65536 * paddedHalf mem buf len (2 * k + 1) := by
  have hword := toNat_word (padded mem buf len) (buf - buf % 4 + 4 * k)
  have hlt := (word (padded mem buf len) (buf - buf % 4 + 4 * k)).isLt
  rw [paddedWord, lane, BitVec.toNat_setWidth, Nat.mod_eq_of_lt (by omega), hword]
  unfold paddedHalf
  rw [show 2 * (2 * k) = 4 * k by omega,
    show buf - buf % 4 + 2 * (2 * k + 1) = buf - buf % 4 + 4 * k + 2 by omega]

/-- Up to 2^32 words the accumulator does not overflow. -/
theorem toNat_paddedSum (mem : Memory) (buf len n : Nat) (hn : n ≤ 2 ^ 32) :
    (paddedSum mem buf len n).toNat =
        ∑ k ∈ Finset.range n, (paddedWord mem buf len k).toNat ∧
      (paddedSum mem buf len n).toNat ≤ n * (2 ^ 32 - 1) := by
  induction n with
  | zero => exact ⟨rfl, Nat.zero_le _⟩
  | succ n ih =>
    obtain ⟨hsum, hle⟩ := ih (by omega)
    have hlt : (paddedWord mem buf len n).toNat ≤ 2 ^ 32 - 1 := by
      rw [paddedWord, lane, BitVec.toNat_setWidth]
      have := (word (padded mem buf len) (buf - buf % 4 + 4 * n)).isLt
      omega
    have hadd : (paddedSum mem buf len (n + 1)).toNat =
        (paddedSum mem buf len n).toNat + (paddedWord mem buf len n).toNat := by
      rw [paddedSum, BitVec.toNat_add, Nat.mod_eq_of_lt (by omega)]
    rw [Finset.sum_range_succ, ← hsum]
    exact ⟨hadd, by omega⟩

/-- `REDUCE32` adds the four 16-bit parts. -/
theorem toNat_reduce32 (sum : BitVec 64) :
    (reduce32 sum).toNat = sum.toNat % 2 ^ 16 + sum.toNat / 2 ^ 16 % 2 ^ 16 +
      sum.toNat / 2 ^ 16 / 2 ^ 16 % 2 ^ 16 + sum.toNat / 2 ^ 16 / 2 ^ 16 / 2 ^ 16 := by
  have hlt := sum.isLt
  have hpart : ∀ k, ((sum.extractLsb' k 16).setWidth 64).toNat = sum.toNat / 2 ^ k % 2 ^ 16 := by
    intro k
    rw [BitVec.toNat_setWidth, BitVec.extractLsb'_toNat, Nat.shiftRight_eq_div_pow]
    exact Nat.mod_eq_of_lt (by omega)
  have hthird : sum.toNat / 2 ^ 32 = sum.toNat / 2 ^ 16 / 2 ^ 16 := by
    rw [Nat.div_div_eq_div_mul, ← Nat.pow_add]
  have hfourth : sum.toNat / 2 ^ 48 = sum.toNat / 2 ^ 16 / 2 ^ 16 / 2 ^ 16 := by
    rw [Nat.div_div_eq_div_mul, Nat.div_div_eq_div_mul, ← Nat.pow_add, ← Nat.pow_add]
  have htop : sum.toNat / 2 ^ 48 < 2 ^ 16 := by omega
  rw [reduce32, BitVec.toNat_add, BitVec.toNat_add, BitVec.toNat_add, hpart, hpart, hpart, hpart,
    Nat.mod_eq_of_lt htop, hthird, hfourth, Nat.pow_zero, Nat.div_one]
  rw [hfourth] at htop
  have hlow : ∀ x, x % 2 ^ 16 < 2 ^ 16 := fun x => Nat.mod_lt x (by decide)
  have h₀ := hlow sum.toNat
  have h₁ := hlow (sum.toNat / 2 ^ 16)
  have h₂ := hlow (sum.toNat / 2 ^ 16 / 2 ^ 16)
  generalize sum.toNat % 2 ^ 16 = a at h₀ ⊢
  generalize sum.toNat / 2 ^ 16 % 2 ^ 16 = b at h₁ ⊢
  generalize sum.toNat / 2 ^ 16 / 2 ^ 16 % 2 ^ 16 = c at h₂ ⊢
  generalize sum.toNat / 2 ^ 16 / 2 ^ 16 / 2 ^ 16 = d at htop ⊢
  clear hthird hfourth hpart hlt hlow
  omega

theorem reduce32_modEq (sum : BitVec 64) : (reduce32 sum).toNat ≡ sum.toNat [MOD 65535] := by
  rw [toNat_reduce32]
  generalize sum.toNat = x
  calc x % 2 ^ 16 + x / 2 ^ 16 % 2 ^ 16 + x / 2 ^ 16 / 2 ^ 16 % 2 ^ 16 +
        x / 2 ^ 16 / 2 ^ 16 / 2 ^ 16
      = x % 2 ^ 16 + x / 2 ^ 16 % 2 ^ 16 +
          (x / 2 ^ 16 / 2 ^ 16 % 2 ^ 16 + x / 2 ^ 16 / 2 ^ 16 / 2 ^ 16) := by omega
    _ ≡ x % 2 ^ 16 + x / 2 ^ 16 % 2 ^ 16 + x / 2 ^ 16 / 2 ^ 16 [MOD 65535] :=
        (fold_modEq 16 _).add_left _
    _ = x % 2 ^ 16 + (x / 2 ^ 16 % 2 ^ 16 + x / 2 ^ 16 / 2 ^ 16) := by omega
    _ ≡ x % 2 ^ 16 + x / 2 ^ 16 [MOD 65535] := (fold_modEq 16 _).add_left _
    _ ≡ x [MOD 65535] := fold_modEq 16 x

/-- Past the last byte of the buffer there is nothing. -/
theorem paddedHalf_eq_zero {k : Nat} (hk : (buf % 4 + len + 1) / 2 ≤ k) :
    paddedHalf mem buf len k = 0 := by
  unfold paddedHalf padded
  rw [if_neg (by omega), if_neg (by omega)]
  rfl

theorem paddedWords_modEq (mem : Memory) (buf len n : Nat) :
    ∑ k ∈ Finset.range n, (paddedWord mem buf len k).toNat ≡
      ∑ k ∈ Finset.range (2 * n), paddedHalf mem buf len k [MOD 65535] := by
  induction n with
  | zero => rfl
  | succ n ih =>
    rw [Finset.sum_range_succ, show 2 * (n + 1) = 2 * n + 1 + 1 by omega,
      Finset.sum_range_succ, Finset.sum_range_succ, Nat.add_assoc]
    refine ih.add ?_
    rw [toNat_paddedWord]
    exact carry_modEq 16 _ _

theorem sum_paddedHalf {n : Nat} (hn : (buf % 4 + len + 1) / 2 ≤ n) :
    ∑ k ∈ Finset.range n, paddedHalf mem buf len k = halfSum mem buf len := by
  refine (Finset.sum_subset (Finset.range_subset_range.mpr hn) ?_).symm
  intro k _ hk
  exact paddedHalf_eq_zero (Nat.le_of_not_lt fun hlt => hk (Finset.mem_range.mpr hlt))

theorem inCksumdata_modEq (pureCap : Bool) (mem : Memory) (buf : Nat) {len : Nat}
    (hlen : len < 2 ^ 31) :
    (inCksumdata pureCap mem buf len).1.toNat ≡ halfSum mem buf len [MOD 65535] := by
  have hcount : wordCount buf len ≤ 2 ^ 32 := by
    unfold wordCount
    omega
  rw [inCksumdata_eq]
  calc (reduce32 (paddedSum mem buf len (wordCount buf len))).toNat
      ≡ (paddedSum mem buf len (wordCount buf len)).toNat [MOD 65535] := reduce32_modEq _
    _ = ∑ k ∈ Finset.range (wordCount buf len), (paddedWord mem buf len k).toNat :=
        (toNat_paddedSum mem buf len _ hcount).1
    _ ≡ ∑ k ∈ Finset.range (2 * wordCount buf len), paddedHalf mem buf len k [MOD 65535] :=
        paddedWords_modEq mem buf len _
    _ = halfSum mem buf len := sum_paddedHalf (by unfold wordCount; omega)

/-- The value depends on the bytes of the buffer alone. -/
theorem inCksumdata_congr (pureCap : Bool) {mem mem' : Memory} {buf len : Nat}
    (hsame : ∀ i, i < len → mem' (buf + i) = mem (buf + i)) :
    (inCksumdata pureCap mem' buf len).1 = (inCksumdata pureCap mem buf len).1 := by
  have hpadded : padded mem' buf len = padded mem buf len := by
    funext a
    unfold padded
    split
    · next hin =>
        have hbyte := hsame (a - buf) (by omega)
        rw [Nat.add_sub_cancel' hin.1] at hbyte
        exact hbyte
    · rfl
  have hwords : ∀ n, paddedSum mem' buf len n = paddedSum mem buf len n := by
    intro n
    induction n with
    | zero => rfl
    | succ n ih => rw [paddedSum, paddedSum, ih, paddedWord, paddedWord, hpadded]
  rw [inCksumdata_eq, inCksumdata_eq, hwords]

/-- **The checksum for pure-capability mode.**  It returns what the masked-read variant
returns; the value depends on the bytes of the buffer alone, and is congruent to the sum of
their 16-bit words at the alignment of the buffer. -/
theorem in_cksumdata_variants_agree (mem : Memory) (buf len : Nat) (hlen : len < 2 ^ 31) :
    (inCksumdata true mem buf len).1 = (inCksumdata false mem buf len).1 ∧
      (∀ mem' : Memory, (∀ i, i < len → mem' (buf + i) = mem (buf + i)) →
        (inCksumdata true mem' buf len).1 = (inCksumdata true mem buf len).1) ∧
      (inCksumdata true mem buf len).1.toNat ≡ halfSum mem buf len [MOD 65535] := by
  refine ⟨?_, fun mem' hsame => inCksumdata_congr true hsame, inCksumdata_modEq true mem buf hlen⟩
  rw [inCksumdata_eq, inCksumdata_eq]

/-- Five bytes from address 3 on, with other bytes around them. -/
theorem in_cksumdata_variants_agree_five :
    (inCksumdata true (fun a => BitVec.ofNat 8 (17 * a)) 3 5).1 =
      (inCksumdata false (fun a => BitVec.ofNat 8 (17 * a)) 3 5).1 ∧
    halfSum (fun a => BitVec.ofNat 8 (17 * a)) 3 5 = 0x3300 + 0x5544 + 0x7766 ∧
    (inCksumdata true (fun a => BitVec.ofNat 8 (17 * a)) 3 5).1.toNat ≡
      halfSum (fun a => BitVec.ofNat 8 (17 * a)) 3 5 [MOD 65535] :=
  have hagree := in_cksumdata_variants_agree (fun a => BitVec.ofNat 8 (17 * a)) 3 5 (by decide)
  ⟨hagree.1, by decide, hagree.2.2⟩

end Fstack
end SfcCapio
