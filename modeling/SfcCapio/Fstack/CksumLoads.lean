import SfcCapio.Fstack.Cksum

/-!
# What `in_cksumdata` reads in pure-capability mode

The bytes around the aligned words are read exactly there, but the word that the 32-byte
loop would begin with is loaded before it is known whether a whole word is left.  All other
loads are inside of the buffer (`body_spec`), so it is this one that decides.
-/

namespace SfcCapio
namespace Fstack

variable {buf len : Nat}

/-- The bytes from the first aligned address on are none at an unaligned start, or at least
four. -/
def WordFollows (buf len : Nat) : Prop :=
  (buf % 4 ≠ 0 ∧ len ≤ 4 - buf % 4) ∨ (buf + 3) / 4 * 4 + 4 ≤ buf + len

instance (buf len : Nat) : Decidable (WordFollows buf len) :=
  inferInstanceAs (Decidable (_ ∨ _))

/-- Loads of which all but one are known to be inside. -/
theorem within_append_iff {pre more : List Load} {l : Load} (hpre : ∀ x ∈ pre, Within buf len x)
    (hmore : ∀ x ∈ more, Within buf len x) :
    (∀ x ∈ pre ++ [l] ++ more, Within buf len x) ↔ Within buf len l := by
  constructor
  · intro hall
    exact hall l (by simp)
  · intro hl x hx
    rcases List.mem_append.mp hx with hx | hx
    · rcases List.mem_append.mp hx with hx | hx
      · exact hpre x hx
      · rw [List.mem_singleton.mp hx]
        exact hl
    · exact hmore x hx

theorem twenty_within (haligned : buf % 4 = 0) :
    ∀ l ∈ [0, 1, 2, 3, 4].map (laneLoad buf), Within buf 20 l := by
  intro l hl
  obtain ⟨i, hi, rfl⟩ := List.mem_map.mp hl
  refine (start_summed (fun _ => 0#8) 20 haligned).within (i := i) ?_
  have hle : i ≤ 4 := by
    simp only [List.mem_cons, List.not_mem_nil, or_false] at hi
    omega
  show 4 * (i : Int) + 4 ≤ 20 + 0
  omega

theorem head_within (mem : Memory) : ∀ l ∈ (head true mem (buf % 4) (.start buf len)).loads,
    Within buf len l := by
  obtain ⟨nhead, hle, hloads⟩ := head_loads mem buf len
  intro l hl
  rw [hloads] at hl
  rw [List.mem_singleton.mp hl]
  exact ⟨Nat.le_refl _, Nat.add_le_add_left hle buf⟩

/-- **Loads of the checksum.**  In pure-capability mode every load of `in_cksumdata`, used
or not, is inside of the buffer if and only if at least a whole word follows the first
aligned address in it, or nothing does behind an unaligned start. -/
theorem in_cksumdata_loads_within_iff (mem : Memory) (buf len : Nat) :
    (∀ l ∈ (inCksumdata true mem buf len).2, Within buf len l) ↔ WordFollows buf len := by
  unfold inCksumdata WordFollows
  split
  · next h =>
      obtain ⟨haligned, rfl⟩ := h
      exact iff_of_true (twenty_within haligned) (Or.inr (by omega))
  · by_cases haligned : buf % 4 = 0
    · simp only [haligned, ne_eq, not_true_eq_false, if_false, false_and, false_or]
      obtain ⟨-, more, hloads, hmore⟩ := body_spec true
        (start_summed mem len haligned) (Int.natCast_nonneg len)
      rw [hloads, within_append_iff (by nofun) hmore]
      show (buf ≤ buf + 4 * 0 ∧ buf + 4 * 0 + 4 ≤ buf + len) ↔ _
      omega
    · simp only [haligned, ne_eq, not_false_eq_true, if_true, true_and]
      split
      · next hshort =>
          rw [head_len] at hshort
          exact iff_of_true (head_within mem) (Or.inl (by omega))
      · next hlong =>
          rw [head_len] at hlong
          have hbytes : 4 - buf % 4 ≤ len := by omega
          obtain ⟨-, more, hloads, hmore⟩ := body_spec true
            (head_summed true mem haligned hbytes) (by rw [head_len]; omega)
          rw [hloads, within_append_iff (head_within mem) hmore, head_lw true hbytes]
          show (buf ≤ buf - buf % 4 + 4 + 4 * 0 ∧
            buf - buf % 4 + 4 + 4 * 0 + 4 ≤ buf + len) ↔ _
          omega

/-- One aligned byte: the word is loaded, three bytes of it behind the buffer. -/
theorem one_byte_read_past_end :
    (0x1000, 4) ∈ (inCksumdata true (fun _ => 0xff#8) 0x1000 1).2 ∧
      ¬ Within 0x1000 1 (0x1000, 4) ∧ ¬ WordFollows 0x1000 1 := by
  decide

end Fstack
end SfcCapio
