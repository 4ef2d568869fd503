import Mathlib.Logic.Function.Basic
import Mathlib.Tactic.Common

/-!
# Sealed capabilities as values

A capability machine seen from software that seals and unseals: what matters is
which values exist and what the two operations return, not how they are encoded.
`Sealing` lists the operations with the laws that such software relies on.

A sealed value is determined by the capability and the key, so whoever seals the
same capability twice gets the same value twice.  Unsealing a value that is not a
seal under the key strips it to plain data, so the seal is the only value that
unseals to a capability (`eq_seal_of_unseal`) unless the capability is plain data
itself (`unseal_plain`).
-/

namespace SfcCapio
namespace Foundation

/-- Capabilities and sealing keys.  `isNull` is the comparison with the null
pointer, which looks at the address; `bits t` is what is left of `t` when both its
tag and its seal are removed. -/
structure Sealing (Cap Key : Type*) where
  null : Cap
  isNull : Cap → Bool
  tag : Cap → Bool
  isSealed : Cap → Bool
  bits : Cap → Cap
  sealWith : Cap → Key → Cap
  unsealWith : Cap → Key → Cap
  isNull_null : isNull null = true
  isNull_seal : ∀ c k, isNull (sealWith c k) = isNull c
  isSealed_seal : ∀ c k, isSealed (sealWith c k) = true
  tag_bits : ∀ t, tag (bits t) = false
  isSealed_bits : ∀ t, isSealed (bits t) = false
  bits_of_plain : ∀ c, tag c = false → isSealed c = false → bits c = c
  unseal_seal : ∀ c k, unsealWith (sealWith c k) k = c
  unseal_other : ∀ t k, (∀ c, t ≠ sealWith c k) → unsealWith t k = bits t

namespace Sealing

variable {Cap Key : Type*} (ch : Sealing Cap Key)

/-- A capability that cannot be written down as plain data. -/
def Unforgeable (c : Cap) : Prop := ch.tag c = true ∨ ch.isSealed c = true

/-- Under one key the seal determines the capability. -/
theorem seal_injective (k : Key) : Function.Injective fun c => ch.sealWith c k := by
  intro c c' heq
  have hunseal := congrArg (fun t => ch.unsealWith t k) heq
  simpa only [ch.unseal_seal] using hunseal

/-- What unseals to an unforgeable capability is its seal. -/
theorem eq_seal_of_unseal {c t : Cap} {k : Key} (hc : ch.Unforgeable c)
    (hunseal : ch.unsealWith t k = c) : t = ch.sealWith c k := by
  by_contra hne
  have hother : ∀ c', t ≠ ch.sealWith c' k := by
    rintro c' rfl
    rw [ch.unseal_seal] at hunseal
    rw [hunseal] at hne
    exact hne rfl
  rw [ch.unseal_other t k hother] at hunseal
  rcases hc with htag | hsealed
  · rw [← hunseal, ch.tag_bits] at htag
    cases htag
  · rw [← hunseal, ch.isSealed_bits] at hsealed
    cases hsealed

theorem unseal_plain {c : Cap} (k : Key) (hc : ¬ ch.Unforgeable c) :
    ch.isSealed c = false ∧ ch.unsealWith c k = c := by
  have htag : ch.tag c = false := by
    cases hcase : ch.tag c with
    | false => rfl
    | true => exact absurd (Or.inl hcase) hc
  have hsealed : ch.isSealed c = false := by
    cases hcase : ch.isSealed c with
    | false => rfl
    | true => exact absurd (Or.inr hcase) hc
  refine ⟨hsealed, ?_⟩
  rw [ch.unseal_other c k, ch.bits_of_plain c htag hsealed]
  rintro c' rfl
  rw [ch.isSealed_seal] at hsealed
  cases hsealed

end Sealing

/-! ## An instance -/

/-- Words with a tag and an address, and seals of any depth over them. -/
inductive SealedWord
  | word (tag : Bool) (addr : Nat)
  | sealed (c : SealedWord) (key : Nat)
deriving DecidableEq, Repr

namespace SealedWord

/-- The word under all seals. -/
def core : SealedWord → Bool × Nat
  | word tag addr => (tag, addr)
  | sealed c _ => c.core

/-- Strip to plain data. -/
def plain (t : SealedWord) : SealedWord := word false t.core.2

/-- Remove one seal if it is under the key, else strip. -/
def unsealWith : SealedWord → Nat → SealedWord
  | word tag addr, _ => plain (word tag addr)
  | sealed c key, k => if key = k then c else plain (sealed c key)

/-- The instance. -/
def sealing : Sealing SealedWord Nat where
  null := word false 0
  isNull := fun c => c.core.2 == 0
  tag := fun c => c.core.1
  isSealed := fun c =>
    match c with
    | word _ _ => false
    | sealed _ _ => true
  bits := plain
  sealWith := sealed
  unsealWith := unsealWith
  isNull_null := rfl
  isNull_seal := fun _ _ => rfl
  isSealed_seal := fun _ _ => rfl
  tag_bits := fun _ => rfl
  isSealed_bits := fun _ => rfl
  bits_of_plain := by
    intro c htag hsealed
    cases c with
    | word tag addr =>
      cases htag
      rfl
    | sealed c key => cases hsealed
  unseal_seal := fun _ _ => if_pos rfl
  unseal_other := by
    intro t k hother
    cases t with
    | word tag addr => rfl
    | sealed c key =>
      have hne : key ≠ k := by
        rintro rfl
        exact hother c rfl
      exact if_neg hne

end SealedWord

end Foundation
end SfcCapio
