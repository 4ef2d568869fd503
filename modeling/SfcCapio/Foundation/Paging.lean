import SfcCapio.Foundation.Extents
import Mathlib.Data.Set.Image

/-!
# Pages and translation

Memory is handed out in pages of a fixed size.  `pageAt` is the page an address lies in
and `PageMap.translate` the physical address behind a virtual one.  The two facts
proved here say when a whole page can be given away for one address: the range it
belongs to starts on a page boundary and consists of whole pages, seen either directly
(`pageAt_inside`) or through a translation (`PageMap.pageAt_translate_subset`).
-/

namespace SfcCapio
namespace Foundation

/-- The page of size `size` that the address lies in. -/
def pageAt (size addr : Nat) : Extent := ⟨addr / size * size, size⟩

/-- A range of whole pages contains the page of each of its bytes. -/
theorem pageAt_inside {size addr : Nat} {e : Extent} (hsize : 0 < size)
    (hstart : size ∣ e.start) (hlen : size ∣ e.len) (hmem : addr ∈ e.bytes) :
    (pageAt size addr).Inside e := by
  obtain ⟨a, ha⟩ := hstart
  obtain ⟨l, hl⟩ := hlen
  obtain ⟨hlow, hhigh⟩ := hmem
  rw [Extent.inside_iff]
  refine Or.inr ⟨?_, ?_⟩
  · rw [ha, Nat.mul_comm]
    refine Nat.mul_le_mul_right size ((Nat.le_div_iff_mul_le hsize).mpr ?_)
    rw [Nat.mul_comm]
    omega
  · have hnext : addr / size < a + l := by
      rw [Nat.div_lt_iff_lt_mul hsize, Nat.add_mul, Nat.mul_comm a, Nat.mul_comm l]
      omega
    have hend : (addr / size + 1) * size ≤ (a + l) * size := Nat.mul_le_mul_right size hnext
    rw [Nat.add_mul, Nat.add_mul, Nat.one_mul, Nat.mul_comm a, Nat.mul_comm l] at hend
    rw [ha, hl]
    exact hend

/-- A page table: the frame behind each virtual page. -/
structure PageMap where
  size : Nat
  sizePos : 0 < size
  frame : Nat → Nat

namespace PageMap

variable (pm : PageMap)

/-- The physical address behind a virtual one. -/
def translate (addr : Nat) : Nat := pm.frame (addr / pm.size) * pm.size + addr % pm.size

theorem translate_div (addr : Nat) : pm.translate addr / pm.size = pm.frame (addr / pm.size) := by
  rw [translate, Nat.mul_comm, Nat.mul_add_div pm.sizePos,
    Nat.div_eq_of_lt (Nat.mod_lt addr pm.sizePos), Nat.add_zero]

/-- The physical page behind an address is what its virtual page is mapped to. -/
theorem pageAt_translate (addr : Nat) :
    (pageAt pm.size (pm.translate addr)).bytes =
      pm.translate '' (pageAt pm.size addr).bytes := by
  ext b
  simp only [pageAt, Extent.mem_bytes, Set.mem_image, translate_div]
  constructor
  · rintro ⟨hlow, hhigh⟩
    refine ⟨addr / pm.size * pm.size + (b - pm.frame (addr / pm.size) * pm.size),
      ⟨by omega, by omega⟩, ?_⟩
    have hlt : b - pm.frame (addr / pm.size) * pm.size < pm.size := by omega
    rw [translate, Nat.mul_comm (addr / pm.size), Nat.mul_add_div pm.sizePos,
      Nat.div_eq_of_lt hlt, Nat.add_zero, Nat.mul_add_mod, Nat.mod_eq_of_lt hlt]
    omega
  · rintro ⟨v, ⟨hlow, hhigh⟩, rfl⟩
    have hpage : v / pm.size = addr / pm.size := by
      apply Nat.div_eq_of_lt_le hlow
      rw [Nat.add_mul, Nat.one_mul]
      exact hhigh
    have hmod := Nat.mod_lt v pm.sizePos
    rw [translate, hpage]
    omega

/-- The physical page behind an address of a range of whole pages lies in the memory
behind the range. -/
theorem pageAt_translate_subset {addr : Nat} {e : Extent} (hstart : pm.size ∣ e.start)
    (hlen : pm.size ∣ e.len) (hmem : addr ∈ e.bytes) :
    (pageAt pm.size (pm.translate addr)).bytes ⊆ pm.translate '' e.bytes := by
  rw [pageAt_translate]
  exact Set.image_mono (pageAt_inside pm.sizePos hstart hlen hmem)

end PageMap

end Foundation
end SfcCapio
