import SfcCapio.Foundation.Extents

/-!
# The layout of C structures

Members are placed in order, each at the next multiple of its alignment, and the size
is rounded up to the largest alignment.  A structure is given by its members, tagged
with their names, and carries the proof that every name is declared; the place of a
member is then a total function, and it always lies inside the structure
(`CStruct.extent_inside`).
-/

namespace SfcCapio
namespace Foundation

/-- A C object type, as far as the layout depends on it. -/
structure CType where
  size : Nat
  align : Nat
  alignPos : 0 < align

section Placement

variable {F : Type*}

/-- The places of the members when the first may start at `off`. -/
def place : Nat → List (F × CType) → List (F × Extent)
  | _, [] => []
  | off, (f, t) :: rest =>
    (f, ⟨roundUp t.align off, t.size⟩) :: place (roundUp t.align off + t.size) rest

/-- Where the last member ends. -/
def placeEnd : Nat → List (F × CType) → Nat
  | off, [] => off
  | off, (_, t) :: rest => placeEnd (roundUp t.align off + t.size) rest

theorem le_placeEnd (off : Nat) (members : List (F × CType)) : off ≤ placeEnd off members := by
  induction members generalizing off with
  | nil => exact le_refl off
  | cons member rest ih =>
    have hround := le_roundUp member.2.alignPos off
    have hrest := ih (roundUp member.2.align off + member.2.size)
    simp only [placeEnd]
    omega

/-- Every member ends where the last one does or before. -/
theorem end_le_placeEnd {off : Nat} {members : List (F × CType)} {f : F} {e : Extent}
    (hmem : (f, e) ∈ place off members) : e.start + e.len ≤ placeEnd off members := by
  induction members generalizing off with
  | nil => cases hmem
  | cons member rest ih =>
    rw [place, List.mem_cons] at hmem
    rcases hmem with heq | hrest
    · obtain ⟨-, rfl⟩ := Prod.mk.inj heq
      exact le_placeEnd _ rest
    · exact ih hrest

theorem map_fst_place (off : Nat) (members : List (F × CType)) :
    (place off members).map Prod.fst = members.map Prod.fst := by
  induction members generalizing off with
  | nil => rfl
  | cons member rest ih => rw [place, List.map_cons, List.map_cons, ih]

end Placement

/-- A structure with members named by `F`. -/
structure CStruct (F : Type*) where
  members : List (F × CType)
  declared : ∀ f, f ∈ members.map Prod.fst

namespace CStruct

variable {F : Type*} (s : CStruct F)

/-- The alignment of a structure is that of its strictest member. -/
def align : Nat := (s.members.map fun member => member.2.align).foldr max 1

/-- `sizeof`. -/
def size : Nat := roundUp s.align (placeEnd 0 s.members)

theorem align_pos : 0 < s.align := by
  unfold align
  induction s.members with
  | nil => exact Nat.one_pos
  | cons member rest ih => exact Nat.lt_of_lt_of_le ih (Nat.le_max_right _ _)

variable [DecidableEq F]

/-- The place of a member: `offsetof` and its size. -/
def extent (f : F) : Extent :=
  ((place 0 s.members).find? fun member => member.1 = f).elim ⟨0, 0⟩ Prod.snd

theorem extent_mem (f : F) : (f, s.extent f) ∈ place 0 s.members := by
  have hdeclared : f ∈ (place 0 s.members).map Prod.fst := by
    rw [map_fst_place]
    exact s.declared f
  obtain ⟨member, hmem, hname⟩ := List.mem_map.mp hdeclared
  unfold extent
  cases hfind : (place 0 s.members).find? fun member => member.1 = f with
  | none =>
    have hnone := List.find?_eq_none.mp hfind member hmem
    exact absurd hname (by simpa using hnone)
  | some found =>
    have hname' : found.1 = f := by simpa using List.find?_some hfind
    have hfound := List.mem_of_find?_eq_some hfind
    rw [← hname']
    exact hfound

/-- A member lies inside its structure. -/
theorem extent_inside (f : F) : (s.extent f).Inside ⟨0, s.size⟩ := by
  have hend := end_le_placeEnd (s.extent_mem f)
  have hround := le_roundUp s.align_pos (placeEnd 0 s.members)
  rw [Extent.inside_iff]
  simp only [size]
  omega

end CStruct

end Foundation
end SfcCapio
