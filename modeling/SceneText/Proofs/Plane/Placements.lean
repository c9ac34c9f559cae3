import Mathlib.Algebra.BigOperators.Group.List.Basic
import Mathlib.Tactic.Ring
import SceneText.Scene.Document

/-!
# Proofs/Plane/Placements — a product of maps is their application in order

Over any commutative ring, and whatever values the cosine and the sine of an angle have.  The maps
of the plane are a monoid that acts on its points; `combine` is the product of the maps of a list,
last to first, so it acts as they do one after the other (`map_combine`).  The placements of a
document follow.
-/

namespace SceneText

universe u

variable {R : Type u} [CommRing R]

/-! ## Maps are a monoid that acts on points -/

namespace Affine

/-- The columns of a product are images of columns, so both ways to bracket three maps send the
unit vectors and the origin to the same places. -/
instance : Monoid (Affine R) where
  mul_assoc a b c := by
    simp only [mul_def, Affine.mul, linear, map, mk.injEq]
    refine ⟨?_, ?_, ?_, ?_, ?_, ?_⟩ <;> ring
  one_mul a := by simp [mul_def, one_def, Affine.mul, linear, map]
  mul_one a := by simp [mul_def, one_def, Affine.mul, linear, map]

@[simp] theorem map_one (p : Point R) : (1 : Affine R).map p = p := by
  simp [one_def, map, linear]

/-- **A product maps a point by its right factor first.** -/
theorem map_mul (a b : Affine R) (p : Point R) : (a * b).map p = a.map (b.map p) := by
  simp only [mul_def, Affine.mul, linear, map, Point.mk.injEq]
  constructor <;> ring

end Affine

variable [DegreeTrig R]

/-! ## A list of transforms -/

/-- The image of a point under each transform of a list, from first to last. -/
def applyAll (ts : List (Transform R)) (p : Point R) : Point R :=
  ts.foldl (fun p t => t.apply p) p

@[simp] theorem applyAll_nil (p : Point R) : applyAll [] p = p := rfl

@[simp] theorem applyAll_cons (t : Transform R) (ts : List (Transform R)) (p : Point R) :
    applyAll (t :: ts) p = applyAll ts (t.apply p) := rfl

/-- The fold multiplies on the left of what it starts from. -/
theorem foldl_toAffine_mul (ts : List (Transform R)) (a : Affine R) :
    ts.foldl (fun before t => t.toAffine * before) a =
      (ts.map Transform.toAffine).reverse.prod * a := by
  induction ts generalizing a with
  | nil => simp
  | cons t ts ih => simp [ih, mul_assoc]

/-- **A list of transforms is the product of their maps, the last one leftmost.** -/
theorem combine_eq_prod (ts : List (Transform R)) :
    combine ts = (ts.map Transform.toAffine).reverse.prod := by
  rw [combine, foldl_toAffine_mul, mul_one]

theorem combine_cons (t : Transform R) (ts : List (Transform R)) :
    combine (t :: ts) = combine ts * t.toAffine := by
  simp [combine_eq_prod]

/-- **The transforms written later act later, so their map stands on the left.** -/
theorem combine_append (xs ys : List (Transform R)) :
    combine (xs ++ ys) = combine ys * combine xs := by
  simp [combine_eq_prod]

/-- **The map of a list applies its transforms one after the other, in its order.** -/
theorem map_combine (ts : List (Transform R)) (p : Point R) :
    (combine ts).map p = applyAll ts p := by
  induction ts generalizing p with
  | nil => exact (Affine.map_one p).trans (applyAll_nil p).symm
  | cons t ts ih =>
    calc (combine (t :: ts)).map p
        = (combine ts).map (t.toAffine.map p) := by rw [combine_cons, Affine.map_mul]
      _ = applyAll ts (t.apply p) := ih (t.apply p)
      _ = applyAll (t :: ts) p := (applyAll_cons t ts p).symm

/-! ## Where the shapes of a document lie -/

/-- Every shape of a document with the group it stands in, in the order of the document. -/
def Document.members (d : Document R) : List (Group R × Shape R) :=
  d.groups.flatMap fun g => g.shapes.map (g, ·)

theorem Group.map_transform_mul (g : Group R) (s : Shape R) (p : Point R) :
    (g.transform * s.transform).map p = applyAll g.transforms (applyAll s.transforms p) := by
  rw [Affine.map_mul, Group.transform, ShapeRecord.transform, map_combine, map_combine]

theorem Document.placements_eq (d : Document R) :
    d.placements = d.members.map fun (g, s) => (s, g.transform * s.transform) := by
  simp only [members, List.map_flatMap, List.map_map, Function.comp_def]
  rfl

/-- **Composition is application in order**: of a list of transforms, of two lists one behind the
other, and of a shape's transforms with those of its group in the placements of a document, which
name every shape once, in its place. -/
theorem placements_apply_in_order :
    (∀ (ts : List (Transform R)) (p : Point R), (combine ts).map p = applyAll ts p) ∧
    (∀ xs ys : List (Transform R), combine (xs ++ ys) = combine ys * combine xs) ∧
    ∀ d : Document R,
      List.Forall₂ (fun (placement : Shape R × Affine R) (member : Group R × Shape R) =>
          placement.1 = member.2 ∧
          ∀ p, placement.2.map p =
            applyAll member.1.transforms (applyAll member.2.transforms p))
        d.placements d.members := by
  refine ⟨map_combine, combine_append, fun d => ?_⟩
  rw [d.placements_eq, List.forall₂_map_left_iff]
  exact List.forall₂_same.2 fun (g, s) _ => ⟨rfl, g.map_transform_mul s⟩

end SceneText
