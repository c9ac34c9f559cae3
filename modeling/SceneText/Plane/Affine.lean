/-!
# Plane/Affine — points of the plane and the affine maps between them

Over any type of scalars with sums, products and signs.  A map is written by columns: the images of
the two unit vectors, then of the origin.
-/

namespace SceneText

universe u

/-- A point of the plane. -/
structure Point (α : Type u) where
  x : α
  y : α
  deriving DecidableEq, BEq, Repr

/-- The affine map that sends the first unit vector to `(xx, xy)`, the second to `(yx, yy)`, and
then shifts by `(tx, ty)`. -/
structure Affine (α : Type u) where
  xx : α
  xy : α
  yx : α
  yy : α
  tx : α
  ty : α
  deriving DecidableEq, BEq, Repr

variable {α : Type u}

/-- The point where the axes meet. -/
def Point.origin [Zero α] : Point α := ⟨0, 0⟩

namespace Affine

/-- The map that leaves every point in place. -/
instance [Zero α] [One α] : One (Affine α) := ⟨⟨1, 0, 0, 1, 0, 0⟩⟩

theorem one_def [Zero α] [One α] : (1 : Affine α) = ⟨1, 0, 0, 1, 0, 0⟩ := rfl

variable [Add α] [Mul α]

/-- The map without its shift, on a vector. -/
def linear (a : Affine α) (v : Point α) : Point α :=
  ⟨a.xx * v.x + a.yx * v.y, a.xy * v.x + a.yy * v.y⟩

/-- The image of a point. -/
def map (a : Affine α) (p : Point α) : Point α :=
  ⟨(a.linear p).x + a.tx, (a.linear p).y + a.ty⟩

/-- First `b`, then `a`: the columns are the images of the columns of `b`. -/
protected def mul (a b : Affine α) : Affine α :=
  let x := a.linear ⟨b.xx, b.xy⟩
  let y := a.linear ⟨b.yx, b.yy⟩
  let t := a.map ⟨b.tx, b.ty⟩
  ⟨x.x, x.y, y.x, y.y, t.x, t.y⟩

instance : Mul (Affine α) := ⟨Affine.mul⟩

theorem mul_def (a b : Affine α) : a * b = a.mul b := rfl

end Affine

end SceneText
