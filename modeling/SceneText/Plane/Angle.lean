/-!
# Plane/Angle — cosine and sine of an angle in degrees
-/

namespace SceneText

universe u

/-- A type of scalars in which an angle, given in degrees, has a cosine and a sine. -/
class DegreeTrig (α : Type u) where
  cos : α → α
  sin : α → α

/-- An angle in degrees is `π / 180` times that number of radians. -/
def radians (degrees : Float) : Float := degrees * (3.141592653589793 / 180)

instance : DegreeTrig Float where
  cos degrees := (radians degrees).cos
  sin degrees := (radians degrees).sin

end SceneText
