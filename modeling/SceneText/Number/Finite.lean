import SceneText.Number.Binary64

/-!
# Number/Finite — the doubles that have a text

Scenes hold finite numbers only.  `finite?` passes those and tells why another has no place.
-/

namespace SceneText

/-- Why a double cannot stand in a scene. -/
inductive NotFinite where
  | nan
  | infinite
  deriving DecidableEq, Repr

/-- The reason in words. -/
def NotFinite.message : NotFinite → String
  | .nan => "value is NaN"
  | .infinite => "value is infinite"

/-- The number itself if it is finite. -/
def finite? (x : Float) : Except NotFinite Float :=
  let code := (Binary64.ofFloat x).code
  if code < Binary64.infinityCode then .ok x
  else if code = Binary64.infinityCode then .error .infinite
  else .error .nan

end SceneText
