import Mathlib.Tactic

/-!
# Display orientation

`vnsee::Orientation` and its string forms (`src/orientation.hpp`). Strings
are lists of characters throughout the model.
-/

namespace Rmcast

/-- Orientation of the rendered framebuffer relative to the panel. `Auto` is
resolved when the server's framebuffer is created. -/
inductive Orientation where
  | Portrait
  | LandscapeCW
  | InvertedPortrait
  | LandscapeCCW
  | Auto
deriving DecidableEq, Repr

namespace Orientation

/-- The names `orientation_from_string` tests, in its order. -/
def names : List (List Char × Orientation) :=
  [("auto".toList, Auto),
   ("portrait".toList, Portrait),
   ("landscape".toList, LandscapeCW),
   ("landscape-cw".toList, LandscapeCW),
   ("landscape-ccw".toList, LandscapeCCW),
   ("inverted-landscape".toList, LandscapeCCW),
   ("inverted-portrait".toList, InvertedPortrait)]

/-- `orientation_from_string`: an unknown name means `Auto`. -/
def fromString (s : List Char) : Orientation :=
  (names.lookup s).getD Auto

/-- `orientation_to_string`. -/
def toChars : Orientation → List Char
  | Portrait => "portrait".toList
  | LandscapeCW => "landscape-cw".toList
  | LandscapeCCW => "landscape-ccw".toList
  | InvertedPortrait => "inverted-portrait".toList
  | Auto => "auto".toList

theorem fromString_toChars (o : Orientation) : fromString o.toChars = o := by
  cases o <;> decide

end Orientation

end Rmcast
