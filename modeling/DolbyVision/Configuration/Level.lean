/-
**Levels.**

A level bounds how many luma samples a stream has per second and how wide its pictures are.

Main definitions:

* `DolbyVision.LevelLimits`, `DolbyVision.levels` — the limits of the levels, from level 1 on;
* `DolbyVision.levelFor` — the lowest level that permits a stream.
-/

set_option relaxedAutoImplicit false
set_option autoImplicit false

namespace DolbyVision

/-- The limits of a level. -/
structure LevelLimits where
  /-- The largest number of luma samples per second. -/
  maxSamples : Nat
  /-- The largest width in pixels. -/
  maxWidth : Nat
  deriving DecidableEq, Inhabited

/-- The limits that pictures of a given size at a given rate reach, with a width of their own. -/
def LevelLimits.ofPictures (width height rate maxWidth : Nat) : LevelLimits :=
  ⟨width * height * rate, maxWidth⟩

/-- Whether a stream stays within the limits. -/
def LevelLimits.permits (l : LevelLimits) (width samples : Nat) : Bool :=
  samples ≤ l.maxSamples && width ≤ l.maxWidth

/-- The limits of the levels 1 to 13. -/
def levels : List LevelLimits :=
  [.ofPictures 1280 720 24 1280,
    .ofPictures 1280 720 30 1280,
    .ofPictures 1920 1080 24 1920,
    .ofPictures 1920 1080 30 2560,
    .ofPictures 1920 1080 60 3840,
    .ofPictures 3840 2160 24 3840,
    .ofPictures 3840 2160 30 3840,
    .ofPictures 3840 2160 48 3840,
    .ofPictures 3840 2160 60 3840,
    .ofPictures 3840 2160 120 3840,
    .ofPictures 3840 2160 120 7680,
    .ofPictures 7680 4320 60 7680,
    .ofPictures 7680 4320 120 7680]

/-- The lowest level that permits pictures of a given width and a given number of luma samples per
second. -/
def levelFor (width samples : Nat) : Option Nat :=
  (levels.findIdx? fun l => l.permits width samples).map (· + 1)

end DolbyVision
