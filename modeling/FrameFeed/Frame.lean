/-!
# Frames

One captured picture with its presentation timestamp, the unit that the feed carries.
-/

namespace FrameFeed

/-- One captured video frame. -/
structure Frame where
  /-- The compressed picture, taken as it is; it may be empty. -/
  jpeg : List UInt8
  /-- The presentation timestamp, in units of the stream's time base. -/
  pts : Int64
  deriving DecidableEq

namespace Frame

/-- Bytes in the picture. -/
def jpegSize (f : Frame) : Nat := f.jpeg.length

end Frame

end FrameFeed
