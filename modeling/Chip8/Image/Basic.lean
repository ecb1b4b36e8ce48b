import Chip8.Word

/-!
# Program images

An image is the bytes of a program, copied verbatim into memory when it is loaded.
-/
namespace Chip8

structure Image where
  bytes : List UInt8
deriving DecidableEq, Repr

namespace Image

def length (image : Image) : Nat := image.bytes.length

def isEmpty (image : Image) : Bool := image.bytes.isEmpty

/-- Where an image is loaded, and where execution starts. -/
def base : Address := 0x200

end Image

end Chip8
