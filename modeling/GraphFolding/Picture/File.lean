/-
Pictures as PNG files: a header, the rows of pixels as one stream, and an end, each in a
chunk with its length and its checksum.

* `checksum` — the cyclic checksum of a chunk;
* `stream` — bytes as a stream of stored blocks, closed by the sum of the bytes;
* `Picture.bytes` — the file of a picture, eight bits a channel and four channels a pixel.
-/
import GraphFolding.Picture.Basic
namespace GraphFolding

namespace Picture

/-- The lowest bytes of a natural, the highest of them first. -/
def bigEndian : Nat → Nat → List UInt8
  | 0, _ => []
  | count + 1, n => UInt8.ofNat (n / Nat.pow 256 count) :: bigEndian count n

/-- One step of the checksum: the remainder moved down by a bit. -/
def shift (remainder : UInt32) : UInt32 :=
  if remainder &&& 1 = 1 then (remainder >>> 1) ^^^ 0xedb88320 else remainder >>> 1

/-- The remainder after a number of steps. -/
def shifts : Nat → UInt32 → UInt32
  | 0, remainder => remainder
  | n + 1, remainder => shifts n (shift remainder)

/-- The remainder after one byte more. -/
def addByte (remainder : UInt32) (byte : UInt8) : UInt32 :=
  shifts 8 (remainder ^^^ byte.toUInt32)

/-- The cyclic checksum of some bytes. -/
def checksum (bytes : ByteArray) : UInt32 :=
  bytes.foldl addByte 0xffffffff ^^^ 0xffffffff

/-- The two sums over some bytes, of the bytes and of their running sums. -/
def byteSum (bytes : ByteArray) : Nat :=
  let (low, high) := bytes.foldl
    (fun (low, high) byte =>
      let low := (low + byte.toNat) % 65521
      (low, (high + low) % 65521))
    (1, 0)
  65536 * high + low

/-- Bytes in the order lowest first, of a natural below 65536. -/
def littleEndian (n : Nat) : List UInt8 := [UInt8.ofNat n, UInt8.ofNat (n / 256)]

/-- The most bytes that a stored block holds. -/
def blockSize : Nat := 65535

/-- Bytes as stored blocks from a position on, of which there are at most so many. -/
def blocks (bytes : ByteArray) : Nat → Nat → ByteArray → ByteArray
  | 0, _, out => out
  | count + 1, start, out =>
    let part := bytes.extract start (start + blockSize)
    let isLast : UInt8 := if bytes.size ≤ start + blockSize then 1 else 0
    let head := isLast :: littleEndian part.size ++ littleEndian (65535 - part.size)
    blocks bytes count (start + blockSize) (out ++ ⟨head.toArray⟩ ++ part)

/-- Bytes as a stream. -/
def stream (bytes : ByteArray) : ByteArray :=
  blocks bytes ((bytes.size + blockSize - 1) / blockSize) 0 ⟨#[0x78, 0x01]⟩ ++
    ⟨(bigEndian 4 (byteSum bytes)).toArray⟩

/-- A chunk: its length, its kind, what it holds and its checksum. -/
def chunk (kind : String) (content : ByteArray) : ByteArray :=
  let body := kind.toUTF8 ++ content
  ⟨(bigEndian 4 content.size).toArray⟩ ++ body ++
    ⟨(bigEndian 4 (checksum body).toNat).toArray⟩

/-- A pixel as four bytes. -/
def pixelBytes (p : Pixel) : List UInt8 := [p.red, p.green, p.blue, p.alpha]

/-- A row of a picture, after the mark of a row that is stored as it is. -/
def row (p : Picture) : ByteArray :=
  ⟨(0 :: (List.replicate p.width (pixelBytes p.pixel)).flatten).toArray⟩

/-- The rows of a picture. -/
def rows (p : Picture) : ByteArray :=
  (List.replicate p.height p.row).foldl (· ++ ·) .empty

/-- The header: the size, eight bits a channel, colours with opacity. -/
def header (p : Picture) : ByteArray :=
  ⟨(bigEndian 4 p.width ++ bigEndian 4 p.height ++ [8, 6, 0, 0, 0]).toArray⟩

/-- The bytes that every such file starts with. -/
def signature : ByteArray := ⟨#[0x89, 0x50, 0x4e, 0x47, 0x0d, 0x0a, 0x1a, 0x0a]⟩

/-- The file of a picture. -/
def bytes (p : Picture) : ByteArray :=
  signature ++ chunk "IHDR" p.header ++ chunk "IDAT" (stream p.rows) ++ chunk "IEND" .empty

end Picture
end GraphFolding
