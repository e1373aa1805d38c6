/-!
# Reading a text in chunks

A long text is held as consecutive chunks of bytes, and a reader asks again and again for the
bytes from some offset on. A cache keeps the chunk that answered last, so that a reader who goes
on where the last answer ended looks each chunk up once. The answers do not depend on the cache.
-/

namespace Retint.Text

/-- The chunk of the byte at an offset, with the offset at which that chunk starts. -/
def chunkAt? : List (List UInt8) → Nat → Option (List UInt8 × Nat)
  | [], _ => none
  | chunk :: later, offset =>
    if offset < chunk.length then some (chunk, 0)
    else (chunkAt? later (offset - chunk.length)).map fun (found, start) =>
      (found, start + chunk.length)

/-- The chunk that answered last. -/
structure ChunkCache where
  /-- The bytes of the chunk. -/
  chunk : List UInt8
  /-- The offset of its first byte. -/
  start : Nat
  /-- The offset after its last byte. -/
  stop : Nat
  deriving DecidableEq, Repr

namespace ChunkCache

/-- The cache before the first request, which covers no offset. -/
def empty : ChunkCache := ⟨[], 0, 0⟩

/-- The cache after looking up the chunk of an offset inside the text. -/
def refill (chunks : List (List UInt8)) (cache : ChunkCache) (offset : Nat) : ChunkCache :=
  if offset < cache.start || cache.stop ≤ offset then
    match chunkAt? chunks offset with
    | some (chunk, start) => ⟨chunk, start, start + chunk.length⟩
    | none => cache
  else cache

/-- The bytes from an offset to the end of its chunk, none beyond the end of the text. -/
def bytesFrom (chunks : List (List UInt8)) (cache : ChunkCache) (offset : Nat) :
    List UInt8 × ChunkCache :=
  if chunks.flatten.length ≤ offset then ([], cache)
  else
    let cache := cache.refill chunks offset
    (cache.chunk.drop (offset - cache.start), cache)

/-- The answers to a sequence of requests, each with the cache that the one before it left. -/
def bytesFromAll (chunks : List (List UInt8)) : ChunkCache → List Nat → List (List UInt8)
  | _, [] => []
  | cache, offset :: later =>
    let (bytes, cache) := cache.bytesFrom chunks offset
    bytes :: bytesFromAll chunks cache later

end ChunkCache

end Retint.Text
