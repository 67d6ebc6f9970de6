import OptimumGateway.Foundation.ByteReader
import OptimumGateway.Foundation.Snappy

/-!
# The snappy framing format

`SnappyFraming` has the two uses of the framing format that the codec makes: the bytes that
a buffered writer leaves after one `Write` and `Close`, and the program by which
`io.ReadFull` gets a number of bytes from a framed reader.  `SnappyFraming.Lawful` is what
the format promises: a stream identifier of 10 bytes, at most 8 bytes more for each chunk
of 64 KiB, and a reader that returns what was written, from every reader of bytes and
whatever follows in it.

`storedFraming` is the part of the format in which every chunk is stored as it is, and
`maskedCRC` the checksum that the format prescribes.
-/

namespace OptimumGateway
namespace Foundation

open Prog

section Framing

structure SnappyFraming where
  encode : Bytes → Bytes
  readFull : Nat → ReaderProg (Except GoError Bytes)

/-- Largest chunk of a framed stream. -/
def snappyChunkSize : Nat := 65536

structure SnappyFraming.Lawful (f : SnappyFraming) : Prop where
  length_encode : ∀ b : Bytes, (f.encode b).length ≤
    10 + b.length + 8 * ((b.length + (snappyChunkSize - 1)) / snappyChunkSize)
  readFull_encode : ∀ {b rest t : Bytes} {r : Except GoError Bytes},
    Returns delivers (f.readFull b.length) (f.encode b ++ rest) r t → r = .ok b

/-- `snappy.MaxEncodedLen`: the bound of the block format, negative for lengths that have
none. -/
def snappyMaxEncodedLen (n : Nat) : Int :=
  if n > 0xffffffff then
    -1
  else if 32 + n + n / 6 > 0xffffffff then
    -1
  else
    (32 + n + n / 6 : Nat)

/-- A framed stream fits in the bound of the block format. -/
theorem SnappyFraming.Lawful.length_le
    {f : SnappyFraming}
    (h : f.Lawful)
    (b : Bytes) :
    (f.encode b).length ≤ 32 + b.length + b.length / 6 := by
  have hlength := h.length_encode b
  unfold snappyChunkSize at hlength
  omega

end Framing

section Stored

/-- The chunk of the stream identifier. -/
def streamIdentifier : Bytes :=
  [0xff, 0x06, 0x00, 0x00, 0x73, 0x4e, 0x61, 0x50, 0x70, 0x59]

variable (crc : Bytes → FixedBytes 4)

/-- Type, length and checksum of an uncompressed chunk. -/
def chunkHeader (c : Bytes) : Bytes :=
  0x01 :: leBytes 3 (c.length + 4) ++ (crc c).val

def storeChunks : Nat → Bytes → Bytes
  | 0, _ => []
  | fuel + 1, b =>
      if b = [] then
        []
      else
        chunkHeader crc (b.take snappyChunkSize) ++ b.take snappyChunkSize ++
          storeChunks fuel (b.drop snappyChunkSize)

/-- One uncompressed chunk. -/
def loadChunk : ReaderProg (Except GoError Bytes) := do
  let header ← readFull 8
  match header with
  | .error err => pure (.error err)
  | .ok header => do
      let body ← readFull (leValue (slice header 1 4) - 4)
      match body with
      | .error err => pure (.error err)
      | .ok body =>
          if (crc body).val = slice header 4 8 then pure (.ok body)
          else pure (.error errCorrupt)

/-- Chunks until `need` bytes are there; a chunk that brings nothing ends the loop. -/
def loadChunks : Nat → Nat → ReaderProg (Except GoError Bytes)
  | _, 0 => pure (.ok [])
  | 0, _ + 1 => pure (.error errCorrupt)
  | fuel + 1, need + 1 => do
      let chunk ← loadChunk crc
      match chunk with
      | .error err => pure (.error err)
      | .ok c => do
          let rest ← loadChunks fuel (need + 1 - c.length)
          match rest with
          | .error err => pure (.error err)
          | .ok rest => pure (.ok (c ++ rest))

/-- Streams whose chunks are stored as they are. -/
def storedFraming : SnappyFraming where
  encode b := if b = [] then [] else streamIdentifier ++ storeChunks crc b.length b
  readFull n :=
    if n = 0 then
      pure (.ok [])
    else do
      let identifier ← readFull 10
      match identifier with
      | .error err => pure (.error err)
      | .ok identifier =>
          if identifier = streamIdentifier then loadChunks crc n n
          else pure (.error errCorrupt)

variable {crc}

/-- One bit of a CRC-32C remainder. -/
def crcShift (c : UInt32) : UInt32 :=
  if c &&& 1 = 1 then (c >>> 1) ^^^ 0x82f63b78 else c >>> 1

def crc32C (b : Bytes) : UInt32 :=
  ~~~ (b.foldl (fun c x => Nat.iterate crcShift 8 (c ^^^ x.toUInt32)) 0xffffffff)

example : crc32C [0x31, 0x32, 0x33, 0x34, 0x35, 0x36, 0x37, 0x38, 0x39] = 0xe3069283 := by
  decide +kernel

/-- The checksum of a chunk: its CRC-32C, rotated and moved by a constant. -/
def maskedCRC (b : Bytes) : FixedBytes 4 :=
  let c := crc32C b
  ⟨leBytes 4 ((c >>> 15 ||| c <<< 17) + 0xa282ead8).toNat, length_leBytes _ _⟩

theorem length_chunkHeader
    (c : Bytes) :
    (chunkHeader crc c).length = 8 := by
  simp [chunkHeader, (crc c).property]

theorem length_storeChunks
    {fuel : Nat} {b : Bytes}
    (hfuel : b.length ≤ fuel) :
    (storeChunks crc fuel b).length =
      b.length + 8 * ((b.length + (snappyChunkSize - 1)) / snappyChunkSize) := by
  induction fuel generalizing b with
  | zero =>
      obtain rfl := List.eq_nil_of_length_eq_zero (Nat.le_zero.mp hfuel)
      rfl
  | succ fuel ih =>
      by_cases hb : b = []
      · subst hb
        rfl
      · have hpos := List.length_pos_of_ne_nil hb
        rw [storeChunks, if_neg hb]
        simp only [List.length_append, length_chunkHeader, List.length_take]
        rw [ih (by simp [snappyChunkSize]; omega), List.length_drop]
        unfold snappyChunkSize
        omega

theorem returns_loadChunk
    {c rest t : Bytes} {r : Except GoError Bytes}
    (hc : c.length ≤ snappyChunkSize)
    (h : Returns delivers (loadChunk crc) (chunkHeader crc c ++ c ++ rest) r t) :
    r = .ok c ∧ t = rest := by
  unfold snappyChunkSize at hc
  obtain ⟨header, v, hheader, hrest⟩ := returns_bind_iff.mp h
  rw [List.append_assoc, ← length_chunkHeader c] at hheader
  obtain ⟨rfl, rfl⟩ := returns_readFull hheader
  have hlength : leValue (slice (chunkHeader crc c) 1 4) - 4 = c.length := by
    have hslice : slice (chunkHeader crc c) 1 4 = leBytes 3 (c.length + 4) := by
      rw [chunkHeader, List.cons_append, ← List.singleton_append,
        slice_append_right (by simp)]
      exact slice_append_left (by simp)
    rw [hslice, leValue_leBytes (by omega), Nat.add_sub_cancel]
  have hsum : slice (chunkHeader crc c) 4 8 = (crc c).val := by
    rw [chunkHeader, slice_append_right (by simp), List.length_cons, length_leBytes]
    exact slice_self (crc c).property
  obtain ⟨body, w, hbody, hcheck⟩ := returns_bind_iff.mp hrest
  rw [hlength] at hbody
  obtain ⟨rfl, rfl⟩ := returns_readFull hbody
  simp only [hsum, if_true] at hcheck
  exact returns_pure_iff.mp hcheck

theorem returns_loadChunks
    {fuel : Nat} {b rest t : Bytes} {r : Except GoError Bytes}
    (hfuel : b.length ≤ fuel)
    (h : Returns delivers (loadChunks crc fuel b.length) (storeChunks crc fuel b ++ rest) r t) :
    r = .ok b := by
  induction fuel generalizing b r t with
  | zero =>
      obtain rfl := List.eq_nil_of_length_eq_zero (Nat.le_zero.mp hfuel)
      exact (returns_pure_iff.mp h).1
  | succ fuel ih =>
      cases b with
      | nil => exact (returns_pure_iff.mp h).1
      | cons x b =>
          rw [storeChunks, if_neg (List.cons_ne_nil x b), List.append_assoc] at h
          obtain ⟨chunk, v, hchunk, hrest⟩ := returns_bind_iff.mp h
          obtain ⟨rfl, rfl⟩ := returns_loadChunk (List.length_take_le _ _) hchunk
          obtain ⟨tail, w, htail, hret⟩ := returns_bind_iff.mp hrest
          have hneed : b.length + 1 - ((x :: b).take snappyChunkSize).length =
              ((x :: b).drop snappyChunkSize).length := by
            simp only [List.length_take, List.length_drop, List.length_cons]
            omega
          rw [hneed] at htail
          have hsmaller : ((x :: b).drop snappyChunkSize).length ≤ fuel := by
            simp only [List.length_drop, List.length_cons, snappyChunkSize] at hfuel ⊢
            omega
          obtain rfl := ih hsmaller htail
          rw [(returns_pure_iff.mp hret).1, List.take_append_drop]

theorem storedFraming_lawful
    (crc : Bytes → FixedBytes 4) :
    (storedFraming crc).Lawful := by
  constructor
  case length_encode =>
    intro b
    simp only [storedFraming]
    split
    · simp
    · rw [List.length_append, length_storeChunks (Nat.le_refl _)]
      simp only [streamIdentifier, List.length_cons, List.length_nil]
      omega
  case readFull_encode =>
    intro b rest t r h
    cases b with
    | nil => exact (returns_pure_iff.mp h).1
    | cons x b =>
        simp only [storedFraming] at h
        rw [if_neg (by simp), if_neg (List.cons_ne_nil x b), List.append_assoc] at h
        obtain ⟨identifier, v, hidentifier, hrest⟩ := returns_bind_iff.mp h
        obtain ⟨rfl, rfl⟩ := returns_readFull (b := streamIdentifier) hidentifier
        simp only [if_true] at hrest
        exact returns_loadChunks (Nat.le_refl _) hrest

end Stored

end Foundation
end OptimumGateway
