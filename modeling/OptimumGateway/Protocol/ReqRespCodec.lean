import OptimumGateway.Foundation.SnappyFraming
import OptimumGateway.Protocol.RPC

/-!
# The codec of requests and responses

This module models the request and response half of `pkg/protocol/consensus/codec.go`: the
length of the SSZ encoding as a varint, and the encoding in the snappy framing format.

The decoder reads the length byte by byte, so that nothing behind it is taken, and gives
the framed reader a limited part of the stream.  The limit is the bound of the block
format, and the frames of every message fit in it.
-/

namespace OptimumGateway
namespace Protocol

open Foundation Foundation.Prog

section Codec

variable {α : Type} (f : SnappyFraming)

/-- `EncodeWithMaxLength` into a buffer: the number of bytes that it reports, and what it
has written. -/
def encodeWithMaxLength [Marshaler α] (msg : α) : Except GoError (Nat × Bytes) := do
  let b ← Marshaler.marshalSSZ msg
  if b.length > maxGossipPayloadSize then
    .error (.errorf "consensus: message %d bytes exceeds max %d"
      [toString b.length, toString maxGossipPayloadSize])
  else
    .ok (b.length, putUvarint b.length ++ f.encode b)

/-- `ReadByte` of the `oneByteReader`. -/
def oneByteReader : ReaderProg (Except GoError UInt8) := do
  let r ← Prog.op (.read 1)
  match r.err with
  | some err => pure (.error err)
  | none =>
      match r.data with
      | [b] => pure (.ok b)
      | _ => pure (.error errNoProgress)

/-- `DecodeWithMaxLength` into the receiver `msg`. -/
def decodeWithMaxLength [Unmarshaler α] (msg : α) : ReaderProg (Except GoError α) := do
  let msgLen ← readUvarintFrom oneByteReader
  match msgLen with
  | .error err => pure (.error err)
  | .ok msgLen =>
      if msgLen > maxGossipPayloadSize then
        pure (.error (.errorf "consensus: message length %d exceeds max %d"
          [toString msgLen, toString maxGossipPayloadSize]))
      else
        let maxCompressed := snappyMaxEncodedLen msgLen
        if maxCompressed < 0 then
          pure (.error (.errorf "consensus: message length %d too large to decode"
            [toString msgLen]))
        else do
          let buf ← limit maxCompressed.toNat (f.readFull msgLen)
          match buf with
          | .error err => pure (.error err)
          | .ok buf => pure (Unmarshaler.unmarshalSSZ msg buf)

end Codec

section RoundTrip

theorem takesByte_oneByteReader :
    TakesByte oneByteReader := by
  intro x rest t r h
  obtain ⟨answer, v, hread, hrest⟩ := returns_bind_iff.mp h
  rcases returns_op_iff.mp hread with ⟨hnil, -⟩ | ⟨-, herr, hsplit, hlength, hsome⟩
  · cases hnil
  · obtain ⟨data, err⟩ := answer
    simp only at herr hsplit hlength hsome
    subst herr
    cases data with
    | nil => exact absurd rfl (hsome (by decide))
    | cons y data =>
        obtain rfl : data = [] := by
          simpa using hlength
        obtain ⟨rfl, rfl⟩ := List.cons.inj hsplit
        exact returns_pure_iff.mp hrest

/-- Within the bound on messages there is a bound on blocks. -/
theorem snappyMaxEncodedLen_eq
    {n : Nat}
    (h : n ≤ maxGossipPayloadSize) :
    snappyMaxEncodedLen n = (32 + n + n / 6 : Nat) := by
  unfold maxGossipPayloadSize at h
  unfold snappyMaxEncodedLen
  rw [if_neg (by omega), if_neg (by omega)]

variable {α : Type} {f : SnappyFraming} {msg receiver : α} {b rest : Bytes}

/-- The limited reader has the frames in full, whatever follows them. -/
theorem returns_limited_frames
    (hf : f.Lawful)
    {t : Bytes} {r : Except GoError Bytes}
    (h : Returns delivers (limit (32 + b.length + b.length / 6) (f.readFull b.length))
      (f.encode b ++ rest) r t) :
    r = .ok b := by
  obtain ⟨u, hframes⟩ := returns_limit h
  rw [List.take_append, List.take_of_length_le (hf.length_le b)] at hframes
  exact hf.readFull_encode hframes

theorem returns_decodeWithMaxLength
    [Unmarshaler α]
    (hf : f.Lawful)
    (hsize : b.length ≤ maxGossipPayloadSize)
    (hinverse : Unmarshaler.unmarshalSSZ receiver b = .ok msg)
    {t : Bytes} {r : Except GoError α}
    (h : Returns delivers (decodeWithMaxLength f receiver)
      (putUvarint b.length ++ (f.encode b ++ rest)) r t) :
    r = .ok msg := by
  obtain ⟨msgLen, v, hlength, hrest⟩ := returns_bind_iff.mp h
  have hsmall : b.length < 2 ^ 63 := by
    unfold maxGossipPayloadSize at hsize
    omega
  obtain ⟨rfl, rfl⟩ := returns_readUvarintFrom takesByte_oneByteReader hsmall hlength
  simp only at hrest
  rw [if_neg (by omega), snappyMaxEncodedLen_eq hsize, if_neg (by omega),
    Int.toNat_natCast] at hrest
  obtain ⟨buf, w, hframes, hret⟩ := returns_bind_iff.mp hrest
  obtain rfl := returns_limited_frames hf hframes
  rw [(returns_pure_iff.mp hret).1, hinverse]

/-- A message of at most 10 MiB is encoded, and the decoder returns it from the bytes that
were written and any others behind them, in whatever chunks they come.  The length is read
without a byte of what follows, and the frames fit in the limit. -/
theorem decodeWithMaxLength_encode
    [Marshaler α] [Unmarshaler α]
    (hf : f.Lawful)
    (hmarshal : Marshaler.marshalSSZ msg = .ok b)
    (hsize : b.length ≤ maxGossipPayloadSize)
    (hinverse : Unmarshaler.unmarshalSSZ receiver b = .ok msg)
    (rest : Bytes) :
    ∃ written, encodeWithMaxLength f msg = .ok (b.length, written) ∧
      (∃ t, Returns delivers (decodeWithMaxLength f receiver) (written ++ rest) (.ok msg) t) ∧
      (∀ r t, Returns delivers (decodeWithMaxLength f receiver) (written ++ rest) r t →
        r = .ok msg) ∧
      (∀ r t, Returns delivers (readUvarintFrom oneByteReader) (written ++ rest) r t →
        r = .ok b.length ∧ t = f.encode b ++ rest) ∧
      (f.encode b).length ≤ 32 + b.length + b.length / 6 ∧
      snappyMaxEncodedLen b.length = (32 + b.length + b.length / 6 : Nat) := by
  refine ⟨putUvarint b.length ++ f.encode b, ?_, ?_⟩
  · unfold encodeWithMaxLength
    rw [hmarshal]
    exact if_neg (by omega)
  rw [List.append_assoc]
  have hdecoded : ∀ r t, Returns delivers (decodeWithMaxLength f receiver)
      (putUvarint b.length ++ (f.encode b ++ rest)) r t → r = .ok msg := by
    intro r t h
    exact returns_decodeWithMaxLength hf hsize hinverse h
  refine ⟨?_, hdecoded, ?_, hf.length_le b, snappyMaxEncodedLen_eq hsize⟩
  · obtain ⟨r, t, h⟩ := exists_returns delivers_total (decodeWithMaxLength f receiver)
      (putUvarint b.length ++ (f.encode b ++ rest))
    obtain rfl := hdecoded r t h
    exact ⟨t, h⟩
  · intro r t h
    refine returns_readUvarintFrom takesByte_oneByteReader ?_ h
    unfold maxGossipPayloadSize at hsize
    omega

/-- A ping, with bytes of the next message behind it. -/
theorem decodeWithMaxLength_encode_ping :
    ∃ written, encodeWithMaxLength (storedFraming maskedCRC) (SSZUint64.mk 7) =
        .ok (8, written) ∧
      ∃ t, Returns delivers (decodeWithMaxLength (storedFraming maskedCRC) (SSZUint64.mk 0))
        (written ++ [0xff, 0x06]) (.ok (SSZUint64.mk 7)) t := by
  obtain ⟨written, hwritten, hdecoded, -⟩ := decodeWithMaxLength_encode
    (storedFraming_lawful _) (show Marshaler.marshalSSZ (SSZUint64.mk 7) = .ok _ from rfl)
    (by decide) (show Unmarshaler.unmarshalSSZ (SSZUint64.mk 0) _ = .ok _ by decide)
    [0xff, 0x06]
  exact ⟨written, hwritten, hdecoded⟩

end RoundTrip

end Protocol
end OptimumGateway
