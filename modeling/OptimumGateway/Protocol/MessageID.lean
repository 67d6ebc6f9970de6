import OptimumGateway.Protocol.GossipCodec
import Mathlib.Data.Set.Function

/-!
# Message ids

This module models `pkg/protocol/consensus/message_id.go`.

An id is a hash of a sign, the length of the topic, the topic and the data.  The sign says
whether the payload decompresses; the data is the decompressed payload if it does and the
payload itself if not.  Both the sign and the length have a fixed width, so the hashed
string can be taken apart again (`hashInput_inj`), and two messages share an id exactly if
they share the topic and the data behind the same sign.
-/

namespace OptimumGateway
namespace Protocol

open Foundation

section Ids

/-- The bytes of a Go string; its length is an `int`. -/
structure GoText where
  bytes : Bytes
  length_lt : bytes.length < 2 ^ 63
deriving DecidableEq

def validSnappy : FixedBytes 4 :=
  ⟨[1, 0, 0, 0], rfl⟩

def invalidSnappy : FixedBytes 4 :=
  ⟨[0, 0, 0, 0], rfl⟩

/-- The string that `hashData` hashes. -/
def hashInput (snappySign : FixedBytes 4) (topic : GoText) (data : Bytes) : Bytes :=
  let topicLenBytes := putUint64 (UInt64.ofNat topic.bytes.length)
  snappySign.val ++ topicLenBytes ++ topic.bytes ++ data

def hashData
    (sha256 : Bytes → Bytes)
    (snappySign : FixedBytes 4)
    (topic : GoText)
    (data : Bytes) : Bytes :=
  let h := sha256 (hashInput snappySign topic data)
  slice h 0 20

def msgID
    (z : Snappy)
    (sha256 : Bytes → Bytes)
    (topic : GoText)
    (msgData : Bytes) : Bytes :=
  match decodeSnappy z msgData maxGossipPayloadSize with
  | .error _ => hashData sha256 invalidSnappy topic msgData
  | .ok decodedData => hashData sha256 validSnappy topic decodedData

end Ids

section Separation

/-- A payload that decompresses within the bound. -/
def Decompresses (z : Snappy) (msgData data : Bytes) : Prop :=
  z.decode msgData = .ok data ∧ data.length ≤ maxGossipPayloadSize

/-- The string behind an id. -/
def hashedString (z : Snappy) (topic : GoText) (msgData : Bytes) : Bytes :=
  match decodeSnappy z msgData maxGossipPayloadSize with
  | .error _ => hashInput invalidSnappy topic msgData
  | .ok decodedData => hashInput validSnappy topic decodedData

variable {z : Snappy} {sha256 : Bytes → Bytes} {topic topic₁ topic₂ : GoText}
variable {m m₁ m₂ data : Bytes}

theorem msgID_eq
    (z : Snappy)
    (sha256 : Bytes → Bytes)
    (topic : GoText)
    (m : Bytes) :
    msgID z sha256 topic m = slice (sha256 (hashedString z topic m)) 0 20 := by
  unfold msgID hashedString
  split <;> rfl

/-- The sign and the length have fixed widths, and the length gives that of the topic. -/
theorem hashInput_inj
    {sign₁ sign₂ : FixedBytes 4} {data₁ data₂ : Bytes}
    (h : hashInput sign₁ topic₁ data₁ = hashInput sign₂ topic₂ data₂) :
    sign₁ = sign₂ ∧ topic₁ = topic₂ ∧ data₁ = data₂ := by
  simp only [hashInput, List.append_assoc] at h
  obtain ⟨hsign, h⟩ := List.append_inj h (sign₁.property.trans sign₂.property.symm)
  obtain ⟨hlen, h⟩ := List.append_inj h (by simp)
  have hlength : topic₁.bytes.length = topic₂.bytes.length := by
    have hread := congrArg (fun b => (getUint64 b).toNat) hlen
    have h₁ := topic₁.length_lt
    have h₂ := topic₂.length_lt
    simp only [getUint64_putUint64, UInt64.toNat_ofNat'] at hread
    omega
  obtain ⟨htopic, hdata⟩ := List.append_inj h hlength
  cases topic₁
  cases topic₂
  exact ⟨Subtype.ext hsign, by simpa using htopic, hdata⟩

theorem hashedString_of_decompresses
    (hz : z.Lawful)
    (h : Decompresses z m data) :
    hashedString z topic m = hashInput validSnappy topic data := by
  unfold hashedString
  rw [(decodeSnappy_eq_ok_iff hz).mpr h]

theorem hashedString_of_not
    (hz : z.Lawful)
    (h : ¬ ∃ data, Decompresses z m data) :
    hashedString z topic m = hashInput invalidSnappy topic m := by
  unfold hashedString
  split
  · rfl
  · rename_i data hdata
    exact absurd ⟨data, (decodeSnappy_eq_ok_iff hz).mp hdata⟩ h

/-- Two messages have one id iff they have one topic and either decompress to the same
data, or both do not decompress and are the same bytes. -/
theorem msgID_eq_iff
    (hz : z.Lawful)
    {hashed : Set Bytes}
    (hsha : Set.InjOn (fun b => slice (sha256 b) 0 20) hashed)
    (h₁ : hashedString z topic₁ m₁ ∈ hashed)
    (h₂ : hashedString z topic₂ m₂ ∈ hashed) :
    msgID z sha256 topic₁ m₁ = msgID z sha256 topic₂ m₂
      ↔
    topic₁ = topic₂ ∧
      ((∃ data, Decompresses z m₁ data ∧ Decompresses z m₂ data) ∨
        ((¬ ∃ data, Decompresses z m₁ data) ∧ (¬ ∃ data, Decompresses z m₂ data) ∧
          m₁ = m₂)) := by
  rw [msgID_eq, msgID_eq, hsha.eq_iff h₁ h₂]
  have hsigns : validSnappy ≠ invalidSnappy := by
    decide
  constructor
  · intro h
    by_cases hd₁ : ∃ data, Decompresses z m₁ data
    · obtain ⟨data₁, hdata₁⟩ := hd₁
      rw [hashedString_of_decompresses hz hdata₁] at h
      by_cases hd₂ : ∃ data, Decompresses z m₂ data
      · obtain ⟨data₂, hdata₂⟩ := hd₂
        rw [hashedString_of_decompresses hz hdata₂] at h
        obtain ⟨-, htopic, rfl⟩ := hashInput_inj h
        exact ⟨htopic, Or.inl ⟨data₁, hdata₁, hdata₂⟩⟩
      · rw [hashedString_of_not hz hd₂] at h
        exact absurd (hashInput_inj h).1 hsigns
    · rw [hashedString_of_not hz hd₁] at h
      by_cases hd₂ : ∃ data, Decompresses z m₂ data
      · obtain ⟨data₂, hdata₂⟩ := hd₂
        rw [hashedString_of_decompresses hz hdata₂] at h
        exact absurd (hashInput_inj h).1.symm hsigns
      · rw [hashedString_of_not hz hd₂] at h
        obtain ⟨-, htopic, hm⟩ := hashInput_inj h
        exact ⟨htopic, Or.inr ⟨hd₁, hd₂, hm⟩⟩
  · intro h
    obtain ⟨rfl, ⟨data, hdata₁, hdata₂⟩ | ⟨_, _, rfl⟩⟩ := h
    · rw [hashedString_of_decompresses hz hdata₁, hashedString_of_decompresses hz hdata₂]
    · rfl

/-- The digests of two strings that differ only in the length of the topic. -/
def shiftedSHA256 (text : Bytes) : Bytes :=
  if text[4]? = some 2 then
    [241, 158, 3, 198, 2, 181, 214, 118, 25, 179, 83, 146, 46, 170, 191, 34, 1, 226, 51, 157, 130,
     140, 146, 55, 99, 49, 48, 146, 93, 77, 33, 49]
  else
    [38, 192, 125, 207, 185, 158, 20, 140, 100, 147, 81, 193, 228, 208, 191, 126, 128, 17, 205,
     167, 113, 110, 7, 219, 125, 171, 87, 182, 102, 75, 81, 93]

/-- The last byte of the topic does not move into the payload. -/
theorem msgID_ne_of_shifted :
    msgID literalSnappy shiftedSHA256 ⟨[0x2f, 0x65], by decide⟩ [0x81, 0x07] ≠
      msgID literalSnappy shiftedSHA256 ⟨[0x2f, 0x65, 0x81], by decide⟩ [0x07] := by
  have hsha : Set.InjOn (fun b => slice (shiftedSHA256 b) 0 20)
      {hashedString literalSnappy ⟨[0x2f, 0x65], by decide⟩ [0x81, 0x07],
        hashedString literalSnappy ⟨[0x2f, 0x65, 0x81], by decide⟩ [0x07]} :=
    Set.injOn_pair.mpr fun h => absurd h (by decide)
  rw [ne_eq, msgID_eq_iff literalSnappy_lawful hsha (by simp) (by simp)]
  intro h
  exact absurd h.1 (by decide)

end Separation

end Protocol
end OptimumGateway
