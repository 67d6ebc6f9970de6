import OptimumGateway.Enrollment.Credential
import OptimumGateway.Foundation.Base64URL

/-!
# The canonical form of a public key

The key that `jwkFromPublic` builds from a SEC 1 uncompressed point, and the text that
`Thumbprint` hashes.  The coordinates are taken from the point at a fixed width, so a
coordinate with zero bytes in front has as many digits as any other.  The text is the one of
RFC 7638, and it determines the point.

`encoding/json` writes the fields in the order of their declaration and escapes only what
`jsonEscape` escapes.
-/

namespace OptimumGateway
namespace Enrollment

open Foundation

/-- The 65 bytes of an uncompressed point: the tag 4 and two coordinates of 32 bytes. -/
structure UncompressedPoint where
  bytes : List UInt8
  length_eq : bytes.length = 1 + 2 * coordLen
  head_eq : bytes.head? = some 4
deriving DecidableEq

namespace UncompressedPoint

def x (p : UncompressedPoint) : List UInt8 :=
  (p.bytes.drop 1).take coordLen

def y (p : UncompressedPoint) : List UInt8 :=
  p.bytes.drop (1 + coordLen)

variable (p : UncompressedPoint)

theorem bytes_eq :
    p.bytes = 4 :: (p.x ++ p.y) := by
  have hrest : p.x ++ p.y = p.bytes.drop 1 := by
    rw [x, y, ← List.drop_drop, List.take_append_drop]
  rw [hrest, List.drop_one]
  exact (List.cons_head?_tail p.head_eq).symm

theorem length_x :
    p.x.length = coordLen := by
  rw [x, List.length_take, List.length_drop, p.length_eq]
  decide

theorem length_y :
    p.y.length = coordLen := by
  rw [y, List.length_drop, p.length_eq]
  decide

theorem eq_of_coordinates
    {p p' : UncompressedPoint}
    (hx : p.x = p'.x)
    (hy : p.y = p'.y) :
    p = p' := by
  have hbytes : p.bytes = p'.bytes := by
    rw [p.bytes_eq, p'.bytes_eq, hx, hy]
  cases p
  cases p'
  cases hbytes
  rfl

end UncompressedPoint

/-- Two fields between fixed texts are determined if the first has a fixed width. -/
theorem append_fields_inj
    {a b c x y x' y' : String}
    (hx : x.length = x'.length)
    (h : a ++ x ++ b ++ y ++ c = a ++ x' ++ b ++ y' ++ c) :
    x = x' ∧ y = y' := by
  have hlist := congrArg String.toList h
  simp only [String.toList_append, List.append_assoc] at hlist
  obtain ⟨hxs, hrest⟩ := List.append_inj (List.append_cancel_left hlist)
    (by rw [String.length_toList, String.length_toList, hx])
  have hys := List.append_cancel_right (List.append_cancel_left hrest)
  exact ⟨String.toList_inj.mp hxs, String.toList_inj.mp hys⟩

/-- The text of RFC 7638: the required members in lexicographic order, without blanks. -/
def rfc7638Text (x y : String) : String :=
  "\x7b\"crv\":\"P-256\",\"kty\":\"EC\",\"x\":\"" ++ x ++ "\",\"y\":\"" ++ y ++ "\"\x7d"

/-- A key is the wire form of a point: each coordinate is 43 digits that decode to its 32
bytes, and the text of the key is the canonical one. -/
structure EncodesPoint (jwk : PublicJWK) (p : UncompressedPoint) : Prop where
  x_length : jwk.x.length = 43
  y_length : jwk.y.length = 43
  x_digits : ∀ c ∈ jwk.x.toList, (base64URLValue c).isSome
  y_digits : ∀ c ∈ jwk.y.toList, (base64URLValue c).isSome
  x_decode : rawURLDecodeString jwk.x = some p.x
  y_decode : rawURLDecodeString jwk.y = some p.y
  canonical_eq : jwk.canonical = rfc7638Text jwk.x jwk.y

/-- The wire form of a point. -/
def UncompressedPoint.jwk (p : UncompressedPoint) : PublicJWK where
  crv := "P-256"
  kty := "EC"
  x := rawURLEncodeToString p.x
  y := rawURLEncodeToString p.y

theorem append_quoted_fields
    (a b c q x y : String) :
    a ++ (q ++ x ++ q) ++ b ++ (q ++ y ++ q) ++ c =
      (a ++ q) ++ x ++ (q ++ b ++ q) ++ y ++ (q ++ c) := by
  simp only [String.append_assoc]

/-- The text that is hashed is the canonical one, and has no escaped characters. -/
theorem UncompressedPoint.canonical_jwk (p : UncompressedPoint) :
    p.jwk.canonical = rfc7638Text p.jwk.x p.jwk.y := by
  have hfront : "\x7b\"crv\":" ++ jsonString "P-256" ++ ",\"kty\":" ++ jsonString "EC" ++
      ",\"x\":" ++ "\"" = "\x7b\"crv\":\"P-256\",\"kty\":\"EC\",\"x\":\"" := by
    decide +kernel
  have hmiddle : "\"" ++ ",\"y\":" ++ "\"" = "\",\"y\":\"" := by
    decide +kernel
  have hend : "\"" ++ "\x7d" = "\"\x7d" := by
    decide +kernel
  unfold PublicJWK.canonical UncompressedPoint.jwk rfc7638Text
  rw [jsonString_rawURLEncodeToString, jsonString_rawURLEncodeToString, append_quoted_fields,
    hfront, hmiddle, hend]

theorem UncompressedPoint.encodes_jwk (p : UncompressedPoint) :
    EncodesPoint p.jwk p where
  x_length := by
    rw [UncompressedPoint.jwk, length_rawURLEncodeToString, p.length_x]
    decide
  y_length := by
    rw [UncompressedPoint.jwk, length_rawURLEncodeToString, p.length_y]
    decide
  x_digits := isSome_base64URLValue p.x
  y_digits := isSome_base64URLValue p.y
  x_decode := rawURLDecodeString_encode p.x
  y_decode := rawURLDecodeString_encode p.y
  canonical_eq := p.canonical_jwk

theorem EncodesPoint.eq_of_canonical
    {jwk jwk' : PublicJWK} {p p' : UncompressedPoint}
    (h : EncodesPoint jwk p)
    (h' : EncodesPoint jwk' p')
    (htext : jwk.canonical = jwk'.canonical) :
    p = p' := by
  rw [h.canonical_eq, h'.canonical_eq] at htext
  obtain ⟨hx, hy⟩ := append_fields_inj (h.x_length.trans h'.x_length.symm) htext
  apply UncompressedPoint.eq_of_coordinates
  · rw [← Option.some_inj, ← h.x_decode, ← h'.x_decode, hx]
  · rw [← Option.some_inj, ← h.y_decode, ← h'.y_decode, hy]

section Keys

variable {Key : Type} {ops : KeyOps Key} {key : Key} {p : UncompressedPoint}

theorem jwkFromPublic_of_point
    (h : ops.publicBytes key = .ok p.bytes) :
    jwkFromPublic ops key = .ok p.jwk := by
  have hvalid : ¬ (p.bytes.length ≠ 1 + 2 * coordLen ∨ p.bytes.head? ≠ some 4) := by
    simp [p.length_eq, p.head_eq]
  simp only [jwkFromPublic, h, if_neg hvalid]
  rfl

/-- For every two keys that are given as uncompressed points, `jwkFromPublic` gives their wire
forms, `Thumbprint` hashes their canonical texts, and the texts are the same exactly for the
same point. -/
theorem canonical_jwk_of_points
    {Key : Type}
    (ops : KeyOps Key)
    (key key' : Key)
    (p p' : UncompressedPoint)
    (h : ops.publicBytes key = .ok p.bytes)
    (h' : ops.publicBytes key' = .ok p'.bytes) :
    ∃ jwk jwk',
      jwkFromPublic ops key = .ok jwk ∧
      jwkFromPublic ops key' = .ok jwk' ∧
      EncodesPoint jwk p ∧
      EncodesPoint jwk' p' ∧
      jwk.thumbprint ops =
        rawURLEncodeToString (ops.sha256 (rfc7638Text jwk.x jwk.y).toUTF8.data.toList) ∧
      (jwk.canonical = jwk'.canonical ↔ p = p') := by
  refine ⟨p.jwk, p'.jwk, jwkFromPublic_of_point h, jwkFromPublic_of_point h', p.encodes_jwk,
    p'.encodes_jwk, ?_, ?_⟩
  · rw [PublicJWK.thumbprint, p.canonical_jwk]
  · constructor
    · intro htext
      exact p.encodes_jwk.eq_of_canonical p'.encodes_jwk htext
    · intro hp
      rw [hp]

/-- The multiple 379 of the base point of P-256; its first coordinate has a zero byte in
front. -/
def zeroFrontPoint : UncompressedPoint where
  bytes :=
    [4, 0, 85, 67, 137, 74, 243, 208, 14, 215, 215, 64, 171, 219, 215, 92, 150, 176, 104, 119,
     183, 135, 219, 95, 112, 238, 167, 139, 144, 168, 215, 192, 10, 187, 76, 133, 163, 216, 234,
     41, 239, 170, 250, 36, 64, 105, 18, 221, 132, 213, 177, 77, 195, 43, 246, 86, 239, 108, 107,
     213, 138, 93, 148, 63, 146]
  length_eq := rfl
  head_eq := rfl

def basePoint : UncompressedPoint where
  bytes :=
    [4, 107, 23, 209, 242, 225, 44, 66, 71, 248, 188, 230, 229, 99, 164, 64, 242, 119, 3, 125,
     129, 45, 235, 51, 160, 244, 161, 57, 69, 216, 152, 194, 150, 79, 227, 66, 226, 254, 26, 127,
     155, 142, 231, 235, 74, 124, 15, 158, 22, 43, 206, 51, 87, 107, 49, 94, 206, 203, 182, 64,
     104, 55, 191, 81, 245]
  length_eq := rfl
  head_eq := rfl

/-- The two points, with the digests of their canonical texts. -/
def pointOps : KeyOps UncompressedPoint where
  publicBytes p := .ok p.bytes
  sha256 text :=
    if text[31]? = some 65 then
      [237, 140, 94, 233, 207, 247, 108, 6, 186, 146, 38, 138, 212, 111, 129, 102, 104, 189, 17,
       227, 108, 82, 105, 92, 109, 217, 235, 180, 183, 174, 43, 129]
    else
      [199, 29, 1, 112, 15, 176, 50, 136, 112, 241, 171, 88, 12, 147, 158, 234, 151, 134, 50, 135,
       100, 148, 109, 176, 68, 112, 101, 92, 115, 47, 151, 67]

/-- A first coordinate with a zero byte in front, and one without. -/
theorem canonical_jwk_leading_zero :
    ∃ jwk jwk',
      jwkFromPublic pointOps zeroFrontPoint = .ok jwk ∧
      jwkFromPublic pointOps basePoint = .ok jwk' ∧
      EncodesPoint jwk zeroFrontPoint ∧
      EncodesPoint jwk' basePoint ∧
      jwk.thumbprint pointOps = "7Yxe6c_3bAa6kiaK1G-BZmi9EeNsUmlcbdnrtLeuK4E" ∧
      jwk.canonical ≠ jwk'.canonical := by
  obtain ⟨jwk, jwk', hjwk, hjwk', hp, hp', -, htext⟩ :=
    canonical_jwk_of_points pointOps zeroFrontPoint basePoint zeroFrontPoint basePoint rfl rfl
  have hne : zeroFrontPoint ≠ basePoint := by
    decide
  refine ⟨jwk, jwk', hjwk, hjwk', hp, hp', ?_, fun h => hne (htext.mp h)⟩
  rw [jwkFromPublic_of_point (p := zeroFrontPoint) rfl] at hjwk
  obtain rfl := Except.ok.inj hjwk
  decide +kernel

end Keys

end Enrollment
end OptimumGateway
