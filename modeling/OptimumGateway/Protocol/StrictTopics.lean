import OptimumGateway.Foundation.TextEncoding
import OptimumGateway.Protocol.Topics

/-!
# Strict topics

A full topic is classified by substrings of its text: it is a topic of beacon blocks when
`beacon_block` occurs in it, and a topic of an attestation subnet when `beacon_attestation_`
occurs in it and a number below 64 follows its last underscore.  The digest is read in any
case of its letters.

`buildFullTopic_descriptor_eq_iff` says for which topics nothing is lost by that: those in the
strict format, with a digest in lower case and with exactly the name that the classification
stands for.
-/

namespace OptimumGateway
namespace Protocol

open Foundation

section Form

/-- The descriptor that metadata stand for. -/
def TopicMeta.descriptor (m : TopicMeta) : String :=
  match m.kind with
  | .unknown => ""
  | .beaconBlock => beaconBlockBase
  | .attestation => attestationDescriptor m.attestationSubnet.toNat

/-- The class `[0-9a-f]`. -/
def isLowerHexDigit (c : Char) : Bool :=
  (0x30 ≤ c.toNat && c.toNat ≤ 0x39) || (0x61 ≤ c.toNat && c.toNat ≤ 0x66)

/-- The names of the strict format: the base name of blocks, or that of attestations with a
decimal index. -/
def StrictName : TopicKind → List Char → Prop
  | .unknown, _ => False
  | .beaconBlock, name => name = beaconBlockBase.toList
  | .attestation, name =>
      ∃ index, name = beaconAttestationBase.toList ++ '_' :: index ∧ IsDecimal index

/-- The text of a full topic. -/
def fullTopicText (digest name : List Char) : List Char :=
  "/eth2/".toList ++ digest ++ "/".toList ++ name ++ "/ssz_snappy".toList

/-- The strict format of a topic of some kind. -/
def StrictTopic (kind : TopicKind) (topic : String) : Prop :=
  ∃ digest name, topic.toList = fullTopicText digest name ∧ digest.length = 8 ∧
    (∀ c ∈ digest, isLowerHexDigit c = true) ∧ StrictName kind name

end Form

section Texts

variable {t : String} {digest name : List Char}

theorem fullTopicText_inj
    {digest' name' : List Char}
    (hlength : digest.length = digest'.length)
    (h : fullTopicText digest name = fullTopicText digest' name') :
    digest = digest' ∧ name = name' := by
  unfold fullTopicText at h
  have hrest := List.append_cancel_right h
  simp only [List.append_assoc] at hrest
  obtain ⟨hdigest, hname⟩ := List.append_inj (List.append_cancel_left hrest) hlength
  exact ⟨hdigest, List.append_cancel_left hname⟩

/-- The text of a topic with an index, cut at the last slash and the last underscore. -/
theorem fullTopicText_indexed
    (digest base index : List Char) :
    fullTopicText digest (base ++ '_' :: index) =
      "/eth2/".toList ++ digest ++ "/".toList ++ base ++ '_' :: index ++
        '/' :: "ssz_snappy".toList := by
  unfold fullTopicText
  rw [← List.append_assoc _ base]
  rfl

/-- A hexadecimal digit is in lower case when lowering it changes nothing. -/
theorem toLowerRune_eq_self_iff
    {c : Char}
    (h : isHexDigit c = true) :
    toLowerRune c = c ↔ isLowerHexDigit c = true := by
  have hall : ∀ n : Fin 128,
      (0x30 ≤ n.val ∧ n.val ≤ 0x39 ∨ 0x41 ≤ n.val ∧ n.val ≤ 0x46) ∨
        0x61 ≤ n.val ∧ n.val ≤ 0x66 →
      (lowerCode n = n ↔ 0x30 ≤ n.val ∧ n.val ≤ 0x39 ∨ 0x61 ≤ n.val ∧ n.val ≤ 0x66) := by
    decide +kernel
  simp only [isHexDigit, Bool.or_eq_true, Bool.and_eq_true, decide_eq_true_eq] at h
  rw [← Char.toNat_inj, toNat_toLowerRune, hall ⟨c.toNat, by omega⟩ h]
  simp [isLowerHexDigit]

/-- The text of a topic with a digest. -/
theorem text_of_getForkDigestFromTopic
    (h : getForkDigestFromTopic t ≠ "") :
    ∃ digest name, IsForkDigest digest ∧ EthTopicName name ∧
      t.toList = fullTopicText digest.toList name ∧
      getForkDigestFromTopic t = toLower digest := by
  unfold getForkDigestFromTopic at h ⊢
  cases hdigest : ethTopicDigest t with
  | none =>
      rw [hdigest] at h
      exact absurd rfl h
  | some digest =>
      obtain ⟨hfork, name, hname, htext⟩ := ethTopicDigest_eq_some_iff.mp hdigest
      exact ⟨digest, name, hfork, hname, htext, rfl⟩

theorem toLower_eq_self_iff
    {digest : String}
    (h : IsForkDigest digest) :
    toLower digest = digest ↔ ∀ c ∈ digest.toList, isLowerHexDigit c = true := by
  have hmap : digest.toList.map toLowerRune = digest.toList ↔
      ∀ c ∈ digest.toList, toLowerRune c = c := by
    conv_lhs => rw [← List.map_id digest.toList]
    rw [List.map_map]
    exact List.map_inj_left
  rw [← String.toList_inj, toLower, String.toList_ofList, hmap]
  exact forall₂_congr fun c hc => toLowerRune_eq_self_iff (h.2 c hc)

theorem toList_buildFullTopic
    (forkDigest descriptor : String) :
    (buildFullTopic forkDigest descriptor).toList =
      fullTopicText (toLower forkDigest).toList (trimSpace descriptor).toList := by
  rw [buildFullTopic]
  rw [String.toList_append, String.toList_append, String.toList_append, String.toList_append]
  unfold fullTopicText
  rfl

/-- What is built from the digest of a topic is the topic itself when the digest is in lower
case and the descriptor is its name. -/
theorem buildFullTopic_eq_iff
    {digest descriptor : String}
    (hfork : IsForkDigest digest)
    (ht : t.toList = fullTopicText digest.toList name) :
    buildFullTopic (toLower digest) descriptor = t
      ↔
    (∀ c ∈ digest.toList, isLowerHexDigit c = true) ∧
      (trimSpace descriptor).toList = name := by
  rw [← String.toList_inj, toList_buildFullTopic, toLower_idem, ht, ← toLower_eq_self_iff hfork,
    ← String.toList_inj]
  constructor
  · intro h
    exact fullTopicText_inj (by simp [toLower]) h
  · rintro ⟨hlower, hname⟩
    rw [hlower, hname]

end Texts

section Classification

variable {t : String} {n : Nat}

theorem toList_attestationDescriptor
    (n : Nat) :
    (attestationDescriptor n).toList =
      beaconAttestationBase.toList ++ '_' :: Nat.toDigits 10 n := by
  simp [attestationDescriptor]

/-- What a topic can be classified as. -/
theorem parseTopicMeta_cases
    (t : String) :
    parseTopicMeta t = ⟨.unknown, 0⟩ ∨ parseTopicMeta t = ⟨.beaconBlock, 0⟩ ∨
      ∃ idx, extractAttestationTopicIndex t = .ok idx ∧
        parseTopicMeta t = ⟨.attestation, idx⟩ := by
  unfold parseTopicMeta
  split
  · exact Or.inr (Or.inl rfl)
  · split
    · split
      · exact Or.inl rfl
      · rename_i idx hidx
        exact Or.inr (Or.inr ⟨idx, hidx, rfl⟩)
    · exact Or.inl rfl

theorem extractAttestationTopicIndex_lt
    {idx : UInt32}
    (h : extractAttestationTopicIndex t = .ok idx) :
    idx.toNat < attestationSubnetCount := by
  unfold extractAttestationTopicIndex at h
  split at h
  · cases h
  · split at h
    · cases h
    · rename_i index _
      cases hparse : parseUint (String.ofList index) with
      | error err =>
          rw [hparse] at h
          cases h
      | ok n =>
          rw [hparse] at h
          exact (checkedIndex_eq_ok h).2

theorem extractAttestationTopicIndex_of_kind
    (h : (parseTopicMeta t).kind = .attestation) :
    extractAttestationTopicIndex t = .ok (parseTopicMeta t).attestationSubnet := by
  rcases parseTopicMeta_cases t with hmeta | hmeta | ⟨idx, hidx, hmeta⟩
  · rw [hmeta] at h
    cases h
  · rw [hmeta] at h
    cases h
  · rw [hmeta, hidx]

/-- The name of a topic is the one its classification stands for exactly when it is strict. -/
theorem descriptor_eq_name_iff
    {digest name : List Char}
    (ht : t.toList = fullTopicText digest name)
    (hknown : (parseTopicMeta t).kind ≠ .unknown) :
    (trimSpace (parseTopicMeta t).descriptor).toList = name
      ↔
    StrictName (parseTopicMeta t).kind name := by
  cases hkind : (parseTopicMeta t).kind with
  | unknown => exact absurd hkind hknown
  | beaconBlock =>
      rw [TopicMeta.descriptor, hkind]
      simp only [ethTopicName_beaconBlockBase.trimSpace_eq]
      exact eq_comm
  | attestation =>
      rw [TopicMeta.descriptor, hkind]
      simp only [(ethTopicName_attestationDescriptor _).trimSpace_eq]
      rw [toList_attestationDescriptor]
      constructor
      · intro hname
        exact ⟨_, hname.symm, isDecimal_toDigits _⟩
      · rintro ⟨index, rfl, hdecimal⟩
        have hunderscore : '_' ∉ index := by
          intro hmem
          exact absurd (hdecimal.2.1 _ hmem) (by decide)
        have hidx := extractAttestationTopicIndex_of_kind hkind
        have hlast := ht.trans (fullTopicText_indexed digest beaconAttestationBase.toList index)
        rw [(extractAttestationTopicIndex_eq_ok hlast hunderscore hidx).1,
          hdecimal.toDigits_value]

/-- The classification of a topic loses nothing exactly when the topic is strict. -/
theorem buildFullTopic_descriptor_eq_iff
    (hdigest : getForkDigestFromTopic t ≠ "")
    (hknown : (parseTopicMeta t).kind ≠ .unknown) :
    buildFullTopic (getForkDigestFromTopic t) (parseTopicMeta t).descriptor = t
      ↔
    StrictTopic (parseTopicMeta t).kind t := by
  obtain ⟨digest, name, hfork, -, htext, hfound⟩ := text_of_getForkDigestFromTopic hdigest
  rw [hfound, buildFullTopic_eq_iff hfork htext, descriptor_eq_name_iff htext hknown]
  constructor
  · rintro ⟨hlower, hname⟩
    exact ⟨digest.toList, name, htext, hfork.1, hlower, hname⟩
  · rintro ⟨digest', name', htext', hlength, hlower, hname⟩
    obtain ⟨rfl, rfl⟩ := fullTopicText_inj (hfork.1.trans hlength.symm) (htext.symm.trans htext')
    exact ⟨hlower, hname⟩

theorem le_ofDigitChars
    (l : List Char)
    (n : Nat) :
    n ≤ Nat.ofDigitChars 10 l n := by
  induction l generalizing n with
  | nil => exact Nat.le_refl n
  | cons c l ih =>
      rw [Nat.ofDigitChars_cons]
      exact Nat.le_trans (by omega) (ih _)

/-- Digits of a number that fits are parsed. -/
theorem parseUintLoop_of_digits
    {text : String} {l : List Char}
    (hdigits : ∀ c ∈ l, c.isDigit = true)
    (hfits : Nat.ofDigitChars 10 l n < 2 ^ 64) :
    parseUintLoop text n l = .ok (Nat.ofDigitChars 10 l n) := by
  induction l generalizing n with
  | nil => rfl
  | cons c l ih =>
      rw [Nat.ofDigitChars_cons] at hfits ⊢
      have hstep := le_ofDigitChars l (10 * n + (c.toNat - '0'.toNat))
      rw [parseUintLoop, if_neg (by simp [hdigits c (by simp)]), if_neg (by omega)]
      exact ih (fun c' hc' => hdigits c' (List.mem_cons_of_mem c hc')) hfits

theorem extractAttestationTopicIndex_of_subnet
    (forkDigest : String)
    (hn : n < attestationSubnetCount) :
    extractAttestationTopicIndex (buildFullTopic forkDigest (attestationDescriptor n)) =
      .ok (UInt32.ofNat n) := by
  have hslash : '/' ∉ "ssz_snappy".toList := by
    decide
  have hvalue : Nat.ofDigitChars 10 (Nat.toDigits 10 n) 0 = n :=
    Nat.ofDigitChars_toDigits (by omega) (by omega)
  have hcount : n < 64 := hn
  have hparse : parseUint (String.ofList (Nat.toDigits 10 n)) = .ok n := by
    rw [parseUint, if_neg (by simp [Nat.toDigits_ne_nil]), String.toList_ofList,
      parseUintLoop_of_digits (isDecimal_toDigits n).2.1 (by omega), hvalue]
  unfold extractAttestationTopicIndex
  rw [toList_buildFullTopic_attestationDescriptor, cutLast_append hslash]
  simp only
  rw [cutLast_append Nat.underscore_not_in_toDigits]
  simp only [hparse, bind, Except.bind]
  rw [if_neg (Nat.not_le.mpr hn)]

/-- The letter `k` occurs in the name of blocks but not in a topic of attestations. -/
theorem notMem_fullTopicText
    {digest name : List Char}
    (hdigest : 'k' ∉ digest)
    (hname : 'k' ∉ name) :
    'k' ∉ fullTopicText digest name := by
  intro h
  unfold fullTopicText at h
  rcases List.mem_append.mp h with h | h
  · rcases List.mem_append.mp h with h | h
    · rcases List.mem_append.mp h with h | h
      · rcases List.mem_append.mp h with h | h
        · exact absurd h (by decide)
        · exact hdigest h
      · exact absurd h (by decide)
    · exact hname h
  · exact absurd h (by decide)

theorem isBeaconBlockTopic_of_subnet
    {forkDigest : String}
    (hdigest : IsForkDigest (toLower forkDigest))
    (n : Nat) :
    isBeaconBlockTopic (buildFullTopic forkDigest (attestationDescriptor n)) = false := by
  have hname : 'k' ∉ (attestationDescriptor n).toList := by
    rw [toList_attestationDescriptor]
    intro h
    rcases List.mem_append.mp h with h | h
    · exact absurd h (by decide)
    · rcases List.mem_cons.mp h with h | h
      · exact absurd h (by decide)
      · exact absurd ((isDecimal_toDigits n).2.1 _ h) (by decide)
  have hhex : 'k' ∉ (toLower forkDigest).toList := by
    intro h
    exact absurd (hdigest.2 _ h) (by decide)
  refine decide_eq_false ?_
  intro hinfix
  have hmem : 'k' ∈ beaconBlockBase.toList := by
    decide
  have htext := hinfix.subset hmem
  rw [toList_buildFullTopic, (ethTopicName_attestationDescriptor n).trimSpace_eq] at htext
  exact notMem_fullTopicText hhex hname htext

theorem parseTopicMeta_of_subnet
    {forkDigest : String}
    (hdigest : IsForkDigest (toLower forkDigest))
    (hn : n < attestationSubnetCount) :
    parseTopicMeta (buildFullTopic forkDigest (attestationDescriptor n)) =
      ⟨.attestation, UInt32.ofNat n⟩ := by
  have hattestation : isAttestationTopic
      (buildFullTopic forkDigest (attestationDescriptor n)) = true := by
    refine decide_eq_true ?_
    rw [toList_buildFullTopic, (ethTopicName_attestationDescriptor n).trimSpace_eq]
    refine List.IsInfix.trans ?_ (List.infix_append _ _ _)
    have htext : (attestationDescriptor n).toList =
        (beaconAttestationBase ++ "_").toList ++ (toString n).toList := String.toList_append
    rw [htext]
    exact (List.prefix_append _ _).isInfix
  rw [parseTopicMeta, isBeaconBlockTopic_of_subnet hdigest, hattestation,
    extractAttestationTopicIndex_of_subnet forkDigest hn]
  rfl

theorem parseTopicMeta_of_block
    (forkDigest : String) :
    parseTopicMeta (buildFullTopic forkDigest beaconBlockBase) = ⟨.beaconBlock, 0⟩ := by
  have hblock : isBeaconBlockTopic (buildFullTopic forkDigest beaconBlockBase) = true := by
    refine decide_eq_true ?_
    rw [toList_buildFullTopic, ethTopicName_beaconBlockBase.trimSpace_eq]
    exact List.infix_append _ _ _
  rw [parseTopicMeta, if_pos hblock]

/-- The strict topic of a classification is classified the same. -/
theorem classified_as_descriptor
    (hdigest : getForkDigestFromTopic t ≠ "")
    (hknown : (parseTopicMeta t).kind ≠ .unknown) :
    getForkDigestFromTopic
        (buildFullTopic (getForkDigestFromTopic t) (parseTopicMeta t).descriptor) =
      getForkDigestFromTopic t ∧
    parseTopicMeta (buildFullTopic (getForkDigestFromTopic t) (parseTopicMeta t).descriptor) =
      parseTopicMeta t := by
  obtain ⟨digest, name, hfork, -, -, hfound⟩ := text_of_getForkDigestFromTopic hdigest
  have hlower : IsForkDigest (toLower (getForkDigestFromTopic t)) := by
    rw [hfound, toLower_idem]
    exact isForkDigest_toLower_iff.mpr hfork
  have hdigests : ∀ descriptor, EthTopicName (trimSpace descriptor).toList →
      getForkDigestFromTopic (buildFullTopic (getForkDigestFromTopic t) descriptor) =
        getForkDigestFromTopic t := by
    intro descriptor hname
    rw [getForkDigestFromTopic_buildFullTopic hlower hname, hfound, toLower_idem]
  rcases parseTopicMeta_cases t with hmeta | hmeta | ⟨idx, hidx, hmeta⟩
  · exact absurd (congrArg TopicMeta.kind hmeta) hknown
  · rw [hmeta]
    refine ⟨hdigests beaconBlockBase ?_, parseTopicMeta_of_block _⟩
    rw [ethTopicName_beaconBlockBase.trimSpace_eq]
    exact ethTopicName_beaconBlockBase
  · rw [hmeta]
    refine ⟨hdigests (attestationDescriptor idx.toNat) ?_, ?_⟩
    · rw [(ethTopicName_attestationDescriptor idx.toNat).trimSpace_eq]
      exact ethTopicName_attestationDescriptor idx.toNat
    · refine (parseTopicMeta_of_subnet hlower (extractAttestationTopicIndex_lt hidx)).trans ?_
      rw [UInt32.ofNat_toNat]

end Classification

end Protocol
end OptimumGateway
