import OptimumGateway.Foundation.GoError
import OptimumGateway.Foundation.GoStrings
import Mathlib.Algebra.Group.Nat.Defs
import Mathlib.Data.List.Infix

/-!
# Topic names

This module models `pkg/protocol/topics` and the topic functions of
`pkg/utils/topics.go`: full topics and their digests, descriptors, and the metadata
that is read from a topic.

`ethTopicDigest` is the match of the expression
`^/eth2/([0-9a-fA-F]{8})/([a-z_]+)(?:_(\d+))?/ssz_snappy$` with its first group as
the result.  `ethTopicDigest_eq_some_iff` reads the expression off the function: the
topics it accepts are `/eth2/<digest>/<name>/ssz_snappy` with eight hexadecimal
digits and a name in the form of `EthTopicName`.
-/

namespace OptimumGateway
namespace Protocol

open Foundation

section FullTopics

/-- The class `[a-z_]`. -/
def isNameRune (c : Char) : Bool :=
  (0x61 ≤ c.toNat && c.toNat ≤ 0x7A) || c == '_'

/-- The match of `([a-z_]+)(?:_(\d+))?` with a whole text.  An index is preceded by
an underscore that the class takes too. -/
def matchTopicName (l : List Char) : Bool :=
  let word := l.takeWhile isNameRune
  let index := l.dropWhile isNameRune
  if index.isEmpty then
    !word.isEmpty
  else
    index.all Char.isDigit && 2 ≤ word.length && word.getLast? == some '_'

/-- First group of a match of the topic expression. -/
def ethTopicDigest (topic : String) : Option String := do
  let rest ← topic.toList.dropPrefix? "/eth2/".toList
  let digest := rest.take 8
  if digest.length = 8 ∧ digest.all isHexDigit = true then
    let tail ← (rest.drop 8).dropPrefix? "/".toList
    let name ← tail.dropSuffix? "/ssz_snappy".toList
    if matchTopicName name = true then
      some (String.ofList digest)
    else
      none
  else
    none

def getForkDigestFromTopic (topic : String) : String :=
  match ethTopicDigest topic with
  | none => ""
  | some digest => toLower digest

def isFullEth2Topic (s : String) : Bool :=
  (ethTopicDigest (trimSpace s)).isSome

def buildFullTopic (forkDigest descriptor : String) : String :=
  "/eth2/" ++ toLower forkDigest ++ "/" ++ trimSpace descriptor ++ "/ssz_snappy"

/-- What the expression calls a digest. -/
def IsForkDigest (digest : String) : Prop :=
  digest.toList.length = 8 ∧ ∀ c ∈ digest.toList, isHexDigit c = true

instance (digest : String) : Decidable (IsForkDigest digest) :=
  @instDecidableAnd _ _ inferInstance (List.decidableBAll _ digest.toList)

/-- What the expression calls a name, with or without an index. -/
inductive EthTopicName : List Char → Prop where
  | bare {word : List Char}
      (hne : word ≠ [])
      (hword : ∀ c ∈ word, isNameRune c = true) :
      EthTopicName word
  | indexed {word index : List Char}
      (hne : word ≠ [])
      (hword : ∀ c ∈ word, isNameRune c = true)
      (hne' : index ≠ [])
      (hindex : ∀ c ∈ index, c.isDigit = true) :
      EthTopicName (word ++ '_' :: index)

theorem not_isNameRune_of_isDigit
    {c : Char}
    (h : c.isDigit = true) :
    isNameRune c = false := by
  have hrange : 48 ≤ c.toNat ∧ c.toNat ≤ 57 := by
    simpa [Char.isDigit, UInt32.le_iff_toNat_le] using h
  have hne : c ≠ '_' := by
    intro hc
    subst hc
    exact absurd h (by decide)
  simp only [isNameRune, Bool.or_eq_false_iff, Bool.and_eq_false_iff,
    decide_eq_false_iff_not, beq_eq_false_iff_ne]
  exact ⟨Or.inl (by omega), hne⟩

theorem takeWhile_indexed
    {word index : List Char}
    (hword : ∀ c ∈ word, isNameRune c = true)
    (hindex : ∀ c ∈ index, c.isDigit = true) :
    (word ++ '_' :: index).takeWhile isNameRune = word ++ ['_'] := by
  have hstop : index.takeWhile isNameRune = [] := by
    cases index with
    | nil => rfl
    | cons c index =>
        simp [not_isNameRune_of_isDigit (hindex c (by simp))]
  rw [List.takeWhile_append_of_pos hword, List.takeWhile_cons, hstop]
  rfl

theorem dropWhile_indexed
    {word index : List Char}
    (hword : ∀ c ∈ word, isNameRune c = true)
    (hindex : ∀ c ∈ index, c.isDigit = true) :
    (word ++ '_' :: index).dropWhile isNameRune = index := by
  have hall := List.takeWhile_append_dropWhile (p := isNameRune)
    (l := word ++ '_' :: index)
  rw [takeWhile_indexed hword hindex] at hall
  simpa using hall

theorem matchTopicName_iff
    {l : List Char} :
    matchTopicName l = true
      ↔
    EthTopicName l := by
  constructor
  · intro h
    have hall := List.takeWhile_append_dropWhile (p := isNameRune) (l := l)
    have hword : ∀ c ∈ l.takeWhile isNameRune, isNameRune c = true := by
      intro c hc
      exact List.mem_takeWhile_imp hc
    simp only [matchTopicName] at h
    split at h
    · rename_i hindex
      rw [List.isEmpty_iff.mp hindex, List.append_nil] at hall
      rw [← hall]
      exact EthTopicName.bare (by simpa using h) hword
    · rename_i hindex
      simp only [Bool.and_eq_true, decide_eq_true_eq, beq_iff_eq,
        List.all_eq_true] at h
      obtain ⟨⟨hdigits, hlength⟩, hlast⟩ := h
      obtain ⟨word, hw⟩ := List.getLast?_eq_some_iff.mp hlast
      rw [hw] at hall hword hlength
      rw [← hall, List.append_assoc, List.singleton_append]
      refine EthTopicName.indexed ?_ ?_ ?_ hdigits
      · intro hnil
        simp [hnil] at hlength
      · intro c hc
        exact hword c (List.mem_append_left _ hc)
      · simpa using hindex
  · intro h
    unfold matchTopicName
    cases h with
    | bare hne hword =>
        have hdrop : l.dropWhile isNameRune = [] := List.dropWhile_eq_nil_iff.mpr hword
        have htake : l.takeWhile isNameRune = l := List.takeWhile_eq_self_iff.mpr hword
        simp [hdrop, htake, hne]
    | @indexed word index hne hword hne' hindex =>
        have hpos := List.length_pos_of_ne_nil hne
        have hdigits : index.all Char.isDigit = true := List.all_eq_true.mpr hindex
        rw [takeWhile_indexed hword hindex, dropWhile_indexed hword hindex]
        simp [hne', hdigits]
        omega

theorem dropPrefix?_eq_some_iff_append
    {l p rest : List Char} :
    l.dropPrefix? p = some rest
      ↔
    l = p ++ rest := by
  rw [List.dropPrefix?_eq_some_iff]
  constructor
  · intro h
    obtain ⟨p', hl, hp⟩ := h
    rw [hl, eq_of_beq hp]
  · intro h
    exact ⟨p, h, beq_self_eq_true p⟩

theorem dropSuffix?_eq_some_iff_append
    {l p rest : List Char} :
    l.dropSuffix? p = some rest
      ↔
    l = rest ++ p := by
  rw [List.dropSuffix?_eq_some_iff]
  constructor
  · intro h
    obtain ⟨p', hl, hp⟩ := h
    rw [hl, eq_of_beq hp]
  · intro h
    exact ⟨p, h, beq_self_eq_true p⟩

theorem ethTopicDigest_eq_some_iff
    {topic digest : String} :
    ethTopicDigest topic = some digest
      ↔
    IsForkDigest digest ∧ ∃ name, EthTopicName name ∧
      topic.toList = "/eth2/".toList ++ digest.toList ++ "/".toList ++ name ++
        "/ssz_snappy".toList := by
  unfold ethTopicDigest
  simp only [Option.bind_eq_bind, Option.bind_eq_some_iff,
    dropPrefix?_eq_some_iff_append]
  constructor
  · intro h
    obtain ⟨rest, hrest, h⟩ := h
    split at h
    · rename_i hdigest
      simp only [Option.bind_eq_some_iff, dropPrefix?_eq_some_iff_append,
        dropSuffix?_eq_some_iff_append] at h
      obtain ⟨tail, htail, name, hname, h⟩ := h
      split at h
      · rename_i hmatch
        cases h
        refine ⟨⟨?_, ?_⟩, name, matchTopicName_iff.mp hmatch, ?_⟩
        · simpa using hdigest.1
        · simpa using hdigest.2
        · have hsplit : rest = rest.take 8 ++ ("/".toList ++ (name ++
              "/ssz_snappy".toList)) := by
            rw [← hname, ← htail, List.take_append_drop]
          have hgroup : (String.ofList (rest.take 8)).toList = rest.take 8 :=
            String.toList_ofList
          rw [hgroup, hrest]
          nth_rewrite 1 [hsplit]
          simp only [List.append_assoc]
      · cases h
    · cases h
  · intro h
    obtain ⟨⟨hlength, hhex⟩, name, hname, htopic⟩ := h
    refine ⟨digest.toList ++ "/".toList ++ name ++ "/ssz_snappy".toList, ?_, ?_⟩
    · rw [htopic]
      simp only [List.append_assoc]
    · have htake : (digest.toList ++ "/".toList ++ name ++
          "/ssz_snappy".toList).take 8 = digest.toList := by
        rw [List.append_assoc, List.append_assoc, ← hlength, List.take_left]
      have hdrop : (digest.toList ++ "/".toList ++ name ++
          "/ssz_snappy".toList).drop 8 = "/".toList ++ (name ++
          "/ssz_snappy".toList) := by
        rw [List.append_assoc, List.append_assoc, ← hlength, List.drop_left]
      rw [htake, hdrop, if_pos ⟨hlength, List.all_eq_true.mpr hhex⟩]
      simp only [Option.bind_eq_some_iff, dropPrefix?_eq_some_iff_append,
        dropSuffix?_eq_some_iff_append]
      refine ⟨_, rfl, name, rfl, ?_⟩
      rw [if_pos (matchTopicName_iff.mpr hname), String.ofList_toList]

theorem isForkDigest_getForkDigestFromTopic
    {topic : String}
    (h : (ethTopicDigest topic).isSome = true) :
    IsForkDigest (getForkDigestFromTopic topic) := by
  obtain ⟨digest, hdigest⟩ := Option.isSome_iff_exists.mp h
  obtain ⟨⟨hlength, hhex⟩, _⟩ := ethTopicDigest_eq_some_iff.mp hdigest
  simp only [getForkDigestFromTopic, hdigest, IsForkDigest, toLower,
    String.toList_ofList, List.length_map, List.mem_map]
  refine ⟨hlength, ?_⟩
  intro c hc
  obtain ⟨c', hc', rfl⟩ := hc
  rw [isHexDigit_toLowerRune]
  exact hhex c' hc'

theorem isForkDigest_toLower_iff
    {digest : String} :
    IsForkDigest (toLower digest)
      ↔
    IsForkDigest digest := by
  simp [IsForkDigest, toLower]

/-- What is built from a digest and a name is a full topic with that digest. -/
theorem ethTopicDigest_buildFullTopic
    {forkDigest descriptor : String}
    (hdigest : IsForkDigest (toLower forkDigest))
    (hname : EthTopicName (trimSpace descriptor).toList) :
    ethTopicDigest (buildFullTopic forkDigest descriptor) =
      some (toLower forkDigest) := by
  rw [ethTopicDigest_eq_some_iff]
  exact ⟨hdigest, _, hname, by simp [buildFullTopic]⟩

theorem getForkDigestFromTopic_buildFullTopic
    {forkDigest descriptor : String}
    (hdigest : IsForkDigest (toLower forkDigest))
    (hname : EthTopicName (trimSpace descriptor).toList) :
    getForkDigestFromTopic (buildFullTopic forkDigest descriptor) =
      toLower forkDigest := by
  simp [getForkDigestFromTopic, ethTopicDigest_buildFullTopic hdigest hname]

end FullTopics

section Descriptors

def beaconBlockBase : String := "beacon_block"

def beaconAttestationBase : String := "beacon_attestation"

def attestationSubnetCount : Nat := 64

/-- `strings.Contains`. -/
def containsText (s sub : String) : Bool :=
  decide (sub.toList <:+: s.toList)

def isBeaconBlockTopic (topic : String) : Bool :=
  containsText topic beaconBlockBase

def isAttestationTopic (topic : String) : Bool :=
  containsText topic (beaconAttestationBase ++ "_")

/-- The descriptor of an attestation subnet. -/
def attestationDescriptor (n : Nat) : String :=
  beaconAttestationBase ++ "_" ++ toString n

/-- The descriptors of one entry of a topic list. -/
def unpackTopic (topic : String) : List String :=
  if isBeaconBlockTopic topic || isAttestationTopic topic then
    [topic]
  else if containsText topic beaconAttestationBase then
    (List.range attestationSubnetCount).map attestationDescriptor
  else
    [topic]

/-- `UnpackTopics`, with the function that removes duplicates. -/
def unpackTopics
    (unique : List String → List String)
    (topicsList : List String) : List String :=
  unique (topicsList.flatMap unpackTopic)

theorem EthTopicName.mem
    {l : List Char}
    (h : EthTopicName l) :
    ∀ c ∈ l, isNameRune c = true ∨ c.isDigit = true := by
  intro c hc
  cases h with
  | bare hne hword => exact Or.inl (hword c hc)
  | indexed hne hword hne' hindex =>
      rcases List.mem_append.mp hc with hc | hc
      · exact Or.inl (hword c hc)
      · rcases List.mem_cons.mp hc with rfl | hc
        · exact Or.inl rfl
        · exact Or.inr (hindex c hc)

/-- Letters, digits and underscores are above the white space of ASCII. -/
theorem EthTopicName.visible
    {l : List Char}
    (h : EthTopicName l)
    {c : Char}
    (hc : c ∈ l) :
    0x30 ≤ c.toNat ∧ c.toNat ≤ 0x7A := by
  rcases h.mem c hc with hname | hdigit
  · simp only [isNameRune, Bool.or_eq_true, Bool.and_eq_true, decide_eq_true_eq,
      beq_iff_eq] at hname
    rcases hname with hletter | rfl
    · omega
    · decide
  · have hrange : 48 ≤ c.toNat ∧ c.toNat ≤ 57 := by
      simpa [Char.isDigit, UInt32.le_iff_toNat_le] using hdigit
    omega

theorem EthTopicName.slash_notMem
    {name : List Char}
    (h : EthTopicName name) :
    '/' ∉ name := by
  intro hmem
  exact absurd (h.visible hmem) (by decide)

theorem isSpace_eq_false
    {c : Char}
    (h : 0x21 ≤ c.toNat ∧ c.toNat ≤ 0x7E) :
    isSpace c = false := by
  simp [isSpace, isSpaceCode, spaceRanges]
  omega

theorem EthTopicName.trimSpace_eq
    {descriptor : String}
    (h : EthTopicName descriptor.toList) :
    trimSpace descriptor = descriptor := by
  have htrimmed : Trimmed descriptor.toList := by
    constructor
    · intro c hc
      have hvisible := h.visible (List.mem_of_mem_head? hc)
      exact isSpace_eq_false (by omega)
    · intro c hc
      have hvisible := h.visible (List.mem_of_mem_getLast? hc)
      exact isSpace_eq_false (by omega)
  rw [trimSpace, trimRunes_of_trimmed htrimmed, String.ofList_toList]

theorem EthTopicName.isFullEth2Topic_eq
    {descriptor : String}
    (h : EthTopicName descriptor.toList) :
    isFullEth2Topic descriptor = false := by
  rw [isFullEth2Topic, h.trimSpace_eq, Option.isSome_eq_false_iff, Option.isNone_iff_eq_none,
    Option.eq_none_iff_forall_ne_some]
  intro digest hdigest
  obtain ⟨_, name, _, htopic⟩ := ethTopicDigest_eq_some_iff.mp hdigest
  have hslash : '/' ∈ descriptor.toList := by
    rw [htopic]
    simp
  have hvisible := h.visible hslash
  exact absurd hvisible (by decide)

theorem ethTopicName_beaconBlockBase :
    EthTopicName beaconBlockBase.toList := by
  exact EthTopicName.bare (by decide) (List.all_eq_true.mp (by decide))

theorem ethTopicName_attestationDescriptor
    (n : Nat) :
    EthTopicName (attestationDescriptor n).toList := by
  have htext : (attestationDescriptor n).toList =
      beaconAttestationBase.toList ++ '_' :: Nat.toDigits 10 n := by
    simp [attestationDescriptor]
  rw [htext]
  refine EthTopicName.indexed (by decide) (List.all_eq_true.mp (by decide))
    Nat.toDigits_ne_nil ?_
  intro c hc
  exact Nat.isDigit_of_mem_toDigits (by omega) (by omega) hc

theorem trimSpace_buildFullTopic
    (forkDigest descriptor : String) :
    trimSpace (buildFullTopic forkDigest descriptor) =
      buildFullTopic forkDigest descriptor := by
  have htrimmed : Trimmed (buildFullTopic forkDigest descriptor).toList := by
    constructor
    · intro c hc
      simp [buildFullTopic] at hc
      subst hc
      decide
    · have hlast : (buildFullTopic forkDigest descriptor).toList.getLast? =
          some 'y' := by
        rw [buildFullTopic, String.toList_append, List.getLast?_append]
        rfl
      intro c hc
      rw [hlast] at hc
      cases hc
      decide
  rw [trimSpace, trimRunes_of_trimmed htrimmed, String.ofList_toList]

end Descriptors

section Metadata

/-- The text before and after the last occurrence of a character. -/
def cutLast (c : Char) : List Char → Option (List Char × List Char)
  | [] => none
  | x :: l =>
      match cutLast c l with
      | some (before, after) => some (x :: before, after)
      | none => if x = c then some ([], l) else none

/-- `strconv.NumError` of `ParseUint`. -/
def parseUintError (text reason : String) : GoError :=
  .wrapf "strconv.ParseUint: parsing %q: %w" [text] (.new reason)

/-- The loop of `strconv.ParseUint` with base 10 and 64 bits. -/
def parseUintLoop (text : String) : Nat → List Char → Except GoError Nat
  | n, [] => .ok n
  | n, c :: l =>
      if c.isDigit = false then
        .error (parseUintError text "invalid syntax")
      else if 10 * n + (c.toNat - '0'.toNat) ≥ 2 ^ 64 then
        .error (parseUintError text "value out of range")
      else
        parseUintLoop text (10 * n + (c.toNat - '0'.toNat)) l

def parseUint (text : String) : Except GoError Nat :=
  if text.toList.isEmpty then
    .error (parseUintError text "invalid syntax")
  else
    parseUintLoop text 0 text.toList

def extractAttestationTopicIndex (s : String) : Except GoError UInt32 :=
  match cutLast '/' s.toList with
  | none => .error (.new "invalid topic id format")
  | some (path, _) =>
      match cutLast '_' path with
      | none => .error (.new "invalid topic id format")
      | some (_, index) => do
          let n ← parseUint (String.ofList index)
          if n ≥ attestationSubnetCount then
            .error (.errorf "attestation topic index out of range: %d" [toString n])
          else
            .ok (UInt32.ofNat n)

inductive TopicKind where
  | unknown
  | beaconBlock
  | attestation
deriving DecidableEq, Repr

structure TopicMeta where
  kind : TopicKind
  attestationSubnet : UInt32
deriving DecidableEq, Repr

def TopicMeta.isBeaconBlock (m : TopicMeta) : Bool :=
  m.kind == .beaconBlock

def TopicMeta.isAttestation (m : TopicMeta) : Bool :=
  m.kind == .attestation

def parseTopicMeta (fullTopic : String) : TopicMeta :=
  if isBeaconBlockTopic fullTopic then
    ⟨.beaconBlock, 0⟩
  else if isAttestationTopic fullTopic then
    match extractAttestationTopicIndex fullTopic with
    | .error _ => ⟨.unknown, 0⟩
    | .ok idx => ⟨.attestation, idx⟩
  else
    ⟨.unknown, 0⟩

theorem cutLast_eq_none
    {c : Char} {l : List Char}
    (h : c ∉ l) :
    cutLast c l = none := by
  induction l with
  | nil => rfl
  | cons x l ih =>
      have hx : x ≠ c := by
        intro hx
        exact h (by simp [hx])
      have hl : c ∉ l := by
        intro hl
        exact h (List.mem_cons_of_mem x hl)
      simp [cutLast, ih hl, hx]

theorem cutLast_append
    {c : Char} {after : List Char}
    (h : c ∉ after)
    (before : List Char) :
    cutLast c (before ++ c :: after) = some (before, after) := by
  induction before with
  | nil => simp [cutLast, cutLast_eq_none h]
  | cons x before ih => simp [cutLast, ih]

variable {n : Nat} {idx : UInt32}

theorem parseUintLoop_eq_ok
    {text : String} {l : List Char} {k : Nat}
    (h : parseUintLoop text n l = .ok k) :
    k = Nat.ofDigitChars 10 l n := by
  induction l generalizing n with
  | nil => exact (Except.ok.inj h).symm
  | cons c l ih =>
      unfold parseUintLoop at h
      split at h
      · cases h
      · split at h
        · cases h
        · rw [Nat.ofDigitChars_cons]
          exact ih h

theorem parseUint_value
    {index : List Char}
    (h : parseUint (String.ofList index) = .ok n) :
    n = Nat.ofDigitChars 10 index 0 := by
  unfold parseUint at h
  split at h
  · cases h
  · have hn := parseUintLoop_eq_ok h
    rwa [String.toList_ofList] at hn

theorem checkedIndex_eq_ok
    {err : GoError}
    (h : (if n ≥ attestationSubnetCount then .error err else .ok (UInt32.ofNat n)) =
      Except.ok idx) :
    idx.toNat = n ∧ idx.toNat < attestationSubnetCount := by
  split at h
  · cases h
  · rename_i hcount
    have hidx := Except.ok.inj h
    subst hidx
    simp only [attestationSubnetCount] at hcount ⊢
    rw [UInt32.toNat_ofNat']
    omega

/-- The index that is read from a topic is the number after its last underscore. -/
theorem extractAttestationTopicIndex_eq_ok
    {t : String} {before index : List Char}
    (ht : t.toList = before ++ '_' :: index ++ '/' :: "ssz_snappy".toList)
    (hindex : '_' ∉ index)
    (h : extractAttestationTopicIndex t = .ok idx) :
    idx.toNat = Nat.ofDigitChars 10 index 0 ∧ idx.toNat < attestationSubnetCount := by
  have hslash : '/' ∉ "ssz_snappy".toList := by
    decide
  unfold extractAttestationTopicIndex at h
  rw [ht, cutLast_append hslash] at h
  simp only at h
  rw [cutLast_append hindex] at h
  simp only at h
  cases hparse : parseUint (String.ofList index) with
  | error err =>
      rw [hparse] at h
      cases h
  | ok n =>
      rw [hparse] at h
      rw [← parseUint_value hparse]
      exact checkedIndex_eq_ok h

theorem toList_buildFullTopic_attestationDescriptor
    (forkDigest : String)
    (n : Nat) :
    (buildFullTopic forkDigest (attestationDescriptor n)).toList =
      ("/eth2/".toList ++ (toLower forkDigest).toList ++ "/".toList ++
        beaconAttestationBase.toList ++ '_' :: Nat.toDigits 10 n) ++
        '/' :: "ssz_snappy".toList := by
  rw [buildFullTopic, (ethTopicName_attestationDescriptor n).trimSpace_eq]
  simp [attestationDescriptor]

theorem extractAttestationTopicIndex_buildFullTopic
    {forkDigest : String}
    (h : extractAttestationTopicIndex
      (buildFullTopic forkDigest (attestationDescriptor n)) = .ok idx) :
    idx.toNat = n ∧ n < attestationSubnetCount := by
  obtain ⟨hvalue, hcount⟩ := extractAttestationTopicIndex_eq_ok
    (toList_buildFullTopic_attestationDescriptor forkDigest n)
    Nat.underscore_not_in_toDigits h
  rw [Nat.ofDigitChars_toDigits (by omega) (by omega)] at hvalue
  exact ⟨hvalue, hvalue ▸ hcount⟩

/-- Only the topics of subnets carry an index, and it is their own. -/
theorem attestationSubnet_parseTopicMeta
    {forkDigest : String}
    (h : (parseTopicMeta
      (buildFullTopic forkDigest (attestationDescriptor n))).isAttestation = true) :
    (parseTopicMeta (buildFullTopic forkDigest
      (attestationDescriptor n))).attestationSubnet.toNat = n ∧
      n < attestationSubnetCount := by
  unfold parseTopicMeta at h ⊢
  split at h
  · cases h
  · rename_i hblock
    rw [if_neg hblock]
    split at h
    · rename_i hattestation
      rw [if_pos hattestation]
      split at h
      · cases h
      · rename_i idx hidx
        exact extractAttestationTopicIndex_buildFullTopic hidx
    · cases h

end Metadata

end Protocol
end OptimumGateway
