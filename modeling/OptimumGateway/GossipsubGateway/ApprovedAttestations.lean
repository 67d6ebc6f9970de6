import OptimumGateway.Aggregator.PayloadSize
import OptimumGateway.GossipsubGateway.MessagesProxy
import OptimumGateway.MessageRouter.AttestationFilter

/-!
# Attestations that the router approved

An attestation from the CL reaches the aggregator through three decoders: the router parses
it at fixed offsets, the packer decodes it in full, and what the packer does not take goes
into the naive message instead.  Here the handler of the CL is implemented with the program
of the router, whose reads may be answered in any way, and its items are given to the loop
of the aggregator.  The packer takes all of them, so that the loop never falls back.
-/

namespace OptimumGateway
namespace GossipsubGateway

open Foundation Foundation.Prog Protocol Aggregator MessageRouter

section Handler

/-- Operations of the handler, and reads of the router. -/
inductive UplinkOp where
  | proxy (op : ProxyOp)
  | filter (op : FilterOp)

abbrev UplinkOp.Ans : UplinkOp → Type
  | .proxy op => op.Ans
  | .filter op => op.Ans

abbrev UplinkProg := Prog UplinkOp UplinkOp.Ans

abbrev uplink (op : UplinkOp) : UplinkProg op.Ans := Prog.op op

/-- The operations of the handler, with the program of the router in its place. -/
def filtered (z : Snappy) : (op : ProxyOp) → UplinkProg op.Ans
  | .shouldForwardToMumP2P kind topic message =>
      (shouldForwardMessageToMumP2P z kind topic message).implement fun op => uplink (.filter op)
  | op => uplink (.proxy op)

/-- The handler of the CL comes to enqueue the item. -/
def Enqueues (s : ProxyService) (it : AggregateItem) : Prop :=
  ∃ msgs l topicMeta k, it.topicMeta = some topicMeta ∧
    Path ((handleMessagesFromCL s msgs).implement (filtered s.lib.snappy)) l
      (call (.proxy (.enqueue it.topic topicMeta it.data)) k)

/-- The router was asked about what is enqueued. -/
def NeedsApproval (since : List ProxyCall) (op : ProxyOp) : Prop :=
  ∀ topic topicMeta data, op = .enqueue topic topicMeta data →
    topicMeta.isAttestation = true ∧
      ⟨.shouldForwardToMumP2P topicMeta.kind topic data, true⟩ ∈ since

variable {s : ProxyService} {since : List ProxyCall}

theorem approved_processCLBeaconBlock
    (msg : CLMessage) :
    (processCLBeaconBlock s msg).Along NeedsApproval (fun _ _ => True) since := by
  let Other (op : ProxyOp) : Prop := ∀ topic topicMeta data, op ≠ .enqueue topic topicMeta data
  have hforall : (processCLBeaconBlock s msg).Forall Other := by
    refine ⟨nofun, fun recvAt => ?_⟩
    refine (forall_processBeaconBlockArrival s ?_ fun _ _ => nofun).bind fun arrival => ?_
    · rintro op h topic topicMeta data rfl
      exact h
    · split
      · refine forall_dedup s ?_ ((forall_forwardCLBeaconBlock s msg arrival.1).mono ?_)
        · rintro op h topic topicMeta data rfl
          exact h
        · rintro op h topic topicMeta data rfl
          exact h
      · exact trivial
  exact hforall.along fun _ op h topic topicMeta data hop => absurd hop (h topic topicMeta data)

theorem approved_processCLAttestation
    (msg : CLMessage)
    {topicMeta : TopicMeta}
    (hattestation : topicMeta.isAttestation = true) :
    (processCLAttestation s msg topicMeta).Along NeedsApproval (fun _ _ => True) since := by
  refine ⟨nofun, fun present => ?_⟩
  cases present with
  | true => exact trivial
  | false =>
      refine ⟨nofun, fun _ => ⟨nofun, fun forward => ?_⟩⟩
      cases forward with
      | false => exact trivial
      | true =>
          refine ⟨?_, fun _ => trivial⟩
          intro topic meta' data h
          cases h
          exact ⟨hattestation, List.mem_append_right _ (List.mem_singleton.mpr rfl)⟩

theorem approved_handleMessagesFromCL
    (msgs : List CLMessage) :
    (handleMessagesFromCL s msgs).Along NeedsApproval (fun _ _ => True) since := by
  induction msgs generalizing since with
  | nil => exact trivial
  | cons msg msgs ih =>
      refine Along.bind (Q := fun _ _ => True) ?_ fun _ _ _ => ih
      refine ⟨nofun, fun supported => ?_⟩
      cases supported with
      | false => exact trivial
      | true =>
          by_cases hblock : (parseTopicMeta msg.topic).isBeaconBlock = true
          · rw [if_pos hblock]
            exact approved_processCLBeaconBlock msg
          · rw [if_neg hblock]
            split
            · rename_i hattestation
              exact approved_processCLAttestation msg hattestation
            · exact trivial

/-- The router issues reads only. -/
theorem filter_of_path
    {z : Snappy} {kind : TopicKind} {topic : String} {message : Bytes}
    {l : List (Call UplinkOp UplinkOp.Ans)} {o : UplinkOp} {k : o.Ans → UplinkProg Bool}
    (hpath : Path (filtered z (.shouldForwardToMumP2P kind topic message)) l (call o k)) :
    ∃ read, o = .filter read := by
  obtain ⟨-, -, l₂, read, -, b, -, -, -, hread, -⟩ := path_implement_call hpath
  obtain ⟨-, hcall⟩ := path_op_call hread
  cases hcall
  exact ⟨read, rfl⟩

/-- Operations that are not a question to the router. -/
def Unfiltered : ProxyOp → Prop
  | .shouldForwardToMumP2P .. => False
  | _ => True

theorem Unfiltered.filtered_eq
    {o : ProxyOp}
    (h : Unfiltered o)
    (z : Snappy) :
    filtered z o = uplink (.proxy o) := by
  cases o <;> first | rfl | exact h.elim

/-- A handler that comes to issue an operation of its own does so in its program. -/
theorem path_filtered_proxy
    {z : Snappy} {p : ProxyProg Unit} {l : List (Call UplinkOp UplinkOp.Ans)} {o : ProxyOp}
    {k' : o.Ans → UplinkProg Unit}
    (hpath : Path (p.implement (filtered z)) l (call (.proxy o) k')) :
    ∃ h k, Implements (filtered z) h l ∧ Path p h (call o k) := by
  obtain ⟨h, l₁, l₂, o₁, k, b, rfl, hcalls, hp, hop, -⟩ := path_implement_call hpath
  by_cases hdirect : Unfiltered o₁
  · rw [hdirect.filtered_eq] at hop
    obtain ⟨rfl, hcall⟩ := path_op_call hop
    cases hcall
    rw [List.append_nil]
    exact ⟨h, k, hcalls, hp⟩
  · cases o₁
    case shouldForwardToMumP2P kind topic message =>
      obtain ⟨read, hread⟩ := filter_of_path hop
      cases hread
    all_goals exact absurd trivial hdirect

/-- What the handler enqueues is on an attestation topic, and the router parsed it. -/
theorem parsed_of_enqueues
    {it : AggregateItem}
    (h : Enqueues s it) :
    isAttestationItem it = true ∧
      ∃ fields, parseAttestationSSZTopic s.lib.snappy it.data = .ok fields := by
  obtain ⟨msgs, l, topicMeta, k, hmeta, hpath⟩ := h
  obtain ⟨calls, k', hcalls, hp⟩ := path_filtered_proxy hpath
  obtain ⟨hattestation, hmem⟩ :=
    ((approved_handleMessagesFromCL msgs).rest (h := []) hp).1 _ _ _ rfl
  have hkind : topicMeta.kind = .attestation := by
    simpa [TopicMeta.isAttestation] using hattestation
  refine ⟨by rw [isAttestationItem, hmeta]; exact hattestation, ?_⟩
  obtain ⟨m, -, hdecision⟩ := hcalls.mem hmem
  obtain ⟨reads, -, hreads⟩ := path_implement_ret hdecision
  exact parsed_of_path (by rw [hkind]; decide) hreads

end Handler

section Packing

variable {s : ProxyService}

/-- The router's parser agrees with the decoder of the packer, the packer takes what the
router approved, and a loop that gets nothing else never falls back. -/
theorem router_agrees_with_packer
    (hz : s.lib.snappy.Lawful)
    (hshort : ShortBlocks s.lib.snappy) :
    (∀ (b : Bytes) (receiver : SingleAttestation),
      ((∃ fields, parseAttestationSSZTopic s.lib.snappy b = .ok fields) ↔
        ∃ a, decodeGossip s.lib.snappy b receiver = .ok a) ∧
      ∀ attester slot a, parseAttestationSSZTopic s.lib.snappy b = .ok (attester, slot) →
        decodeGossip s.lib.snappy b receiver = .ok a →
          attester = a.attesterIndex ∧ slot = a.data.slot) ∧
    (∀ it, Enqueues s it → ∀ p : AttestationPacker,
      ∃ p', p.add s.lib it.topicMeta it.data = .ok p') ∧
    ∀ events loop emitted, LoopRun s.lib events loop emitted →
      (∀ it ∈ received events, Enqueues s it) →
        loop.byTopic = ∅ ∧ loop.failedAttempts = 0 := by
  have hadd : ∀ it, Enqueues s it → ∀ p : AttestationPacker,
      ∃ p', p.add s.lib it.topicMeta it.data = .ok p' := by
    intro it hit p
    obtain ⟨hattestation, hparsed⟩ := parsed_of_enqueues hit
    obtain ⟨a, ha⟩ := (parseAttestationSSZTopic_isOk_iff hz hshort it.data
      SingleAttestation.zero).mp hparsed
    exact add_of_decodeGossip hattestation ha p
  refine ⟨fun b receiver => ⟨parseAttestationSSZTopic_isOk_iff hz hshort b receiver,
    fun _ _ _ hparse ha => fields_of_parse hz hparse ha⟩, hadd, ?_⟩
  intro events loop emitted hrun hitems
  have hloop : NoFallback loop := by
    induction hrun with
    | start => exact ⟨rfl, rfl⟩
    | @step events loop emitted hrun e hfeasible ih =>
        have hall : ∀ it ∈ received events ++ received [e], Enqueues s it := by
          rwa [← received_append]
        refine (ih fun it hit => hall it (List.mem_append_left _ hit)).step ?_
        rintro it rfl
        have hit := hall it (List.mem_append_right _ List.mem_cons_self)
        exact ⟨(parsed_of_enqueues hit).1, hadd it hit loop.packer⟩
  exact ⟨hloop.byTopic, hloop.failedAttempts⟩

end Packing

section Sample

/-- The claims of a partner. -/
def uplinkClaims : Auth.Claims :=
  ⟨"gateway", none, none, "", gatewayTypePartner, "", none, []⟩

/-- The reads of the router about an attestation of the current slot, without auth. -/
def uplinkReads (attester slot : UInt64) : List (Call FilterOp FilterOp.Ans) :=
  [⟨.router .isEnabled, false⟩, ⟨.router .claimsLoad, some uplinkClaims⟩, ⟨.currentSlot, slot⟩,
    ⟨.knownValidatorsLoad attester, some (0, 1)⟩]

theorem path_uplinkReads
    {z : Snappy} {attester slot : UInt64} {data : Bytes}
    (hparse : parseAttestationSSZTopic z data = .ok (attester, slot))
    (topic : String) :
    Path (shouldForwardMessageToMumP2P z .attestation topic data) (uplinkReads attester slot)
      (.ret true) := by
  have hfresh : ¬ diffUint64 slot slot > getAttestationMaxSlotAge := by
    simp [diffUint64, getAttestationMaxSlotAge]
  have hpartner : ¬ gwType (some uplinkClaims) ≠ gatewayTypePartner := not_not.mpr rfl
  unfold shouldForwardMessageToMumP2P
  rw [if_neg (by decide)]
  refine Path.cons (Path.cons ?_)
  change Path (if gwType (some uplinkClaims) ≠ gatewayTypePartner then pure false else _) _ _
  rw [if_neg hpartner, hparse]
  refine Path.cons ?_
  show Path (if diffUint64 slot slot > getAttestationMaxSlotAge then pure false else
    isKnownValidator attester) _ _
  rw [if_neg hfresh]
  exact Path.cons (Path.nil _)

theorem implements_unfiltered
    {z : Snappy} {o : ProxyOp} {r : o.Ans} {h : List ProxyCall}
    {l : List (Call UplinkOp UplinkOp.Ans)}
    (ho : Unfiltered o)
    (hcalls : Implements (filtered z) h l) :
    Implements (filtered z) (⟨o, r⟩ :: h) ([⟨.proxy o, r⟩] ++ l) := by
  refine Implements.cons ?_ hcalls
  rw [ho.filtered_eq]
  exact path_op_ret_iff.mpr rfl

/-- A partner enqueues what the router can parse. -/
theorem enqueues_of_parse
    {s : ProxyService} {topic : String} {data : Bytes} {attester slot : UInt64}
    (hattestation : (parseTopicMeta topic).isAttestation = true)
    (hparse : parseAttestationSSZTopic s.lib.snappy data = .ok (attester, slot)) :
    Enqueues s ⟨topic, some (parseTopicMeta topic), data⟩ := by
  have hkind : (parseTopicMeta topic).kind = .attestation := by
    simpa [TopicMeta.isAttestation] using hattestation
  have hblock : (parseTopicMeta topic).isBeaconBlock = false := by
    simp [TopicMeta.isBeaconBlock, hkind]
  have hpath : Path (handleMessagesFromCL s [⟨topic, data, ""⟩])
      [⟨.topicSupported topic, true⟩, ⟨.messageGet (s.lib.xxHash data), false⟩,
        ⟨.messagePut (s.lib.xxHash data), ()⟩,
        ⟨.shouldForwardToMumP2P (parseTopicMeta topic).kind topic data, true⟩]
      (call (.enqueue topic (parseTopicMeta topic) data) fun _ => .ret ()) := by
    refine Path.cons ?_
    simp only [if_true, hblock, hattestation, Bool.false_eq_true, if_false]
    exact Path.cons (Path.cons (Path.cons (Path.nil _)))
  rw [hkind] at hpath
  have hrouter : Path (filtered s.lib.snappy (.shouldForwardToMumP2P .attestation topic data))
      ((uplinkReads attester slot).map (Call.rename .filter)) (.ret true) :=
    @Path.rename _ _ UplinkOp.Ans _ UplinkOp.filter _ _ _ (path_uplinkReads hparse topic)
  have hcalls := implements_unfiltered (o := .topicSupported topic) (r := true) trivial
    (implements_unfiltered (o := .messageGet (s.lib.xxHash data)) (r := false) trivial
      (implements_unfiltered (o := .messagePut (s.lib.xxHash data)) (r := ()) trivial
        (Implements.cons hrouter Implements.nil)))
  exact ⟨_, _, _, _, rfl, hpath.implement hcalls⟩

def canonicalService : ProxyService where
  lib := { sampleLibraries with snappy := canonicalSnappy }
  hasMumP2P := true
  nodeMumP2PStr := "16Uiu2HAmGateway"
  hasStreamHub := false
  gatewayID := "gateway"

theorem shortBlocks_canonicalSnappy :
    ShortBlocks canonicalSnappy := by
  intro b raw hdecode hlength
  have hencode := (canonicalSnappy_decode hdecode).2
  have hbound := canonicalSnappy_lawful.length_encode
    (show raw.length < snappyMaxBlock by unfold snappyMaxBlock; omega)
  change (encodeLiteral raw).length ≤ _ at hbound
  rw [hencode] at hbound
  simp only [maxCompressedLen, maxGossipPayloadSize]
  omega

def canonicalAttestation : SingleAttestation :=
  { SingleAttestation.zero with
    attesterIndex := 41231
    data := { AttestationData.zero with slot := 13164544 } }

/-- An attestation is parsed, enqueued and packed. -/
theorem router_agrees_with_packer_canonical :
    canonicalSnappy.Lawful ∧ ShortBlocks canonicalSnappy ∧
      ∃ it p', Enqueues canonicalService it ∧
        it.data = canonicalSnappy.encode canonicalAttestation.encoding ∧
        parseAttestationSSZTopic canonicalSnappy it.data = .ok (41231, 13164544) ∧
        AttestationPacker.new.add canonicalService.lib it.topicMeta it.data = .ok p' := by
  have hall := router_agrees_with_packer (s := canonicalService) canonicalSnappy_lawful
    shortBlocks_canonicalSnappy
  have hdecode := decodeGossip_singleAttestation canonicalSnappy_lawful canonicalAttestation
    SingleAttestation.zero
  obtain ⟨⟨attester, slot⟩, hparse⟩ := (hall.1 _ SingleAttestation.zero).1.mpr ⟨_, hdecode⟩
  obtain ⟨rfl, rfl⟩ := (hall.1 _ SingleAttestation.zero).2 _ _ _ hparse hdecode
  have hattestation : (parseTopicMeta sampleTopic).isAttestation = true := by
    decide +kernel
  have hit := enqueues_of_parse (s := canonicalService) hattestation hparse
  obtain ⟨p', hp'⟩ := hall.2.1 _ hit AttestationPacker.new
  exact ⟨canonicalSnappy_lawful, shortBlocks_canonicalSnappy, _, p', hit, rfl, hparse, hp'⟩

end Sample

end GossipsubGateway
end OptimumGateway
