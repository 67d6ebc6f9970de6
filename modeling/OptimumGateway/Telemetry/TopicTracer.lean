import OptimumGateway.Foundation.Bytes
import OptimumGateway.Foundation.GoMap
import Mathlib.Data.Finset.Basic

/-!
# Topics discovered from the peers

This module models `pkg/service/telemetry/tracer/tracer.go`: what the gateway records about
the topics of its CL peers when pubsub reports an event.

Abstractly an event is a list of mentions.  A mention is a peer, a topic, and what the peer
intends.  `trace_eq` says that an event is recorded mention by mention, so that for one peer
and one topic the latest mention decides.  The tracer does not look at the flag of a
subscription in an RPC: it takes an unsubscribe announcement for a subscription.
`recorded_iff_wanted` says that what is recorded follows the intent of the peers exactly
where no such announcement is the latest mention.
-/

namespace OptimumGateway
namespace Telemetry

open Foundation

/-- `peer.ID`, a string of bytes. -/
abbrev PeerID := Bytes

section Events

inductive TraceType where
  | join
  | leave
  | graft
  | prune
  | recvRPC
  | sendRPC
  | other
deriving DecidableEq

/-- `TraceEvent_Join` and `TraceEvent_Leave`. -/
structure TopicMark where
  topic : Option String

/-- `TraceEvent_Graft` and `TraceEvent_Prune`. -/
structure PeerMark where
  peerID : PeerID
  topic : Option String

structure SubMeta where
  subscribe : Option Bool
  topic : Option String

structure RPCMeta where
  subscription : List (Option SubMeta)

structure RecvRPC where
  receivedFrom : PeerID
  rpcMeta : Option RPCMeta

structure TraceEvent where
  type : TraceType
  peerID : PeerID
  join : Option TopicMark
  leave : Option TopicMark
  graft : Option PeerMark
  prune : Option PeerMark
  recvRPC : Option RecvRPC

/-- The event of a type that carries nothing. -/
def TraceEvent.bare (type : TraceType) (peerID : PeerID) : TraceEvent :=
  ⟨type, peerID, none, none, none, none, none⟩

end Events

section Tracer

/-- `discoveredTopics`: the peers of a topic. -/
abbrev TopicPeers := GoMap String (Finset PeerID)

namespace TopicPeers

variable (m : TopicPeers) (peerID : PeerID) (topic : String)

/-- The recorded peers of a topic. -/
def peers : Finset PeerID :=
  (AList.lookup topic m).getD ∅

def add : TopicPeers :=
  if peerID ∈ peers m topic then m else AList.insert topic (insert peerID (peers m topic)) m

def remove : TopicPeers :=
  match AList.lookup topic m with
  | none => m
  | some found =>
      if found.erase peerID = ∅ then
        AList.erase topic m
      else
        AList.insert topic (found.erase peerID) m

/-- Every topic of the map has a peer. -/
def Inhabited : Prop :=
  ∀ topic found, AList.lookup topic m = some found → found.Nonempty

variable {m peerID topic} {topic' : String}

theorem Inhabited.insert
    {found : Finset PeerID}
    (h : Inhabited m)
    (hfound : found.Nonempty) :
    Inhabited (AList.insert topic found m) := by
  intro topic' found' hlookup
  by_cases htopic : topic' = topic
  · subst htopic
    rw [AList.lookup_insert] at hlookup
    cases hlookup
    exact hfound
  · rw [AList.lookup_insert_ne htopic] at hlookup
    exact h topic' found' hlookup

theorem Inhabited.add
    (h : Inhabited m) :
    Inhabited (add m peerID topic) := by
  unfold TopicPeers.add
  split
  · exact h
  · exact h.insert (Finset.insert_nonempty _ _)

theorem Inhabited.remove
    (h : Inhabited m) :
    Inhabited (remove m peerID topic) := by
  unfold TopicPeers.remove
  split
  · exact h
  · split
    · intro topic' found' hlookup
      by_cases htopic : topic' = topic
      · subst htopic
        rw [AList.lookup_erase] at hlookup
        cases hlookup
      · rw [AList.lookup_erase_ne htopic] at hlookup
        exact h topic' found' hlookup
    · next hleft => exact h.insert (Finset.nonempty_iff_ne_empty.mpr hleft)

theorem peers_insert
    {found : Finset PeerID} :
    peers (AList.insert topic found m) topic' =
      if topic' = topic then found else peers m topic' := by
  unfold peers
  by_cases htopic : topic' = topic
  · subst htopic
    simp
  · simp [htopic, AList.lookup_insert_ne htopic]

theorem peers_add :
    peers (add m peerID topic) topic' =
      if topic' = topic then insert peerID (peers m topic) else peers m topic' := by
  unfold add
  by_cases hpeer : peerID ∈ peers m topic
  · rw [if_pos hpeer, Finset.insert_eq_of_mem hpeer]
    by_cases htopic : topic' = topic
    · rw [if_pos htopic, htopic]
    · rw [if_neg htopic]
  · rw [if_neg hpeer, peers_insert]

theorem peers_remove :
    peers (remove m peerID topic) topic' =
      if topic' = topic then (peers m topic).erase peerID else peers m topic' := by
  unfold remove
  cases hlookup : AList.lookup topic m with
  | none =>
      have hnone : peers m topic = ∅ := by
        simp [peers, hlookup]
      by_cases htopic : topic' = topic
      · simp [htopic, hnone]
      · simp [htopic]
  | some found =>
      have hfound : peers m topic = found := by
        simp [peers, hlookup]
      simp only [hfound]
      by_cases hleft : found.erase peerID = ∅
      · rw [if_pos hleft, hleft]
        by_cases htopic : topic' = topic
        · subst htopic
          simp [peers]
        · simp [htopic, peers, AList.lookup_erase_ne htopic]
      · rw [if_neg hleft, peers_insert]

end TopicPeers

/-- A topic without peers is not kept. -/
structure PeerTopicTracer where
  discoveredTopics : TopicPeers
  inhabited : discoveredTopics.Inhabited

namespace PeerTopicTracer

/-- `NewPeerTopicTracer`. -/
def new : PeerTopicTracer where
  discoveredTopics := ∅
  inhabited := by simp [TopicPeers.Inhabited]

variable (t : PeerTopicTracer) (peerID : PeerID) (topic : String)

def addPeerTopic : PeerTopicTracer where
  discoveredTopics := t.discoveredTopics.add peerID topic
  inhabited := t.inhabited.add

def removePeerTopic : PeerTopicTracer where
  discoveredTopics := t.discoveredTopics.remove peerID topic
  inhabited := t.inhabited.remove

/-- `MapKeys` of the map, in some order. -/
def getDiscoveredTopics : List String :=
  t.discoveredTopics.keys

/-- A mark without a peer of its own is about the peer of the event. -/
def peerOf (own event : PeerID) : PeerID :=
  if own ≠ [] then own else event

/-- The loop over the subscriptions of an RPC. -/
def addSubscriptions (peerID : PeerID) : List (Option SubMeta) → PeerTopicTracer → PeerTopicTracer
  | [], t => t
  | some ⟨_, some topic⟩ :: rest, t => addSubscriptions peerID rest (t.addPeerTopic peerID topic)
  | _ :: rest, t => addSubscriptions peerID rest t

def trace : Option TraceEvent → PeerTopicTracer
  | none => t
  | some evt =>
      match evt.type with
      | .join =>
          match evt.join with
          | some ⟨some topic⟩ => if evt.peerID = [] then t else t.addPeerTopic evt.peerID topic
          | _ => t
      | .leave =>
          match evt.leave with
          | some ⟨some topic⟩ => if evt.peerID = [] then t else t.removePeerTopic evt.peerID topic
          | _ => t
      | .graft =>
          match evt.graft with
          | some ⟨own, some topic⟩ =>
              if peerOf own evt.peerID ≠ [] then t.addPeerTopic (peerOf own evt.peerID) topic else t
          | _ => t
      | .prune =>
          match evt.prune with
          | some ⟨own, some topic⟩ =>
              if peerOf own evt.peerID ≠ [] then
                t.removePeerTopic (peerOf own evt.peerID) topic
              else t
          | _ => t
      | .recvRPC =>
          match evt.recvRPC with
          | some ⟨own, some rpcMeta⟩ =>
              if peerOf own evt.peerID = [] then t
              else addSubscriptions (peerOf own evt.peerID) rpcMeta.subscription t
          | _ => t
      | _ => t

/-- The tracer after a sequence of events. -/
def traceAll (events : List (Option TraceEvent)) : PeerTopicTracer :=
  events.foldl trace t

end PeerTopicTracer

end Tracer

section Mentions

/-- What a peer announces about a topic. -/
inductive Intent where
  | join
  | graft
  | subscribe
  | leave
  | prune
  | unsubscribe
deriving DecidableEq

/-- The peer wants the topic. -/
def Intent.wants : Intent → Bool
  | .join | .graft | .subscribe => true
  | .leave | .prune | .unsubscribe => false

/-- The tracer adds the peer to the topic, as it does for either flag of an RPC. -/
def Intent.recorded : Intent → Bool
  | .join | .graft | .subscribe | .unsubscribe => true
  | .leave | .prune => false

structure Mention where
  peer : PeerID
  topic : String
  intent : Intent

/-- A mention, unless the peer or the topic is missing. -/
def mention (peer : PeerID) (topic : Option String) (intent : Intent) : List Mention :=
  match topic with
  | some topic => if peer = [] then [] else [⟨peer, topic, intent⟩]
  | none => []

theorem mention_of_nil
    (topic : Option String)
    (intent : Intent) :
    mention [] topic intent = [] := by
  cases topic with
  | none => rfl
  | some topic => simp [mention]

/-- A missing flag is false, as in protobuf. -/
def SubMeta.intent (sub : SubMeta) : Intent :=
  if sub.subscribe.getD false then .subscribe else .unsubscribe

def TraceEvent.mentions (evt : TraceEvent) : List Mention :=
  match evt.type with
  | .join => evt.join.toList.flatMap fun mark => mention evt.peerID mark.topic .join
  | .leave => evt.leave.toList.flatMap fun mark => mention evt.peerID mark.topic .leave
  | .graft => evt.graft.toList.flatMap fun mark =>
      mention (PeerTopicTracer.peerOf mark.peerID evt.peerID) mark.topic .graft
  | .prune => evt.prune.toList.flatMap fun mark =>
      mention (PeerTopicTracer.peerOf mark.peerID evt.peerID) mark.topic .prune
  | .recvRPC => evt.recvRPC.toList.flatMap fun rpc => rpc.rpcMeta.toList.flatMap fun rpcMeta =>
      rpcMeta.subscription.flatMap fun sub => sub.toList.flatMap fun sub =>
        mention (PeerTopicTracer.peerOf rpc.receivedFrom evt.peerID) sub.topic sub.intent
  | _ => []

/-- The mentions of a sequence of events. -/
def mentionsOf (events : List (Option TraceEvent)) : List Mention :=
  events.flatMap fun evt => evt.toList.flatMap TraceEvent.mentions

/-- What the peer intends with the topic, by the latest mention of both. -/
def latest (peer : PeerID) (topic : String) (mentions : List Mention) : Option Intent :=
  (mentions.reverse.find? fun m => m.peer = peer ∧ m.topic = topic).map Mention.intent

theorem latest_concat
    (peer : PeerID)
    (topic : String)
    (mentions : List Mention)
    (m : Mention) :
    latest peer topic (mentions ++ [m]) =
      if m.peer = peer ∧ m.topic = topic then some m.intent else latest peer topic mentions := by
  unfold latest
  rw [List.reverse_append, List.reverse_singleton, List.singleton_append, List.find?_cons]
  by_cases h : m.peer = peer ∧ m.topic = topic
  · simp [h]
  · simp [h]

end Mentions

section Records

namespace PeerTopicTracer

variable {t : PeerTopicTracer} {peer : PeerID} {topic : String}

/-- The peer is recorded under the topic. -/
def Recorded (t : PeerTopicTracer) (peer : PeerID) (topic : String) : Prop :=
  peer ∈ t.discoveredTopics.peers topic

instance : Decidable (t.Recorded peer topic) :=
  inferInstanceAs (Decidable (_ ∈ _))

/-- A topic is discovered while it has a recorded peer. -/
theorem mem_getDiscoveredTopics_iff :
    topic ∈ t.getDiscoveredTopics ↔ ∃ peer, t.Recorded peer topic := by
  unfold getDiscoveredTopics Recorded TopicPeers.peers
  rw [← AList.mem_keys, ← AList.lookup_isSome]
  cases hlookup : AList.lookup topic t.discoveredTopics with
  | none => simp
  | some found =>
      have hpeer : ∃ peer, peer ∈ found := t.inhabited topic found hlookup
      simpa using hpeer

/-- What the tracer does with a mention. -/
def record (t : PeerTopicTracer) (m : Mention) : PeerTopicTracer :=
  if m.intent.recorded then
    t.addPeerTopic m.peer m.topic
  else
    t.removePeerTopic m.peer m.topic

/-- A mention decides about its peer and its topic, and about nothing else. -/
theorem recorded_record_iff
    (m : Mention) :
    (t.record m).Recorded peer topic
      ↔
    if m.peer = peer ∧ m.topic = topic then m.intent.recorded = true
    else t.Recorded peer topic := by
  unfold record Recorded
  cases hintent : m.intent.recorded with
  | true =>
      rw [if_pos rfl, addPeerTopic, TopicPeers.peers_add]
      by_cases htopic : topic = m.topic
      · subst htopic
        by_cases hpeer : m.peer = peer
        · simp [hpeer]
        · simp [hpeer, Ne.symm hpeer]
      · simp [htopic, Ne.symm htopic]
  | false =>
      rw [if_neg Bool.false_ne_true, removePeerTopic, TopicPeers.peers_remove]
      by_cases htopic : topic = m.topic
      · subst htopic
        by_cases hpeer : m.peer = peer
        · simp [hpeer]
        · simp [hpeer, Ne.symm hpeer]
      · simp [htopic, Ne.symm htopic]

/-- A topic that is new after some mentions was recorded by one of them. -/
theorem mem_getDiscoveredTopics_foldl
    {mentions : List Mention}
    (h : topic ∈ (mentions.foldl record t).getDiscoveredTopics) :
    topic ∈ t.getDiscoveredTopics ∨
      ∃ m ∈ mentions, m.topic = topic ∧ m.intent.recorded = true := by
  induction mentions generalizing t with
  | nil => exact Or.inl h
  | cons m mentions ih =>
      rcases ih h with hold | ⟨m', hm', hrec⟩
      · obtain ⟨peer, hpeer⟩ := mem_getDiscoveredTopics_iff.mp hold
        rw [recorded_record_iff] at hpeer
        split at hpeer
        · next hsame => exact Or.inr ⟨m, List.mem_cons_self, hsame.2, hpeer⟩
        · exact Or.inl (mem_getDiscoveredTopics_iff.mpr ⟨peer, hpeer⟩)
      · exact Or.inr ⟨m', List.mem_cons_of_mem m hm', hrec⟩

theorem addSubscriptions_eq
    {peerID : PeerID}
    (hpeer : peerID ≠ [])
    (subs : List (Option SubMeta))
    (t : PeerTopicTracer) :
    addSubscriptions peerID subs t =
      (subs.flatMap fun sub => sub.toList.flatMap fun sub =>
        mention peerID sub.topic sub.intent).foldl record t := by
  induction subs generalizing t with
  | nil => rfl
  | cons sub rest ih =>
      cases sub with
      | none => exact ih t
      | some sub =>
          obtain ⟨subscribe, topic⟩ := sub
          cases topic with
          | none => exact ih t
          | some topic =>
              have hrecord : t.record ⟨peerID, topic, SubMeta.intent ⟨subscribe, some topic⟩⟩ =
                  t.addPeerTopic peerID topic := by
                unfold record SubMeta.intent
                cases subscribe.getD false with
                | true | false => rfl
              simp [addSubscriptions, ih, mention, hpeer, hrecord]

/-- An event is recorded mention by mention. -/
theorem trace_eq
    (t : PeerTopicTracer)
    (evt : TraceEvent) :
    t.trace (some evt) = evt.mentions.foldl record t := by
  obtain ⟨type, peerID, join, leave, graft, prune, recvRPC⟩ := evt
  cases type with
  | join =>
      rcases join with _ | ⟨_ | topic⟩
      · rfl
      · rfl
      · by_cases hpeer : peerID = []
        · simp [trace, TraceEvent.mentions, mention, hpeer]
        · simp [trace, TraceEvent.mentions, mention, hpeer, record, Intent.recorded]
  | leave =>
      rcases leave with _ | ⟨_ | topic⟩
      · rfl
      · rfl
      · by_cases hpeer : peerID = []
        · simp [trace, TraceEvent.mentions, mention, hpeer]
        · simp [trace, TraceEvent.mentions, mention, hpeer, record, Intent.recorded]
  | graft =>
      rcases graft with _ | ⟨own, _ | topic⟩
      · rfl
      · rfl
      · by_cases hpeer : peerOf own peerID = []
        · simp [trace, TraceEvent.mentions, mention, hpeer]
        · simp [trace, TraceEvent.mentions, mention, hpeer, record, Intent.recorded]
  | prune =>
      rcases prune with _ | ⟨own, _ | topic⟩
      · rfl
      · rfl
      · by_cases hpeer : peerOf own peerID = []
        · simp [trace, TraceEvent.mentions, mention, hpeer]
        · simp [trace, TraceEvent.mentions, mention, hpeer, record, Intent.recorded]
  | recvRPC =>
      rcases recvRPC with _ | ⟨own, _ | rpcMeta⟩
      · rfl
      · rfl
      · by_cases hpeer : peerOf own peerID = []
        · have hnone : (rpcMeta.subscription.flatMap fun sub => sub.toList.flatMap fun sub =>
              mention [] sub.topic sub.intent) = [] := by
            rw [List.flatMap_eq_nil_iff]
            intro sub _
            rw [List.flatMap_eq_nil_iff]
            exact fun sub _ => mention_of_nil sub.topic sub.intent
          simp [trace, TraceEvent.mentions, hpeer, hnone]
        · simp [trace, TraceEvent.mentions, hpeer, addSubscriptions_eq hpeer]
  | sendRPC | other => rfl

theorem traceAll_eq
    (t : PeerTopicTracer)
    (events : List (Option TraceEvent)) :
    t.traceAll events = (mentionsOf events).foldl record t := by
  induction events generalizing t with
  | nil => rfl
  | cons evt rest ih =>
      have hrest := ih (t.trace evt)
      cases evt with
      | none => exact hrest
      | some evt =>
          rw [trace_eq] at hrest
          simpa [traceAll, mentionsOf, trace_eq] using hrest

theorem recorded_foldl_iff
    (mentions : List Mention) :
    (mentions.foldl record new).Recorded peer topic
      ↔
    ∃ intent, latest peer topic mentions = some intent ∧ intent.recorded = true := by
  induction mentions using List.reverseRecOn with
  | nil => simp [latest, Recorded, new, TopicPeers.peers]
  | append_singleton mentions m ih =>
      rw [List.foldl_append, List.foldl_cons, List.foldl_nil, recorded_record_iff, latest_concat]
      by_cases hm : m.peer = peer ∧ m.topic = topic
      · simp [hm]
      · simpa [hm] using ih

/-- What is recorded follows the latest intent of the peers exactly where that is no
unsubscribe announcement, and the discovered topics are those with a recorded peer. -/
theorem recorded_iff_wanted
    (events : List (Option TraceEvent)) :
    (∀ topic, topic ∈ (new.traceAll events).getDiscoveredTopics
        ↔ ∃ peer, (new.traceAll events).Recorded peer topic) ∧
      ((∀ peer topic, (new.traceAll events).Recorded peer topic
          ↔ ∃ intent, latest peer topic (mentionsOf events) = some intent ∧ intent.wants = true)
        ↔
      ∀ peer topic, latest peer topic (mentionsOf events) ≠ some .unsubscribe) := by
  refine ⟨fun topic => mem_getDiscoveredTopics_iff, ?_⟩
  refine forall_congr' fun peer => forall_congr' fun topic => ?_
  rw [traceAll_eq, recorded_foldl_iff]
  cases hlatest : latest peer topic (mentionsOf events) with
  | none => simp
  | some intent => cases intent <;> simp [Intent.recorded, Intent.wants]

end PeerTopicTracer

end Records

section Unsubscribed

/-- A peer announces a topic, with the flag given. -/
def announcement (subscribe : Bool) : Option TraceEvent :=
  some { TraceEvent.bare .recvRPC [] with
    recvRPC := some ⟨[1], some ⟨[some ⟨some subscribe, some "beacon_block"⟩]⟩⟩ }

/-- A peer that unsubscribes stays recorded. -/
theorem unsubscribed_peer_recorded :
    latest [1] "beacon_block" (mentionsOf [announcement true, announcement false]) =
        some .unsubscribe ∧
      (PeerTopicTracer.new.traceAll [announcement true, announcement false]).Recorded [1]
        "beacon_block" ∧
      "beacon_block" ∈ (PeerTopicTracer.new.traceAll
        [announcement true, announcement false]).getDiscoveredTopics := by
  decide +kernel

end Unsubscribed

end Telemetry
end OptimumGateway
