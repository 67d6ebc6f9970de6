import OptimumGateway.GossipsubGateway.RefreshTopics

/-!
# The books with numbered subscriptions

Every libp2p subscription has a reader, `handleSubscription`, whose deferred
`unsubscribeFromTopic` leaves the topic by its name, whichever subscription of it is in the
maps by then.  To tell the subscriptions of a topic apart, every successful `Join` gets a
number, which its handle and its subscription keep.

The programs are those of `RefreshTopics`.  A goroutine remembers in `held` the number of
what it joined or loaded last, as the source does in a local variable.  The other numbers
are kept to state what happens: who joined a topic last, which subscriptions were made and
cancelled, which readers were started and have returned, and when a refresh last found a
topic unsupported.

`books_step` is what every operation keeps, if topics are joined in order: the invariant
`Sound`, and what the other goroutines rely on.
-/

namespace OptimumGateway
namespace GossipsubGateway

open Foundation Foundation.Prog Protocol

namespace LateCleanup

section Model

/-- The goroutines: calls of `refreshTopics`, the reader of each libp2p subscription, and
the one that follows bootstrap. -/
inductive Goroutine where
  | refresh (i : Nat)
  | reader (topic : String) (n : Nat)
  | bootstrap
deriving DecidableEq

inductive CleanupOp where
  | books (g : Goroutine) (op : TopicOp)
  | refreshStarts (i : Nat)
  | refreshReturns (i : Nat)
  | readerLeaves (topic : String) (n : Nat)
  | readerReturns (topic : String) (n : Nat)
  | forkCall (change : ForkCall)
deriving DecidableEq

abbrev CleanupOp.Ans : CleanupOp → Type
  | .books _ op => op.Ans
  | _ => Unit

/-- The books with the numbers of what they hold. -/
structure Numbered where
  books : TopicState
  /-- Numbers of the handles and of the subscriptions in the maps. -/
  topicNo : Source → String → Nat
  subNo : Source → String → Nat
  /-- What a goroutine joined or loaded last. -/
  held : Goroutine → Source → Nat
  /-- The number of the next `Join`. -/
  next : Nat
  /-- The last `Join` of a topic, and who made it. -/
  latest : Source → String → Nat
  joiner : Source → String → Goroutine
  subscribed : Finset (Source × String × Nat)
  cancelled : Finset (Source × String × Nat)
  /-- The readers that were started, and those that have returned. -/
  started : Finset (String × Nat)
  returned : Finset (String × Nat)
  /-- The calls of `refreshTopics` in progress. -/
  running : Finset Nat
  /-- The number that was next when a refresh last found the topic unsupported. -/
  doubted : String → Nat

/-- Change the entry of a topic. -/
def put {β : Type} (f : Source → String → β) (net : Source) (topic : String) (v : β) :
    Source → String → β :=
  Function.update f net (Function.update (f net) topic v)

namespace Numbered

def hold (s : Numbered) (g : Goroutine) (net : Source) (n : Nat) : Numbered :=
  { s with held := Function.update s.held g (Function.update (s.held g) net n) }

/-- The books at the start, nothing joined by a refresh yet. -/
def start (st : TopicState) : Numbered where
  books := st
  topicNo := fun _ _ => 0
  subNo := fun _ _ => 0
  held := fun _ _ => 0
  next := 1
  latest := fun _ _ => 0
  joiner := fun _ _ => .bootstrap
  subscribed := ∅
  cancelled := ∅
  started := ∅
  returned := ∅
  running := ∅
  doubted := fun _ => 0

end Numbered

/-- What an operation of a goroutine does to the numbers. -/
def record (g : Goroutine) : (op : TopicOp) → op.Ans → Numbered → Numbered
  | .topicLoad net topic, _, s => s.hold g net (s.topicNo net topic)
  | .subLoad net topic, _, s => s.hold g net (s.subNo net topic)
  | .join net topic, none, s =>
      { s.hold g net s.next with
        next := s.next + 1
        latest := put s.latest net topic s.next
        joiner := put s.joiner net topic g }
  | .topicStore net topic, _, s =>
      { s with topicNo := put s.topicNo net topic (s.held g net) }
  | .subscribe net topic, none, s =>
      { s with subscribed := insert (net, topic, s.held g net) s.subscribed }
  | .subStore net topic, _, s =>
      { s with subNo := put s.subNo net topic (s.held g net) }
  | .cancel net topic, _, s =>
      { s with cancelled := insert (net, topic, s.held g net) s.cancelled }
  | .goHandleSubscription .libP2P topic, _, s =>
      { s with started := insert (topic, s.held g .libP2P) s.started }
  | .topicSupported topic, false, s =>
      { s with doubted := Function.update s.doubted topic s.next }
  | _, _, s => s

/-- The operations on the books have their meaning of `RefreshTopics`.  The loop of a
reader ends when its subscription has been cancelled. -/
def cleanupSem : Sem CleanupOp CleanupOp.Ans Numbered
  | .books g op, s, r, t =>
      ∃ b, topicSem op s.books r b ∧ t = record g op r { s with books := b }
  | .refreshStarts i, s, _, t => t = { s with running := insert i s.running }
  | .refreshReturns i, s, _, t => t = { s with running := s.running.erase i }
  | .readerLeaves topic n, s, _, t =>
      (topic, n) ∈ s.started ∧ (.libP2P, topic, n) ∈ s.cancelled ∧ t = s
  | .readerReturns topic n, s, _, t =>
      t = { s with returned := insert (topic, n) s.returned }
  | .forkCall change, s, _, t =>
      t = { s with books := { s.books with forks := change.run s.books.forks } }

abbrev CleanupProg := Prog CleanupOp CleanupOp.Ans

abbrev CleanupCall := Call CleanupOp CleanupOp.Ans

abbrev CleanupEvent := Event Goroutine CleanupOp CleanupOp.Ans

abbrev CleanupPool := Config Goroutine CleanupOp CleanupOp.Ans (fun _ => Unit) Numbered

abbrev cleanupOp (op : CleanupOp) : CleanupProg op.Ans := Prog.op op

/-- A program on the books, run by a goroutine. -/
def runBy {α : Type} (g : Goroutine) : TopicProg α → CleanupProg α
  | .ret a => .ret a
  | .call op k => .call (.books g op) fun r => runBy g (k r)

variable (s : RefreshService)

def refreshCall (unique : List String → List String) (i : Nat) : CleanupProg Unit := do
  cleanupOp (.refreshStarts i)
  runBy (.refresh i) (refreshTopics s unique)
  cleanupOp (.refreshReturns i)

/-- `handleSubscription` from the end of its loop on. -/
def readerCall (topic : String) (n : Nat) : CleanupProg Unit := do
  cleanupOp (.readerLeaves topic n)
  runBy (.reader topic n) (unsubscribeFromTopic s topic)
  cleanupOp (.readerReturns topic n)

/-- The calls that change the supported digests. -/
def bootstrapCall (changes : List ForkCall) : CleanupProg Unit :=
  changes.forM fun change => cleanupOp (.forkCall change)

/-- Any number of refreshes, with the readers of all subscriptions they may make. -/
def cleanupPool
    (unique : Nat → List String → List String)
    (changes : List ForkCall)
    (st : TopicState) :
    CleanupPool where
  progs
    | .refresh i => refreshCall s (unique i) i
    | .reader topic n => readerCall s topic n
    | .bootstrap => bootstrapCall changes
  state := Numbered.start st

/-- What an operation cancels, closes or removes from a map. -/
def removed (g : Goroutine) : TopicOp → Numbered → Option (Source × String × Nat)
  | .cancel net topic, s => some (net, topic, s.held g net)
  | .close net topic, s => some (net, topic, s.held g net)
  | .subDelete net topic, s =>
      if topic ∈ s.books.subs net then some (net, topic, s.subNo net topic) else none
  | .topicDelete net topic, s =>
      if topic ∈ s.books.topics net then some (net, topic, s.topicNo net topic) else none
  | _, _ => none

/-- A topic is joined while no other refresh is running and every reader that was started
for it has returned. -/
def Orderly : CleanupOp → Numbered → Prop
  | .books (.refresh i) (.join _ topic), s =>
      (∀ j ∈ s.running, j = i) ∧ ∀ n, (topic, n) ∈ s.started → (topic, n) ∈ s.returned
  | _, _ => True

end Model

section Invariant

/-- Numbers in the maps are not newer than the last `Join`, what is cancelled has been
doubted since it was joined, and while a reader has not returned nothing newer than its
subscription is joined. -/
structure Sound (s : Numbered) : Prop where
  topics : ∀ net topic, topic ∈ s.books.topics net → s.topicNo net topic ≤ s.latest net topic
  subs : ∀ net topic, topic ∈ s.books.subs net → s.subNo net topic ≤ s.latest net topic
  latest : ∀ net topic, s.latest net topic < s.next
  subscribed : ∀ net topic n, (net, topic, n) ∈ s.subscribed → n ≤ s.latest net topic
  doubted : ∀ topic, s.doubted topic ≤ s.next
  cancelled : ∀ net topic n, (net, topic, n) ∈ s.cancelled → n < s.doubted topic
  readers : ∀ topic n, (topic, n) ∈ s.started → (topic, n) ∉ s.returned →
    ∀ net, s.latest net topic ≤ n

/-- What a goroutine may expect from a step of another one. -/
structure Rely (g : Goroutine) (s t : Numbered) : Prop where
  sound : Sound t
  held : t.held g = s.held g
  doubted : ∀ topic, s.doubted topic ≤ t.doubted topic
  subscribed : s.subscribed ⊆ t.subscribed
  started : s.started ⊆ t.started
  returned : ∀ topic n, g = .reader topic n → (topic, n) ∉ s.returned →
    (topic, n) ∉ t.returned
  waiting : ∀ topic n, g = .reader topic n → (topic, n) ∈ s.started →
    (topic, n) ∉ s.returned → ∀ net, t.latest net topic = s.latest net topic
  running : ∀ i, g = .refresh i → i ∈ s.running →
    i ∈ t.running ∧ t.latest = s.latest ∧ t.joiner = s.joiner
  joined : ∀ i net topic, g = .refresh i → i ∈ s.running → s.joiner net topic = g →
    (∀ n, (net, topic, n) ∈ t.subscribed → (net, topic, n) ∈ s.subscribed) ∧
      (topic ∈ t.books.topics net →
        topic ∈ s.books.topics net ∧ t.topicNo net topic = s.topicNo net topic)

/-- The step keeps the invariant and what the other goroutines rely on. -/
abbrev Kept (g : Goroutine) (s t : Numbered) : Prop :=
  Sound t ∧ ∀ g', g' ≠ g → Rely g' s t

/-- What a goroutine has to know before it touches the books. -/
def Pre (g : Goroutine) : TopicOp → Numbered → Prop
  | .join _ _, _ => ∃ i, g = .refresh i
  | .topicStore net topic, s | .subscribe net topic, s =>
      s.joiner net topic = g ∧ s.held g net = s.latest net topic
  | .subStore net topic, s =>
      s.held g net = s.latest net topic ∧ (net, topic, s.held g net) ∈ s.subscribed
  | .goHandleSubscription net topic, s =>
      ∀ net', s.latest net' topic ≤ s.held g net
  | .cancel net topic, s => s.held g net < s.doubted topic
  | _, _ => True

variable {g g' : Goroutine} {s t : Numbered} {net net' : Source} {topic topic' : String}

theorem sound_start
    (st : TopicState) :
    Sound (Numbered.start st) := by
  constructor <;> simp [Numbered.start]

@[simp] theorem put_apply
    {β : Type} (f : Source → String → β) (v : β) :
    put f net topic v net' topic' =
      if net' = net ∧ topic' = topic then v else f net' topic' := by
  unfold put
  by_cases hnet : net' = net
  · subst hnet
    by_cases htopic : topic' = topic
    · subst htopic
      simp
    · simp [htopic]
  · simp [hnet]

/-- The step changes nothing but what the goroutine holds, and may remove entries. -/
def Quiet (g : Goroutine) (s t : Numbered) : Prop :=
  ∃ b h, t = { s with books := b, held := h } ∧
    (∀ net topic, topic ∈ b.topics net → topic ∈ s.books.topics net) ∧
    (∀ net topic, topic ∈ b.subs net → topic ∈ s.books.subs net) ∧
    ∀ g', g' ≠ g → h g' = s.held g'

theorem Quiet.sound
    (h : Quiet g s t)
    (hs : Sound s) :
    Sound t := by
  obtain ⟨b, held, rfl, htopics, hsubs, -⟩ := h
  exact ⟨fun net topic h => hs.topics net topic (htopics net topic h),
    fun net topic h => hs.subs net topic (hsubs net topic h),
    hs.latest, hs.subscribed, hs.doubted, hs.cancelled, hs.readers⟩

theorem Quiet.rely
    (h : Quiet g s t)
    (hs : Sound s)
    (hne : g' ≠ g) :
    Rely g' s t := by
  have hsound := h.sound hs
  obtain ⟨b, held, rfl, htopics, hsubs, hheld⟩ := h
  exact ⟨hsound, hheld g' hne, fun _ => le_rfl, subset_rfl, subset_rfl, fun _ _ _ h => h,
    fun _ _ _ _ _ _ => rfl, fun _ _ h => ⟨h, rfl, rfl⟩,
    fun _ net topic _ _ _ => ⟨fun _ h => h, fun h => ⟨htopics net topic h, rfl⟩⟩⟩

/-- A step that leaves the joins and the refreshes as they are. -/
theorem rely_of_sound
    (hsound : Sound t)
    (hheld : t.held g = s.held g)
    (hdoubted : ∀ topic, s.doubted topic ≤ t.doubted topic)
    (hsubscribed : s.subscribed ⊆ t.subscribed)
    (hstarted : s.started ⊆ t.started)
    (hreturned : t.returned = s.returned)
    (hlatest : t.latest = s.latest)
    (hjoiner : t.joiner = s.joiner)
    (hrunning : t.running = s.running)
    (hjoined : ∀ net topic, s.joiner net topic = g →
      (∀ n, (net, topic, n) ∈ t.subscribed → (net, topic, n) ∈ s.subscribed) ∧
        (topic ∈ t.books.topics net →
          topic ∈ s.books.topics net ∧ t.topicNo net topic = s.topicNo net topic)) :
    Rely g s t := by
  refine ⟨hsound, hheld, hdoubted, hsubscribed, hstarted, ?_, ?_, ?_, ?_⟩
  · intro topic n _ h
    rw [hreturned]
    exact h
  · intro topic n _ _ _ net
    rw [hlatest]
  · intro i _ hi
    rw [hrunning]
    exact ⟨hi, hlatest, hjoiner⟩
  · intro i net topic _ _ h
    exact hjoined net topic h

variable (hs : Sound s)
include hs

/-- A goroutine stores the handle that it joined last. -/
theorem topicStore_step
    (hpre : Pre g (.topicStore net topic) s)
    (ht : t = record g (.topicStore net topic) () { s with books := s.books.putTopic net topic }) :
    Kept g s t := by
  subst ht
  obtain ⟨hjoiner, hheld⟩ := hpre
  have hsound : Sound (record g (.topicStore net topic) ()
      { s with books := s.books.putTopic net topic }) := by
    refine ⟨?_, hs.subs, hs.latest, hs.subscribed, hs.doubted, hs.cancelled, hs.readers⟩
    intro net' topic' hmem
    simp only [record, put_apply]
    by_cases hkey : net' = net ∧ topic' = topic
    · obtain ⟨rfl, rfl⟩ := hkey
      rw [if_pos ⟨rfl, rfl⟩, hheld]
    · rw [if_neg hkey]
      exact hs.topics net' topic' ((TopicState.mem_topics_putTopic.mp hmem).resolve_left hkey)
  refine ⟨hsound, fun g' hne => rely_of_sound hsound rfl (fun _ => le_rfl) subset_rfl
    subset_rfl rfl rfl rfl rfl ?_⟩
  intro net' topic' hother
  have hkey : ¬ (net' = net ∧ topic' = topic) := by
    intro h
    obtain ⟨rfl, rfl⟩ := h
    exact hne (hother.symm.trans hjoiner)
  refine ⟨fun _ h => h, fun hmem => ⟨?_, ?_⟩⟩
  · exact (TopicState.mem_topics_putTopic.mp hmem).resolve_left hkey
  · simp only [record, put_apply, if_neg hkey]

/-- A goroutine stores the subscription that it made last. -/
theorem subStore_step
    (hpre : Pre g (.subStore net topic) s)
    (ht : t = record g (.subStore net topic) () { s with books := s.books.putSub net topic }) :
    Kept g s t := by
  subst ht
  obtain ⟨hheld, -⟩ := hpre
  have hsound : Sound (record g (.subStore net topic) ()
      { s with books := s.books.putSub net topic }) := by
    refine ⟨hs.topics, ?_, hs.latest, hs.subscribed, hs.doubted, hs.cancelled, hs.readers⟩
    intro net' topic' hmem
    simp only [record, put_apply]
    by_cases hkey : net' = net ∧ topic' = topic
    · obtain ⟨rfl, rfl⟩ := hkey
      rw [if_pos ⟨rfl, rfl⟩, hheld]
    · rw [if_neg hkey]
      exact hs.subs net' topic' ((TopicState.mem_subs_putSub.mp hmem).resolve_left hkey)
  exact ⟨hsound, fun g' _ => rely_of_sound hsound rfl (fun _ => le_rfl) subset_rfl subset_rfl
    rfl rfl rfl rfl fun _ _ _ => ⟨fun _ h => h, fun h => ⟨h, rfl⟩⟩⟩

theorem subscribe_step
    (hpre : Pre g (.subscribe net topic) s)
    (ht : t = record g (.subscribe net topic) none s) :
    Kept g s t := by
  subst ht
  obtain ⟨hjoiner, hheld⟩ := hpre
  have hsound : Sound (record g (.subscribe net topic) none s) := by
    refine ⟨hs.topics, hs.subs, hs.latest, ?_, hs.doubted, hs.cancelled, hs.readers⟩
    intro net' topic' n hmem
    rcases Finset.mem_insert.mp hmem with hnew | hold
    · obtain ⟨rfl, rfl, rfl⟩ : net' = net ∧ topic' = topic ∧ n = s.held g net := by
        simpa using hnew
      exact hheld.le
    · exact hs.subscribed net' topic' n hold
  refine ⟨hsound, fun g' hne => rely_of_sound hsound rfl (fun _ => le_rfl)
    (Finset.subset_insert _ _) subset_rfl rfl rfl rfl rfl ?_⟩
  intro net' topic' hother
  refine ⟨fun n hmem => ?_, fun h => ⟨h, rfl⟩⟩
  rcases Finset.mem_insert.mp hmem with hnew | hold
  · obtain ⟨rfl, rfl, -⟩ : net' = net ∧ topic' = topic ∧ n = s.held g net := by
      simpa using hnew
    exact absurd (hother.symm.trans hjoiner) hne
  · exact hold

theorem cancel_step
    (hpre : Pre g (.cancel net topic) s)
    (ht : t = record g (.cancel net topic) () s) :
    Kept g s t := by
  subst ht
  have hsound : Sound (record g (.cancel net topic) () s) := by
    refine ⟨hs.topics, hs.subs, hs.latest, hs.subscribed, hs.doubted, ?_, hs.readers⟩
    intro net' topic' n hmem
    rcases Finset.mem_insert.mp hmem with hnew | hold
    · obtain ⟨rfl, rfl, rfl⟩ : net' = net ∧ topic' = topic ∧ n = s.held g net := by
        simpa using hnew
      exact hpre
    · exact hs.cancelled net' topic' n hold
  exact ⟨hsound, fun g' _ => rely_of_sound hsound rfl (fun _ => le_rfl) subset_rfl subset_rfl
    rfl rfl rfl rfl fun _ _ _ => ⟨fun _ h => h, fun h => ⟨h, rfl⟩⟩⟩

/-- A reader is started for a subscription that is not older than any join of its topic. -/
theorem goHandleSubscription_step
    (hpre : Pre g (.goHandleSubscription net topic) s)
    (ht : t = record g (.goHandleSubscription net topic) () s) :
    Kept g s t := by
  cases net with
  | mumP2P =>
      have hquiet : Quiet g s t :=
        ⟨s.books, s.held, ht, fun _ _ h => h, fun _ _ h => h, fun _ _ => rfl⟩
      exact ⟨hquiet.sound hs, fun g' hne => hquiet.rely hs hne⟩
  | libP2P =>
      subst ht
      have hsound : Sound (record g (.goHandleSubscription .libP2P topic) () s) := by
        refine ⟨hs.topics, hs.subs, hs.latest, hs.subscribed, hs.doubted, hs.cancelled, ?_⟩
        intro topic' n hmem hreturned
        rcases Finset.mem_insert.mp hmem with hnew | hold
        · obtain ⟨rfl, rfl⟩ : topic' = topic ∧ n = s.held g .libP2P := by
            simpa using hnew
          exact hpre
        · exact hs.readers topic' n hold hreturned
      exact ⟨hsound, fun g' _ => rely_of_sound hsound rfl (fun _ => le_rfl) subset_rfl
        (Finset.subset_insert _ _) rfl rfl rfl rfl
        fun _ _ _ => ⟨fun _ h => h, fun h => ⟨h, rfl⟩⟩⟩

/-- A refresh finds a topic unsupported: everything joined so far is doubted. -/
theorem doubt_step
    {b : TopicState}
    (hb : b.topics = s.books.topics ∧ b.subs = s.books.subs)
    (ht : t = record g (.topicSupported topic) false { s with books := b }) :
    Kept g s t := by
  subst ht
  have hgrows : ∀ topic', s.doubted topic' ≤ Function.update s.doubted topic s.next topic' := by
    intro topic'
    by_cases htopic : topic' = topic
    · subst htopic
      rw [Function.update_self]
      exact hs.doubted topic'
    · rw [Function.update_of_ne htopic]
  have hsound : Sound (record g (.topicSupported topic) false { s with books := b }) := by
    refine ⟨?_, ?_, hs.latest, hs.subscribed, ?_, ?_, hs.readers⟩
    · intro net topic' hmem
      exact hs.topics net topic' (hb.1 ▸ hmem)
    · intro net topic' hmem
      exact hs.subs net topic' (hb.2 ▸ hmem)
    · intro topic'
      by_cases htopic : topic' = topic
      · simp [record, htopic]
      · simpa [record, htopic] using hs.doubted topic'
    · intro net topic' n hmem
      exact (hs.cancelled net topic' n hmem).trans_le (hgrows topic')
  refine ⟨hsound, fun g' _ => rely_of_sound hsound rfl hgrows subset_rfl subset_rfl rfl rfl rfl
    rfl ?_⟩
  intro net topic' _
  exact ⟨fun _ h => h, fun h => ⟨hb.1 ▸ h, rfl⟩⟩

/-- A refresh joins a topic in order: it is the only one that is running, and no reader of
the topic is left. -/
theorem join_step
    {i : Nat}
    (hord : Orderly (.books (.refresh i) (.join net topic)) s)
    (ht : t = record (.refresh i) (.join net topic) none s) :
    Sound t ∧ ∀ g', g' ≠ .refresh i → Rely g' s t := by
  subst ht
  obtain ⟨halone, hreturned⟩ := hord
  have hgrows : ∀ net' topic', s.latest net' topic' ≤
      put s.latest net topic s.next net' topic' := by
    intro net' topic'
    rw [put_apply]
    split
    · exact (hs.latest net' topic').le
    · exact le_rfl
  have hsound : Sound (record (.refresh i) (.join net topic) none s) := by
    refine ⟨?_, ?_, ?_, ?_, ?_, hs.cancelled, ?_⟩
    · intro net' topic' hmem
      exact (hs.topics net' topic' hmem).trans (hgrows net' topic')
    · intro net' topic' hmem
      exact (hs.subs net' topic' hmem).trans (hgrows net' topic')
    · intro net' topic'
      have h := hs.latest net' topic'
      simp only [record, put_apply]
      split <;> omega
    · intro net' topic' n hmem
      exact (hs.subscribed net' topic' n hmem).trans (hgrows net' topic')
    · intro topic'
      exact (hs.doubted topic').trans (Nat.le_succ _)
    · intro topic' n hstarted hleft net'
      have hne : topic' ≠ topic := by
        intro h
        subst h
        exact hleft (hreturned n hstarted)
      simp only [record, put_apply, hne, and_false, if_false]
      exact hs.readers topic' n hstarted hleft net'
  refine ⟨hsound, ?_⟩
  intro g' hne
  -- no other refresh is running, and a reader that has not returned reads another topic
  refine ⟨hsound, ?_, fun _ => le_rfl, subset_rfl, subset_rfl, fun _ _ _ h => h, ?_, ?_, ?_⟩
  · simp [record, Numbered.hold, Function.update_of_ne hne]
  · intro topic' n _ hstarted hleft net'
    have hother : topic' ≠ topic := by
      intro h
      subst h
      exact hleft (hreturned n hstarted)
    simp [record, hother]
  · intro j hg' hj
    exact absurd (hg'.trans (congrArg _ (halone j hj))) hne
  · intro j net' topic' hg' hj
    exact absurd (hg'.trans (congrArg _ (halone j hj))) hne

theorem quiet_step
    {b : TopicState} {held : Goroutine → Source → Nat}
    (ht : t = { s with books := b, held := held })
    (htopics : ∀ net topic, topic ∈ b.topics net → topic ∈ s.books.topics net)
    (hsubs : ∀ net topic, topic ∈ b.subs net → topic ∈ s.books.subs net)
    (hheld : ∀ g', g' ≠ g → held g' = s.held g') :
    Kept g s t := by
  have hquiet : Quiet g s t := ⟨b, held, ht, htopics, hsubs, hheld⟩
  exact ⟨hquiet.sound hs, fun g' hne => hquiet.rely hs hne⟩

/-- Every operation on the books keeps the invariant and what the others rely on. -/
theorem books_step
    {op : TopicOp} {r : op.Ans}
    (hpre : Pre g op s)
    (hord : Orderly (.books g op) s)
    (hsem : cleanupSem (.books g op) s r t) :
    Kept g s t := by
  obtain ⟨b, hb, ht⟩ := hsem
  cases op with
  | topicStore net topic =>
      obtain rfl := hb
      exact topicStore_step hs hpre ht
  | subStore net topic =>
      obtain rfl := hb
      exact subStore_step hs hpre ht
  | cancel net topic =>
      obtain rfl := hb
      exact cancel_step hs hpre ht
  | goHandleSubscription net topic =>
      obtain rfl := hb
      exact goHandleSubscription_step hs hpre ht
  | subscribe net topic =>
      obtain rfl := hb
      cases r with
      | none => exact subscribe_step hs hpre ht
      | some err =>
          exact quiet_step hs ht (fun _ _ h => h) (fun _ _ h => h) fun _ _ => rfl
  | join net topic =>
      obtain rfl := hb
      cases r with
      | none =>
          obtain ⟨i, rfl⟩ := hpre
          exact join_step hs hord ht
      | some err =>
          exact quiet_step hs ht (fun _ _ h => h) (fun _ _ h => h) fun _ _ => rfl
  | topicSupported topic =>
      obtain ⟨-, rfl⟩ := hb
      cases r with
      | true => exact quiet_step hs ht (fun _ _ h => h) (fun _ _ h => h) fun _ _ => rfl
      | false =>
          refine doubt_step hs ?_ ht
          exact ⟨rfl, rfl⟩
  | topicLoad net topic | subLoad net topic =>
      obtain ⟨-, rfl⟩ := hb
      refine quiet_step hs ht (fun _ _ h => h) (fun _ _ h => h) ?_
      intro g' hne
      exact Function.update_of_ne hne _ _
  | topicDelete net topic =>
      obtain rfl := hb
      exact quiet_step hs ht (fun _ _ h => TopicState.mem_topics_dropTopic h) (fun _ _ h => h)
        fun _ _ => rfl
  | subDelete net topic =>
      obtain rfl := hb
      exact quiet_step hs ht (fun _ _ h => h) (fun _ _ h => TopicState.mem_subs_dropSub h)
        fun _ _ => rfl
  | topicKeys net | keeperTopics | activeDigest =>
      obtain ⟨-, rfl⟩ := hb
      exact quiet_step hs ht (fun _ _ h => h) (fun _ _ h => h) fun _ _ => rfl
  | close net topic | keeperAdd topic | keeperRemove topic | discoveredTopics =>
      obtain rfl := hb
      exact quiet_step hs ht (fun _ _ h => h) (fun _ _ h => h) fun _ _ => rfl

end Invariant

end LateCleanup
end GossipsubGateway
end OptimumGateway
