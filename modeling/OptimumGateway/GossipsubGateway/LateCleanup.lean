import OptimumGateway.Foundation.RelyGuarantee
import OptimumGateway.GossipsubGateway.NumberedBooks

/-!
# Cleanups that come late

A refresh that leaves a topic cancels its subscription, and the reader runs its cleanup
whenever it wakes up.  If the digest is supported again by then and a refresh has joined
the topic anew, the cleanup cancels the new subscription on both networks
(`late_cleanup_cancels_newer`).

`cleanup_spares_newer` says when the cleanups are harmless: topics are joined while no
other refresh is running and all earlier readers of the topic have returned.  It is proved
goroutine by goroutine: each program is walked through with an assertion that the others
keep, and every operation on the way spares what is newer.
-/

namespace OptimumGateway
namespace GossipsubGateway
namespace LateCleanup

open Foundation Foundation.Prog Protocol

section Threads

/-- The operations, issued in order. -/
def orderlySem : Sem CleanupOp CleanupOp.Ans Numbered :=
  fun o s r t => cleanupSem o s r t ∧ Orderly o s

/-- What a goroutine removes is not newer than the subscription whose cleanup it runs, and
a subscription that is removed has been found unsupported since it was joined. -/
def Spares
    (g : Goroutine)
    (s : Numbered)
    (net : Source)
    (topic : String)
    (n : Nat) : Prop :=
  (∀ topic' m, g = .reader topic' m → n ≤ m) ∧
    ((net, topic, n) ∈ s.subscribed → n < s.doubted topic)

/-- A subscription stays in its map, or is replaced by a newer one, unless it has been
found unsupported since it was joined. -/
def KeepsSubs (s t : Numbered) : Prop :=
  ∀ net topic, topic ∈ s.books.subs net →
    (net, topic, s.subNo net topic) ∈ s.subscribed →
    s.doubted topic ≤ s.subNo net topic →
    topic ∈ t.books.subs net ∧ (net, topic, t.subNo net topic) ∈ t.subscribed ∧
      s.subNo net topic ≤ t.subNo net topic

/-- What a goroutine promises for each of its steps. -/
def Guar (g : Goroutine) (o : CleanupOp) (s : Numbered) (_ : o.Ans) (t : Numbered) : Prop :=
  (∀ g', g' ≠ g → Rely g' s t) ∧ Sound t ∧ KeepsSubs s t ∧
    ∀ g' op, o = .books g' op → g' = g ∧
      ∀ net topic n, removed g op s = some (net, topic, n) → Spares g s net topic n

/-- A program on the books, run by a goroutine among the others. -/
abbrev Walk
    {α : Type}
    (g : Goroutine)
    (Q : α → Numbered → Prop)
    (p : TopicProg α)
    (s : Numbered) : Prop :=
  Guaranteed (fun op s r t => orderlySem (.books g op) s r t) (Rely g)
    (fun op s r t => Guar g (.books g op) s r t) Q p s

variable {g : Goroutine} {s t : Numbered} {net : Source} {topic : String}

theorem Walk.runBy
    {α : Type} {Q : α → Numbered → Prop} {p : TopicProg α}
    (h : Walk g Q p s) :
    Guaranteed orderlySem (Rely g) (Guar g) Q (runBy g p) s := by
  induction p generalizing s with
  | ret a => exact guaranteed_ret_iff.mpr (guaranteed_ret_iff.mp h)
  | call op k ih =>
      refine guaranteed_call_iff.mpr ?_
      intro t ht r u hsem
      obtain ⟨hguar, hrest⟩ := guaranteed_call_iff.mp h t ht r u hsem
      exact ⟨hguar, ih r hrest⟩

theorem keepsSubs_of_eq
    (hsubs : t.books.subs = s.books.subs)
    (hno : t.subNo = s.subNo)
    (hsubscribed : s.subscribed ⊆ t.subscribed) :
    KeepsSubs s t := by
  intro net topic hmem hsub _
  rw [hsubs, hno]
  exact ⟨hmem, hsubscribed hsub, le_rfl⟩

/-- An operation that spares what it removes keeps the other subscriptions. -/
theorem keepsSubs_step
    {op : TopicOp} {r : op.Ans}
    (hs : Sound s)
    (hpre : Pre g op s)
    (hspares : ∀ net topic n, removed g op s = some (net, topic, n) → Spares g s net topic n)
    (hsem : cleanupSem (.books g op) s r t) :
    KeepsSubs s t := by
  obtain ⟨b, hb, rfl⟩ := hsem
  cases op with
  | subDelete net topic =>
      obtain rfl := hb
      intro net' topic' hmem hsub hdoubted
      by_cases hkey : net' = net ∧ topic' = topic
      · obtain ⟨rfl, rfl⟩ := hkey
        have hlt := (hspares net' topic' _ (if_pos hmem)).2 hsub
        omega
      · refine ⟨?_, hsub, le_rfl⟩
        change topic' ∈ (s.books.dropSub net topic).subs net'
        unfold TopicState.dropSub
        by_cases hnet : net' = net
        · subst hnet
          simp only [Function.update_self]
          exact Finset.mem_erase.mpr ⟨fun h => hkey ⟨rfl, h⟩, hmem⟩
        · simpa [hnet] using hmem
  | subStore net topic =>
      obtain rfl := hb
      obtain ⟨hheld, hmade⟩ := hpre
      intro net' topic' hmem hsub _
      refine ⟨TopicState.mem_subs_putSub.mpr (Or.inr hmem), ?_⟩
      simp only [record, put_apply]
      by_cases hkey : net' = net ∧ topic' = topic
      · obtain ⟨rfl, rfl⟩ := hkey
        rw [if_pos ⟨rfl, rfl⟩]
        exact ⟨hmade, (hs.subs net' topic' hmem).trans hheld.ge⟩
      · rw [if_neg hkey]
        exact ⟨hsub, le_rfl⟩
  | subscribe net topic =>
      obtain rfl := hb
      cases r with
      | none => exact keepsSubs_of_eq rfl rfl (Finset.subset_insert _ _)
      | some err => exact keepsSubs_of_eq rfl rfl subset_rfl
  | join net topic =>
      obtain rfl := hb
      cases r with
      | none | some err => exact keepsSubs_of_eq rfl rfl subset_rfl
  | topicSupported topic =>
      obtain ⟨-, rfl⟩ := hb
      cases r with
      | true | false => exact keepsSubs_of_eq rfl rfl subset_rfl
  | goHandleSubscription net topic =>
      obtain rfl := hb
      cases net with
      | libP2P | mumP2P => exact keepsSubs_of_eq rfl rfl subset_rfl
  | topicKeys | topicLoad | subLoad | keeperTopics | activeDigest =>
      obtain ⟨-, rfl⟩ := hb
      exact keepsSubs_of_eq rfl rfl subset_rfl
  | topicStore | topicDelete | cancel | close | keeperAdd | keeperRemove
  | discoveredTopics =>
      obtain rfl := hb
      exact keepsSubs_of_eq rfl rfl subset_rfl

theorem Walk.op
    (op : TopicOp) {P : Numbered → Prop} {Q : op.Ans → Numbered → Prop}
    (hstable : StableUnder (Rely g) P)
    (hs : P s)
    (hsound : ∀ t, P t → Sound t)
    (hpre : ∀ t, P t → Pre g op t)
    (hspares : ∀ t, P t → ∀ net topic n, removed g op t = some (net, topic, n) →
      Spares g t net topic n)
    (hpost : ∀ t b r u, P t → topicSem op t.books r b → Sound u →
      u = record g op r { t with books := b } → Q r u) :
    Walk g Q (topicOp op) s := by
  refine Guaranteed.op _ hstable hs ?_
  intro t r u ht hsem
  obtain ⟨hsem, hord⟩ := hsem
  obtain ⟨hu, hrely⟩ := books_step (hsound t ht) (hpre t ht) hord hsem
  have hkeeps := keepsSubs_step (hsound t ht) (hpre t ht) (hspares t ht) hsem
  obtain ⟨b, hb, heq⟩ := hsem
  refine ⟨⟨hrely, hu, hkeeps, ?_⟩, hpost t b r u ht hb hu heq⟩
  intro g' op' ho
  cases ho
  exact ⟨rfl, hspares t ht⟩

/-- The goroutine is in the middle of what it does to the topic. -/
def Waits : Goroutine → String → Numbered → Prop
  | .refresh i, _, s => i ∈ s.running
  | .reader topic' n, topic, s =>
      topic' = topic ∧ (topic, n) ∈ s.started ∧ (topic, n) ∉ s.returned
  | .bootstrap, _, _ => False

/-- The goroutine leaves a topic that was found unsupported after everything of it was
joined. -/
structure Leaving (g : Goroutine) (topic : String) (s : Numbered) : Prop where
  sound : Sound s
  doubted : ∀ net, s.latest net topic < s.doubted topic
  waits : Waits g topic s

variable (h : Leaving g topic s)
include h

theorem Leaving.latest_eq
    (hrely : Rely g s t) :
    ∀ net, t.latest net topic = s.latest net topic := by
  intro net
  have hwaits := h.waits
  cases g with
  | refresh i => rw [(hrely.running i rfl hwaits).2.1]
  | reader topic' n =>
      obtain ⟨rfl, hstarted, hleft⟩ := hwaits
      exact hrely.waiting topic' n rfl hstarted hleft net
  | bootstrap => exact absurd hwaits id

omit h in
theorem Leaving.stable :
    StableUnder (Rely g) (Leaving g topic) := by
  intro s t h hrely
  refine ⟨hrely.sound, ?_, ?_⟩
  · intro net
    rw [h.latest_eq hrely net]
    exact (h.doubted net).trans_le (hrely.doubted topic)
  · have hwaits := h.waits
    cases g with
    | refresh i => exact (hrely.running i rfl hwaits).1
    | reader topic' n =>
        obtain ⟨rfl, hstarted, hleft⟩ := hwaits
        exact ⟨rfl, hrely.started hstarted, hrely.returned topic' n rfl hleft⟩
    | bootstrap => exact hwaits

/-- Whatever of the topic is in the books may be removed. -/
theorem Leaving.spares
    {n : Nat}
    (hn : n ≤ s.latest net topic) :
    Spares g s net topic n := by
  refine ⟨?_, fun _ => hn.trans_lt (h.doubted net)⟩
  intro topic' m hg
  subst hg
  obtain ⟨rfl, hstarted, hleft⟩ := h.waits
  exact hn.trans (h.sound.readers topic' m hstarted hleft net)

/-- The step concerns neither the joins nor the goroutines. -/
structure SameJoins (s t : Numbered) : Prop where
  latest : t.latest = s.latest
  joiner : t.joiner = s.joiner
  doubted : t.doubted = s.doubted
  started : t.started = s.started
  returned : t.returned = s.returned
  running : t.running = s.running

theorem Leaving.congr
    (hsound : Sound t)
    (hsame : SameJoins s t) :
    Leaving g topic t := by
  refine ⟨hsound, ?_, ?_⟩
  · rw [hsame.latest, hsame.doubted]
    exact h.doubted
  · have hwaits := h.waits
    cases g with
    | refresh i =>
        change i ∈ t.running
        rw [hsame.running]
        exact hwaits
    | reader topic' n =>
        change topic' = topic ∧ (topic, n) ∈ t.started ∧ (topic, n) ∉ t.returned
        rw [hsame.started, hsame.returned]
        exact hwaits
    | bootstrap => exact hwaits

/-- What the goroutine has loaded is in the books or older. -/
def LeavingHeld (g : Goroutine) (net : Source) (topic : String) (s : Numbered) : Prop :=
  Leaving g topic s ∧ s.held g net ≤ s.latest net topic

omit h in
theorem LeavingHeld.stable :
    StableUnder (Rely g) (LeavingHeld g net topic) := by
  intro s t h hrely
  refine ⟨Leaving.stable s t h.1 hrely, ?_⟩
  rw [hrely.held, h.1.latest_eq hrely net]
  exact h.2

theorem Walk.leave
    {op : TopicOp}
    (hpre : ∀ t, Leaving g topic t → Pre g op t)
    (hspares : ∀ t, Leaving g topic t → ∀ net' topic' n,
      removed g op t = some (net', topic', n) → Spares g t net' topic' n)
    (hsame : ∀ b r t, SameJoins t (record g op r { t with books := b })) :
    Walk g (fun _ => Leaving g topic) (topicOp op) s := by
  refine Walk.op _ Leaving.stable h (fun _ h => h.sound) hpre hspares ?_
  intro t b r u ht _ hu heq
  subst heq
  exact ht.congr hu (hsame b r t)

omit h in
theorem Walk.leaveHeld
    {op : TopicOp}
    (h : LeavingHeld g net topic s)
    (hpre : ∀ t, LeavingHeld g net topic t → Pre g op t)
    (hremoved : ∀ t, removed g op t = some (net, topic, t.held g net))
    (hsame : ∀ b r t, SameJoins t (record g op r { t with books := b })) :
    Walk g (fun _ => Leaving g topic) (topicOp op) s := by
  refine Walk.op _ LeavingHeld.stable h (fun _ h => h.1.sound) hpre ?_ ?_
  · intro t ht net' topic' n hr
    rw [hremoved t] at hr
    cases hr
    exact ht.1.spares ht.2
  · intro t b r u ht _ hu heq
    subst heq
    exact ht.1.congr hu (hsame b r t)

theorem walk_subDelete :
    Walk g (fun _ => Leaving g topic) (topicOp (.subDelete net topic)) s := by
  refine Walk.leave h (fun _ _ => trivial) ?_ (fun _ _ _ => ⟨rfl, rfl, rfl, rfl, rfl, rfl⟩)
  intro t ht net' topic' n hremoved
  obtain ⟨hmem, heq⟩ := Option.ite_none_right_eq_some.mp hremoved
  cases heq
  exact ht.spares (ht.sound.subs _ _ hmem)

theorem walk_topicDelete :
    Walk g (fun _ => Leaving g topic) (topicOp (.topicDelete net topic)) s := by
  refine Walk.leave h (fun _ _ => trivial) ?_ (fun _ _ _ => ⟨rfl, rfl, rfl, rfl, rfl, rfl⟩)
  intro t ht net' topic' n hremoved
  obtain ⟨hmem, heq⟩ := Option.ite_none_right_eq_some.mp hremoved
  cases heq
  exact ht.spares (ht.sound.topics _ _ hmem)

omit h in
theorem walk_close
    (h : LeavingHeld g net topic s) :
    Walk g (fun _ => Leaving g topic) (topicOp (.close net topic)) s :=
  Walk.leaveHeld h (fun _ _ => trivial) (fun _ => rfl)
    fun _ _ _ => ⟨rfl, rfl, rfl, rfl, rfl, rfl⟩

theorem walk_subLoad :
    Walk g (fun ok t => Leaving g topic t ∧ (ok = true → LeavingHeld g net topic t))
      (topicOp (.subLoad net topic)) s := by
  refine Walk.op (.subLoad net topic) Leaving.stable h (fun _ h => h.sound) (fun _ _ => trivial)
    (fun _ _ _ _ _ h => nomatch h) ?_
  intro t b ok u ht hb hu heq
  obtain ⟨rfl, rfl⟩ := hb
  subst heq
  have hleaving := ht.congr hu ⟨rfl, rfl, rfl, rfl, rfl, rfl⟩
  refine ⟨hleaving, fun hok => ⟨hleaving, ?_⟩⟩
  simpa [record, Numbered.hold] using ht.sound.subs net topic (of_decide_eq_true hok)

theorem walk_topicLoad :
    Walk g (fun ok t => Leaving g topic t ∧ (ok = true → LeavingHeld g net topic t))
      (topicOp (.topicLoad net topic)) s := by
  refine Walk.op (.topicLoad net topic) Leaving.stable h (fun _ h => h.sound) (fun _ _ => trivial)
    (fun _ _ _ _ _ h => nomatch h) ?_
  intro t b ok u ht hb hu heq
  obtain ⟨rfl, rfl⟩ := hb
  subst heq
  have hleaving := ht.congr hu ⟨rfl, rfl, rfl, rfl, rfl, rfl⟩
  refine ⟨hleaving, fun hok => ⟨hleaving, ?_⟩⟩
  simpa [record, Numbered.hold] using ht.sound.topics net topic (of_decide_eq_true hok)

theorem walk_cancelSubscription :
    Walk g (fun _ => Leaving g topic) (cancelSubscription net topic) s := by
  refine (walk_subLoad h).bind ?_
  intro ok t ht
  cases ok with
  | false => exact Guaranteed.pure ht.1
  | true =>
      have hcancel : Walk g (fun _ => Leaving g topic) (topicOp (.cancel net topic)) t :=
        Walk.leaveHeld (ht.2 rfl) (fun _ h => h.2.trans_lt (h.1.doubted net)) (fun _ => rfl)
          fun _ _ _ => ⟨rfl, rfl, rfl, rfl, rfl, rfl⟩
      refine hcancel.bind ?_
      intro _ u hu
      exact walk_subDelete hu

theorem walk_closeTopic :
    Walk g (fun _ => Leaving g topic) (closeTopic topic) s := by
  refine (walk_topicLoad h).bind ?_
  intro ok t ht
  cases ok with
  | false => exact Guaranteed.pure ht.1
  | true =>
      refine (walk_close (ht.2 rfl)).bind ?_
      intro _ u hu
      exact walk_topicDelete hu

theorem walk_unsubscribeTopic :
    Walk g (fun _ => Leaving g topic) (unsubscribeTopic topic) s := by
  refine (walk_cancelSubscription h).bind ?_
  intro _ t ht
  refine (walk_topicLoad ht).bind ?_
  intro ok u hu
  cases ok with
  | false => exact Guaranteed.pure hu.1
  | true =>
      refine (walk_close (hu.2 rfl)).bind ?_
      intro closed v hv
      cases closed with
      | some err => exact Guaranteed.pure hv
      | none =>
          refine (walk_topicDelete hv).bind ?_
          intro _ w hw
          have hremove : Walk g (fun _ => Leaving g topic) (topicOp (.keeperRemove topic)) w :=
            Walk.leave hw (fun _ _ => trivial) (fun _ _ _ _ _ h => nomatch h)
              fun _ _ _ => ⟨rfl, rfl, rfl, rfl, rfl, rfl⟩
          refine hremove.bind ?_
          intro _ x hx
          exact Guaranteed.pure hx

omit h

/-- A goroutine that leaves a doubted topic spares everything newer. -/
theorem walk_unsubscribeFromTopic
    (srv : RefreshService)
    (h : Leaving g topic s) :
    Walk g (fun _ => Leaving g topic) (unsubscribeFromTopic srv topic) s := by
  refine (walk_cancelSubscription h).bind ?_
  intro _ t ht
  refine (walk_closeTopic ht).bind ?_
  intro _ u hu
  by_cases hmum : srv.hasMumP2P = true
  · rw [if_pos hmum]
    refine (walk_unsubscribeTopic hu).bind ?_
    intro _ v hv
    exact Guaranteed.pure hv
  · rw [if_neg hmum]
    exact Guaranteed.pure hu

variable {i : Nat}

/-- A refresh is in progress. -/
structure Working (i : Nat) (s : Numbered) : Prop where
  sound : Sound s
  running : i ∈ s.running

/-- The last `Join` of the topic is by this refresh, and nothing of it is newer. -/
structure Joined (i : Nat) (net : Source) (topic : String) (s : Numbered) : Prop
    extends Working i s where
  joiner : s.joiner net topic = .refresh i
  held : s.held (.refresh i) net = s.latest net topic
  newest : ∀ net', s.latest net' topic ≤ s.latest net topic

/-- The topic is joined and not yet subscribed. -/
structure Fresh (i : Nat) (net : Source) (topic : String) (s : Numbered) : Prop
    extends Joined i net topic s where
  unsubscribed : (net, topic, s.latest net topic) ∉ s.subscribed

/-- The new handle is in the map, if there is one. -/
structure Placed (i : Nat) (net : Source) (topic : String) (s : Numbered) : Prop
    extends Fresh i net topic s where
  stored : topic ∈ s.books.topics net → s.topicNo net topic = s.latest net topic

/-- The topic is joined and subscribed. -/
structure Renewed (i : Nat) (net : Source) (topic : String) (s : Numbered) : Prop
    extends Joined i net topic s where
  subscribed : (net, topic, s.latest net topic) ∈ s.subscribed

theorem Working.stable :
    StableUnder (Rely (.refresh i)) (Working i) := by
  intro s t h hrely
  exact ⟨hrely.sound, (hrely.running i rfl h.running).1⟩

theorem Joined.stable :
    StableUnder (Rely (.refresh i)) (Joined i net topic) := by
  intro s t h hrely
  obtain ⟨hrunning, hlatest, hjoiner⟩ := hrely.running i rfl h.running
  refine ⟨⟨hrely.sound, hrunning⟩, ?_, ?_, ?_⟩
  · rw [hjoiner]
    exact h.joiner
  · rw [hrely.held, hlatest]
    exact h.held
  · rw [hlatest]
    exact h.newest

theorem Fresh.stable :
    StableUnder (Rely (.refresh i)) (Fresh i net topic) := by
  intro s t h hrely
  refine ⟨Joined.stable s t h.toJoined hrely, ?_⟩
  rw [(hrely.running i rfl h.running).2.1]
  intro hmem
  exact h.unsubscribed ((hrely.joined i net topic rfl h.running h.joiner).1 _ hmem)

theorem Placed.stable :
    StableUnder (Rely (.refresh i)) (Placed i net topic) := by
  intro s t h hrely
  refine ⟨Fresh.stable s t h.toFresh hrely, ?_⟩
  intro hmem
  obtain ⟨hmem', hno⟩ := (hrely.joined i net topic rfl h.running h.joiner).2 hmem
  rw [hno, (hrely.running i rfl h.running).2.1]
  exact h.stored hmem'

theorem Renewed.stable :
    StableUnder (Rely (.refresh i)) (Renewed i net topic) := by
  intro s t h hrely
  refine ⟨Joined.stable s t h.toJoined hrely, ?_⟩
  rw [(hrely.running i rfl h.running).2.1]
  exact hrely.subscribed h.subscribed

theorem Leaving.working
    (h : Leaving (.refresh i) topic s) :
    Working i s :=
  ⟨h.sound, h.waits⟩

theorem Walk.work
    (op : TopicOp)
    (h : Working i s)
    (hpre : ∀ t, Pre (.refresh i) op t)
    (hremoved : ∀ t, removed (.refresh i) op t = none)
    (hrunning : ∀ b r (t : Numbered),
      (record (.refresh i) op r { t with books := b }).running = t.running) :
    Walk (.refresh i) (fun _ => Working i) (topicOp op) s := by
  refine Walk.op _ Working.stable h (fun _ h => h.sound) (fun t _ => hpre t) ?_ ?_
  · intro t _ net topic n hr
    rw [hremoved t] at hr
    exact nomatch hr
  · intro t b r u ht _ hu heq
    subst heq
    exact ⟨hu, by rw [hrunning]; exact ht.running⟩

theorem walk_topicSupported
    (h : Working i s) :
    Walk (.refresh i)
      (fun ok t => if ok then Working i t else Leaving (.refresh i) topic t)
      (topicOp (.topicSupported topic)) s := by
  refine Walk.op _ Working.stable h (fun _ h => h.sound) (fun _ _ => trivial)
    (fun _ _ _ _ _ h => nomatch h) ?_
  intro t b ok u ht _ hu heq
  cases ok with
  | true =>
      subst heq
      exact ⟨hu, ht.running⟩
  | false =>
      subst heq
      refine ⟨hu, ?_, ht.running⟩
      intro net
      simpa [record] using ht.sound.latest net topic

theorem walk_join
    (h : Working i s) :
    Walk (.refresh i)
      (fun r t => if r = none then Fresh i net topic t else Working i t)
      (topicOp (.join net topic)) s := by
  refine Walk.op (.join net topic) Working.stable h (fun _ h => h.sound) (fun _ _ => ⟨i, rfl⟩)
    (fun _ _ _ _ _ h => nomatch h) ?_
  intro t b r u ht hb hu heq
  obtain rfl := hb
  cases r with
  | some err =>
      subst heq
      exact ⟨hu, ht.running⟩
  | none =>
      subst heq
      refine ⟨⟨⟨hu, ht.running⟩, ?_, ?_, ?_⟩, ?_⟩
      · simp [record]
      · simp [record, Numbered.hold]
      · intro net'
        have hlt := ht.sound.latest net' topic
        simp only [record, put_apply, and_true, if_pos]
        split <;> omega
      · intro hmem
        have hsub : (net, topic, t.next) ∈ t.subscribed := by
          simpa [record, Numbered.hold] using hmem
        have hle := ht.sound.subscribed net topic t.next hsub
        have hlt := ht.sound.latest net topic
        omega

theorem walk_topicStore
    (h : Fresh i net topic s) :
    Walk (.refresh i) (fun _ => Placed i net topic) (topicOp (.topicStore net topic)) s := by
  refine Walk.op _ Fresh.stable h (fun _ h => h.sound) (fun _ h => ⟨h.joiner, h.held⟩)
    (fun _ _ _ _ _ h => nomatch h) ?_
  intro t b r u ht _ hu heq
  subst heq
  refine ⟨⟨⟨⟨hu, ht.running⟩, ht.joiner, ht.held, ht.newest⟩, ht.unsubscribed⟩, ?_⟩
  intro _
  simpa [record] using ht.held

theorem walk_subscribe
    (h : Placed i net topic s) :
    Walk (.refresh i)
      (fun r t => if r = none then Renewed i net topic t else Placed i net topic t)
      (topicOp (.subscribe net topic)) s := by
  refine Walk.op (.subscribe net topic) Placed.stable h (fun _ h => h.sound)
    (fun _ h => ⟨h.joiner, h.held⟩) (fun _ _ _ _ _ h => nomatch h) ?_
  intro t b r u ht hb hu heq
  obtain rfl := hb
  cases r with
  | none =>
      subst heq
      refine ⟨⟨⟨hu, ht.running⟩, ht.joiner, ht.held, ht.newest⟩, ?_⟩
      exact Finset.mem_insert.mpr (Or.inl (by rw [ht.held]; rfl))
  | some err =>
      subst heq
      exact ht

/-- What a refresh has joined and not subscribed may be removed by it. -/
theorem Fresh.spares
    (h : Fresh i net topic s) :
    Spares (.refresh i) s net topic (s.latest net topic) :=
  ⟨fun _ _ h => (nomatch h), fun hmem => absurd hmem h.unsubscribed⟩

/-- A failed subscription is undone. -/
theorem walk_undo
    (h : Placed i net topic s) :
    Walk (.refresh i) (fun _ => Placed i net topic) (topicOp (.topicDelete net topic)) s := by
  refine Walk.op _ Placed.stable h (fun _ h => h.sound) (fun _ _ => trivial) ?_ ?_
  · intro t ht net' topic' n hremoved
    obtain ⟨hmem, heq⟩ := Option.ite_none_right_eq_some.mp hremoved
    cases heq
    rw [ht.stored hmem]
    exact ht.spares
  · intro t b r u ht hb hu heq
    obtain rfl := hb
    subst heq
    refine ⟨⟨⟨⟨hu, ht.running⟩, ht.joiner, ht.held, ht.newest⟩, ht.unsubscribed⟩, ?_⟩
    intro hmem
    exact ht.stored (TopicState.mem_topics_dropTopic hmem)

theorem walk_closeFresh
    (h : Placed i net topic s) :
    Walk (.refresh i) (fun _ => Working i) (topicOp (.close net topic)) s := by
  refine Walk.op _ Placed.stable h (fun _ h => h.sound) (fun _ _ => trivial) ?_ ?_
  · intro t ht net' topic' n hremoved
    cases hremoved
    rw [ht.held]
    exact ht.spares
  · intro t b r u ht _ hu heq
    subst heq
    exact ⟨hu, ht.running⟩

theorem walk_subStore
    (h : Renewed i net topic s) :
    Walk (.refresh i) (fun _ => Joined i net topic) (topicOp (.subStore net topic)) s := by
  refine Walk.op _ Renewed.stable h (fun _ h => h.sound) ?_ (fun _ _ _ _ _ h => nomatch h) ?_
  · intro t ht
    refine ⟨ht.held, ?_⟩
    rw [ht.held]
    exact ht.subscribed
  · intro t b r u ht _ hu heq
    subst heq
    exact ⟨⟨hu, ht.running⟩, ht.joiner, ht.held, ht.newest⟩

theorem walk_goHandleSubscription
    (h : Joined i net topic s) :
    Walk (.refresh i) (fun _ => Working i) (topicOp (.goHandleSubscription net topic)) s := by
  refine Walk.op _ Joined.stable h (fun _ h => h.sound) ?_ (fun _ _ _ _ _ h => nomatch h) ?_
  · intro t ht
    change ∀ net', t.latest net' topic ≤ t.held (.refresh i) net
    rw [ht.held]
    exact ht.newest
  · intro t b r u ht _ hu heq
    subst heq
    cases net with
    | libP2P | mumP2P => exact ⟨hu, ht.running⟩

theorem walk_subscribeTopic
    (h : Working i s) :
    Walk (.refresh i) (fun _ => Working i) (subscribeTopic topic) s := by
  unfold subscribeTopic
  by_cases hempty : trimSpace topic = ""
  · rw [if_pos hempty]
    exact Guaranteed.pure h
  rw [if_neg hempty]
  refine (Walk.work (.topicLoad .mumP2P topic) h (fun _ => trivial) (fun _ => rfl)
    fun _ _ _ => rfl).bind ?_
  intro ok t ht
  cases ok with
  | true => exact Guaranteed.pure ht
  | false =>
      refine (walk_join ht).bind ?_
      intro joined u hu
      cases joined with
      | some err => exact Guaranteed.pure hu
      | none =>
          refine (walk_topicStore hu).bind ?_
          intro _ v hv
          refine (walk_subscribe hv).bind ?_
          intro subscribed w hw
          cases subscribed with
          | some err =>
              refine (walk_undo hw).bind ?_
              intro _ x hx
              refine (walk_closeFresh hx).bind ?_
              intro _ y hy
              exact Guaranteed.pure hy
          | none =>
              refine (walk_subStore hw).bind ?_
              intro _ x hx
              refine (walk_goHandleSubscription hx).bind ?_
              intro _ y hy
              refine (Walk.work (.keeperAdd topic) hy (fun _ => trivial) (fun _ => rfl)
                fun _ _ _ => rfl).bind ?_
              intro _ z hz
              exact Guaranteed.pure hz

theorem walk_subscribeToTopic
    (srv : RefreshService)
    (h : Working i s) :
    Walk (.refresh i) (fun _ => Working i) (subscribeToTopic srv topic) s := by
  unfold subscribeToTopic
  by_cases hvalid : (!(isBeaconBlockTopic topic || isAttestationTopic topic)) = true
  · rw [if_pos hvalid]
    exact Guaranteed.pure h
  rw [if_neg hvalid]
  refine (Walk.work (.subLoad .libP2P topic) h (fun _ => trivial) (fun _ => rfl)
    fun _ _ _ => rfl).bind ?_
  intro ok t ht
  cases ok with
  | true => exact Guaranteed.pure ht
  | false =>
      by_cases hps : (!srv.hasPubsub) = true
      · rw [if_neg (by decide), if_pos hps]
        exact Guaranteed.pure ht
      rw [if_neg (by decide), if_neg hps]
      refine (walk_join ht).bind ?_
      intro joined u hu
      cases joined with
      | some err => exact Guaranteed.pure hu
      | none =>
          refine (walk_topicStore hu).bind ?_
          intro _ v hv
          refine (walk_subscribe hv).bind ?_
          intro subscribed w hw
          cases subscribed with
          | some err => exact Guaranteed.pure hw.toWorking
          | none =>
              refine (walk_subStore hw).bind ?_
              intro _ x hx
              refine (walk_goHandleSubscription hx).bind ?_
              intro _ y hy
              exact Guaranteed.pure hy

theorem walk_leaveUnsupported
    (srv : RefreshService)
    (h : Working i s) :
    Walk (.refresh i) (fun _ => Working i) (leaveUnsupported srv topic) s := by
  refine (walk_topicSupported h).bind ?_
  intro ok t ht
  cases ok with
  | true => exact Guaranteed.pure ht
  | false =>
      refine (walk_unsubscribeFromTopic srv ht).mono ?_
      intro _ u hu
      exact hu.working

theorem walk_enterSupported
    (srv : RefreshService)
    (h : Working i s) :
    Walk (.refresh i) (fun _ => Working i) (enterSupported srv topic) s := by
  refine (walk_topicSupported h).bind ?_
  intro ok t ht
  cases ok with
  | false => exact Guaranteed.pure ht.working
  | true =>
      have hmesh : Walk (.refresh i) (fun _ => Working i) (enterMesh srv topic) t := by
        unfold enterMesh
        split
        · refine (walk_subscribeTopic ht).bind ?_
          intro _ u hu
          exact Guaranteed.pure hu
        · exact Guaranteed.pure ht
      refine hmesh.bind ?_
      intro _ u hu
      split
      · exact Guaranteed.pure hu
      · refine (walk_subscribeToTopic srv hu).bind ?_
        intro _ v hv
        exact Guaranteed.pure hv

theorem walk_refreshTopics
    (srv : RefreshService)
    (unique : List String → List String)
    (h : Working i s) :
    Walk (.refresh i) (fun _ => Working i) (refreshTopics srv unique) s := by
  refine (Walk.work (.topicKeys .libP2P) h (fun _ => trivial) (fun _ => rfl)
    fun _ _ _ => rfl).bind ?_
  intro joined t ht
  refine (Guaranteed.forM (fun _ _ h => walk_leaveUnsupported srv h) ht joined).bind ?_
  intro _ u hu
  refine (Walk.work .activeDigest hu (fun _ => trivial) (fun _ => rfl)
    fun _ _ _ => rfl).bind ?_
  intro digest v hv
  have hdiscovered : Walk (.refresh i) (fun _ => Working i) (discovered srv) v := by
    unfold discovered
    split
    · exact Walk.work .discoveredTopics hv (fun _ => trivial) (fun _ => rfl) (fun _ _ _ => rfl)
    · exact Guaranteed.pure hv
  refine hdiscovered.bind ?_
  intro advertised w hw
  exact Guaranteed.forM (fun _ _ h => walk_enterSupported srv h) hw _

end Threads

section Runs

variable {g : Goroutine} {s t : Numbered} {net : Source} {topic : String}

theorem sound_stable :
    StableUnder (Rely g) Sound :=
  fun _ _ _ hrely => hrely.sound

/-- A step that does not touch the books. -/
theorem guar_of_rely
    {o : CleanupOp} {r : o.Ans}
    (ho : ∀ g' op, o ≠ .books g' op)
    (hsound : Sound t)
    (hrely : ∀ g', g' ≠ g → Rely g' s t)
    (hkeeps : KeepsSubs s t) :
    Guar g o s r t :=
  ⟨hrely, hsound, hkeeps, fun g' op h => absurd h (ho g' op)⟩

theorem guaranteed_refreshCall
    (srv : RefreshService)
    (unique : List String → List String)
    (i : Nat)
    (hs : Sound s) :
    Guaranteed orderlySem (Rely (.refresh i)) (Guar (.refresh i)) (fun _ _ => True)
      (refreshCall srv unique i) s := by
  have hstart : Guaranteed orderlySem (Rely (.refresh i)) (Guar (.refresh i))
      (fun _ => Working i) (cleanupOp (.refreshStarts i)) s := by
    refine Guaranteed.op _ sound_stable hs ?_
    intro t r u ht hsem
    obtain rfl := hsem.1
    have hsound : Sound { t with running := insert i t.running } :=
      ⟨ht.topics, ht.subs, ht.latest, ht.subscribed, ht.doubted, ht.cancelled, ht.readers⟩
    refine ⟨guar_of_rely (fun _ _ h => nomatch h) hsound ?_ (keepsSubs_of_eq rfl rfl subset_rfl),
      hsound, Finset.mem_insert_self _ _⟩
    intro g' _
    exact ⟨hsound, rfl, fun _ => le_rfl, subset_rfl, subset_rfl, fun _ _ _ h => h,
      fun _ _ _ _ _ _ => rfl, fun _ _ h => ⟨Finset.mem_insert_of_mem h, rfl, rfl⟩,
      fun _ _ _ _ _ _ => ⟨fun _ h => h, fun h => ⟨h, rfl⟩⟩⟩
  refine hstart.bind ?_
  intro _ t ht
  refine (walk_refreshTopics srv unique ht).runBy.bind ?_
  intro _ u hu
  refine Guaranteed.op (CleanupOp.refreshReturns i) Working.stable hu ?_
  intro v r w hv hsem
  obtain rfl := hsem.1
  have hsound : Sound { v with running := v.running.erase i } :=
    ⟨hv.sound.topics, hv.sound.subs, hv.sound.latest, hv.sound.subscribed, hv.sound.doubted,
      hv.sound.cancelled, hv.sound.readers⟩
  refine ⟨guar_of_rely (fun _ _ h => nomatch h) hsound ?_ (keepsSubs_of_eq rfl rfl subset_rfl),
    trivial⟩
  intro g' hne
  refine ⟨hsound, rfl, fun _ => le_rfl, subset_rfl, subset_rfl, fun _ _ _ h => h,
    fun _ _ _ _ _ _ => rfl, ?_, fun _ _ _ _ _ _ => ⟨fun _ h => h, fun h => ⟨h, rfl⟩⟩⟩
  intro j hg' hj
  have hji : j ≠ i := fun h => hne (hg'.trans (congrArg _ h))
  exact ⟨Finset.mem_erase.mpr ⟨hji, hj⟩, rfl, rfl⟩

/-- The reader has not returned. -/
def Reading (topic : String) (n : Nat) (s : Numbered) : Prop :=
  Sound s ∧ (topic, n) ∉ s.returned

theorem Reading.stable
    {n : Nat} :
    StableUnder (Rely (.reader topic n)) (Reading topic n) :=
  fun _ _ h hrely => ⟨hrely.sound, hrely.returned topic n rfl h.2⟩

theorem guaranteed_readerCall
    (srv : RefreshService)
    {n : Nat}
    (hs : Reading topic n s) :
    Guaranteed orderlySem (Rely (.reader topic n)) (Guar (.reader topic n)) (fun _ _ => True)
      (readerCall srv topic n) s := by
  have hleave : Guaranteed orderlySem (Rely (.reader topic n)) (Guar (.reader topic n))
      (fun _ => Leaving (.reader topic n) topic) (cleanupOp (.readerLeaves topic n)) s := by
    refine Guaranteed.op _ Reading.stable hs ?_
    intro t r u ht hsem
    obtain ⟨⟨hstarted, hcancelled, rfl⟩, -⟩ := hsem
    obtain ⟨hsound, hleft⟩ := ht
    have hquiet : Quiet (.reader topic n) u u :=
      ⟨u.books, u.held, rfl, fun _ _ h => h, fun _ _ h => h, fun _ _ => rfl⟩
    refine ⟨guar_of_rely (fun _ _ h => nomatch h) hsound
      (fun _ hne => hquiet.rely hsound hne) (keepsSubs_of_eq rfl rfl subset_rfl),
      hsound, ?_, rfl, hstarted, hleft⟩
    intro net
    exact (hsound.readers topic n hstarted hleft net).trans_lt
      (hsound.cancelled _ topic n hcancelled)
  refine hleave.bind ?_
  intro _ t ht
  refine (walk_unsubscribeFromTopic srv ht).runBy.bind ?_
  intro _ u hu
  refine Guaranteed.op (CleanupOp.readerReturns topic n) Leaving.stable hu ?_
  intro v r w hv hsem
  obtain rfl := hsem.1
  have hsound : Sound { v with returned := insert (topic, n) v.returned } := by
    refine ⟨hv.sound.topics, hv.sound.subs, hv.sound.latest, hv.sound.subscribed,
      hv.sound.doubted, hv.sound.cancelled, ?_⟩
    intro topic' m hstarted hleft
    exact hv.sound.readers topic' m hstarted fun h => hleft (Finset.mem_insert_of_mem h)
  refine ⟨guar_of_rely (fun _ _ h => nomatch h) hsound ?_ (keepsSubs_of_eq rfl rfl subset_rfl),
    trivial⟩
  intro g' hne
  refine ⟨hsound, rfl, fun _ => le_rfl, subset_rfl, subset_rfl, ?_,
    fun _ _ _ _ _ _ => rfl, fun _ _ h => ⟨h, rfl, rfl⟩,
    fun _ _ _ _ _ _ => ⟨fun _ h => h, fun h => ⟨h, rfl⟩⟩⟩
  intro topic' m hg' hleft hmem
  rcases Finset.mem_insert.mp hmem with hsame | hold
  · cases hsame
    exact hne hg'
  · exact hleft hold

theorem guaranteed_bootstrapCall
    (changes : List ForkCall)
    (hs : Sound s) :
    Guaranteed orderlySem (Rely .bootstrap) (Guar .bootstrap) (fun _ => Sound)
      (bootstrapCall changes) s := by
  refine Guaranteed.forM ?_ hs changes
  intro change t ht
  refine Guaranteed.op (CleanupOp.forkCall change) sound_stable ht ?_
  intro u r v hu hsem
  obtain rfl := hsem.1
  have hquiet : Quiet .bootstrap u
      { u with books := { u.books with forks := change.run u.books.forks } } :=
    ⟨_, u.held, rfl, fun _ _ h => h, fun _ _ h => h, fun _ _ => rfl⟩
  exact ⟨guar_of_rely (fun _ _ h => nomatch h) (hquiet.sound hu)
    (fun _ hne => hquiet.rely hu hne) (keepsSubs_of_eq rfl rfl subset_rfl), hquiet.sound hu⟩

variable {srv : RefreshService} {unique : Nat → List String → List String}
variable {changes : List ForkCall} {st : TopicState}
variable {tr tr' : List CleanupEvent}
variable {c d d' : CleanupPool}

/-- Every step is taken in order. -/
def inOrder
    (d : CleanupPool)
    (e : CleanupEvent) : Prop :=
  Orderly e.op d.state

theorem guaranteed_cleanupPool
    (g : Goroutine) :
    Guaranteed orderlySem (Rely g) (Guar g) (fun _ _ => True)
      ((cleanupPool srv unique changes st).progs g)
      (cleanupPool srv unique changes st).state := by
  cases g with
  | refresh i => exact guaranteed_refreshCall srv (unique i) i (sound_start st)
  | reader topic n =>
      exact guaranteed_readerCall srv ⟨sound_start st, Finset.notMem_empty _⟩
  | bootstrap =>
      exact (guaranteed_bootstrapCall changes (sound_start st)).mono fun _ _ _ => trivial

variable (hrun : Run cleanupSem inOrder (cleanupPool srv unique changes st) tr d)
include hrun

/-- Every step of an orderly run keeps the promises of its goroutine. -/
theorem guar_of_run
    {e : CleanupEvent}
    (hnext : inOrder d e)
    (hstep : Step cleanupSem d e d') :
    Guar e.thread e.op d.state e.ans d'.state :=
  hrun.guaranteed_step (fun _ _ _ hord hsem => ⟨hsem, hord⟩)
    (fun _ _ _ _ _ _ hne hguar => hguar.1 _ (Ne.symm hne)) guaranteed_cleanupPool hnext hstep

/-- A refresh finds the topic unsupported. -/
def FindsUnsupported (topic : String) : CleanupCall → Prop
  | ⟨.books _ (.topicSupported topic'), false⟩ => topic' = topic
  | _ => False

omit hrun in
theorem doubted_of_sem
    {o : CleanupOp} {r : o.Ans}
    (hsem : cleanupSem o s r t)
    (hfind : ¬ FindsUnsupported topic ⟨o, r⟩) :
    t.doubted topic = s.doubted topic := by
  cases o with
  | refreshStarts | refreshReturns | readerReturns | forkCall =>
      obtain rfl := hsem
      rfl
  | readerLeaves =>
      obtain ⟨-, -, rfl⟩ := hsem
      rfl
  | books g op =>
      obtain ⟨b, -, rfl⟩ := hsem
      cases op with
      | topicSupported topic' =>
          cases r with
          | true => rfl
          | false => exact Function.update_of_ne (Ne.symm hfind) _ _
      | join | subscribe =>
          cases r with
          | none => rfl
          | some err => rfl
      | goHandleSubscription net topic' =>
          cases net with
          | libP2P | mumP2P => rfl
      | _ => rfl

/-- The topic is subscribed, and no refresh has found it unsupported since it was
joined. -/
structure Live (net : Source) (topic : String) (s : Numbered) : Prop where
  mem : topic ∈ s.books.subs net
  subscribed : (net, topic, s.subNo net topic) ∈ s.subscribed
  supported : s.doubted topic ≤ s.subNo net topic

omit hrun in
theorem Live.not_cancelled
    (h : Live net topic s)
    (hs : Sound s) :
    (net, topic, s.subNo net topic) ∉ s.cancelled := by
  intro hmem
  exact absurd (hs.cancelled _ _ _ hmem) (Nat.not_lt.mpr h.supported)

omit hrun in
theorem Live.step
    {e : CleanupEvent}
    (hlive : Live net topic d.state)
    (hguar : Guar e.thread e.op d.state e.ans d'.state)
    (hstep : Step cleanupSem d e d')
    (hfind : ¬ FindsUnsupported topic e.call) :
    Live net topic d'.state := by
  obtain ⟨hmem, hsub, hle⟩ :=
    hguar.2.2.1 net topic hlive.mem hlive.subscribed hlive.supported
  refine ⟨hmem, hsub, ?_⟩
  have hdoubted : d'.state.doubted topic = d.state.doubted topic := by
    cases hstep with
    | thread hprog hsem => exact doubted_of_sem hsem hfind
  rw [hdoubted]
  exact hlive.supported.trans hle

/-- A live subscription stays live until a refresh finds its topic unsupported. -/
theorem Live.run
    (hlive : Live net topic d.state)
    (hlater : Run cleanupSem inOrder d tr' d')
    (hfind : ∀ e ∈ tr', ¬ FindsUnsupported topic e.call) :
    Live net topic d'.state := by
  induction hlater with
  | nil => exact hlive
  | @snoc m m' tr'' e front guard last ih =>
      have hm := ih fun e' he' => hfind e' (List.mem_append_left _ he')
      exact hm.step (guar_of_run (hrun.trans front) guard last) last (hfind e (by simp))

theorem sound_of_run :
    Sound d.state := by
  cases hrun with
  | nil => exact sound_start st
  | snoc front guard last => exact (guar_of_run front guard last).2.1

omit hrun

/-- In every run that joins topics in order, a cleanup cancels, closes and removes nothing
newer than the subscription it belongs to, no goroutine does so with a subscription that
was not found unsupported since it was joined, and a topic that a refresh has joined stays
subscribed until a refresh finds it unsupported. -/
theorem cleanup_spares_newer
    (srv : RefreshService)
    (unique : Nat → List String → List String)
    (changes : List ForkCall)
    (st : TopicState)
    {tr : List CleanupEvent}
    {d : CleanupPool}
    (hrun : Run cleanupSem inOrder (cleanupPool srv unique changes st) tr d) :
    (∀ e d', inOrder d e → Step cleanupSem d e d' →
      ∀ g op net topic n, e.op = .books g op →
        removed g op d.state = some (net, topic, n) →
        (∀ topic' m, g = .reader topic' m → n ≤ m) ∧
          ((net, topic, n) ∈ d.state.subscribed → n < d.state.doubted topic)) ∧
    (∀ net topic tr' d',
      topic ∈ d.state.books.subs net →
      (net, topic, d.state.subNo net topic) ∈ d.state.subscribed →
      d.state.doubted topic ≤ d.state.subNo net topic →
      Run cleanupSem inOrder d tr' d' →
      (∀ e ∈ tr', ¬ FindsUnsupported topic e.call) →
      topic ∈ d'.state.books.subs net ∧
        (net, topic, d'.state.subNo net topic) ∉ d'.state.cancelled) := by
  constructor
  · intro e d' hnext hstep g op net topic n hop hremoved
    obtain ⟨hthread, hspares⟩ := (guar_of_run hrun hnext hstep).2.2.2 g op hop
    subst hthread
    exact hspares net topic n hremoved
  · intro net topic tr' d' hmem hsub hsupported hlater hfind
    have hlive : Live net topic d'.state :=
      Live.run hrun ⟨hmem, hsub, hsupported⟩ hlater hfind
    exact ⟨hlive.mem, hlive.not_cancelled (sound_of_run (hrun.trans hlater))⟩

end Runs

section Flapping

/-- The operations, issued in order if that is asked for. -/
def issuedSem (strict : Prop) : Sem CleanupOp CleanupOp.Ans Numbered :=
  fun o s r t => cleanupSem o s r t ∧ (strict → Orderly o s)

abbrev TopicCall := Call TopicOp TopicOp.Ans

/-- Calls on the books, by a goroutine. -/
def callsBy (g : Goroutine) (l : List TopicCall) : List CleanupCall :=
  l.map fun c => ⟨.books g c.1, c.2⟩

theorem callsBy_cons
    (g : Goroutine)
    (c : TopicCall)
    (l : List TopicCall) :
    callsBy g (c :: l) = ⟨.books g c.1, c.2⟩ :: callsBy g l :=
  rfl

theorem callsBy_append
    (g : Goroutine)
    (l m : List TopicCall) :
    callsBy g (l ++ m) = callsBy g l ++ callsBy g m :=
  List.map_append

def currentDigest : String := "8c9f62fe"

def currentTopics : List String :=
  filterAndBuildEthTopics List.eraseDups currentDigest false

/-- The topics of the current digest that a network has joined. -/
def currentOn : Source → Finset String
  | .libP2P => currentTopics.toFinset
  | .mumP2P => (currentTopics.filter fun topic => isBeaconBlockTopic topic).toFinset

/-- The announced digests, with those of the topics in the cache. -/
def flapForks (future : String) : ForkService :=
  { ForkService.init.applyForkDigest currentDigest future with
    topicForkCache := fun topic =>
      if topic = keptTopic then some "6a95a1a9"
      else if topic ∈ currentTopics then some currentDigest else none }

/-- The topics of the current digest are joined. -/
def flapState : TopicState :=
  ⟨currentOn, currentOn, currentOn .mumP2P, flapForks "6a95a1a9"⟩

/-- The future digest is replaced and comes back. -/
def flapPool : CleanupPool :=
  cleanupPool bootService (fun _ => List.eraseDups)
    [.applyForkDigest currentDigest "b5303f2a", .applyForkDigest currentDigest "6a95a1a9"]
    flapState

/-- The topic of the future digest is joined on one network. -/
def joinCalls (net : Source) : List TopicCall :=
  [⟨.join net keptTopic, none⟩, ⟨.topicStore net keptTopic, ()⟩,
    ⟨.subscribe net keptTopic, none⟩, ⟨.subStore net keptTopic, ()⟩,
    ⟨.goHandleSubscription net keptTopic, ()⟩]

/-- It is joined on both networks. -/
def enterCalls : List TopicCall :=
  [⟨.topicSupported keptTopic, true⟩, ⟨.topicLoad .mumP2P keptTopic, false⟩] ++
    (joinCalls .mumP2P ++
      ([⟨.keeperAdd keptTopic, ()⟩, ⟨.subLoad .libP2P keptTopic, false⟩] ++ joinCalls .libP2P))

/-- It is left on one network, from the `Cancel` on. -/
def cancelCalls (net : Source) : List TopicCall :=
  [⟨.cancel net keptTopic, ()⟩, ⟨.subDelete net keptTopic, ()⟩,
    ⟨.topicLoad net keptTopic, true⟩, ⟨.close net keptTopic, none⟩,
    ⟨.topicDelete net keptTopic, ()⟩]

/-- It is left on both networks: what is done on the libp2p host, and on the mump2p node. -/
def hostCalls : List TopicCall :=
  cancelCalls .libP2P ++ [⟨.subLoad .mumP2P keptTopic, true⟩]

def meshCalls : List TopicCall :=
  cancelCalls .mumP2P ++ [⟨.keeperRemove keptTopic, ()⟩]

/-- The first loop of a refresh, over the topics of the current digest. -/
def stayCalls (keys : List String) : List TopicCall :=
  ⟨.topicKeys .libP2P, currentTopics ++ keys⟩ ::
    currentTopics.flatMap fun topic => [⟨.topicSupported topic, true⟩]

/-- The second loop, for a topic that is joined. -/
def reenterCalls (topic : String) : List TopicCall :=
  ⟨.topicSupported topic, true⟩ ::
    if isBeaconBlockTopic topic then
      [⟨.topicLoad .mumP2P topic, true⟩, ⟨.subLoad .libP2P topic, true⟩]
    else if isAttestationTopic topic then [⟨.subLoad .libP2P topic, true⟩] else []

def foundCalls (advertised : List String) : List TopicCall :=
  ⟨.activeDigest, currentDigest⟩ :: ⟨.discoveredTopics, advertised⟩ ::
    currentTopics.flatMap reenterCalls

def refreshCalls
    (i : Nat)
    (keys : List String)
    (left : List TopicCall)
    (advertised : List String)
    (entered : List TopicCall) : List CleanupCall :=
  ⟨.refreshStarts i, ()⟩ :: (callsBy (.refresh i) (stayCalls keys ++
    (left ++ (foundCalls advertised ++ entered))) ++ [⟨.refreshReturns i, ()⟩])

/-- A refresh that joins the topic. -/
def joiningRefresh (i : Nat) : List CleanupCall :=
  refreshCalls i [] [] [keptTopic] enterCalls

/-- A refresh that leaves the topic, which is not advertised any more. -/
def leavingRefresh (i : Nat) : List CleanupCall :=
  refreshCalls i [keptTopic] ([⟨.topicSupported keptTopic, false⟩,
    ⟨.subLoad .libP2P keptTopic, true⟩] ++ (hostCalls ++ meshCalls)) [] []

/-- The books, with the topic of the future digest joined on some networks. -/
structure FlapBooks (joined : Source → Prop) (future : String) (st : TopicState) : Prop where
  topics : ∀ net topic, topic ∈ st.topics net ↔
    topic = keptTopic ∧ joined net ∨ topic ∈ currentOn net
  subs : ∀ net topic, topic ∈ st.subs net ↔
    topic = keptTopic ∧ joined net ∨ topic ∈ currentOn net
  forks : st.forks = flapForks future

variable (strict : Prop) {joined : Source → Prop} {future : String} {s t : Numbered}
variable {net : Source} {i : Nat} {g : Goroutine} {st : TopicState} {topic : String}

theorem keptTopic_notMem_currentTopics :
    keptTopic ∉ currentTopics := by
  intro hmem
  have hactive : (ForkService.init.applyForkDigest currentDigest "6a95a1a9").activeDigest =
      currentDigest := by decide +kernel
  have husable := usable_of_isForkDigest (fun _ _ => List.mem_eraseDups)
    (ForkService.follows_applyForkDigest ForkService.init
      (show trimSpace currentDigest ≠ "" by decide) "6a95a1a9")
    (ForkService.clean_init.run (.applyForkDigest currentDigest "6a95a1a9"))
    (by rw [hactive]; decide +kernel)
  obtain ⟨-, hdigest, -⟩ := husable keptTopic (by rwa [hactive])
  exact absurd (hdigest.trans hactive) (by decide +kernel)

theorem keptTopic_notMem_currentOn
    (net : Source) :
    keptTopic ∉ currentOn net := by
  have hkept := keptTopic_notMem_currentTopics
  cases net with
  | libP2P => exact fun h => hkept (List.mem_toFinset.mp h)
  | mumP2P => exact fun h => hkept (List.mem_of_mem_filter (List.mem_toFinset.mp h))

theorem topicSupported_keptTopic :
    (flapForks future).topicSupported keptTopic =
      ((flapForks future).checkForkSupported "6a95a1a9", flapForks future) := by
  have hname : keptTopic ≠ aggregatedMessagesTopic := by decide
  have hcache : (flapForks future).topicForkCache keptTopic = some "6a95a1a9" := by
    simp [flapForks]
  simp only [ForkService.topicSupported, if_neg hname, hcache]

theorem checkForkSupported_currentDigest :
    (flapForks future).checkForkSupported currentDigest = true := by
  have hcurrent : sanitizeForkDigest currentDigest ≠ "" := by decide +kernel
  simp only [ForkService.checkForkSupported, flapForks, ForkService.applyForkDigest,
    ForkService.mem_insertDigest, decide_eq_true_eq]
  exact Or.inr (Or.inl ⟨trivial, hcurrent⟩)

theorem topicSupported_currentTopics
    (htopic : topic ∈ currentTopics) :
    (flapForks future).topicSupported topic = (true, flapForks future) := by
  have hkept : topic ≠ keptTopic := fun h => keptTopic_notMem_currentTopics (h ▸ htopic)
  have hcache : (flapForks future).topicForkCache topic = some currentDigest := by
    simp only [flapForks, if_neg hkept, if_pos htopic]
  by_cases hname : topic = aggregatedMessagesTopic
  · rw [ForkService.topicSupported, if_pos hname]
  · simp only [ForkService.topicSupported, if_neg hname, hcache,
      checkForkSupported_currentDigest]

variable (h : FlapBooks joined future st)
include h

theorem FlapBooks.join :
    FlapBooks (fun net' => net' = net ∨ joined net') future
      ((st.putTopic net keptTopic).putSub net keptTopic) := by
  refine ⟨fun net' topic => ?_, fun net' topic => ?_, h.forks⟩
  · refine TopicState.mem_topics_putTopic.trans ?_
    rw [h.topics]
    tauto
  · refine TopicState.mem_subs_putSub.trans ?_
    change _ ∨ topic ∈ st.subs net' ↔ _
    rw [h.subs]
    tauto

theorem FlapBooks.leave :
    FlapBooks (fun net' => net' ≠ net ∧ joined net') future
      ((st.dropSub net keptTopic).dropTopic net keptTopic) := by
  have hdrop : ∀ (f : Source → Finset String) net' topic,
      (topic ∈ f net' ↔ topic = keptTopic ∧ joined net' ∨ topic ∈ currentOn net') →
      (topic ∈ Function.update f net ((f net).erase keptTopic) net' ↔
        topic = keptTopic ∧ (net' ≠ net ∧ joined net') ∨ topic ∈ currentOn net') := by
    intro f net' topic hf
    have hkept := keptTopic_notMem_currentOn net'
    by_cases hnet : net' = net
    · subst hnet
      rw [Function.update_self, Finset.mem_erase, hf]
      grind
    · rw [Function.update_of_ne hnet, hf]
      grind
  exact ⟨fun net' topic => hdrop _ _ _ (h.topics net' topic),
    fun net' topic => hdrop _ _ _ (h.subs net' topic), h.forks⟩

theorem FlapBooks.congr
    {joined' : Source → Prop}
    (hjoined : ∀ net, joined net ↔ joined' net) :
    FlapBooks joined' future st := by
  rwa [← funext fun net => propext (hjoined net)]

theorem FlapBooks.keep
    (kept : Finset String) :
    FlapBooks joined future { st with kept } :=
  ⟨h.topics, h.subs, h.forks⟩

theorem FlapBooks.mem_subs_iff :
    keptTopic ∈ st.subs net ↔ joined net := by
  rw [h.subs]
  simp [keptTopic_notMem_currentOn]

theorem FlapBooks.mem_topics_iff :
    keptTopic ∈ st.topics net ↔ joined net := by
  rw [h.topics]
  simp [keptTopic_notMem_currentOn]

omit h

/-- The call of a refresh leaves the books as they are. -/
def Idle (i : Nat) (st : TopicState) (c : TopicCall) : Prop :=
  topicSem c.1 st c.2 st ∧ ∀ s, Orderly (.books (.refresh i) c.1) s ∧
    ∃ held, record (.refresh i) c.1 c.2 s = { s with held }

theorem exec_idle
    {l : List TopicCall}
    (hl : ∀ c ∈ l, Idle i s.books c) :
    ∃ held, Exec (issuedSem strict) s (callsBy (.refresh i) l) { s with held } := by
  induction l generalizing s with
  | nil => exact ⟨s.held, Exec.nil _⟩
  | cons c l ih =>
      obtain ⟨hsem, hrecord⟩ := hl c List.mem_cons_self
      obtain ⟨horderly, held, heq⟩ := hrecord s
      obtain ⟨held', htail⟩ := ih (s := { s with held })
        fun c hc => hl c (List.mem_cons_of_mem _ hc)
      exact ⟨held', Exec.cons ⟨⟨s.books, hsem, heq.symm⟩, fun _ => horderly⟩ htail⟩

theorem idle_topicSupported
    (h : st.forks.topicSupported topic = (true, st.forks)) :
    Idle i st ⟨.topicSupported topic, true⟩ :=
  ⟨⟨congrArg Prod.fst h.symm, by rw [h]⟩, fun s => ⟨trivial, s.held, rfl⟩⟩

theorem idle_subLoad
    (h : topic ∈ st.subs net) :
    Idle i st ⟨.subLoad net topic, true⟩ :=
  ⟨⟨(decide_eq_true h).symm, rfl⟩, fun _ => ⟨trivial, _, rfl⟩⟩

theorem idle_topicLoad
    {r : Bool}
    (h : r = decide (topic ∈ st.topics net)) :
    Idle i st ⟨.topicLoad net topic, r⟩ :=
  ⟨⟨h, rfl⟩, fun _ => ⟨trivial, _, rfl⟩⟩

/-- The topics of the current digest stay joined. -/
theorem idle_stayCalls
    (keys : List String)
    (hbooks : FlapBooks joined future st)
    (hkeys : ∀ topic, topic ∈ keys ↔ topic = keptTopic ∧ joined .libP2P) :
    ∀ c ∈ stayCalls keys, Idle i st c := by
  intro c hc
  rcases List.mem_cons.mp hc with rfl | hc
  · refine ⟨⟨fun topic => ?_, rfl⟩, fun s => ⟨trivial, s.held, rfl⟩⟩
    rw [hbooks.topics, List.mem_append, hkeys, or_comm]
    exact or_congr_right List.mem_toFinset.symm
  · obtain ⟨topic, htopic, hc⟩ := List.mem_flatMap.mp hc
    rw [List.mem_singleton.mp hc]
    exact idle_topicSupported (by rw [hbooks.forks, topicSupported_currentTopics htopic])

theorem idle_reenterCalls
    (hsupported : st.forks.topicSupported topic = (true, st.forks))
    (hsub : topic ∈ st.subs .libP2P)
    (hmesh : isBeaconBlockTopic topic = true → topic ∈ st.topics .mumP2P) :
    ∀ c ∈ reenterCalls topic, Idle i st c := by
  unfold reenterCalls
  cases hblock : isBeaconBlockTopic topic with
  | true =>
      simp [idle_topicSupported hsupported, idle_subLoad hsub,
        idle_topicLoad (decide_eq_true (hmesh hblock)).symm]
  | false =>
      cases isAttestationTopic topic <;>
        simp [idle_topicSupported hsupported, idle_subLoad hsub]

theorem idle_foundCalls
    (advertised : List String)
    (hbooks : FlapBooks joined future st)
    (hfuture : (flapForks future).activeDigest = currentDigest) :
    ∀ c ∈ foundCalls advertised, Idle i st c := by
  intro c hc
  rcases List.mem_cons.mp hc with rfl | hc
  · exact ⟨⟨by rw [hbooks.forks, hfuture], rfl⟩, fun s => ⟨trivial, s.held, rfl⟩⟩
  rcases List.mem_cons.mp hc with rfl | hc
  · exact ⟨rfl, fun s => ⟨trivial, s.held, rfl⟩⟩
  obtain ⟨topic, htopic, hc⟩ := List.mem_flatMap.mp hc
  refine idle_reenterCalls (by rw [hbooks.forks, topicSupported_currentTopics htopic])
    ((hbooks.subs _ _).mpr (Or.inr (List.mem_toFinset.mpr htopic))) (fun hblock => ?_) c hc
  exact (hbooks.topics _ _).mpr
    (Or.inr (List.mem_toFinset.mpr (List.mem_filter.mpr ⟨htopic, hblock⟩)))

/-- The state after the topic was joined on a network, up to what is in `x`. -/
def joinedOn (net : Source) (s x : Numbered) : Numbered :=
  { x with
    subNo := put s.subNo net keptTopic s.next
    next := s.next + 1
    subscribed := insert (net, keptTopic, s.next) s.subscribed
    cancelled := s.cancelled
    started := if net = .libP2P then insert (keptTopic, s.next) s.started else s.started
    returned := s.returned
    running := s.running
    doubted := s.doubted }

theorem exec_join
    (net : Source)
    (hbooks : FlapBooks joined future s.books)
    (hstrict : strict → (∀ j ∈ s.running, j = i) ∧
      ∀ n, (keptTopic, n) ∈ s.started → (keptTopic, n) ∈ s.returned) :
    ∃ x, FlapBooks (fun net' => net' = net ∨ joined net') future x.books ∧
      Exec (issuedSem strict) s (callsBy (.refresh i) (joinCalls net)) (joinedOn net s x) := by
  refine ⟨{ s.hold (.refresh i) net s.next with
    books := (s.books.putTopic net keptTopic).putSub net keptTopic
    topicNo := put s.topicNo net keptTopic s.next
    latest := put s.latest net keptTopic s.next
    joiner := put s.joiner net keptTopic (.refresh i) }, hbooks.join, ?_⟩
  refine Exec.cons ⟨⟨_, rfl, rfl⟩, hstrict⟩ (Exec.cons ⟨⟨_, rfl, rfl⟩, fun _ => trivial⟩
    (Exec.cons ⟨⟨_, rfl, rfl⟩, fun _ => trivial⟩ (Exec.cons ⟨⟨_, rfl, rfl⟩, fun _ => trivial⟩
      (Exec.cons ⟨⟨_, rfl, rfl⟩, fun _ => trivial⟩ (exec_nil_iff.mpr ?_)))))
  cases net <;> simp [record, Numbered.hold, joinedOn]

/-- The state after the topic was joined on both networks. -/
def entered (s x : Numbered) : Numbered :=
  joinedOn .libP2P (joinedOn .mumP2P s x) x

theorem exec_enter
    (hbooks : FlapBooks (fun _ => False) "6a95a1a9" s.books)
    (hstrict : strict → (∀ j ∈ s.running, j = i) ∧
      ∀ n, (keptTopic, n) ∈ s.started → (keptTopic, n) ∈ s.returned) :
    ∃ x, FlapBooks (fun _ => True) "6a95a1a9" x.books ∧
      Exec (issuedSem strict) s (callsBy (.refresh i) enterCalls) (entered s x) := by
  have hsupported : s.books.forks.topicSupported keptTopic = (true, s.books.forks) := by
    rw [hbooks.forks, topicSupported_keptTopic]
    exact congrArg (·, flapForks "6a95a1a9") (by decide +kernel)
  have hnew : keptTopic ∉ s.books.topics .mumP2P := hbooks.mem_topics_iff.not.mpr id
  obtain ⟨held, hidle⟩ := exec_idle strict (i := i) (s := s) (List.forall_mem_cons.mpr
    ⟨idle_topicSupported hsupported, List.forall_mem_singleton.mpr
      (idle_topicLoad (decide_eq_false hnew).symm)⟩)
  obtain ⟨x, hx, hmesh⟩ := exec_join strict .mumP2P (s := { s with held }) hbooks hstrict
  have hhost : keptTopic ∉ x.books.subs .libP2P := hx.mem_subs_iff.not.mpr (by simp)
  obtain ⟨y, hy, hjoin⟩ := exec_join strict .libP2P
    (s := Numbered.hold (joinedOn .mumP2P s
      { x with books := { x.books with kept := insert keptTopic x.books.kept } })
      (.refresh i) .libP2P ((joinedOn .mumP2P s x).subNo .libP2P keptTopic))
    (hx.keep _) hstrict
  refine ⟨y, hy.congr fun net => by cases net <;> simp, ?_⟩
  simp only [enterCalls, callsBy_append]
  exact hidle.append (hmesh.append (Exec.cons ⟨⟨_, rfl, rfl⟩, fun _ => trivial⟩ (Exec.cons
    ⟨⟨_, ⟨(decide_eq_false hhost).symm, rfl⟩, rfl⟩, fun _ => trivial⟩ hjoin)))

/-- The state after the topic was left on a network, up to what is in `x`. -/
def leftOn (net : Source) (s x : Numbered) : Numbered :=
  { s with
    books := x.books, held := x.held
    cancelled := insert (net, keptTopic, s.subNo net keptTopic) s.cancelled }

theorem exec_cancel
    (hheld : s.held g net = s.subNo net keptTopic)
    (hbooks : FlapBooks joined future s.books)
    (hjoined : joined net) :
    ∃ x, FlapBooks (fun net' => net' ≠ net ∧ joined net') future x.books ∧
      Exec (issuedSem strict) s (callsBy g (cancelCalls net)) (leftOn net s x) := by
  have hmem : keptTopic ∈ s.books.topics net := hbooks.mem_topics_iff.mpr hjoined
  refine ⟨{ s.hold g net (s.topicNo net keptTopic) with
    books := (s.books.dropSub net keptTopic).dropTopic net keptTopic }, hbooks.leave, ?_⟩
  rw [leftOn, ← hheld]
  cases g with
  | refresh j | reader topic n | bootstrap =>
      exact Exec.cons ⟨⟨_, rfl, rfl⟩, fun _ => trivial⟩ (Exec.cons
        ⟨⟨_, rfl, rfl⟩, fun _ => trivial⟩ (Exec.cons
          ⟨⟨_, ⟨(decide_eq_true hmem).symm, rfl⟩, rfl⟩, fun _ => trivial⟩ (Exec.cons
            ⟨⟨_, rfl, rfl⟩, fun _ => trivial⟩ (Exec.cons
              ⟨⟨_, rfl, rfl⟩, fun _ => trivial⟩ (Exec.nil _)))))

/-- The state after the topic was left on both networks. -/
def left (s x : Numbered) : Numbered :=
  leftOn .mumP2P (leftOn .libP2P s x) x

theorem exec_leave
    (hbooks : FlapBooks (fun _ => True) future s.books) :
    ∃ s₁ s₂ x, FlapBooks (fun _ => False) future x.books ∧
      Exec (issuedSem strict) s (callsBy g [⟨.subLoad .libP2P keptTopic, true⟩]) s₁ ∧
      Exec (issuedSem strict) s₁ (callsBy g hostCalls) s₂ ∧
      Exec (issuedSem strict) s₂ (callsBy g meshCalls) (left s x) ∧
      s₁.held g .libP2P = s.subNo .libP2P keptTopic ∧
      s₂.held g .mumP2P = s.subNo .mumP2P keptTopic := by
  have hload : ∀ (u : Numbered) (net : Source), keptTopic ∈ u.books.subs net →
      Exec (issuedSem strict) u (callsBy g [⟨.subLoad net keptTopic, true⟩])
        (u.hold g net (u.subNo net keptTopic)) := by
    intro u net hmem
    cases g with
    | refresh j | reader topic n | bootstrap =>
        exact Exec.cons ⟨⟨_, ⟨(decide_eq_true hmem).symm, rfl⟩, rfl⟩, fun _ => trivial⟩
          (Exec.nil _)
  have hheld : ∀ (u : Numbered) net n, (u.hold g net n).held g net = n := by
    simp [Numbered.hold]
  obtain ⟨x, hx, hhost⟩ := exec_cancel strict (hheld s .libP2P _) hbooks trivial
  obtain ⟨y, hy, hmesh⟩ := exec_cancel strict (hheld (leftOn .libP2P s x) .mumP2P _) hx
    (by simp)
  refine ⟨_, _, { y with books := { y.books with kept := y.books.kept.erase keptTopic } },
    (hy.keep _).congr fun net => by cases net <;> simp,
    hload s .libP2P (hbooks.mem_subs_iff.mpr trivial),
    hhost.append (hload _ .mumP2P (hx.mem_subs_iff.mpr (by simp))), hmesh.append ?_,
    hheld _ _ _, hheld _ _ _⟩
  cases g with
  | refresh j | reader topic n | bootstrap =>
      exact Exec.cons ⟨⟨_, rfl, rfl⟩, fun _ => trivial⟩ (Exec.nil _)

theorem exec_refreshCalls
    {keys advertised : List String} {s₁ s₂ s₃ : Numbered}
    (left entered : List TopicCall)
    (hstay : Exec (issuedSem strict) { s with running := insert i s.running }
      (callsBy (.refresh i) (stayCalls keys)) s₁)
    (hleft : Exec (issuedSem strict) s₁ (callsBy (.refresh i) left) s₂)
    (hfound : Exec (issuedSem strict) s₂ (callsBy (.refresh i) (foundCalls advertised)) s₃)
    (hentered : Exec (issuedSem strict) s₃ (callsBy (.refresh i) entered) t) :
    Exec (issuedSem strict) s (refreshCalls i keys left advertised entered)
      { t with running := t.running.erase i } := by
  rw [refreshCalls, callsBy_append, callsBy_append, callsBy_append]
  exact Exec.cons ⟨rfl, fun _ => trivial⟩ ((hstay.append (hleft.append
    (hfound.append hentered))).append (Exec.cons ⟨rfl, fun _ => trivial⟩ (Exec.nil _)))

theorem exec_joiningRefresh
    (hbooks : FlapBooks (fun _ => False) "6a95a1a9" s.books)
    (hrunning : s.running = ∅)
    (hstrict : strict → ∀ n, (keptTopic, n) ∈ s.started → (keptTopic, n) ∈ s.returned) :
    ∃ x, FlapBooks (fun _ => True) "6a95a1a9" x.books ∧
      Exec (issuedSem strict) s (joiningRefresh i) (entered s x) := by
  obtain ⟨held, hstay⟩ := exec_idle strict (i := i)
    (s := { s with running := insert i s.running }) (idle_stayCalls [] hbooks (by simp))
  obtain ⟨held', hfound⟩ := exec_idle strict (i := i)
    (s := { s with running := insert i s.running, held })
    (idle_foundCalls [keptTopic] hbooks (by decide +kernel))
  obtain ⟨x, hx, henter⟩ := exec_enter strict (i := i)
    (s := { s with running := insert i s.running, held := held' }) hbooks
    fun h => ⟨by simp [hrunning], hstrict h⟩
  have hexec := exec_refreshCalls strict [] enterCalls hstay (Exec.nil _) hfound henter
  refine ⟨x, hx, ?_⟩
  simpa [joiningRefresh, entered, joinedOn, hrunning] using hexec

theorem exec_leavingRefresh
    (hbooks : FlapBooks (fun _ => True) "b5303f2a" s.books)
    (hrunning : s.running = ∅) :
    ∃ x, FlapBooks (fun _ => False) "b5303f2a" x.books ∧
      Exec (issuedSem strict) s (leavingRefresh i)
        (left { s with doubted := Function.update s.doubted keptTopic s.next } x) := by
  have hunsupported : s.books.forks.topicSupported keptTopic = (false, s.books.forks) := by
    rw [hbooks.forks, topicSupported_keptTopic]
    exact congrArg (·, flapForks "b5303f2a") (by decide +kernel)
  obtain ⟨held, hstay⟩ := exec_idle strict (i := i)
    (s := { s with running := insert i s.running }) (idle_stayCalls [keptTopic] hbooks (by simp))
  let d : Numbered := { s with
    running := insert i s.running, held
    doubted := Function.update s.doubted keptTopic s.next }
  obtain ⟨s₁, s₂, x, hx, hload, hhost, hmesh, -, -⟩ :=
    exec_leave strict (g := .refresh i) (s := d) hbooks
  obtain ⟨held', hfound⟩ := exec_idle strict (i := i) (s := left d x)
    (idle_foundCalls [] hx (by decide +kernel))
  have hleft : Exec (issuedSem strict) { s with running := insert i s.running, held }
      (callsBy (.refresh i) ([⟨.topicSupported keptTopic, false⟩,
        ⟨.subLoad .libP2P keptTopic, true⟩] ++ (hostCalls ++ meshCalls))) (left d x) := by
    rw [callsBy_append, callsBy_append, callsBy_cons]
    exact Exec.cons ⟨⟨s.books, ⟨congrArg Prod.fst hunsupported.symm, by rw [hunsupported]⟩,
      rfl⟩, fun _ => trivial⟩ (exec_append_iff.mpr ⟨s₁, hload, exec_append_iff.mpr
        ⟨s₂, hhost, hmesh⟩⟩)
  have hexec := exec_refreshCalls strict _ [] hstay hleft hfound (Exec.nil _)
  refine ⟨{ x with held := held' }, hx, ?_⟩
  simpa [leavingRefresh, left, leftOn, d, hrunning] using hexec

theorem path_runBy
    {α : Type} {p q : TopicProg α} {l : List TopicCall}
    (h : Path p l q) :
    Path (runBy g p) (callsBy g l) (runBy g q) := by
  induction h with
  | nil => exact Path.nil _
  | cons _ ih => exact Path.cons ih

theorem path_forM_append
    {f : String → TopicProg Unit} {calls : String → List TopicCall} {rest : List String}
    {l : List TopicCall}
    (hf : ∀ topic, Path (f topic) (calls topic) (.ret ()))
    (hrest : Path (rest.forM f) l (.ret ()))
    (topics : List String) :
    Path ((topics ++ rest).forM f) (topics.flatMap calls ++ l) (.ret ()) := by
  induction topics with
  | nil => exact hrest
  | cons topic topics ih =>
      rw [List.flatMap_cons, List.append_assoc]
      exact (hf topic).bind ih

theorem path_reenter
    (topic : String) :
    Path (enterSupported bootService topic) (reenterCalls topic) (.ret ()) := by
  rw [enterSupported, reenterCalls, op_bind]
  refine Path.cons ?_
  rw [if_pos rfl, if_neg (show ¬ bootService.streamOnly = true by decide), enterMesh,
    subscribeToTopic]
  cases hblock : isBeaconBlockTopic topic with
  | true =>
      rw [subscribeTopic, if_neg (trimSpace_ne_empty_of_isBeaconBlockTopic hblock)]
      exact Path.cons (Path.cons (Path.nil _))
  | false =>
      cases isAttestationTopic topic with
      | true => exact Path.cons (Path.nil _)
      | false => exact Path.nil _

theorem path_refreshCall
    {keys advertised : List String} {left entered : List TopicCall}
    (hleft : Path (keys.forM (leaveUnsupported bootService)) left (.ret ()))
    (hentered : Path (advertised.forM (enterSupported bootService)) entered (.ret ())) :
    Path (refreshCall bootService List.eraseDups i)
      (refreshCalls i keys left advertised entered) (.ret ()) := by
  have hstay := path_forM_append
    (fun topic => show Path (leaveUnsupported bootService topic)
      [⟨.topicSupported topic, true⟩] (.ret ()) from Path.cons (Path.nil _))
    hleft currentTopics
  have hreenter := path_forM_append path_reenter hentered currentTopics
  have hloops : Path (refreshTopics bootService List.eraseDups)
      (stayCalls keys ++ (left ++ (foundCalls advertised ++ entered))) (.ret ()) := by
    simp only [refreshTopics, discovered, show bootService.hasTracer = true from rfl, if_true,
      op_bind]
    rw [stayCalls, foundCalls, List.cons_append, List.cons_append, List.cons_append,
      ← List.append_assoc]
    exact Path.cons (hstay.bind (Path.cons (Path.cons hreenter)))
  exact Path.cons ((path_runBy hloops).bind (Path.cons (Path.nil _)))

/-- Bootstrap replaces the future digest. -/
def replaceFuture (future : String) : CleanupCall :=
  ⟨.forkCall (.applyForkDigest currentDigest future), ()⟩

def eventsOf (g : Goroutine) (l : List CleanupCall) : List CleanupEvent :=
  l.map fun x => ⟨g, x.1, x.2⟩

/-- The topic is joined and left. -/
def leftTrace : List CleanupEvent :=
  eventsOf (.refresh 0) (joiningRefresh 0) ++
    (eventsOf .bootstrap [replaceFuture "b5303f2a"] ++
      eventsOf (.refresh 1) (leavingRefresh 1))

/-- The topic is joined again. -/
def rejoinTrace : List CleanupEvent :=
  eventsOf .bootstrap [replaceFuture "6a95a1a9"] ++
    eventsOf (.refresh 2) (joiningRefresh 2)

/-- The reader of the first subscription. -/
def firstReader : Goroutine := .reader keptTopic 2

/-- A run, with the calls of that reader before and after the topic is joined again. -/
def flapTrace (l l' : List CleanupCall) : List CleanupEvent :=
  leftTrace ++ (eventsOf firstReader l ++ (rejoinTrace ++ eventsOf firstReader l'))

/-- It wakes up after the topic was joined again. -/
def wakeCalls : List CleanupCall :=
  ⟨.readerLeaves keptTopic 2, ()⟩ ::
    callsBy firstReader [⟨.subLoad .libP2P keptTopic, true⟩]

def wakeTrace : List CleanupEvent :=
  flapTrace [] wakeCalls

/-- Its cleanup on the libp2p host. -/
def hostTrace : List CleanupEvent :=
  eventsOf firstReader (callsBy firstReader hostCalls)

/-- Its cleanup on the mump2p node. -/
def meshTrace : List CleanupEvent :=
  eventsOf firstReader (callsBy firstReader meshCalls ++ [⟨.readerReturns keptTopic 2, ()⟩])

/-- The reader runs its cleanup before the topic is joined again. -/
def earlyCalls : List CleanupCall :=
  ⟨.readerLeaves keptTopic 2, ()⟩ :: (callsBy firstReader
    [⟨.subLoad .libP2P keptTopic, false⟩, ⟨.topicLoad .libP2P keptTopic, false⟩,
      ⟨.subLoad .mumP2P keptTopic, false⟩, ⟨.topicLoad .mumP2P keptTopic, false⟩] ++
    [⟨.readerReturns keptTopic 2, ()⟩])

def earlyTrace : List CleanupEvent :=
  flapTrace earlyCalls []

/-- What the goroutines do, with the calls of the first reader. -/
def flapCalls (l : List CleanupCall) : Goroutine → List CleanupCall
  | .refresh 0 => joiningRefresh 0
  | .refresh 1 => leavingRefresh 1
  | .refresh 2 => joiningRefresh 2
  | .refresh _ => []
  | .reader topic n => if topic = keptTopic ∧ n = 2 then l else []
  | .bootstrap => [replaceFuture "b5303f2a", replaceFuture "6a95a1a9"]

theorem callsOf_flapTrace
    (g : Goroutine)
    (l l' : List CleanupCall) :
    callsOf g (flapTrace l l') = flapCalls (l ++ l') g := by
  simp only [flapTrace, leftTrace, rejoinTrace, callsOf_append, eventsOf, callsOf_map]
  cases g with
  | refresh i =>
      rcases i with _ | _ | _ | i
      all_goals simp [flapCalls, firstReader]
  | reader topic n =>
      by_cases hreader : topic = keptTopic ∧ n = 2
      · obtain ⟨rfl, rfl⟩ := hreader
        simp [flapCalls, firstReader]
      · have hother : ¬ (keptTopic = topic ∧ 2 = n) :=
          fun h => hreader ⟨h.1.symm, h.2.symm⟩
        simp [flapCalls, firstReader, hreader, hother]
  | bootstrap => simp [flapCalls, firstReader]

theorem exists_flapRun
    {sem : Sem CleanupOp CleanupOp.Ans Numbered} {l l' : List CleanupCall}
    (hreader : ((readerCall bootService keptTopic 2).rest (l ++ l')).bind result = some ())
    (hexec : Exec sem flapPool.state ((flapTrace l l').map Event.call) t) :
    ∃ q, Run sem anyStep flapPool (flapTrace l l') ⟨q, t⟩ := by
  have hjoin : ∀ i, Path (refreshCall bootService List.eraseDups i)
      (joiningRefresh i) (.ret ()) := by
    intro i
    exact path_refreshCall (Path.nil _) (path_of_result (by decide +kernel))
  have hleave : Path (refreshCall bootService List.eraseDups 1)
      (leavingRefresh 1) (.ret ()) :=
    path_refreshCall (path_of_result (by decide +kernel)) (Path.nil _)
  have hpaths : ∀ g, ∃ q, Path (flapPool.progs g) (flapCalls (l ++ l') g) q := by
    intro g
    unfold flapCalls
    split
    · exact ⟨_, hjoin 0⟩
    · exact ⟨_, hleave⟩
    · exact ⟨_, hjoin 2⟩
    · exact ⟨_, Path.nil _⟩
    · split
      case isTrue h =>
        obtain ⟨rfl, rfl⟩ := h
        exact ⟨_, path_of_result hreader⟩
      case isFalse => exact ⟨_, Path.nil _⟩
    · exact ⟨.ret (), Path.cons (Path.cons (Path.nil _))⟩
  choose q hq using hpaths
  exact ⟨q, run_of_paths (fun g => callsOf_flapTrace g l l' ▸ hq g) hexec⟩

theorem map_call_eventsOf
    (l : List CleanupCall) :
    (eventsOf g l).map Event.call = l := by
  rw [eventsOf, List.map_map]
  exact List.map_id l

/-- What is known once the topic was left. -/
structure Abandoned (s : Numbered) : Prop where
  books : FlapBooks (fun _ => False) "b5303f2a" s.books
  running : s.running = ∅
  next : s.next = 3
  started : s.started = {(keptTopic, 2)}
  cancelled : (.libP2P, keptTopic, 2) ∈ s.cancelled
  doubted : s.doubted keptTopic = 3

def replaced (future : String) (st : TopicState) : TopicState :=
  { st with forks := (ForkCall.applyForkDigest currentDigest future).run st.forks }

theorem FlapBooks.replaced
    (h : FlapBooks joined future st)
    (future' : String) :
    FlapBooks joined future' (LateCleanup.replaced future' st) := by
  have hcurrent : sanitizeForkDigest currentDigest ≠ "" := by decide +kernel
  refine ⟨h.topics, h.subs, ?_⟩
  simp only [LateCleanup.replaced, h.forks, ForkCall.run, flapForks,
    ForkService.applyForkDigest, if_pos hcurrent]

theorem exec_leftTrace :
    ∃ s, Abandoned s ∧
      Exec (issuedSem strict) flapPool.state (leftTrace.map Event.call) s := by
  have hstart : FlapBooks (fun _ => False) "6a95a1a9" flapPool.state.books :=
    ⟨fun _ _ => by simp [flapPool, cleanupPool, Numbered.start, flapState],
      fun _ _ => by simp [flapPool, cleanupPool, Numbered.start, flapState], rfl⟩
  obtain ⟨x, hx, hjoin⟩ := exec_joiningRefresh strict (i := 0) hstart rfl (by
    simp [flapPool, cleanupPool, Numbered.start])
  obtain ⟨y, hy, hleave⟩ := exec_leavingRefresh strict (i := 1)
    (s := entered flapPool.state { x with books := replaced "b5303f2a" x.books })
    (hx.replaced "b5303f2a") rfl
  refine ⟨left { entered flapPool.state x with
    doubted := Function.update flapPool.state.doubted keptTopic 3 } y,
    ⟨hy, rfl, rfl, rfl, ?_, ?_⟩, ?_⟩
  · exact Finset.mem_insert_of_mem (Finset.mem_insert_self _ _)
  · simp [left, leftOn]
  · simp only [leftTrace, List.map_append, map_call_eventsOf]
    exact hjoin.append (Exec.cons ⟨rfl, fun _ => trivial⟩ hleave)

theorem exec_rejoinTrace
    (hbooks : FlapBooks (fun _ => False) future s.books)
    (hrunning : s.running = ∅)
    (hstrict : strict → ∀ n, (keptTopic, n) ∈ s.started → (keptTopic, n) ∈ s.returned) :
    ∃ x, FlapBooks (fun _ => True) "6a95a1a9" x.books ∧
      Exec (issuedSem strict) s (rejoinTrace.map Event.call) (entered s x) := by
  obtain ⟨x, hx, hjoin⟩ := exec_joiningRefresh strict (i := 2)
    (s := { s with books := replaced "6a95a1a9" s.books })
    (hbooks.replaced "6a95a1a9") hrunning hstrict
  refine ⟨x, hx, ?_⟩
  simp only [rejoinTrace, List.map_append, map_call_eventsOf]
  exact Exec.cons ⟨rfl, fun _ => trivial⟩ hjoin

/-- The states before the two `Cancel` calls, and at the end. -/
def LateStates (s₁ s₂ t : Numbered) : Prop :=
  removed firstReader (.cancel .libP2P keptTopic) s₁ = some (.libP2P, keptTopic, 4) ∧
    removed firstReader (.cancel .mumP2P keptTopic) s₂ = some (.mumP2P, keptTopic, 3) ∧
    keptTopic ∉ t.books.subs .libP2P ∧ keptTopic ∉ t.books.subs .mumP2P ∧
    (t.books.forks.topicSupported keptTopic).1 = true ∧
    t.doubted keptTopic ≤ 3

theorem exec_lateTrace :
    ∃ s₁ s₂ t, Exec (issuedSem False) flapPool.state (wakeTrace.map Event.call) s₁ ∧
      Exec (issuedSem False) s₁ (hostTrace.map Event.call) s₂ ∧
      Exec (issuedSem False) s₂ (meshTrace.map Event.call) t ∧ LateStates s₁ s₂ t := by
  obtain ⟨s, hs, hleft⟩ := exec_leftTrace False
  obtain ⟨x, hx, hrejoin⟩ := exec_rejoinTrace False hs.books hs.running False.elim
  obtain ⟨s₁, s₂, y, hy, hload, hhost, hmesh, hheld₁, hheld₂⟩ :=
    exec_leave False (g := firstReader) (s := entered s x) hx
  refine ⟨s₁, s₂, { left (entered s x) y with returned := insert (keptTopic, 2) s.returned },
    ?_, ?_, ?_, ?_, ?_, ?_, ?_, ?_, ?_⟩
  · simp only [wakeTrace, flapTrace, List.map_append, map_call_eventsOf]
    refine exec_append_iff.mpr ⟨s, hleft, exec_append_iff.mpr ⟨s, Exec.nil _,
      hrejoin.append (Exec.cons
        ⟨⟨?_, hs.cancelled, rfl⟩, fun _ => trivial⟩ hload)⟩⟩
    exact Finset.mem_insert_of_mem (hs.started ▸ Finset.mem_singleton_self _)
  · rw [hostTrace, map_call_eventsOf]
    exact hhost
  · rw [meshTrace, map_call_eventsOf]
    exact hmesh.append (Exec.cons ⟨rfl, fun _ => trivial⟩ (Exec.nil _))
  · rw [removed, hheld₁]
    simp [entered, joinedOn, hs.next]
  · rw [removed, hheld₂]
    simp [entered, joinedOn, hs.next]
  · exact hy.mem_subs_iff.not.mpr id
  · exact hy.mem_subs_iff.not.mpr id
  · change (y.books.forks.topicSupported keptTopic).1 = true
    rw [hy.forks, topicSupported_keptTopic]
    decide +kernel
  · exact hs.doubted.le

theorem issuedSem_unique
    {o : CleanupOp} {r : o.Ans} {u : Numbered}
    (ht : issuedSem strict o s r t)
    (hu : issuedSem strict o s r u) :
    t = u := by
  obtain ⟨ht, -⟩ := ht
  obtain ⟨hu, -⟩ := hu
  cases o with
  | books g op =>
      obtain ⟨b, hb, rfl⟩ := ht
      obtain ⟨b', hb', rfl⟩ := hu
      cases op <;> simp_all [topicSem]
  | readerLeaves topic n => exact ht.2.2.trans hu.2.2.symm
  | _ => exact ht.trans hu.symm

/-- A run of operations that are issued in order if that is asked for. -/
theorem run_issued
    {c d : CleanupPool} {tr : List CleanupEvent}
    {G : CleanupPool → CleanupEvent → Prop}
    (hG : ∀ c e, (strict → Orderly e.op c.state) → G c e)
    (h : Run (issuedSem strict) anyStep c tr d) :
    Run cleanupSem G c tr d := by
  induction h with
  | nil => exact Run.nil _
  | snoc _ _ last ih =>
      cases last with
      | thread hprog hsem => exact Run.snoc ih (hG _ _ hsem.2) (Step.thread hprog hsem.1)

/-- The topic is joined, left and joined again, and then the reader of the first
subscription runs its cleanup: it cancels and removes the newer subscriptions on both
networks, although no refresh has found the topic unsupported since. -/
theorem late_cleanup_cancels_newer :
    ∃ m₁ m₂ d, Run cleanupSem anyStep flapPool wakeTrace m₁ ∧
      Run cleanupSem anyStep m₁ hostTrace m₂ ∧
      Run cleanupSem anyStep m₂ meshTrace d ∧
      LateStates m₁.state m₂.state d.state := by
  obtain ⟨s₁, s₂, t, h₁, h₂, h₃, hlate⟩ := exec_lateTrace
  have htrace : flapTrace [] (wakeCalls ++ (callsBy firstReader hostCalls ++
      (callsBy firstReader meshCalls ++ [⟨.readerReturns keptTopic 2, ()⟩]))) =
      wakeTrace ++ (hostTrace ++ meshTrace) := by
    simp [wakeTrace, hostTrace, meshTrace, flapTrace, eventsOf]
  have hexec : Exec (issuedSem False) flapPool.state
      ((wakeTrace ++ (hostTrace ++ meshTrace)).map Event.call) t := by
    rw [List.map_append, List.map_append, exec_append_iff]
    exact ⟨s₁, h₁, exec_append_iff.mpr ⟨s₂, h₂, h₃⟩⟩
  obtain ⟨q, hrun⟩ := exists_flapRun (by decide +kernel) (htrace ▸ hexec)
  rw [htrace] at hrun
  obtain ⟨m₁, hwake, hrest⟩ := hrun.split
  obtain ⟨m₂, hhost, hmesh⟩ := hrest.split
  have hm₁ : m₁.state = s₁ := hwake.exec.unique h₁ fun _ _ _ _ _ => issuedSem_unique False
  have hm₂ : m₂.state = s₂ :=
    (hm₁ ▸ hhost.exec).unique h₂ fun _ _ _ _ _ => issuedSem_unique False
  refine ⟨m₁, m₂, ⟨q, t⟩, run_issued False (fun _ _ _ => trivial) hwake,
    run_issued False (fun _ _ _ => trivial) hhost,
    run_issued False (fun _ _ _ => trivial) hmesh, ?_⟩
  rw [hm₁, hm₂]
  exact hlate

/-- The topic is subscribed on the libp2p host for the second time. -/
def Rejoined (t : Numbered) : Prop :=
  keptTopic ∈ t.books.subs .libP2P ∧
    (.libP2P, keptTopic, t.subNo .libP2P keptTopic) ∈ t.subscribed ∧
    t.doubted keptTopic ≤ t.subNo .libP2P keptTopic ∧
    t.subNo .libP2P keptTopic = 4

theorem exec_earlyTrace :
    ∃ t, Exec (issuedSem True) flapPool.state (earlyTrace.map Event.call) t ∧ Rejoined t := by
  obtain ⟨s, hs, hleft⟩ := exec_leftTrace True
  have hsubs : ∀ net, keptTopic ∉ s.books.subs net := fun _ => hs.books.mem_subs_iff.not.mpr id
  have htopics : ∀ net, keptTopic ∉ s.books.topics net :=
    fun _ => hs.books.mem_topics_iff.not.mpr id
  have hearly : ∃ held, Exec (issuedSem True) s earlyCalls
      { s with held, returned := insert (keptTopic, 2) s.returned } := by
    refine ⟨_, Exec.cons ⟨⟨?_, hs.cancelled, rfl⟩, fun _ => trivial⟩ (Exec.cons
      ⟨⟨_, ⟨(decide_eq_false (hsubs _)).symm, rfl⟩, rfl⟩, fun _ => trivial⟩ (Exec.cons
        ⟨⟨_, ⟨(decide_eq_false (htopics _)).symm, rfl⟩, rfl⟩, fun _ => trivial⟩ (Exec.cons
          ⟨⟨_, ⟨(decide_eq_false (hsubs _)).symm, rfl⟩, rfl⟩, fun _ => trivial⟩ (Exec.cons
            ⟨⟨_, ⟨(decide_eq_false (htopics _)).symm, rfl⟩, rfl⟩, fun _ => trivial⟩ (Exec.cons
              ⟨rfl, fun _ => trivial⟩ (Exec.nil _))))))⟩
    exact hs.started ▸ Finset.mem_singleton_self _
  obtain ⟨held, hearly⟩ := hearly
  obtain ⟨x, hx, hrejoin⟩ := exec_rejoinTrace True
    (s := { s with held, returned := insert (keptTopic, 2) s.returned }) hs.books hs.running (by
      simp [hs.started])
  refine ⟨entered { s with held, returned := insert (keptTopic, 2) s.returned } x, ?_,
    hx.mem_subs_iff.mpr trivial, ?_, ?_, ?_⟩
  · simp only [earlyTrace, flapTrace, List.map_append, map_call_eventsOf]
    exact hleft.append (hearly.append (hrejoin.append (Exec.nil _)))
  all_goals simp [entered, joinedOn, hs.next, hs.doubted]

/-- When the cleanup comes before the topic is joined again, the new subscription stays. -/
theorem early_cleanup_spares_newer :
    ∃ d, Run cleanupSem inOrder flapPool earlyTrace d ∧ Rejoined d.state ∧
      ∀ tr' d', Run cleanupSem inOrder d tr' d' →
        (∀ e ∈ tr', ¬ FindsUnsupported keptTopic e.call) →
        keptTopic ∈ d'.state.books.subs .libP2P := by
  obtain ⟨t, hexec, hrejoined⟩ := exec_earlyTrace
  obtain ⟨q, hrun⟩ := exists_flapRun (by decide +kernel) hexec
  have horderly : Run cleanupSem inOrder flapPool earlyTrace ⟨q, t⟩ :=
    run_issued True (fun _ _ h => h trivial) hrun
  refine ⟨⟨q, t⟩, horderly, hrejoined, ?_⟩
  obtain ⟨hmem, hsub, hsupported, -⟩ := hrejoined
  intro tr' d' hlater hfind
  exact ((cleanup_spares_newer bootService (fun _ => List.eraseDups) _ flapState horderly).2
    .libP2P keptTopic tr' d' hmem hsub hsupported hlater hfind).1

end Flapping

end LateCleanup
end GossipsubGateway
end OptimumGateway
