import Mathlib.Algebra.BigOperators.Group.List.Lemmas
import Mathlib.Algebra.BigOperators.Ring.Finset
import Mathlib.Data.List.Induction
import OptimumGateway.Foundation.GoMap
import OptimumGateway.Foundation.GoTime

/-!
# Connection caps

This module models `ConnLimiter` of `pkg/service/stream/transport.go`.

`acquire` and `release` hold the limiter's mutex from their first to their last
statement, so a run is a sequence of whole calls.  A call of `release` comes from a
closure that an earlier `acquire` returned, any number of times and at any time.  The
counter of the ids wraps after `2 ^ 64` connections; the results are about runs that have
admitted no more than that.

The limiter keeps counts and start times, but not which subject a live id belongs to.
The abstract model does: it is the list of the live connections.  `Tracks` relates the
two, and every call keeps the relation (`Tracks.addConn`, `Tracks.dropConn`); the facts
about the caps are then facts about a list.
-/

namespace OptimumGateway
namespace Stream

open Foundation

/-- What the closure that `acquire` returns has captured. -/
structure Release where
  subject : String
  id : UInt64
deriving DecidableEq

structure ConnLimiter where
  maxConns : Int
  maxConnsPerSub : Int
  conns : Int
  perSub : GoMap String Int
  nextID : UInt64
  starts : GoMap UInt64 Time
  publishedOldestStart : Float

/-- The loop of `oldestStart` over the start times, in the order of the visit. -/
def oldestOf (starts : List Time) : Time :=
  starts.foldl (fun oldest t => if oldest.isZero || t.before oldest then t else oldest)
    Time.zero

/-- The value that `publishOldest` hands to the gauge. -/
def oldestValue (oldest : Time) : Float :=
  if oldest.isZero then 0 else oldest.unixSeconds.toFloat

namespace ConnLimiter

def new (maxConns maxConnsPerSub : Int) : ConnLimiter :=
  ⟨maxConns, maxConnsPerSub, 0, ∅, 0, ∅, 0⟩

/-- `l.perSub[subject]`. -/
def count (l : ConnLimiter) (subject : String) : Int :=
  (l.perSub.lookup subject).getD 0

/-- The earliest start, with the order in which the map is visited. -/
def oldestStart (l : ConnLimiter) (order : List UInt64) : Time :=
  oldestOf (order.filterMap fun id => l.starts.lookup id)

def publishOldest (l : ConnLimiter) (order : List UInt64) : ConnLimiter :=
  { l with publishedOldestStart := oldestValue (l.oldestStart order) }

def acquire
    (l : ConnLimiter)
    (subject : String)
    (now : Time)
    (order : List UInt64) : ConnLimiter × Option Release :=
  if l.conns ≥ l.maxConns ∨ l.count subject ≥ l.maxConnsPerSub then
    (l, none)
  else
    let id := l.nextID
    let l := { l with
      conns := l.conns + 1
      perSub := l.perSub.insert subject (l.count subject + 1)
      nextID := l.nextID + 1
      starts := l.starts.insert id now }
    (l.publishOldest order, some ⟨subject, id⟩)

/-- A call of the closure `c`. -/
def release (l : ConnLimiter) (c : Release) (order : List UInt64) : ConnLimiter :=
  if c.id ∉ l.starts then
    l
  else
    let l := { l with
      conns := l.conns - 1
      perSub := l.perSub.insert c.subject (l.count c.subject - 1) }
    let l := if l.count c.subject ≤ 0 then { l with perSub := l.perSub.erase c.subject } else l
    let l := { l with starts := l.starts.erase c.id }
    l.publishOldest order

end ConnLimiter

section OldestStart

/-- What `time.Now` returns. -/
structure IsReading (t : Time) : Prop where
  mono : t.mono.isSome
  nonzero : t.isZero = false

theorem oldestOf_concat
    (starts : List Time)
    (t : Time) :
    oldestOf (starts ++ [t]) =
      if (oldestOf starts).isZero || t.before (oldestOf starts) then t
      else oldestOf starts := by
  simp [oldestOf]

theorem IsReading.before_iff
    {t u : Time}
    (ht : IsReading t)
    (hu : IsReading u) :
    t.before u = true ↔ t.mono.getD 0 < u.mono.getD 0 := by
  obtain ⟨a, ha⟩ := Option.isSome_iff_exists.mp ht.mono
  obtain ⟨b, hb⟩ := Option.isSome_iff_exists.mp hu.mono
  simp [Time.before, Time.readings, ha, hb]

theorem oldestOf_spec
    {starts : List Time}
    (hreadings : ∀ t ∈ starts, IsReading t) :
    (starts = [] ∧ oldestOf starts = Time.zero) ∨
      (oldestOf starts ∈ starts ∧ ∀ t ∈ starts, t.before (oldestOf starts) = false) := by
  induction starts using List.reverseRecOn with
  | nil => exact Or.inl ⟨rfl, rfl⟩
  | append_singleton starts t ih =>
      refine Or.inr ?_
      have hbefore : ∀ u ∈ starts, IsReading u := by
        intro u hu
        exact hreadings u (List.mem_append_left _ hu)
      have ht : IsReading t := hreadings t (by simp)
      have hirrefl : t.before t = false := by
        rw [← Bool.not_eq_true, ht.before_iff ht]
        omega
      rw [oldestOf_concat]
      rcases ih hbefore with ⟨rfl, hzero⟩ | ⟨hmem, hmin⟩
      · simp [hzero, Time.isZero, hirrefl]
      · have hold := hbefore _ hmem
        rw [hold.nonzero, Bool.false_or]
        split
        · rename_i hlt
          rw [ht.before_iff hold] at hlt
          refine ⟨by simp, ?_⟩
          intro u hu
          rcases List.mem_append.mp hu with hu | hu
          · have hle := hmin u hu
            rw [← Bool.not_eq_true, (hbefore u hu).before_iff hold] at hle
            rw [← Bool.not_eq_true, (hbefore u hu).before_iff ht]
            omega
          · rw [List.mem_singleton.mp hu]
            exact hirrefl
        · rename_i hge
          refine ⟨List.mem_append_left _ hmem, ?_⟩
          intro u hu
          rcases List.mem_append.mp hu with hu | hu
          · exact hmin u hu
          · rw [List.mem_singleton.mp hu]
            exact Bool.not_eq_true _ ▸ hge

end OldestStart

section Abstract

/-- A live connection. -/
structure Conn where
  release : Release
  start : Time
deriving DecidableEq

/-- The number of live connections of a subject. -/
def connsOf (live : List Conn) (subject : String) : Nat :=
  live.countP fun c => c.release.subject = subject

/-- The limiter counts the live connections and keeps their starts. -/
structure Tracks (l : ConnLimiter) (live : List Conn) : Prop where
  conns : l.conns = live.length
  perSub : ∀ subject, l.perSub.lookup subject =
    if connsOf live subject = 0 then none else some (connsOf live subject : Int)
  starts : ∀ id t, l.starts.lookup id = some t ↔
    ∃ c ∈ live, c.release.id = id ∧ c.start = t
  ids : (live.map fun c => c.release.id).Nodup

/-- The published value is the start of an earliest live connection, or 0. -/
def PublishesOldest (l : ConnLimiter) (live : List Conn) : Prop :=
  (live = [] ∧ l.publishedOldestStart = 0) ∨
    ∃ c ∈ live, l.publishedOldestStart = c.start.unixSeconds.toFloat ∧
      ∀ d ∈ live, d.start.before c.start = false

variable {l : ConnLimiter} {live : List Conn}

variable (h : Tracks l live)
include h

theorem Tracks.count
    (subject : String) :
    l.count subject = connsOf live subject := by
  unfold ConnLimiter.count
  rw [h.perSub]
  split
  · rename_i hzero
    rw [hzero]
    rfl
  · rfl

theorem Tracks.mem_starts
    (id : UInt64) :
    id ∈ l.starts ↔ ∃ c ∈ live, c.release.id = id := by
  rw [← AList.lookup_isSome, Option.isSome_iff_exists]
  constructor
  · intro hsome
    obtain ⟨t, ht⟩ := hsome
    obtain ⟨c, hc, hid, _⟩ := (h.starts id t).mp ht
    exact ⟨c, hc, hid⟩
  · intro hlive
    obtain ⟨c, hc, hid⟩ := hlive
    exact ⟨c.start, (h.starts id c.start).mpr ⟨c, hc, hid, rfl⟩⟩

/-- There is one live connection for an id. -/
theorem Tracks.unique
    {c d : Conn}
    (hc : c ∈ live)
    (hd : d ∈ live)
    (hid : c.release.id = d.release.id) :
    c = d := by
  exact List.inj_on_of_nodup_map h.ids hc hd hid

theorem Tracks.length_starts :
    l.starts.keys.length = live.length := by
  have hperm : l.starts.keys.Perm (live.map fun c => c.release.id) := by
    refine (List.perm_ext_iff_of_nodup l.starts.keys_nodup h.ids).mpr ?_
    intro id
    rw [← AList.mem_keys, h.mem_starts, List.mem_map]
  rw [hperm.length_eq, List.length_map]

theorem Tracks.sum_count :
    (l.perSub.keys.map l.count).sum = live.length := by
  have hkeys : ∀ subject, subject ∈ l.perSub.keys ↔
      subject ∈ live.map fun c => c.release.subject := by
    intro subject
    rw [← AList.mem_keys, ← AList.lookup_isSome, h.perSub, List.mem_map]
    by_cases hzero : connsOf live subject = 0
    · have hnone := List.countP_eq_zero.mp hzero
      simpa [hzero] using hnone
    · obtain ⟨c, hc, hsubject⟩ := List.countP_pos_iff.mp (Nat.pos_of_ne_zero hzero)
      simp only [hzero, if_false, Option.isSome_some, true_iff]
      exact ⟨c, hc, of_decide_eq_true hsubject⟩
  have hperm : l.perSub.keys.Perm (live.map fun c => c.release.subject).dedup := by
    refine (List.perm_ext_iff_of_nodup l.perSub.keys_nodup (List.nodup_dedup _)).mpr ?_
    intro subject
    rw [hkeys, List.mem_dedup]
  have hcount : ∀ subject, l.count subject =
      ((live.map fun c => c.release.subject).count subject : Int) := by
    intro subject
    rw [h.count, connsOf, List.count, List.countP_map]
    simp [Function.comp_def, beq_eq_decide]
  have hsum := List.sum_map_count_dedup_eq_length (live.map fun c => c.release.subject)
  rw [(hperm.map _).sum_eq, List.map_congr_left (fun subject _ => hcount subject)]
  rw [List.length_map] at hsum
  rw [← hsum, Nat.cast_list_sum, List.map_map]
  rfl

theorem Tracks.publishOldest
    (order : List UInt64) :
    Tracks (l.publishOldest order) live := by
  exact ⟨h.conns, h.perSub, h.starts, h.ids⟩

theorem Tracks.publishesOldest
    {order : List UInt64}
    (horder : order.Perm l.starts.keys)
    (hreadings : ∀ c ∈ live, IsReading c.start) :
    PublishesOldest (l.publishOldest order) live := by
  have hmem : ∀ t, t ∈ order.filterMap (fun id => l.starts.lookup id) ↔
      ∃ c ∈ live, c.start = t := by
    intro t
    rw [List.mem_filterMap]
    constructor
    · intro hvisit
      obtain ⟨id, _, ht⟩ := hvisit
      obtain ⟨c, hc, _, hstart⟩ := (h.starts id t).mp ht
      exact ⟨c, hc, hstart⟩
    · intro hlive
      obtain ⟨c, hc, rfl⟩ := hlive
      refine ⟨c.release.id, ?_, (h.starts _ _).mpr ⟨c, hc, rfl, rfl⟩⟩
      rw [horder.mem_iff, ← AList.mem_keys, h.mem_starts]
      exact ⟨c, hc, rfl⟩
  have hvisited : ∀ t ∈ order.filterMap (fun id => l.starts.lookup id), IsReading t := by
    intro t ht
    obtain ⟨c, hc, rfl⟩ := (hmem t).mp ht
    exact hreadings c hc
  rcases oldestOf_spec hvisited with ⟨hnil, hzero⟩ | ⟨hfound, hmin⟩
  · refine Or.inl ⟨?_, ?_⟩
    · refine List.eq_nil_iff_forall_not_mem.mpr ?_
      intro c hc
      have hstart := (hmem c.start).mpr ⟨c, hc, rfl⟩
      rw [hnil] at hstart
      cases hstart
    · simp [ConnLimiter.publishOldest, ConnLimiter.oldestStart, oldestValue, hzero,
        Time.isZero]
  · obtain ⟨c, hc, hstart⟩ := (hmem _).mp hfound
    refine Or.inr ⟨c, hc, ?_, ?_⟩
    · simp [ConnLimiter.publishOldest, ConnLimiter.oldestStart, oldestValue, ← hstart,
        (hreadings c hc).nonzero]
    · intro d hd
      rw [hstart]
      exact hmin d.start ((hmem d.start).mpr ⟨d, hd, rfl⟩)

end Abstract

section Calls

variable {l : ConnLimiter} {live : List Conn}

theorem ConnLimiter.acquire_of_full
    {subject : String}
    (h : l.conns ≥ l.maxConns ∨ l.count subject ≥ l.maxConnsPerSub)
    (now : Time)
    (order : List UInt64) :
    l.acquire subject now order = (l, none) := by
  exact if_pos h

/-- The limiter after an admitted call. -/
def ConnLimiter.addConn
    (l : ConnLimiter)
    (subject : String)
    (now : Time) : ConnLimiter :=
  { l with
    conns := l.conns + 1
    perSub := l.perSub.insert subject (l.count subject + 1)
    nextID := l.nextID + 1
    starts := l.starts.insert l.nextID now }

theorem ConnLimiter.acquire_of_room
    {subject : String}
    (h : ¬ (l.conns ≥ l.maxConns ∨ l.count subject ≥ l.maxConnsPerSub))
    (now : Time)
    (order : List UInt64) :
    l.acquire subject now order =
      ((l.addConn subject now).publishOldest order, some ⟨subject, l.nextID⟩) := by
  exact if_neg h

/-- The limiter after the call of a closure whose connection is live. -/
def ConnLimiter.dropConn (l : ConnLimiter) (c : Release) : ConnLimiter :=
  { l with
    conns := l.conns - 1
    perSub :=
      if l.count c.subject - 1 ≤ 0 then
        (l.perSub.insert c.subject (l.count c.subject - 1)).erase c.subject
      else
        l.perSub.insert c.subject (l.count c.subject - 1)
    starts := l.starts.erase c.id }

theorem ConnLimiter.release_of_stale
    {c : Release}
    (h : c.id ∉ l.starts)
    (order : List UInt64) :
    l.release c order = l := by
  exact if_pos h

theorem ConnLimiter.release_of_live
    {c : Release}
    (h : c.id ∈ l.starts)
    (order : List UInt64) :
    l.release c order = (l.dropConn c).publishOldest order := by
  unfold ConnLimiter.release
  rw [if_neg (not_not.mpr h)]
  have hcount : ({ l with
      conns := l.conns - 1
      perSub := l.perSub.insert c.subject (l.count c.subject - 1) } :
        ConnLimiter).count c.subject = l.count c.subject - 1 := by
    simp [ConnLimiter.count]
  simp only [hcount]
  unfold ConnLimiter.dropConn
  split
  · rfl
  · rfl

theorem Tracks.addConn
    (h : Tracks l live)
    (hfresh : ∀ c ∈ live, c.release.id ≠ l.nextID)
    (subject : String)
    (now : Time) :
    Tracks (l.addConn subject now) (live ++ [⟨⟨subject, l.nextID⟩, now⟩]) := by
  have hconns : ∀ s, connsOf (live ++ [⟨⟨subject, l.nextID⟩, now⟩]) s =
      connsOf live s + if subject = s then 1 else 0 := by
    intro s
    simp [connsOf, List.countP_singleton]
  refine ⟨?_, ?_, ?_, ?_⟩
  · simp [ConnLimiter.addConn, h.conns]
  · intro s
    simp only [ConnLimiter.addConn]
    rw [hconns]
    by_cases hs : subject = s
    · subst hs
      rw [AList.lookup_insert, h.count]
      simp
    · rw [AList.lookup_insert_ne (Ne.symm hs), h.perSub]
      simp [hs]
  · intro id t
    simp only [ConnLimiter.addConn]
    by_cases hid : id = l.nextID
    · subst hid
      rw [AList.lookup_insert]
      constructor
      · intro ht
        exact ⟨_, List.mem_append_right _ (List.mem_singleton_self _), rfl,
          Option.some.inj ht⟩
      · intro hlive
        obtain ⟨c, hc, hid, rfl⟩ := hlive
        rcases List.mem_append.mp hc with hc | hc
        · exact absurd hid (hfresh c hc)
        · rw [List.mem_singleton.mp hc]
    · rw [AList.lookup_insert_ne hid, h.starts]
      constructor
      · intro hlive
        obtain ⟨c, hc, hc'⟩ := hlive
        exact ⟨c, List.mem_append_left _ hc, hc'⟩
      · intro hlive
        obtain ⟨c, hc, hc'⟩ := hlive
        rcases List.mem_append.mp hc with hc | hc
        · exact ⟨c, hc, hc'⟩
        · rw [List.mem_singleton.mp hc] at hc'
          exact absurd hc'.1.symm hid
  · rw [List.map_append, List.nodup_append]
    refine ⟨h.ids, by simp, ?_⟩
    intro id hid id' hid'
    obtain ⟨c, hc, rfl⟩ := List.mem_map.mp hid
    rw [List.map_singleton, List.mem_singleton] at hid'
    rw [hid']
    exact hfresh c hc

theorem Tracks.dropConn
    (h : Tracks l live)
    {c : Conn}
    (hc : c ∈ live) :
    Tracks (l.dropConn c.release) (live.erase c) := by
  have hnodup : live.Nodup := List.Nodup.of_map _ h.ids
  have hpos : 0 < connsOf live c.release.subject := by
    exact List.countP_pos_iff.mpr ⟨c, hc, decide_eq_true rfl⟩
  have hconns : ∀ s, connsOf (live.erase c) s =
      connsOf live s - if c.release.subject = s then 1 else 0 := by
    intro s
    simp [connsOf, List.countP_erase, hc]
  refine ⟨?_, ?_, ?_, ?_⟩
  · have hlength := List.length_erase_of_mem hc
    have hne : 0 < live.length := List.length_pos_of_mem hc
    simp only [ConnLimiter.dropConn, h.conns]
    omega
  · intro s
    simp only [ConnLimiter.dropConn, h.count]
    rw [hconns]
    by_cases hs : c.release.subject = s
    · subst hs
      split
      · rename_i hle
        rw [AList.lookup_erase, if_pos rfl, if_pos (by omega)]
      · rename_i hle
        rw [AList.lookup_insert, if_pos rfl, if_neg (by omega)]
        congr 1
        omega
    · rw [if_neg hs, Nat.sub_zero, ← h.perSub]
      split
      · rw [AList.lookup_erase_ne (Ne.symm hs), AList.lookup_insert_ne (Ne.symm hs)]
      · rw [AList.lookup_insert_ne (Ne.symm hs)]
  · intro id t
    simp only [ConnLimiter.dropConn, hnodup.mem_erase_iff]
    by_cases hid : id = c.release.id
    · subst hid
      rw [AList.lookup_erase]
      constructor
      · intro ht
        cases ht
      · intro hlive
        obtain ⟨d, ⟨hne, hd⟩, hid, _⟩ := hlive
        exact absurd (h.unique hd hc hid) hne
    · rw [AList.lookup_erase_ne hid, h.starts]
      constructor
      · intro hlive
        obtain ⟨d, hd, hid', ht⟩ := hlive
        refine ⟨d, ⟨?_, hd⟩, hid', ht⟩
        intro heq
        rw [heq] at hid'
        exact hid hid'.symm
      · intro hlive
        obtain ⟨d, hd, hid', ht⟩ := hlive
        exact ⟨d, hd.2, hid', ht⟩
  · exact h.ids.sublist (List.Sublist.map _ List.erase_sublist)

end Calls

section Runs

variable (maxConns maxConnsPerSub : Int)

/-- A run of a limiter: the closures that were returned, and those that were called at
least once.  The order of a call is the one in which it visits the starts that are left. -/
inductive LimiterRun : ConnLimiter → List Release → List Release → Prop where
  | new : LimiterRun (ConnLimiter.new maxConns maxConnsPerSub) [] []
  | acquire {l : ConnLimiter} {issued called : List Release}
      (h : LimiterRun l issued called)
      (subject : String)
      {now : Time} {order : List UInt64}
      (hnow : IsReading now)
      (horder : order.Perm (l.acquire subject now order).1.starts.keys) :
      LimiterRun (l.acquire subject now order).1
        (issued ++ (l.acquire subject now order).2.toList) called
  | release {l : ConnLimiter} {issued called : List Release}
      (h : LimiterRun l issued called)
      {c : Release} {order : List UInt64}
      (hc : c ∈ issued)
      (horder : order.Perm (l.release c order).starts.keys) :
      LimiterRun (l.release c order) issued (c :: called)

/-- What holds of the limiter and of the live connections after a run. -/
structure LimiterInv
    (l : ConnLimiter)
    (issued called : List Release)
    (live : List Conn) : Prop where
  tracks : Tracks l live
  maxConns_eq : l.maxConns = maxConns
  maxConnsPerSub_eq : l.maxConnsPerSub = maxConnsPerSub
  total : (live.length : Int) ≤ maxConns
  perSubject : ∀ subject, (connsOf live subject : Int) ≤ maxConnsPerSub
  nextID_eq : l.nextID = UInt64.ofNat issued.length
  fresh : ∀ c ∈ issued, c.id.toNat < issued.length
  distinct : (issued.map Release.id).Nodup
  liveIssued : ∀ c ∈ live, c.release ∈ issued
  issuedLive : ∀ c ∈ issued, c ∉ called → ∃ d ∈ live, d.release = c
  calledEnded : ∀ c ∈ called, c ∈ issued ∧ ∀ d ∈ live, d.release.id ≠ c.id
  readings : ∀ c ∈ live, IsReading c.start
  published : PublishesOldest l live

variable {maxConns maxConnsPerSub}
variable {l : ConnLimiter} {issued called : List Release} {live : List Conn}

theorem LimiterInv.new
    (hconns : 0 ≤ maxConns)
    (hperSub : 0 ≤ maxConnsPerSub) :
    LimiterInv maxConns maxConnsPerSub (ConnLimiter.new maxConns maxConnsPerSub) [] [] [] where
  tracks := ⟨rfl, by simp [ConnLimiter.new, connsOf], by simp [ConnLimiter.new], by simp⟩
  maxConns_eq := rfl
  maxConnsPerSub_eq := rfl
  total := by simpa using hconns
  perSubject := by simpa [connsOf] using hperSub
  nextID_eq := rfl
  fresh := by simp
  distinct := by simp
  liveIssued := by simp
  issuedLive := by simp
  calledEnded := by simp
  readings := by simp
  published := Or.inl ⟨rfl, rfl⟩

variable (h : LimiterInv maxConns maxConnsPerSub l issued called live)
include h

/-- The next id is a new one until the counter wraps. -/
theorem LimiterInv.id_ne_nextID
    (hbound : issued.length < 2 ^ 64)
    {c : Release}
    (hc : c ∈ issued) :
    c.id ≠ l.nextID := by
  intro heq
  have hlt := h.fresh c hc
  rw [heq, h.nextID_eq, UInt64.toNat_ofNat_of_lt' hbound] at hlt
  exact absurd hlt (Nat.lt_irrefl _)

theorem LimiterInv.addConn
    (hbound : issued.length < 2 ^ 64)
    {subject : String}
    (hroom : ¬ (l.conns ≥ l.maxConns ∨ l.count subject ≥ l.maxConnsPerSub))
    {now : Time} {order : List UInt64}
    (hnow : IsReading now)
    (horder : order.Perm (l.addConn subject now).starts.keys) :
    LimiterInv maxConns maxConnsPerSub ((l.addConn subject now).publishOldest order)
      (issued ++ [⟨subject, l.nextID⟩]) called (live ++ [⟨⟨subject, l.nextID⟩, now⟩]) := by
  have hfresh : ∀ c ∈ live, c.release.id ≠ l.nextID := by
    intro c hc
    exact h.id_ne_nextID hbound (h.liveIssued c hc)
  have htracks := h.tracks.addConn hfresh subject now
  have hreadings : ∀ c ∈ live ++ [(⟨⟨subject, l.nextID⟩, now⟩ : Conn)], IsReading c.start := by
    intro c hc
    rcases List.mem_append.mp hc with hc | hc
    · exact h.readings c hc
    · rw [List.mem_singleton.mp hc]
      exact hnow
  rw [not_or, h.tracks.conns, h.tracks.count, h.maxConns_eq, h.maxConnsPerSub_eq] at hroom
  constructor
  case tracks => exact htracks.publishOldest order
  case maxConns_eq => exact h.maxConns_eq
  case maxConnsPerSub_eq => exact h.maxConnsPerSub_eq
  case total =>
    rw [List.length_append, List.length_singleton]
    omega
  case perSubject =>
    intro s
    have hs := h.perSubject s
    simp only [connsOf, List.countP_append, List.countP_singleton] at hs ⊢
    by_cases hsubject : subject = s
    · subst hsubject
      simp only [connsOf] at hroom
      simp only [decide_true, if_true]
      omega
    · simp only [hsubject, decide_false, Bool.false_eq_true, if_false]
      omega
  case nextID_eq =>
    rw [List.length_append, List.length_singleton, UInt64.ofNat_add, ← h.nextID_eq]
    rfl
  case fresh =>
    intro c hc
    rw [List.length_append, List.length_singleton]
    rcases List.mem_append.mp hc with hc | hc
    · exact Nat.lt_succ_of_lt (h.fresh c hc)
    · rw [List.mem_singleton.mp hc, h.nextID_eq, UInt64.toNat_ofNat_of_lt' hbound]
      exact Nat.lt_succ_self _
  case distinct =>
    rw [List.map_append, List.nodup_append]
    refine ⟨h.distinct, by simp, ?_⟩
    intro id hid id' hid'
    obtain ⟨c, hc, rfl⟩ := List.mem_map.mp hid
    rw [List.map_singleton, List.mem_singleton] at hid'
    rw [hid']
    exact h.id_ne_nextID hbound hc
  case liveIssued =>
    intro c hc
    rcases List.mem_append.mp hc with hc | hc
    · exact List.mem_append_left _ (h.liveIssued c hc)
    · rw [List.mem_singleton.mp hc]
      exact List.mem_append_right _ (List.mem_singleton_self _)
  case issuedLive =>
    intro c hc hcalled
    rcases List.mem_append.mp hc with hc | hc
    · obtain ⟨d, hd, rfl⟩ := h.issuedLive c hc hcalled
      exact ⟨d, List.mem_append_left _ hd, rfl⟩
    · rw [List.mem_singleton.mp hc]
      exact ⟨_, List.mem_append_right _ (List.mem_singleton_self _), rfl⟩
  case calledEnded =>
    intro c hc
    obtain ⟨hissued, hlive⟩ := h.calledEnded c hc
    refine ⟨List.mem_append_left _ hissued, ?_⟩
    intro d hd
    rcases List.mem_append.mp hd with hd | hd
    · exact hlive d hd
    · rw [List.mem_singleton.mp hd]
      exact (h.id_ne_nextID hbound hissued).symm
  case readings => exact hreadings
  case published => exact htracks.publishesOldest horder hreadings

/-- The closure of a live id belongs to the live connection. -/
theorem LimiterInv.conn_of_release
    {c : Release}
    (hc : c ∈ issued)
    (hlive : c.id ∈ l.starts) :
    ∃ d ∈ live, d.release = c := by
  obtain ⟨d, hd, hid⟩ := (h.tracks.mem_starts c.id).mp hlive
  exact ⟨d, hd, List.inj_on_of_nodup_map h.distinct (h.liveIssued d hd) hc hid⟩

theorem LimiterInv.dropConn
    {c : Conn}
    (hc : c ∈ live)
    {order : List UInt64}
    (horder : order.Perm (l.dropConn c.release).starts.keys) :
    LimiterInv maxConns maxConnsPerSub ((l.dropConn c.release).publishOldest order) issued
      (c.release :: called) (live.erase c) := by
  have hnodup : live.Nodup := List.Nodup.of_map _ h.tracks.ids
  have htracks := h.tracks.dropConn hc
  have hsub : ∀ d ∈ live.erase c, d ∈ live := by
    intro d hd
    exact List.mem_of_mem_erase hd
  have hreadings : ∀ d ∈ live.erase c, IsReading d.start := by
    intro d hd
    exact h.readings d (hsub d hd)
  constructor
  case tracks => exact htracks.publishOldest order
  case maxConns_eq => exact h.maxConns_eq
  case maxConnsPerSub_eq => exact h.maxConnsPerSub_eq
  case total =>
    have hlength := List.length_erase_of_mem hc
    have htotal := h.total
    omega
  case perSubject =>
    intro s
    have hle : connsOf (live.erase c) s ≤ connsOf live s :=
      List.Sublist.countP_le List.erase_sublist
    have hs := h.perSubject s
    omega
  case nextID_eq => exact h.nextID_eq
  case fresh => exact h.fresh
  case distinct => exact h.distinct
  case liveIssued =>
    intro d hd
    exact h.liveIssued d (hsub d hd)
  case issuedLive =>
    intro r hr hcalled
    rw [List.mem_cons, not_or] at hcalled
    obtain ⟨d, hd, rfl⟩ := h.issuedLive r hr hcalled.2
    refine ⟨d, hnodup.mem_erase_iff.mpr ⟨?_, hd⟩, rfl⟩
    rintro rfl
    exact hcalled.1 rfl
  case calledEnded =>
    intro r hr
    rcases List.mem_cons.mp hr with rfl | hr
    · refine ⟨h.liveIssued c hc, ?_⟩
      intro d hd hid
      have hmem := hnodup.mem_erase_iff.mp hd
      exact hmem.1 (h.tracks.unique hmem.2 hc hid)
    · obtain ⟨hissued, hlive⟩ := h.calledEnded r hr
      exact ⟨hissued, fun d hd => hlive d (hsub d hd)⟩
  case readings => exact hreadings
  case published => exact htracks.publishesOldest horder hreadings

/-- The live connections are those of the closures that were issued and not called. -/
theorem LimiterInv.perm :
    (live.map Conn.release).Perm (issued.filter fun c => c ∉ called) := by
  have hids : ((live.map Conn.release).map Release.id).Nodup := by
    rw [List.map_map]
    exact h.tracks.ids
  refine (List.perm_ext_iff_of_nodup hids.of_map
    (h.distinct.of_map.filter _)).mpr fun c => ?_
  rw [List.mem_map, List.mem_filter, decide_eq_true_eq]
  constructor
  · rintro ⟨d, hd, rfl⟩
    exact ⟨h.liveIssued d hd, fun hcalled => (h.calledEnded _ hcalled).2 d hd rfl⟩
  · rintro ⟨hc, hcalled⟩
    exact h.issuedLive c hc hcalled

omit h

theorem connsOf_eq_countP
    {slots : List Release}
    (h : (live.map Conn.release).Perm slots)
    (subject : String) :
    connsOf live subject = slots.countP fun c => c.subject = subject := by
  rw [← h.countP_eq, List.countP_map]
  rfl

theorem LimiterRun.inv
    (hconns : 0 ≤ maxConns)
    (hperSub : 0 ≤ maxConnsPerSub)
    (hrun : LimiterRun maxConns maxConnsPerSub l issued called)
    (hissued : issued.length ≤ 2 ^ 64) :
    ∃ live, LimiterInv maxConns maxConnsPerSub l issued called live := by
  induction hrun with
  | new => exact ⟨[], LimiterInv.new hconns hperSub⟩
  | @acquire l issued called _ subject now order hnow horder ih =>
      rw [List.length_append] at hissued
      obtain ⟨live, h⟩ := ih ((Nat.le_add_right _ _).trans hissued)
      by_cases hfull : l.conns ≥ l.maxConns ∨ l.count subject ≥ l.maxConnsPerSub
      · rw [ConnLimiter.acquire_of_full hfull]
        simp only [Option.toList_none, List.append_nil]
        exact ⟨live, h⟩
      · rw [ConnLimiter.acquire_of_room hfull] at horder hissued ⊢
        exact ⟨_, h.addConn hissued hfull hnow horder⟩
  | @release l issued called _ c order hc horder ih =>
      obtain ⟨live, h⟩ := ih hissued
      by_cases hlive : c.id ∈ l.starts
      · rw [ConnLimiter.release_of_live hlive] at horder ⊢
        obtain ⟨d, hd, rfl⟩ := h.conn_of_release hc hlive
        exact ⟨_, h.dropConn hd horder⟩
      · rw [ConnLimiter.release_of_stale hlive]
        refine ⟨live, { h with issuedLive := ?_, calledEnded := ?_ }⟩
        · intro r hr hcalled
          exact h.issuedLive r hr fun hmem => hcalled (List.mem_cons_of_mem c hmem)
        intro r hr
        rcases List.mem_cons.mp hr with rfl | hr
        · refine ⟨hc, ?_⟩
          intro d hd hid
          exact hlive ((h.tracks.mem_starts r.id).mpr ⟨d, hd, hid⟩)
        · exact h.calledEnded r hr

end Runs

section Main

variable {maxConns maxConnsPerSub : Int}
variable {l : ConnLimiter} {issued called : List Release}

/-- A call of a closure keeps every other connection and the counts of the other
subjects. -/
theorem ConnLimiter.release_frame
    (l : ConnLimiter)
    (c : Release)
    (order : List UInt64) :
    (∀ id, id ≠ c.id → (l.release c order).starts.lookup id = l.starts.lookup id) ∧
      ∀ subject, subject ≠ c.subject → (l.release c order).count subject = l.count subject := by
  by_cases hlive : c.id ∈ l.starts
  · rw [ConnLimiter.release_of_live hlive]
    constructor
    · intro id hid
      exact AList.lookup_erase_ne hid
    · intro subject hsubject
      have hsame : (l.dropConn c).perSub.lookup subject = l.perSub.lookup subject := by
        simp only [ConnLimiter.dropConn]
        split
        · rw [AList.lookup_erase_ne hsubject, AList.lookup_insert_ne hsubject]
        · rw [AList.lookup_insert_ne hsubject]
      exact congrArg (fun n => n.getD 0) hsame
  · rw [ConnLimiter.release_of_stale hlive]
    exact ⟨fun _ _ => rfl, fun _ _ => rfl⟩

/-- The caps are exact after every run.  A connection is live, and counted for its subject,
as long as its closure was issued and not called. -/
theorem conn_limiter_exact
    (hconns : 0 ≤ maxConns)
    (hperSub : 0 ≤ maxConnsPerSub)
    (hrun : LimiterRun maxConns maxConnsPerSub l issued called)
    (hissued : issued.length ≤ 2 ^ 64) :
    (∀ id, id ∈ l.starts ↔ ∃ c ∈ issued, c ∉ called ∧ c.id = id) ∧
      (∀ subject, l.count subject =
        (issued.filter fun c => c ∉ called).countP fun c => c.subject = subject) ∧
      l.conns = l.starts.keys.length ∧
      l.conns = (l.perSub.keys.map l.count).sum ∧
      l.conns ≤ maxConns ∧
      (∀ subject, l.count subject ≤ maxConnsPerSub) ∧
      (∀ subject n, l.perSub.lookup subject = some n → 0 < n) ∧
      (∀ c ∈ called, ∀ order, l.release c order = l) ∧
      (∀ c ∈ issued, ∀ order,
        (∀ id, id ≠ c.id → (l.release c order).starts.lookup id = l.starts.lookup id) ∧
          ∀ subject, subject ≠ c.subject →
            (l.release c order).count subject = l.count subject) ∧
      (∀ subject now order, (l.acquire subject now order).2 = none
        ↔
      maxConns ≤ l.conns ∨ maxConnsPerSub ≤ l.count subject) ∧
      (l.starts.keys = [] → l.publishedOldestStart = 0) ∧
      (l.starts.keys ≠ [] → ∃ id t, l.starts.lookup id = some t ∧
        l.publishedOldestStart = t.unixSeconds.toFloat ∧
        ∀ id' t', l.starts.lookup id' = some t' → t'.before t = false) := by
  obtain ⟨live, h⟩ := hrun.inv hconns hperSub hissued
  have hlength := h.tracks.length_starts
  refine ⟨?_, ?_, ?_, ?_, ?_, ?_, ?_, ?_, ?_, ?_, ?_, ?_⟩
  · intro id
    rw [h.tracks.mem_starts]
    have hmem : ∀ c, (∃ d ∈ live, d.release = c) ↔ c ∈ issued ∧ c ∉ called := by
      intro c
      rw [← List.mem_map, h.perm.mem_iff, List.mem_filter, decide_eq_true_eq]
    constructor
    · rintro ⟨d, hd, hid⟩
      obtain ⟨hc, hcalled⟩ := (hmem d.release).mp ⟨d, hd, rfl⟩
      exact ⟨_, hc, hcalled, hid⟩
    · rintro ⟨c, hc, hcalled, hid⟩
      obtain ⟨d, hd, rfl⟩ := (hmem c).mpr ⟨hc, hcalled⟩
      exact ⟨d, hd, hid⟩
  · intro subject
    rw [h.tracks.count, connsOf_eq_countP h.perm]
  · rw [h.tracks.conns, hlength]
  · rw [h.tracks.conns, h.tracks.sum_count]
  · rw [h.tracks.conns]
    exact h.total
  · intro subject
    rw [h.tracks.count]
    exact h.perSubject subject
  · intro subject n hn
    rw [h.tracks.perSub] at hn
    split at hn
    · cases hn
    · rename_i hne
      have heq := Option.some.inj hn
      omega
  · intro c hc order
    refine ConnLimiter.release_of_stale ?_ order
    intro hlive
    obtain ⟨d, hd, hid⟩ := (h.tracks.mem_starts c.id).mp hlive
    exact (h.calledEnded c hc).2 d hd hid
  · intro c _ order
    exact l.release_frame c order
  · intro subject now order
    rw [← h.maxConns_eq, ← h.maxConnsPerSub_eq]
    by_cases hfull : l.conns ≥ l.maxConns ∨ l.count subject ≥ l.maxConnsPerSub
    · rw [ConnLimiter.acquire_of_full hfull]
      exact ⟨fun _ => hfull, fun _ => rfl⟩
    · rw [ConnLimiter.acquire_of_room hfull]
      constructor
      · intro hnone
        cases hnone
      · intro hcap
        exact absurd hcap hfull
  · intro hnil
    rcases h.published with ⟨_, hzero⟩ | ⟨c, hc, _⟩
    · exact hzero
    · rw [hnil] at hlength
      exact absurd (List.length_pos_of_mem hc) (by rw [← hlength]; simp)
  · intro hne
    rcases h.published with ⟨rfl, _⟩ | ⟨c, hc, hvalue, hmin⟩
    · exact absurd (List.length_eq_zero_iff.mp hlength) hne
    · refine ⟨c.release.id, c.start, (h.tracks.starts _ _).mpr ⟨c, hc, rfl, rfl⟩, hvalue, ?_⟩
      intro id' t' ht'
      obtain ⟨d, hd, _, rfl⟩ := (h.tracks.starts id' t').mp ht'
      exact hmin d hd

/-- A reading of the clock. -/
def sampleStart : Time :=
  ⟨1742213403500000000, some 5⟩

theorem isReading_sampleStart :
    IsReading sampleStart :=
  ⟨rfl, by decide⟩

/-- With room for one connection: it is closed, another takes its place, and the closure
of the first is called again. -/
theorem conn_limiter_exact_stale :
    ∃ l, LimiterRun 1 1 l [⟨"sub-a", 0⟩, ⟨"sub-a", 1⟩] [⟨"sub-a", 0⟩] ∧
      l.conns = 1 ∧ l.count "sub-a" = 1 ∧ 0 ∉ l.starts ∧ 1 ∈ l.starts ∧
      l.release ⟨"sub-a", 0⟩ [] = l ∧
      (l.acquire "sub-a" sampleStart []).2 = none := by
  have hfirst : LimiterRun 1 1 _ [⟨"sub-a", 0⟩] [] :=
    LimiterRun.new.acquire "sub-a" isReading_sampleStart (show [0].Perm _ by decide)
  have hclosed : LimiterRun 1 1 _ [⟨"sub-a", 0⟩] [⟨"sub-a", 0⟩] :=
    hfirst.release (List.mem_singleton_self _) (show [].Perm _ by decide)
  have hrun : LimiterRun 1 1 _ [⟨"sub-a", 0⟩, ⟨"sub-a", 1⟩] [⟨"sub-a", 0⟩] :=
    hclosed.acquire "sub-a" isReading_sampleStart (show [1].Perm _ by decide)
  obtain ⟨hlive, hcount, -, -, -, -, -, hstale, -, hrefuses, -⟩ :=
    conn_limiter_exact (by decide) (by decide) hrun (by decide)
  refine ⟨_, hrun, rfl, (hcount "sub-a").trans (by decide), ?_, ?_,
    hstale _ (List.mem_singleton_self _) [], ?_⟩
  · rw [hlive]
    decide
  · rw [hlive]
    decide
  exact (hrefuses "sub-a" sampleStart []).mpr (Or.inl (by decide))

end Main

end Stream
end OptimumGateway
