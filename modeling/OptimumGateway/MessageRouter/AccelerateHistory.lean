import OptimumGateway.MessageRouter.AccelerateSlots

/-!
# The accelerate verdict over a history of polls

A poll happens at an instant and runs alone.  The two cells of the accelerate state keep
different things of a history: the map keeps every listed slot for its lifetime, counted
from the latest poll that listed it, and the horizon keeps the latest accepted `to_slot`,
which may be below an earlier one.

Both are given in closed form over the whole history (`listedAt_afterPolls`,
`toSlot_afterPolls`), each from the effect of one poll, and the verdict is read off the
two forms.
-/

namespace OptimumGateway
namespace MessageRouter

open Foundation Foundation.Prog

/-- The response of a poll that is taken over. -/
def AcceleratePoll.accepted (poll : AcceleratePoll) : Option AccelerateSlotsResponse :=
  if poll.chainID = "" ∨ poll.remoteBootstrapURL = "" ∨ poll.err ≠ none ∨ poll.code ≠ 200 then
    none
  else
    poll.res.filter fun res => 0 < res.toSlot

theorem AcceleratePoll.accepted_eq_some_iff
    {poll : AcceleratePoll} {res : AccelerateSlotsResponse} :
    poll.accepted = some res ↔ poll.Succeeds res := by
  unfold AcceleratePoll.accepted
  by_cases hbad : poll.chainID = "" ∨ poll.remoteBootstrapURL = "" ∨ poll.err ≠ none ∨
      poll.code ≠ 200
  · rw [if_pos hbad]
    constructor
    · intro h
      cases h
    · intro h
      rcases hbad with hbad | hbad | hbad | hbad
      · exact absurd hbad h.chain
      · exact absurd hbad h.url
      · exact absurd h.noErr hbad
      · exact absurd h.status hbad
  · rw [if_neg hbad, Option.filter_eq_some_iff, decide_eq_true_iff]
    rw [not_or, not_or, not_or, not_not, not_not] at hbad
    obtain ⟨hchain, hurl, herr, hcode⟩ := hbad
    constructor
    · intro h
      exact ⟨hchain, hurl, herr, hcode, h.1, h.2⟩
    · intro h
      exact ⟨h.body, h.positive⟩

/-- A poll that is not taken over changes nothing. -/
theorem eval_refresh_of_rejected
    {poll : AcceleratePoll}
    (h : poll.accepted = none)
    (s : AccelerateState) :
    (eval AccelerateState.exec (refreshAccelerateSlots poll) s).2 = s := by
  have hno : ∀ res, ¬ poll.Succeeds res := by
    intro res hres
    rw [AcceleratePoll.accepted_eq_some_iff.mpr hres] at h
    cases h
  unfold refreshAccelerateSlots
  split
  · rfl
  · rename_i hcfg
    rw [not_or] at hcfg
    split
    · rename_i res herr hbody
      split
      · rfl
      · rename_i hcode
        split
        · rfl
        · rename_i hpositive
          exact absurd ⟨hcfg.1, hcfg.2, herr, not_not.mp hcode, hbody,
            Int64.not_le.mp hpositive⟩ (hno res)
    · rfl

section PutSlots

/-- The slot is on the list at an instant. -/
def AccelerateState.listedAt (s : AccelerateState) (now : Nat) (slot : UInt64) : Bool :=
  (s.accelerateSlots.get now slot).isSome

/-- The loop of a poll renews the entries of the listed slots. -/
theorem eval_putSlots_listedAt
    (slots : List Int64)
    (s : AccelerateState)
    (later : Nat)
    (slot : UInt64) :
    (eval AccelerateState.exec (putSlots slots) s).2.listedAt later slot = true
      ↔
    if ∃ x ∈ slots, 0 ≤ x ∧ x.toUInt64 = slot then later < s.now + accelerateSlotTTL
    else s.listedAt later slot = true := by
  induction slots generalizing s with
  | nil => simp [putSlots]
  | cons x rest ih =>
      unfold putSlots
      by_cases hx : 0 ≤ x
      · rw [if_pos hx, op_bind, eval_call, ih]
        by_cases hrest : ∃ y ∈ rest, 0 ≤ y ∧ y.toUInt64 = slot
        · have hall : ∃ y ∈ x :: rest, 0 ≤ y ∧ y.toUInt64 = slot := by
            obtain ⟨y, hy, hslot⟩ := hrest
            exact ⟨y, List.mem_cons_of_mem _ hy, hslot⟩
          rw [if_pos hrest, if_pos hall]
          rfl
        · rw [if_neg hrest]
          by_cases hslot : x.toUInt64 = slot
          · rw [if_pos ⟨x, List.mem_cons_self, hx, hslot⟩]
            subst hslot
            simp [AccelerateState.listedAt, AccelerateState.exec, TTLMap.get_put_self]
          · rw [if_neg]
            · simp [AccelerateState.listedAt, AccelerateState.exec,
                TTLMap.get_put_of_ne _ _ _ _ _ (Ne.symm hslot)]
            · rintro ⟨y, hy, hpos, heq⟩
              rcases List.mem_cons.mp hy with rfl | hy
              · exact hslot heq
              · exact hrest ⟨y, hy, hpos, heq⟩
      · rw [if_neg hx, ih]
        have hsame : (∃ y ∈ x :: rest, 0 ≤ y ∧ y.toUInt64 = slot) ↔
            ∃ y ∈ rest, 0 ≤ y ∧ y.toUInt64 = slot := by
          simp [hx]
        simp only [hsame]

end PutSlots

section History

instance
    (res : AccelerateSlotsResponse)
    (slot : UInt64) :
    Decidable (res.Lists slot) :=
  inferInstanceAs (Decidable (∃ listed ∈ res.slots, 0 ≤ listed ∧ listed.toUInt64 = slot))

/-- A poll at an instant. -/
abbrev TimedPoll := Nat × AcceleratePoll

def AccelerateState.poll (s : AccelerateState) (p : TimedPoll) : AccelerateState :=
  (eval AccelerateState.exec (refreshAccelerateSlots p.2) { s with now := p.1 }).2

/-- The state after a history of polls of a new router. -/
def afterPolls (history : List TimedPoll) : AccelerateState :=
  history.foldl AccelerateState.poll unpolledState

/-- What `ShouldAccelerateBlock` answers at an instant after a history of polls. -/
def verdictAt (history : List TimedPoll) (now : Nat) (slot : UInt64) : Bool :=
  (eval AccelerateState.exec (shouldAccelerateBlock slot)
    { afterPolls history with now := now }).1

/-- The response that was taken over last. -/
def latestAccepted (history : List TimedPoll) : Option AccelerateSlotsResponse :=
  (history.filterMap fun p => p.2.accepted).getLast?

/-- Some poll of the history listed the slot, and its entry has not expired. -/
def ListedWithinLifetime (history : List TimedPoll) (now : Nat) (slot : UInt64) : Prop :=
  ∃ p ∈ history, ∃ res, p.2.Succeeds res ∧ res.Lists slot ∧ now < p.1 + accelerateSlotTTL

theorem afterPolls_concat
    (history : List TimedPoll)
    (p : TimedPoll) :
    afterPolls (history ++ [p]) = (afterPolls history).poll p := by
  simp [afterPolls]

theorem latestAccepted_concat
    (history : List TimedPoll)
    (p : TimedPoll) :
    latestAccepted (history ++ [p]) = p.2.accepted.or (latestAccepted history) := by
  unfold latestAccepted
  rw [List.filterMap_append]
  cases h : p.2.accepted with
  | none | some res => simp [h]

variable {p : TimedPoll}

theorem poll_of_rejected
    (h : p.2.accepted = none)
    (s : AccelerateState) :
    s.poll p = { s with now := p.1 } := by
  exact eval_refresh_of_rejected h _

theorem poll_toSlot
    {res : AccelerateSlotsResponse}
    (h : p.2.Succeeds res)
    (s : AccelerateState) :
    (s.poll p).accelerateToSlot = res.toSlot.toUInt64 := by
  unfold AccelerateState.poll
  rw [refreshAccelerateSlots_of_succeeds h, eval_bind]
  rfl

theorem poll_listedAt
    {res : AccelerateSlotsResponse}
    (h : p.2.Succeeds res)
    (s : AccelerateState)
    (later : Nat)
    (slot : UInt64) :
    (s.poll p).listedAt later slot = true
      ↔
    if res.Lists slot then later < p.1 + accelerateSlotTTL
    else s.listedAt later slot = true := by
  have hputs := eval_putSlots_listedAt res.slots { s with now := p.1 } later slot
  unfold AccelerateState.poll
  rw [refreshAccelerateSlots_of_succeeds h, eval_bind]
  exact hputs

/-- The horizon is the `to_slot` of the latest poll that was taken over. -/
theorem toSlot_afterPolls
    (history : List TimedPoll) :
    (afterPolls history).accelerateToSlot =
      ((latestAccepted history).map fun res => res.toSlot.toUInt64).getD 0 := by
  induction history using List.reverseRecOn with
  | nil => rfl
  | append_singleton history p ih =>
      rw [afterPolls_concat, latestAccepted_concat]
      cases h : p.2.accepted with
      | none =>
          rw [poll_of_rejected h, Option.none_or]
          exact ih
      | some res =>
          rw [poll_toSlot (AcceleratePoll.accepted_eq_some_iff.mp h)]
          rfl

/-- The list at an instant consists of the slots whose latest listing has not expired. -/
theorem listedAt_afterPolls
    {history : List TimedPoll}
    (hordered : history.Pairwise fun p q => p.1 ≤ q.1)
    (later : Nat)
    (slot : UInt64) :
    (afterPolls history).listedAt later slot = true
      ↔
    ListedWithinLifetime history later slot := by
  induction history using List.reverseRecOn with
  | nil => simp [afterPolls, unpolledState, AccelerateState.listedAt, ListedWithinLifetime]
  | append_singleton history p ih =>
      obtain ⟨hbefore, -, hlast⟩ := List.pairwise_append.mp hordered
      have hle : ∀ q ∈ history, q.1 ≤ p.1 := by
        intro q hq
        exact hlast q hq p (List.mem_singleton_self p)
      have hsplit : ListedWithinLifetime (history ++ [p]) later slot ↔
          ListedWithinLifetime history later slot ∨
            ∃ res, p.2.Succeeds res ∧ res.Lists slot ∧ later < p.1 + accelerateSlotTTL := by
        simp only [ListedWithinLifetime, List.mem_append, List.mem_singleton, or_and_right,
          exists_or, exists_eq_left]
      rw [afterPolls_concat, hsplit, ← ih hbefore]
      cases h : p.2.accepted with
      | none =>
          rw [poll_of_rejected h]
          constructor
          · intro hlisted
            exact Or.inl hlisted
          · rintro (hlisted | ⟨res, hres, -⟩)
            · exact hlisted
            · rw [AcceleratePoll.accepted_eq_some_iff.mpr hres] at h
              cases h
      | some res =>
          have hres := AcceleratePoll.accepted_eq_some_iff.mp h
          have hunique : ∀ res', p.2.Succeeds res' → res' = res := by
            intro res' hres'
            have hsome := AcceleratePoll.accepted_eq_some_iff.mpr hres'
            rw [h] at hsome
            exact (Option.some.inj hsome).symm
          rw [poll_listedAt hres]
          split
          · rename_i hlists
            constructor
            · intro hlater
              exact Or.inr ⟨res, hres, hlists, hlater⟩
            · rintro (hlisted | ⟨_, _, _, hlater⟩)
              · -- An older listing expires before the renewed one.
                obtain ⟨q, hq, _, _, _, hlater⟩ := (ih hbefore).mp hlisted
                have hqp := hle q hq
                omega
              · exact hlater
          · rename_i hlists
            constructor
            · intro hlisted
              exact Or.inl hlisted
            · rintro (hlisted | ⟨res', hres', hlists', _⟩)
              · exact hlisted
              · rw [hunique res' hres'] at hlists'
                exact absurd hlists' hlists

theorem verdictAt_eq
    (history : List TimedPoll)
    (now : Nat)
    (slot : UInt64) :
    verdictAt history now slot =
      decide (decideAccelerate (afterPolls history).accelerateToSlot
        ((afterPolls history).listedAt now slot) slot ≠ .notOnList) := by
  rfl

/-- A rejected poll leaves no trace in the two cells. -/
theorem afterPolls_skip
    (h : p.2.accepted = none)
    (before after : List TimedPoll) :
    (afterPolls (before ++ p :: after)).accelerateToSlot =
        (afterPolls (before ++ after)).accelerateToSlot ∧
      (afterPolls (before ++ p :: after)).accelerateSlots =
        (afterPolls (before ++ after)).accelerateSlots := by
  induction after using List.reverseRecOn with
  | nil =>
      rw [afterPolls_concat, poll_of_rejected h, List.append_nil]
      exact ⟨rfl, rfl⟩
  | append_singleton after q ih =>
      have hcells : ∀ {s t : AccelerateState}, s.accelerateToSlot = t.accelerateToSlot →
          s.accelerateSlots = t.accelerateSlots → s.poll q = t.poll q := by
        intro s t hto hslots
        unfold AccelerateState.poll
        rw [hto, hslots]
      rw [← List.cons_append, ← List.append_assoc, ← List.append_assoc, afterPolls_concat,
        afterPolls_concat, hcells ih.1 ih.2]
      exact ⟨rfl, rfl⟩

/-- A block is withheld exactly when the latest accepted horizon covers its slot and every
poll that listed the slot is older than the lifetime of an entry.  Polls that are not
taken over do not matter. -/
theorem shouldAccelerateBlock_eq_false_iff
    {history : List TimedPoll}
    (hordered : history.Pairwise fun p q => p.1 ≤ q.1)
    (now : Nat)
    (slot : UInt64) :
    (verdictAt history now slot = false
        ↔
      ∃ res, latestAccepted history = some res ∧ slot ≤ res.toSlot.toUInt64 ∧
        ∀ p ∈ history, ∀ listing, p.2.Succeeds listing → listing.Lists slot →
          p.1 + accelerateSlotTTL ≤ now) ∧
      ∀ before p after, history = before ++ p :: after → (∀ res, ¬ p.2.Succeeds res) →
        ∀ later x, verdictAt history later x = verdictAt (before ++ after) later x := by
  constructor
  · have hmiss : (afterPolls history).listedAt now slot = false ↔
        ∀ p ∈ history, ∀ listing, p.2.Succeeds listing → listing.Lists slot →
          p.1 + accelerateSlotTTL ≤ now := by
      rw [← Bool.not_eq_true, listedAt_afterPolls hordered]
      simp [ListedWithinLifetime]
    rw [verdictAt_eq, decide_eq_false_iff_not, not_not, decideAccelerate_eq_notOnList_iff,
      hmiss, toSlot_afterPolls]
    cases hlatest : latestAccepted history with
    | none => simp
    | some res =>
        have hres : ∃ p ∈ history, p.2.accepted = some res :=
          List.mem_filterMap.mp (List.mem_of_getLast? hlatest)
        obtain ⟨p, -, hp⟩ := hres
        have hne := (AcceleratePoll.accepted_eq_some_iff.mp hp).toSlot_ne_zero
        simp [hne, and_comm]
  · intro before p after hsplit hno later x
    have hrejected : p.2.accepted = none := by
      rw [Option.eq_none_iff_forall_ne_some]
      intro res hres
      exact hno res (AcceleratePoll.accepted_eq_some_iff.mp hres)
    obtain ⟨hto, hslots⟩ := afterPolls_skip hrejected before after
    rw [hsplit, verdictAt_eq, verdictAt_eq, hto]
    unfold AccelerateState.listedAt
    rw [hslots]

/-- A failed poll two minutes after one that examined the slots up to 10 and selected 5. -/
def sampleHistory : List TimedPoll :=
  [(0, pollSelectingFive), (120000000000, { pollSelectingFive with code := 503 })]

/-- Slot 7 is withheld, and the failed poll has no part in it. -/
theorem shouldAccelerateBlock_sample :
    verdictAt sampleHistory 120000000001 7 = false ∧
      ∀ later x, verdictAt sampleHistory later x =
        verdictAt [(0, pollSelectingFive)] later x := by
  have hordered : sampleHistory.Pairwise fun p q => p.1 ≤ q.1 := by
    decide
  constructor
  · rw [(shouldAccelerateBlock_eq_false_iff hordered 120000000001 7).1]
    refine ⟨⟨10, [5], 1⟩, rfl, by decide, ?_⟩
    intro p hp listing hlisting hlists
    obtain ⟨x, hx, -, heq⟩ := hlists
    have hbody : listing.slots = [5] := by
      have hresponse := hlisting.body
      simp only [sampleHistory, List.mem_cons, List.not_mem_nil, or_false] at hp
      rcases hp with rfl | rfl
      · rw [← Option.some.inj hresponse]
      · rw [← Option.some.inj hresponse]
    rw [hbody, List.mem_singleton] at hx
    rw [hx] at heq
    exact absurd heq (by decide)
  · intro later x
    refine (shouldAccelerateBlock_eq_false_iff hordered 0 7).2
      [(0, pollSelectingFive)] _ [] rfl ?_ later x
    intro res hres
    exact absurd hres.status (by decide)

end History

end MessageRouter
end OptimumGateway
