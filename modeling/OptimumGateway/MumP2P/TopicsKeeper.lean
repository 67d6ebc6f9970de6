import OptimumGateway.Foundation.AtomicProgram
import OptimumGateway.Foundation.GoError
import OptimumGateway.Foundation.GoStrings
import Mathlib.Data.Finset.Basic

/-!
# The topics keeper

The topics of the node are kept in a map and in a file.  `AddTopic` and `RemoveTopic` change
the map and notify the persist loop, unless its channel is full.  The loop answers a
notification with a dump: it reads the keys of the map and then writes the file.  At shutdown
the root context is cancelled and `Stop` makes one more dump, without waiting for the loop.

`file_holds_topics_iff` says what the file holds when both are done.  It holds the topics
unless `Stop` wrote the file while the loop held keys that it had read before the last change,
and the loop wrote those and exited.
-/

namespace OptimumGateway
namespace TopicsKeeper

open Foundation Foundation.Prog

section Model

/-- How the `select` of a notification ends. -/
inductive Offer where
  | sent
  | done
  | full
deriving DecidableEq

inductive KeeperOp where
  | store (topic : String)
  | delete (topic : String)
  | keys
  | saveToFile (topics : List String)
  | offer (topic : String)
  | select
  | awaitDone
  | cancel
deriving DecidableEq

/-- A `select` of the loop receives a topic, or nothing when the context is done. -/
abbrev KeeperOp.Ans : KeeperOp → Type
  | .keys => List String
  | .saveToFile _ => Option GoError
  | .offer _ => Offer
  | .select => Option String
  | _ => Unit

structure KeeperState where
  topicsMap : Finset String
  topicsChan : List String
  cancelled : Bool
  file : Option (List String)

abbrev KeeperProg := Prog KeeperOp KeeperOp.Ans

abbrev KeeperCall := Call KeeperOp KeeperOp.Ans

/-- Capacity of `topicsChan`. -/
def topicsChanCap : Nat := 100

/-- A list with exactly the topics of a map. -/
def Lists (topics : List String) (topicsMap : Finset String) : Prop :=
  topics.toFinset = topicsMap

/-- Meaning of the operations.  The keys come in any order.  A write replaces the file or
fails, and a `select` takes any case that is ready. -/
def keeperSem : Sem KeeperOp KeeperOp.Ans KeeperState
  | .store topic, s, _, t => t = { s with topicsMap := insert topic s.topicsMap }
  | .delete topic, s, _, t => t = { s with topicsMap := s.topicsMap.erase topic }
  | .keys, s, r, t => Lists r s.topicsMap ∧ t = s
  | .saveToFile topics, s, none, t => t = { s with file := some topics }
  | .saveToFile _, s, some _, t => t = s
  | .offer topic, s, .sent, t =>
      s.topicsChan.length < topicsChanCap ∧ t = { s with topicsChan := s.topicsChan ++ [topic] }
  | .offer _, s, .done, t => s.cancelled = true ∧ t = s
  | .offer _, s, .full, t =>
      topicsChanCap ≤ s.topicsChan.length ∧ s.cancelled = false ∧ t = s
  | .select, s, some topic, t =>
      s.topicsChan.head? = some topic ∧ t = { s with topicsChan := s.topicsChan.tail }
  | .select, s, none, t => s.cancelled = true ∧ t = s
  | .awaitDone, s, _, t => s.cancelled = true ∧ t = s
  | .cancel, s, _, t => t = { s with cancelled := true }

abbrev keeper (op : KeeperOp) : KeeperProg op.Ans :=
  Prog.op op

/-- `AddTopic`.  A notification that finds the channel full is dropped. -/
def addTopic (topic : String) : KeeperProg Unit := do
  keeper (.store topic)
  let _ ← keeper (.offer topic)
  pure ()

/-- `RemoveTopic`. -/
def removeTopic (topic : String) : KeeperProg Unit := do
  keeper (.delete topic)
  let _ ← keeper (.offer topic)
  pure ()

/-- `DumpData`.  An error of the write is only logged. -/
def dumpData : KeeperProg Unit := do
  let topics ← keeper .keys
  let _ ← keeper (.saveToFile topics)
  pure ()

/-- `persist`, with a bound on the notifications that it still takes. -/
def persist : Nat → KeeperProg Unit
  | 0 => keeper .awaitDone
  | rounds + 1 => do
      match ← keeper .select with
      | none => pure ()
      | some _ =>
          dumpData
          persist rounds

def stop : KeeperProg Unit :=
  dumpData

/-- The end of `main`, as far as the keeper is concerned. -/
def shutdown : KeeperProg Unit := do
  keeper .cancel
  stop

/-- The topics that `loadData` stores, from the content of the file if there is any. -/
def loadData (file : Option (List String)) : Finset String :=
  ((file.getD []).filter fun topic => ¬ trimSpace topic = "").toFinset

/-- `NewService`, before the loop starts. -/
def newService (file : Option (List String)) : KeeperState where
  topicsMap := loadData file
  topicsChan := []
  cancelled := false
  file := file

inductive TopicChange where
  | add (topic : String)
  | remove (topic : String)

def TopicChange.program : TopicChange → KeeperProg Unit
  | .add topic => addTopic topic
  | .remove topic => removeTopic topic

inductive KeeperThread where
  | change (n : Nat)
  | persist
  | main
deriving DecidableEq

abbrev KeeperPool :=
  Config KeeperThread KeeperOp KeeperOp.Ans (fun _ => Unit) KeeperState

abbrev KeeperEvent := Event KeeperThread KeeperOp KeeperOp.Ans

/-- The keeper with the calls that change its topics. -/
def keeperPool
    (changes : Nat → TopicChange)
    (rounds : Nat)
    (s : KeeperState) : KeeperPool where
  progs
    | .change n => (changes n).program
    | .persist => TopicsKeeper.persist rounds
    | .main => shutdown
  state := s

end Model

section Specification

def IsChange : KeeperOp → Prop
  | .store _ => True
  | .delete _ => True
  | _ => False

/-- `Stop` is called after the last change. -/
def StopAfterChanges (tr : List KeeperEvent) : Prop :=
  ∀ a b topics, tr = a ++ ⟨.main, .keys, topics⟩ :: b → ∀ e ∈ b, ¬ IsChange e.op

/-- Every write of the file succeeds. -/
def WritesSucceed (tr : List KeeperEvent) : Prop :=
  ∀ i topics err, ⟨i, .saveToFile topics, some err⟩ ∉ tr

/-- The file holds exactly the topics of the map. -/
def KeeperState.FileHoldsTopics (s : KeeperState) : Prop :=
  ∃ topics, s.file = some topics ∧ Lists topics s.topicsMap

/-- The loop is about to write keys that are no longer those of the map. -/
def HoldsStaleKeys (m : KeeperPool) : Prop :=
  ∃ topics k, m.progs .persist = .call (.saveToFile topics) k ∧
    ¬ Lists topics m.state.topicsMap

/-- `Stop` writes the file while the loop holds stale keys, and the loop reads no others
before it exits. -/
def FlushOvertaken (c d : KeeperPool) (tr : List KeeperEvent) : Prop :=
  ∃ a b topics m, tr = a ++ ⟨.main, .saveToFile topics, none⟩ :: b ∧
    Run keeperSem anyStep c a m ∧
    Run keeperSem anyStep m (⟨.main, .saveToFile topics, none⟩ :: b) d ∧
    HoldsStaleKeys m ∧ ∀ later, ⟨.persist, .keys, later⟩ ∉ b

end Specification

section Calls

variable {s t : KeeperState} {rounds : Nat} {calls : List KeeperCall} {rest : KeeperProg Unit}

/-- Calls that replace the file. -/
def fileWrite : KeeperCall → Option (Option (List String))
  | ⟨.saveToFile topics, none⟩ => some (some topics)
  | _ => none

/-- The keys that a call reads. -/
def keysRead : KeeperCall → Option (Option (List String))
  | ⟨.keys, topics⟩ => some (some topics)
  | _ => none

/-- What one operation does to the file and to the map. -/
theorem keeperSem_frame
    {op : KeeperOp} {r : op.Ans}
    (h : keeperSem op s r t) :
    t.file = (fileWrite ⟨op, r⟩).getD s.file ∧ (¬ IsChange op → t.topicsMap = s.topicsMap) := by
  cases op with
  | store topic | delete topic =>
      obtain rfl : t = _ := h
      exact ⟨rfl, fun hchange => absurd trivial hchange⟩
  | keys | awaitDone =>
      obtain rfl := h.2
      exact ⟨rfl, fun _ => rfl⟩
  | saveToFile topics =>
      cases r <;> (obtain rfl : t = _ := h; exact ⟨rfl, fun _ => rfl⟩)
  | offer topic =>
      cases r with
      | sent | done => exact h.2 ▸ ⟨rfl, fun _ => rfl⟩
      | full => exact h.2.2 ▸ ⟨rfl, fun _ => rfl⟩
  | select =>
      cases r with
      | none | some topic => exact h.2 ▸ ⟨rfl, fun _ => rfl⟩
  | cancel =>
      obtain rfl : t = _ := h
      exact ⟨rfl, fun _ => rfl⟩

theorem writes_file :
    Writes keeperSem KeeperState.file fileWrite := by
  intro op s r t h
  exact (keeperSem_frame h).1

/-- The map stays as it is while nothing changes it. -/
theorem topicsMap_of_exec
    (h : Exec keeperSem s calls t)
    (hcalls : ∀ c ∈ calls, ¬ IsChange c.1) :
    t.topicsMap = s.topicsMap := by
  induction h with
  | nil => rfl
  | cons head tail ih =>
      rw [ih fun c hc => hcalls c (List.mem_cons_of_mem _ hc)]
      exact (keeperSem_frame head).2 (hcalls _ List.mem_cons_self)

/-- Where the loop can be. -/
inductive LoopAt : KeeperProg Unit → Prop where
  | selecting (rounds : Nat) : LoopAt (persist rounds)
  | reading (rounds : Nat) : LoopAt (dumpData >>= fun _ => persist rounds)
  | writing (topics : List String) (rounds : Nat) :
      LoopAt (keeper (.saveToFile topics) >>= fun _ => persist rounds)
  | exited : LoopAt (.ret ())

theorem loopAt_of_path
    (h : Path (persist rounds) calls rest) :
    LoopAt rest := by
  induction rounds generalizing calls with
  | zero =>
      rcases path_call_iff.mp h with ⟨-, rfl⟩ | ⟨r, l, -, hl⟩
      · exact LoopAt.selecting 0
      · obtain ⟨-, rfl⟩ := path_ret_iff.mp hl
        exact LoopAt.exited
  | succ rounds ih =>
      rcases path_call_iff.mp h with ⟨-, rfl⟩ | ⟨r, l, -, hl⟩
      · exact LoopAt.selecting (rounds + 1)
      · cases r with
        | none =>
            obtain ⟨-, rfl⟩ := path_ret_iff.mp hl
            exact LoopAt.exited
        | some topic =>
            rcases path_call_iff.mp hl with ⟨-, rfl⟩ | ⟨topics, l', -, hl'⟩
            · exact LoopAt.reading rounds
            · rcases path_call_iff.mp hl' with ⟨-, rfl⟩ | ⟨r, l'', -, hl''⟩
              · exact LoopAt.writing topics rounds
              · exact ih hl''

theorem calls_of_dump
    {p : KeeperProg Unit}
    (h : Path (dumpData >>= fun _ => p) calls (.ret ())) :
    ∃ topics r l, calls = ⟨.keys, topics⟩ :: ⟨.saveToFile topics, r⟩ :: l ∧
      Path p l (.ret ()) := by
  obtain ⟨topics, l, rfl, hl⟩ := path_call_ret_iff.mp h
  obtain ⟨r, l', rfl, hl'⟩ := path_call_ret_iff.mp hl
  exact ⟨topics, r, l', rfl, hl'⟩

theorem lastWrite_dump
    {topics : List String} {l : List KeeperCall}
    (h : lastWrite fileWrite l = lastWrite keysRead l) :
    lastWrite fileWrite (⟨.keys, topics⟩ :: ⟨.saveToFile topics, none⟩ :: l) =
      lastWrite keysRead (⟨.keys, topics⟩ :: ⟨.saveToFile topics, none⟩ :: l) := by
  rw [lastWrite_cons, lastWrite_cons, lastWrite_cons, lastWrite_cons, h]
  simp [fileWrite, keysRead]

/-- Every write of the loop has its own read before it. -/
theorem lastWrite_of_persist
    (h : Path (persist rounds) calls (.ret ()))
    (hwritten : ∀ topics err, ⟨.saveToFile topics, some err⟩ ∉ calls) :
    lastWrite fileWrite calls = lastWrite keysRead calls := by
  induction rounds generalizing calls with
  | zero =>
      obtain ⟨r, l, rfl, hl⟩ := path_call_ret_iff.mp h
      obtain ⟨rfl, -⟩ := path_ret_iff.mp hl
      rfl
  | succ rounds ih =>
      obtain ⟨r, l, rfl, hl⟩ := path_call_ret_iff.mp h
      cases r with
      | none =>
          obtain ⟨rfl, -⟩ := path_ret_iff.mp hl
          rfl
      | some topic =>
          obtain ⟨topics, r, l, rfl, hrest⟩ := calls_of_dump hl
          cases r with
          | some err => exact absurd (by simp) (hwritten topics err)
          | none =>
              have hlast := ih hrest fun topics err herr => hwritten topics err (by simp [herr])
              rw [lastWrite_cons, lastWrite_dump hlast,
                lastWrite_cons (w := keysRead) (c := ⟨.select, some topic⟩)]
              rfl

theorem keysRead_eq_some
    {c : KeeperCall} {read : Option (List String)}
    (h : keysRead c = some read) :
    ∃ topics, read = some topics ∧ c = ⟨.keys, topics⟩ := by
  obtain ⟨op, r⟩ := c
  cases op with
  | keys => exact ⟨r, (Option.some.inj h).symm, rfl⟩
  | _ => cases h

theorem fileWrite_of_change
    {change : TopicChange}
    (h : Path change.program calls rest) :
    ∀ c ∈ calls, fileWrite c = none := by
  have hforall : change.program.Forall fun op => ∀ topics, op ≠ .saveToFile topics := by
    cases change with
    | add topic | remove topic => exact ⟨nofun, fun _ => ⟨nofun, fun _ => trivial⟩⟩
  intro c hc
  have hop := h.forall_mem hforall c hc
  obtain ⟨op, r⟩ := c
  cases op with
  | saveToFile topics => exact absurd rfl (hop topics)
  | _ => rfl

/-- What `shutdown` did before and does after its write. -/
theorem calls_of_shutdown
    {before after : List KeeperCall} {topics : List String}
    {r : Option GoError}
    (h : Path shutdown (before ++ ⟨.saveToFile topics, r⟩ :: after) rest) :
    before = [⟨.cancel, ()⟩, ⟨.keys, topics⟩] ∧ after = [] := by
  have hmem : ⟨.saveToFile topics, r⟩ ∈ before ++ ⟨.saveToFile topics, r⟩ :: after := by
    simp
  rcases path_call_iff.mp h with ⟨hl, -⟩ | ⟨_, l, hl, h₁⟩
  · simp [hl] at hmem
  rcases path_call_iff.mp h₁ with ⟨rfl, -⟩ | ⟨read, l', rfl, h₂⟩
  · simp [hl] at hmem
  rcases path_call_iff.mp h₂ with ⟨rfl, -⟩ | ⟨r', l'', rfl, h₃⟩
  · simp [hl] at hmem
  obtain ⟨rfl, -⟩ := path_ret_iff.mp h₃
  rcases before with _ | ⟨x, _ | ⟨y, _ | ⟨z, w⟩⟩⟩
  · cases hl
  · cases hl
  · cases hl
    exact ⟨rfl, rfl⟩
  · have hlength := congrArg List.length hl
    simp at hlength

end Calls

section Runs

variable {changes : Nat → TopicChange} {rounds : Nat} {s : KeeperState}
variable {c m d : KeeperPool} {a b tr : List KeeperEvent} {topics : List String}

/-- Keys that were read after the last change are still those of the map. -/
theorem lists_of_quiet
    {i : KeeperThread}
    (hrun : Run keeperSem anyStep c (a ++ ⟨i, .keys, topics⟩ :: b) d)
    (hb : ∀ e ∈ b, ¬ IsChange e.op) :
    Lists topics d.state.topicsMap := by
  obtain ⟨u, v, -, ⟨hread, rfl⟩, hexec⟩ := hrun.split_at
  rw [topicsMap_of_exec hexec ?_]
  · exact hread
  · intro x hx
    obtain ⟨e, he, rfl⟩ := List.mem_map.mp hx
    exact hb e he

variable (hbefore : Run keeperSem anyStep (keeperPool changes rounds s) a m)
include hbefore

variable (hafter : Run keeperSem anyStep m (⟨.main, .saveToFile topics, none⟩ :: b) d)
include hafter

/-- After the write of `Stop`, the file holds what the loop wrote last, or else what `Stop`
wrote. -/
theorem file_after_stop :
    d.state.file = (lastWrite fileWrite (callsOf .persist b)).getD (some topics) := by
  have hothers : ∀ j, j ≠ KeeperThread.persist → ∀ x ∈ callsOf j b, fileWrite x = none := by
    intro j hj x hx
    have hpath := (hbefore.trans hafter).path j
    rw [callsOf_append] at hpath
    cases j with
    | persist => exact absurd rfl hj
    | main =>
        rw [callsOf_cons_self] at hpath
        rw [(calls_of_shutdown hpath).2] at hx
        cases hx
    | change n =>
        refine fileWrite_of_change hpath x ?_
        rw [callsOf_cons]
        exact List.mem_append_right _ (List.mem_append_right _ hx)
  have hcell := Exec.cell writes_file hafter.exec
  rw [List.map_cons, lastWrite_cons, lastWrite_of_thread hothers] at hcell
  rw [hcell]
  cases lastWrite fileWrite (callsOf KeeperThread.persist b) with
  | none | some written => rfl

omit hafter in
omit hbefore in
theorem holds_of_lastRead
    {calls : List KeeperCall}
    (hfile : d.state.file = (lastWrite keysRead calls).getD (some topics))
    (htopics : Lists topics d.state.topicsMap)
    (hread : ∀ later, ⟨.keys, later⟩ ∈ calls → Lists later d.state.topicsMap) :
    d.state.FileHoldsTopics := by
  cases hlast : lastWrite keysRead calls with
  | none =>
      rw [hlast] at hfile
      exact ⟨topics, hfile, htopics⟩
  | some read =>
      obtain ⟨x, hx, hxread⟩ := lastWrite_eq_some hlast
      obtain ⟨later, rfl, rfl⟩ := keysRead_eq_some hxread
      rw [hlast] at hfile
      exact ⟨later, hfile, hread later hx⟩

/-- The map does not change any more once `Stop` writes: what `Stop` wrote and what the loop
reads from then on are its keys. -/
theorem keys_after_stop
    (hchanges : StopAfterChanges (a ++ ⟨.main, .saveToFile topics, none⟩ :: b)) :
    d.state.topicsMap = m.state.topicsMap ∧ Lists topics d.state.topicsMap ∧
      ∀ later, ⟨.keys, later⟩ ∈ callsOf KeeperThread.persist b →
        Lists later d.state.topicsMap := by
  have hall := hbefore.trans hafter
  have hmain := hall.path .main
  rw [callsOf_append, callsOf_cons_self] at hmain
  have hcalled : callsOf .main a = [⟨.cancel, ()⟩] ++ ⟨.keys, topics⟩ :: [] :=
    (calls_of_shutdown hmain).1
  obtain ⟨a₁, a₂, rfl, -, -⟩ := callsOf_eq_append_cons hcalled
  have hquiet := hchanges a₁ (a₂ ++ ⟨.main, .saveToFile topics, none⟩ :: b) topics (by simp)
  have hrest : ∀ e ∈ (⟨.main, .saveToFile topics, none⟩ :: b : List KeeperEvent),
      ¬ IsChange e.op := by
    intro e he
    exact hquiet e (List.mem_append_right _ he)
  refine ⟨?_, ?_, ?_⟩
  · refine topicsMap_of_exec hafter.exec ?_
    intro x hx
    obtain ⟨e, he, rfl⟩ := List.mem_map.mp hx
    exact hrest e he
  · rw [List.append_assoc, List.cons_append] at hall
    exact lists_of_quiet hall hquiet
  · intro later hlater
    obtain ⟨b₁, b₂, rfl⟩ := List.append_of_mem (mem_of_mem_callsOf hlater)
    rw [← List.cons_append] at hafter
    refine lists_of_quiet hafter ?_
    intro e he
    exact hrest e (by simp [he])

omit hafter in
omit hbefore in
/-- What the file holds in the end when the loop was about to write keys while `Stop` wrote. -/
theorem fileHoldsTopics_of_writing
    {held : List String} {l : List KeeperCall}
    (hfile : d.state.file = ((lastWrite keysRead l).or (some (some held))).getD (some topics))
    (hread : ∀ later, ⟨.keys, later⟩ ∈ l → Lists later d.state.topicsMap) :
    d.state.FileHoldsTopics
      ↔
    Lists held d.state.topicsMap ∨ ∃ later, ⟨.keys, later⟩ ∈ l := by
  cases hlast : lastWrite keysRead l with
  | none =>
      rw [hlast] at hfile
      have hnone : ¬ ∃ later, ⟨.keys, later⟩ ∈ l := by
        rintro ⟨later, hlater⟩
        exact nomatch lastWrite_eq_none_iff.mp hlast _ hlater
      constructor
      · rintro ⟨written, hwritten, hlists⟩
        cases hfile.symm.trans hwritten
        exact Or.inl hlists
      · intro h
        exact ⟨held, hfile, h.resolve_right hnone⟩
  | some read =>
      obtain ⟨x, hx, hxread⟩ := lastWrite_eq_some hlast
      obtain ⟨later, rfl, rfl⟩ := keysRead_eq_some hxread
      rw [hlast] at hfile
      exact iff_of_true ⟨later, hfile, hread later hx⟩ (Or.inr ⟨later, hx⟩)

/-- What the file holds in the end, seen from the write of `Stop`. -/
theorem fileHoldsTopics_iff
    (hchanges : StopAfterChanges (a ++ ⟨.main, .saveToFile topics, none⟩ :: b))
    (hwritten : WritesSucceed b)
    (hexited : d.progs .persist = .ret ()) :
    d.state.FileHoldsTopics
      ↔
    ¬ (HoldsStaleKeys m ∧ ∀ later, ⟨.persist, .keys, later⟩ ∉ b) := by
  obtain ⟨hmap, htopics, hread⟩ := keys_after_stop hbefore hafter hchanges
  have hfile := file_after_stop hbefore hafter
  have hat := loopAt_of_path (hbefore.path .persist)
  have hpath := hafter.path .persist
  rw [hexited, callsOf_cons, if_neg nofun, List.nil_append] at hpath
  have hunwritten : ∀ written err,
      ⟨.saveToFile written, some err⟩ ∉ callsOf KeeperThread.persist b := by
    intro written err hmem
    exact hwritten _ _ _ (mem_of_mem_callsOf hmem)
  have hlater : (∀ later, ⟨.persist, .keys, later⟩ ∉ b) ↔
      ¬ ∃ later, ⟨.keys, later⟩ ∈ callsOf KeeperThread.persist b := by
    rw [not_exists]
    exact forall_congr' fun later => not_congr
      ⟨fun hmem => call_mem_callsOf hmem, mem_of_mem_callsOf⟩
  rw [hlater]
  generalize callsOf KeeperThread.persist b = calls at hread hfile hpath hunwritten
  generalize hprog : m.progs .persist = prog at hat hpath
  -- unless the loop was about to write, its writes have their reads after that of `Stop`
  have hfresh : lastWrite fileWrite calls = lastWrite keysRead calls →
      (∀ written k, prog ≠ .call (.saveToFile written) k) →
      (d.state.FileHoldsTopics ↔
        ¬ (HoldsStaleKeys m ∧ ¬ ∃ later, ⟨.keys, later⟩ ∈ calls)) := by
    intro hlast hhead
    rw [hlast] at hfile
    refine iff_of_true (holds_of_lastRead hfile htopics hread) ?_
    rintro ⟨⟨written, k, hwriting, -⟩, -⟩
    exact hhead written k (hprog.symm.trans hwriting)
  cases hat with
  | selecting rounds =>
      refine hfresh (lastWrite_of_persist hpath hunwritten) ?_
      cases rounds <;> nofun
  | reading rounds =>
      obtain ⟨read, r, l, rfl, hl⟩ := calls_of_dump hpath
      cases r with
      | some err => exact absurd (by simp) (hunwritten read err)
      | none =>
          have hlast := lastWrite_of_persist hl fun written err hmem =>
            hunwritten written err (by simp [hmem])
          exact hfresh (lastWrite_dump hlast) nofun
  | exited =>
      obtain ⟨rfl, -⟩ := path_ret_iff.mp hpath
      exact hfresh rfl nofun
  | writing held rounds =>
      obtain ⟨r, l, rfl, hl⟩ := path_call_ret_iff.mp hpath
      cases r with
      | some err => exact absurd (by simp) (hunwritten held err)
      | none =>
          have hlast := lastWrite_of_persist hl fun written err hmem =>
            hunwritten written err (by simp [hmem])
          have hstale : HoldsStaleKeys m ↔ ¬ Lists held d.state.topicsMap := by
            rw [hmap]
            constructor
            · rintro ⟨written, k, hwriting, hnot⟩
              cases hprog.symm.trans hwriting
              exact hnot
            · intro hnot
              exact ⟨held, _, hprog, hnot⟩
          rw [lastWrite_cons, hlast] at hfile
          rw [fileHoldsTopics_of_writing hfile fun later hmem => hread later (by simp [hmem]),
            hstale]
          simp [or_iff_not_imp_left]

omit hbefore

omit hafter

/-- The file holds the topics in the end, unless the loop overtook the flush of `Stop` with
stale keys. -/
theorem file_holds_topics_iff
    (changes : Nat → TopicChange)
    (rounds : Nat)
    (s : KeeperState)
    {tr : List KeeperEvent}
    {d : KeeperPool}
    (hrun : Run keeperSem anyStep (keeperPool changes rounds s) tr d)
    (hchanges : StopAfterChanges tr)
    (hwritten : WritesSucceed tr)
    (hreturned : d.progs .main = .ret ())
    (hexited : d.progs .persist = .ret ()) :
    d.state.FileHoldsTopics ↔ ¬ FlushOvertaken (keeperPool changes rounds s) d tr := by
  constructor
  · rintro hholds ⟨a, b, topics, m, rfl, hbefore, hafter, hstale, hlater⟩
    have hrest : WritesSucceed b := fun i written err hmem =>
      hwritten i written err (by simp [hmem])
    exact (fileHoldsTopics_iff hbefore hafter hchanges hrest hexited).mp hholds ⟨hstale, hlater⟩
  · intro hnot
    -- `Stop` has returned, so that its write is somewhere in the trace
    have hmain := hrun.path .main
    rw [hreturned] at hmain
    obtain ⟨_, l, hl, h₁⟩ := path_call_ret_iff.mp hmain
    obtain ⟨topics, l', rfl, h₂⟩ := path_call_ret_iff.mp h₁
    obtain ⟨r, l'', rfl, -⟩ := path_call_ret_iff.mp h₂
    have hcalled : callsOf .main tr =
        [⟨.cancel, ()⟩, ⟨.keys, topics⟩] ++ ⟨.saveToFile topics, r⟩ :: l'' := hl
    obtain ⟨a, b, rfl, -, -⟩ := callsOf_eq_append_cons hcalled
    cases r with
    | some err => exact absurd (by simp) (hwritten .main topics err)
    | none =>
        obtain ⟨m, hbefore, hafter⟩ := hrun.split
        have hrest : WritesSucceed b := fun i written err hmem =>
          hwritten i written err (by simp [hmem])
        refine (fileHoldsTopics_iff hbefore hafter hchanges hrest hexited).mpr ?_
        rintro ⟨hstale, hlater⟩
        exact hnot ⟨a, b, topics, m, rfl, hbefore, hafter, hstale, hlater⟩

/-- A trace whose changes all come before a part in which `Stop` begins. -/
theorem stopAfterChanges_append
    (ha : ∀ e ∈ a, e.label ≠ (.main, .keys))
    (hb : ∀ e ∈ b, ¬ IsChange e.op) :
    StopAfterChanges (a ++ b) := by
  intro x y topics hsplit e he
  rcases List.append_eq_append_iff.mp hsplit with ⟨z, rfl, rfl⟩ | ⟨z, rfl, hz⟩
  · exact hb e (by simp [he])
  · cases z with
    | nil =>
        obtain rfl : _ = b := hz
        exact hb e (by simp [he])
    | cons k z =>
        obtain ⟨rfl, -⟩ := List.cons.inj hz
        exact absurd rfl (ha _ (List.mem_append_right x List.mem_cons_self))

def twoAdds : Nat → TopicChange
  | 0 => .add "blocks"
  | _ => .add "attestations"

/-- The loop reads the keys, and a second topic is added. -/
def staleReadTrace : List KeeperEvent :=
  [⟨.change 0, .store "blocks", ()⟩, ⟨.change 0, .offer "blocks", .sent⟩,
    ⟨.persist, .select, some "blocks"⟩, ⟨.persist, .keys, ["blocks"]⟩,
    ⟨.change 1, .store "attestations", ()⟩, ⟨.change 1, .offer "attestations", .sent⟩,
    ⟨.main, .cancel, ()⟩]

/-- `Stop` writes both topics, and then the loop writes the one that it had read. -/
def overtakenTrace : List KeeperEvent :=
  [⟨.main, .keys, ["attestations", "blocks"]⟩,
    ⟨.main, .saveToFile ["attestations", "blocks"], none⟩,
    ⟨.persist, .saveToFile ["blocks"], none⟩, ⟨.persist, .awaitDone, ()⟩]

/-- The write of the loop comes first. -/
def inOrderTrace : List KeeperEvent :=
  [⟨.persist, .saveToFile ["blocks"], none⟩,
    ⟨.main, .keys, ["attestations", "blocks"]⟩,
    ⟨.main, .saveToFile ["attestations", "blocks"], none⟩, ⟨.persist, .awaitDone, ()⟩]

theorem lists_blocks :
    Lists ["blocks"] (insert "blocks" (loadData none)) := by
  simp [Lists, loadData]

theorem lists_both :
    Lists ["attestations", "blocks"]
      (insert "attestations" (insert "blocks" (loadData none))) := by
  simp [Lists, loadData]

theorem run_overtaken :
    ∃ d, Run keeperSem anyStep (keeperPool twoAdds 1 (newService none))
        (staleReadTrace ++ overtakenTrace) d ∧
      d.progs .main = .ret () ∧ d.progs .persist = .ret () ∧
      d.state.topicsMap = {"attestations", "blocks"} ∧ d.state.file = some ["blocks"] := by
  refine ⟨_, Run.next rfl rfl (Run.next rfl ⟨by decide, rfl⟩ (Run.next rfl ⟨rfl, rfl⟩
    (Run.next rfl ⟨lists_blocks, rfl⟩ (Run.next rfl rfl (Run.next rfl ⟨by decide, rfl⟩
    (Run.next rfl rfl (Run.next rfl ⟨lists_both, rfl⟩ (Run.next rfl rfl (Run.next rfl rfl
    (Run.next rfl ⟨rfl, rfl⟩ (Run.nil _))))))))))), ?_⟩
  exact ⟨rfl, rfl, lists_both.symm, rfl⟩

/-- After `Stop` and the loop are done, the file lacks a topic. -/
theorem flush_overwritten_by_stale_keys :
    ¬ ∀ (changes : Nat → TopicChange) (rounds : Nat) (s : KeeperState)
        (tr : List KeeperEvent) (d : KeeperPool),
      Run keeperSem anyStep (keeperPool changes rounds s) tr d →
      StopAfterChanges tr → WritesSucceed tr →
      d.progs .main = .ret () → d.progs .persist = .ret () →
      d.state.FileHoldsTopics := by
  intro h
  obtain ⟨d, hrun, hreturned, hexited, hmap, hfile⟩ := run_overtaken
  have hchanges : StopAfterChanges (staleReadTrace ++ overtakenTrace) :=
    stopAfterChanges_append (by decide) (by simp [overtakenTrace, IsChange])
  have hwritten : WritesSucceed (staleReadTrace ++ overtakenTrace) := by
    intro i topics err
    simp [staleReadTrace, overtakenTrace]
  obtain ⟨topics, htopics, hlists⟩ := h _ _ _ _ d hrun hchanges hwritten hreturned hexited
  cases hfile.symm.trans htopics
  rw [hmap, Lists] at hlists
  exact absurd hlists (by decide)

/-- The loop writes before `Stop` reads. -/
theorem file_holds_topics_iff_in_order :
    ∃ d, Run keeperSem anyStep (keeperPool twoAdds 1 (newService none))
        (staleReadTrace ++ inOrderTrace) d ∧
      ¬ FlushOvertaken (keeperPool twoAdds 1 (newService none)) d
        (staleReadTrace ++ inOrderTrace) ∧
      d.state.file = some ["attestations", "blocks"] := by
  have hrun : ∃ d, Run keeperSem anyStep (keeperPool twoAdds 1 (newService none))
        (staleReadTrace ++ inOrderTrace) d ∧
      d.progs .main = .ret () ∧ d.progs .persist = .ret () ∧
      d.state.topicsMap = {"attestations", "blocks"} ∧
      d.state.file = some ["attestations", "blocks"] := by
    refine ⟨_, Run.next rfl rfl (Run.next rfl ⟨by decide, rfl⟩ (Run.next rfl ⟨rfl, rfl⟩
      (Run.next rfl ⟨lists_blocks, rfl⟩ (Run.next rfl rfl (Run.next rfl ⟨by decide, rfl⟩
      (Run.next rfl rfl (Run.next rfl rfl (Run.next rfl ⟨lists_both, rfl⟩ (Run.next rfl rfl
      (Run.next rfl ⟨rfl, rfl⟩ (Run.nil _))))))))))), ?_⟩
    exact ⟨rfl, rfl, lists_both.symm, rfl⟩
  obtain ⟨d, hrun, hreturned, hexited, hmap, hfile⟩ := hrun
  have hchanges : StopAfterChanges (staleReadTrace ++ inOrderTrace) :=
    stopAfterChanges_append (by decide) (by simp [inOrderTrace, IsChange])
  have hwritten : WritesSucceed (staleReadTrace ++ inOrderTrace) := by
    intro i topics err
    simp [staleReadTrace, inOrderTrace]
  refine ⟨d, hrun, ?_, hfile⟩
  refine (file_holds_topics_iff twoAdds 1 (newService none) hrun hchanges hwritten hreturned
    hexited).mp ⟨_, hfile, ?_⟩
  rw [hmap]
  exact lists_both

end Runs

end TopicsKeeper
end OptimumGateway
