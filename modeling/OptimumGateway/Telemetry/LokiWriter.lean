import OptimumGateway.Foundation.AtomicProgram
import OptimumGateway.Foundation.GoError
import OptimumGateway.Foundation.Slices

/-!
# The buffer of the Loki writer

This module models `pkg/service/telemetry/loki_writer.go`: `Write`, the loop `run`, `flush`
and `flushChunk`.

The buffer is used by the loop only, so it is an argument of the loop's program.  A run of
the loop is bounded by a number of rounds and returns the buffer after them, which is the
state of the loop between two rounds.  Abstractly every line that the loop has taken from
the channel has a fate: it was accepted, refused, evicted, or is still in the buffer.  The
lines leave the buffer from the front and in the order in which they were taken, so the
buffer is always the last part of what was taken (`Account`).  A round keeps the account
(`account_line`, `account_flush`), and a run composes the accounts of its rounds
(`account_run`).
-/

namespace OptimumGateway
namespace Telemetry

open Foundation Foundation.Prog

section Model

def lokiChannelSize : Nat := 1000

def lokiChunkSize : Nat := 1000

def lokiMaxBufferedLines : Nat := 5000

structure LokiLine where
  ts : Int64
  line : String
deriving DecidableEq

/-- The case that the loop's `select` takes. -/
inductive LoopCase where
  | done
  | line (l : LokiLine)
  | tick
deriving DecidableEq

/-- How the exchange of one chunk ended: there was no token for the headers, the body or the
request failed, or there was a response. -/
inductive PushResult where
  | noHeaders (err : GoError)
  | notMarshalled (err : GoError)
  | notSent (err : GoError)
  | response (statusCode : Nat) (body : String)
deriving DecidableEq

/-- `lokiStatusError`, or another error. -/
inductive LokiError where
  | status (statusCode : Nat) (body : String)
  | other (err : GoError)
deriving DecidableEq

inductive LokiOp where
  | unixNano
  | send (entry : LokiLine)
  | cancel
  | select
  | push (data : List LokiLine)
  | closeDone
deriving DecidableEq

/-- `send` is answered by whether there was room. -/
abbrev LokiOp.Ans : LokiOp → Type
  | .unixNano => Int64
  | .send _ => Bool
  | .cancel => Unit
  | .select => LoopCase
  | .push _ => PushResult
  | .closeDone => Unit

abbrev LokiProg := Prog LokiOp LokiOp.Ans

abbrev LokiCall := Call LokiOp LokiOp.Ans

abbrev loki (op : LokiOp) : LokiProg op.Ans := Prog.op op

/-- `Write` returns the number of bytes in any case. -/
def write (p : String) : LokiProg Nat :=
  let line := String.ofList (p.toList.rdropWhile (· = '\n'))
  if line = "" then
    pure p.utf8ByteSize
  else do
    let ts ← loki .unixNano
    let _ ← loki (.send { ts := ts, line := line })
    pure p.utf8ByteSize

def LokiError.toGoError : LokiError → GoError
  | .status statusCode body =>
      if body ≠ "" then
        .errorf "unexpected status: %d: %s" [toString statusCode, body]
      else
        .errorf "unexpected status: %d" [toString statusCode]
  | .other err => err

def isRetryableLokiError : LokiError → Bool
  | .status statusCode _ => statusCode = 429 || statusCode / 100 = 5
  | .other _ => true

def pushError : PushResult → Option LokiError
  | .noHeaders err => some (.other err)
  | .notMarshalled err => some (.other (.wrapf "marshal: %w" [] err))
  | .notSent err => some (.other (.wrapf "push: %w" [] err))
  | .response statusCode body =>
      if statusCode / 100 ≠ 2 then some (.status statusCode body) else none

def flushChunk (data : List LokiLine) : LokiProg (Option LokiError) := do
  let result ← loki (.push data)
  pure (pushError result)

variable (lib : SliceLibrary LokiLine)

/-- The loop over the chunks, from number `i` on.  It returns the new buffer: empty after
the last chunk, and the chunks from the failing one on after a retryable error. -/
def flushChunks (count : Nat) :
    Nat → List (List LokiLine) → Option GoError → LokiProg (List LokiLine × Option GoError)
  | _, [], nonRetryableErr => pure ([], nonRetryableErr)
  | i, chunk :: chunks, nonRetryableErr =>
      if chunk.length = 0 then
        flushChunks count (i + 1) chunks nonRetryableErr
      else do
        let result ← flushChunk chunk
        match result with
        | none => flushChunks count (i + 1) chunks nonRetryableErr
        | some err =>
            let wrapped : GoError := .wrapf "flush chunk %d/%d: %w"
              [toString (i + 1), toString count] err.toGoError
            if isRetryableLokiError err = true then
              pure (lib.concatKeepLast (chunk :: chunks) lokiMaxBufferedLines, some wrapped)
            else
              flushChunks count (i + 1) chunks (some wrapped)

def flush (data : List LokiLine) : LokiProg (List LokiLine × Option GoError) :=
  if data.length = 0 then
    pure (data, none)
  else
    let chunks := lib.chunkSlice data lokiChunkSize
    flushChunks lib chunks.length 0 chunks none

/-- One round of the loop: the buffer, and whether there is another round. -/
def loopRound (data : List LokiLine) : LokiProg (List LokiLine × Bool) := do
  let chosen ← loki .select
  match chosen with
  | .done => do
      let flushed ← flush lib data
      pure (flushed.1, false)
  | .line l => pure (lib.appendBounded data l lokiMaxBufferedLines, true)
  | .tick => do
      let flushed ← flush lib data
      pure (flushed.1, true)

/-- The loop for a number of rounds.  The errors of the flushes are only logged. -/
def run : Nat → List LokiLine → LokiProg (List LokiLine)
  | 0, data => pure data
  | rounds + 1, data => do
      let next ← loopRound lib data
      if next.2 then
        run rounds next.1
      else do
        let _ ← loki .closeDone
        pure next.1

end Model

section Accounts

/-- How a line left the buffer. -/
inductive Fate where
  | accepted
  | refused
  | evicted
deriving DecidableEq

/-- The fate of a chunk, which stays in the buffer after a retryable error. -/
def pushFate (result : PushResult) : Option Fate :=
  match pushError result with
  | none => some .accepted
  | some err => if isRetryableLokiError err = true then none else some .refused

/-- The line that a call takes from the channel. -/
def takenBy : LokiCall → List LokiLine
  | ⟨.select, .line l⟩ => [l]
  | _ => []

def pushedBy : LokiCall → List LokiLine
  | ⟨.push data, _⟩ => data
  | _ => []

def pushedTo (fate : Fate) : LokiCall → List LokiLine
  | ⟨.push data, result⟩ => if pushFate result = some fate then data else []
  | _ => []

def linesTaken (calls : List LokiCall) : List LokiLine :=
  calls.flatMap takenBy

/-- The lines of the chunks of one fate, over all flushes. -/
def linesPushed (fate : Fate) (calls : List LokiCall) : List LokiLine :=
  calls.flatMap (pushedTo fate)

/-- The lines of one fate among those that left the buffer. -/
def linesWith (fate : Fate) (settled : List (LokiLine × Fate)) : List LokiLine :=
  (settled.filter fun entry => entry.2 = fate).map Prod.fst

/-- The calls take the buffer `data` to the buffer `data'`: the lines of `data` and those
taken are those that left, in order, and then `data'`. -/
structure Account (data : List LokiLine) (calls : List LokiCall)
    (settled : List (LokiLine × Fate)) (data' : List LokiLine) : Prop where
  taken : data ++ linesTaken calls = settled.map Prod.fst ++ data'
  accepted : linesPushed .accepted calls = linesWith .accepted settled
  refused : linesPushed .refused calls = linesWith .refused settled

theorem linesTaken_append
    (calls calls' : List LokiCall) :
    linesTaken (calls ++ calls') = linesTaken calls ++ linesTaken calls' := by
  exact List.flatMap_append

theorem linesPushed_append
    (fate : Fate)
    (calls calls' : List LokiCall) :
    linesPushed fate (calls ++ calls') = linesPushed fate calls ++ linesPushed fate calls' := by
  exact List.flatMap_append

theorem linesWith_append
    (fate : Fate)
    (settled settled' : List (LokiLine × Fate)) :
    linesWith fate (settled ++ settled') = linesWith fate settled ++ linesWith fate settled' := by
  simp [linesWith]

theorem linesWith_map
    (fate other : Fate)
    (lines : List LokiLine) :
    linesWith fate (lines.map fun l => (l, other)) = if other = fate then lines else [] := by
  induction lines with
  | nil => simp [linesWith]
  | cons l lines ih =>
      rw [List.map_cons, ← List.singleton_append, linesWith_append, ih]
      by_cases h : other = fate <;> simp [linesWith, h]

theorem linesWith_sublist
    (fate : Fate)
    (settled : List (LokiLine × Fate)) :
    (linesWith fate settled).Sublist (settled.map Prod.fst) := by
  exact List.filter_sublist.map Prod.fst

theorem Account.nil
    (data : List LokiLine) :
    Account data [] [] data := by
  exact ⟨List.append_nil data, rfl, rfl⟩

theorem Account.append
    {data data₁ data₂ : List LokiLine} {calls calls' : List LokiCall}
    {settled settled' : List (LokiLine × Fate)}
    (h : Account data calls settled data₁)
    (h' : Account data₁ calls' settled' data₂) :
    Account data (calls ++ calls') (settled ++ settled') data₂ := by
  refine ⟨?_, ?_, ?_⟩
  · rw [linesTaken_append, ← List.append_assoc, h.taken, List.append_assoc, h'.taken,
      List.map_append, List.append_assoc]
  · rw [linesPushed_append, h.accepted, h'.accepted, linesWith_append]
  · rw [linesPushed_append, h.refused, h'.refused, linesWith_append]

theorem account_push
    {chunk rest : List LokiLine} {result : PushResult} {fate : Fate}
    (hfate : pushFate result = some fate) :
    Account (chunk ++ rest) [⟨.push chunk, result⟩] (chunk.map fun l => (l, fate)) rest := by
  have hpushed : ∀ other, linesPushed other [⟨.push chunk, result⟩] =
      linesWith other (chunk.map fun l => (l, fate)) := by
    intro other
    rw [linesWith_map]
    simp [linesPushed, pushedTo, hfate]
  refine ⟨?_, hpushed _, hpushed _⟩
  simp [linesTaken, takenBy, Function.comp_def]

/-- A chunk that is kept for a retry. -/
theorem account_retry
    {chunk data : List LokiLine} {result : PushResult}
    (hfate : pushFate result = none) :
    Account data [⟨.push chunk, result⟩] [] data := by
  refine ⟨?_, ?_, ?_⟩
  · simp [linesTaken, takenBy]
  · simp [linesPushed, pushedTo, linesWith, hfate]
  · simp [linesPushed, pushedTo, linesWith, hfate]

end Accounts

section Flush

variable {lib : SliceLibrary LokiLine} {chunk data data' : List LokiLine} {calls : List LokiCall}
variable {result : PushResult}

/-- What a flush does.  The chunks are pushed in order, until one fails and is to be
retried. -/
structure Flushed (data : List LokiLine) (calls : List LokiCall) (data' : List LokiLine) :
    Prop where
  account : ∃ settled : List (LokiLine × Fate), Account data calls settled data' ∧
    ∀ entry ∈ settled, entry.2 ≠ .evicted
  retained : ∀ posts chunk result, calls = posts ++ [⟨.push chunk, result⟩] →
    pushFate result = none →
      chunk <+: data' ∧ data = posts.flatMap pushedBy ++ data'
  emptied : (∀ chunk result, ⟨.push chunk, result⟩ ∈ calls → pushFate result ≠ none) →
    data' = []

theorem flushed_nil : Flushed [] [] [] where
  account := ⟨[], Account.nil [], nofun⟩
  retained := by
    intro posts chunk result hcalls
    simp at hcalls
  emptied _ := rfl

theorem pushFate_ne_evicted
    {fate : Fate}
    (hfate : pushFate result = some fate) :
    fate ≠ .evicted := by
  unfold pushFate at hfate
  split at hfate
  · cases hfate
    nofun
  · split at hfate
    · cases hfate
    · cases hfate
      nofun

/-- A chunk left the buffer, and the flush goes on. -/
theorem Flushed.cons
    {fate : Fate}
    (hfate : pushFate result = some fate)
    (h : Flushed data calls data') :
    Flushed (chunk ++ data) (⟨.push chunk, result⟩ :: calls) data' := by
  refine ⟨?_, ?_, ?_⟩
  · obtain ⟨settled, haccount, hkept⟩ := h.account
    refine ⟨_, (account_push hfate).append haccount, ?_⟩
    intro entry hentry
    rcases List.mem_append.mp hentry with hchunk | hrest
    · obtain ⟨l, -, rfl⟩ := List.mem_map.mp hchunk
      exact pushFate_ne_evicted hfate
    · exact hkept entry hrest
  · intro posts failed failure hcalls hfailure
    cases posts with
    | nil =>
        obtain ⟨hcall, -⟩ := List.cons.inj hcalls
        cases hcall
        rw [hfate] at hfailure
        cases hfailure
    | cons post posts =>
        obtain ⟨rfl, hrest⟩ := List.cons.inj hcalls
        obtain ⟨hfirst, hdata⟩ := h.retained posts failed failure hrest hfailure
        refine ⟨hfirst, ?_⟩
        rw [hdata, List.flatMap_cons, List.append_assoc]
        rfl
  · intro hall
    exact h.emptied fun other failure hmem => hall other failure (List.mem_cons_of_mem _ hmem)

/-- A chunk is to be retried, and the flush ends. -/
theorem flushed_retry
    {rest : List LokiLine}
    (hfate : pushFate result = none) :
    Flushed (chunk ++ rest) [⟨.push chunk, result⟩] (chunk ++ rest) := by
  refine ⟨⟨[], account_retry hfate, nofun⟩, ?_, ?_⟩
  · intro posts failed failure hcalls _
    have hposts : posts = [] := by
      have hlength := congrArg List.length hcalls
      rw [List.length_append, List.length_singleton, List.length_singleton] at hlength
      exact List.length_eq_zero_iff.mp (by omega)
    subst hposts
    obtain ⟨hcall, -⟩ := List.cons.inj hcalls
    cases hcall
    exact ⟨List.prefix_append .., rfl⟩
  · intro hall
    exact absurd hfate (hall chunk result (List.mem_singleton_self _))

theorem path_flushChunk
    {err : Option LokiError}
    (hpath : Path (flushChunk chunk) calls (.ret err)) :
    ∃ result, calls = [⟨.push chunk, result⟩] ∧ err = pushError result := by
  obtain ⟨result, l, rfl, hrest⟩ := path_call_ret_iff.mp hpath
  obtain ⟨rfl, hret⟩ := path_ret_iff.mp hrest
  cases hret
  exact ⟨result, rfl, rfl⟩

theorem flushed_flushChunks
    (hlib : lib.Lawful)
    {count i : Nat} {chunks : List (List LokiLine)} {nonRetryableErr err : Option GoError}
    (hbound : chunks.flatten.length ≤ lokiMaxBufferedLines)
    (hpath : Path (flushChunks lib count i chunks nonRetryableErr) calls (.ret (data', err))) :
    Flushed chunks.flatten calls data' := by
  induction chunks generalizing i nonRetryableErr calls with
  | nil =>
      obtain ⟨rfl, hret⟩ := path_ret_iff.mp hpath
      cases hret
      exact flushed_nil
  | cons chunk chunks ih =>
      have hrest : chunks.flatten.length ≤ lokiMaxBufferedLines := by
        rw [List.flatten_cons, List.length_append] at hbound
        omega
      rw [flushChunks] at hpath
      split at hpath
      · rename_i hempty
        rw [List.length_eq_zero_iff.mp hempty]
        exact ih hrest hpath
      · obtain ⟨pushed, l₁, l₂, rfl, hchunk, hpath⟩ := path_bind_ret hpath
        obtain ⟨result, rfl, rfl⟩ := path_flushChunk hchunk
        cases herr : pushError result with
        | none =>
            rw [herr] at hpath
            have hfate : pushFate result = some .accepted := by
              rw [pushFate, herr]
            exact (ih hrest hpath).cons hfate
        | some failure =>
            rw [herr] at hpath
            dsimp only at hpath
            split at hpath
            · rename_i hretry
              have hfate : pushFate result = none := by
                rw [pushFate, herr]
                exact if_pos hretry
              obtain ⟨rfl, hret⟩ := path_ret_iff.mp hpath
              cases hret
              rw [hlib.concatKeepLast_eq, keepLast_of_length_le hbound]
              exact flushed_retry hfate
            · rename_i hretry
              have hfate : pushFate result = some .refused := by
                rw [pushFate, herr]
                exact if_neg hretry
              exact (ih hrest hpath).cons hfate

theorem flushed_flush
    (hlib : lib.Lawful)
    {err : Option GoError}
    (hbound : data.length ≤ lokiMaxBufferedLines)
    (hpath : Path (flush lib data) calls (.ret (data', err))) :
    Flushed data calls data' := by
  unfold flush at hpath
  split at hpath
  · rename_i hempty
    obtain ⟨rfl, hret⟩ := path_ret_iff.mp hpath
    cases hret
    rw [List.length_eq_zero_iff.mp hempty]
    exact flushed_nil
  · have hflat := (hlib.chunkSlice_isChunking data lokiChunkSize (by decide)).flatten_eq
    have hflushed := flushed_flushChunks hlib (by rwa [hflat]) hpath
    rwa [hflat] at hflushed

theorem forall_flushChunks
    {count i : Nat} {chunks : List (List LokiLine)} {nonRetryableErr : Option GoError} :
    (flushChunks lib count i chunks nonRetryableErr).Forall
      fun op => ∃ chunk, op = .push chunk := by
  induction chunks generalizing i nonRetryableErr with
  | nil => trivial
  | cons chunk chunks ih =>
      rw [flushChunks]
      split
      · exact ih
      · refine Forall.bind ⟨⟨chunk, rfl⟩, fun _ => trivial⟩ ?_
        intro result
        cases result with
        | none => exact ih
        | some err =>
            dsimp only
            split
            · trivial
            · exact ih

theorem forall_flush
    (data : List LokiLine) :
    (flush lib data).Forall fun op => ∃ chunk, op = .push chunk := by
  unfold flush
  split
  · trivial
  · exact forall_flushChunks

theorem linesTaken_flush
    {q : LokiProg (List LokiLine × Option GoError)}
    (hpath : Path (flush lib data) calls q) :
    linesTaken calls = [] := by
  refine List.flatMap_eq_nil_iff.mpr ?_
  rintro ⟨op, result⟩ hcall
  obtain ⟨chunk, rfl⟩ := hpath.forall_mem (forall_flush data) _ hcall
  rfl

end Flush

section Loop

variable {lib : SliceLibrary LokiLine} {data data' : List LokiLine} {calls : List LokiCall}
variable {rounds : Nat} {again : Bool}

theorem path_flush_then
    {goesOn : Bool}
    (hpath : Path (flush lib data >>= fun flushed => pure (flushed.1, goesOn)) calls
      (.ret (data', again))) :
    again = goesOn ∧ ∃ err, Path (flush lib data) calls (.ret (data', err)) := by
  obtain ⟨flushed, l₁, l₂, rfl, hflush, hret⟩ := path_bind_ret hpath
  obtain ⟨rfl, hret⟩ := path_ret_iff.mp hret
  cases hret
  rw [List.append_nil]
  exact ⟨rfl, flushed.2, hflush⟩

/-- The cases of a round: a line is taken, or the buffer is flushed. -/
theorem path_loopRound
    (hpath : Path (loopRound lib data) calls (.ret (data', again))) :
    (∃ l, calls = [⟨.select, .line l⟩] ∧ again = true ∧
      data' = lib.appendBounded data l lokiMaxBufferedLines) ∨
    ∃ chosen flushes err, calls = ⟨.select, chosen⟩ :: flushes ∧
      Path (flush lib data) flushes (.ret (data', err)) ∧
      (chosen = .done ∧ again = false ∨ chosen = .tick ∧ again = true) := by
  obtain ⟨chosen, l, rfl, hrest⟩ := path_call_ret_iff.mp hpath
  cases chosen with
  | line l =>
      obtain ⟨rfl, hret⟩ := path_ret_iff.mp hrest
      cases hret
      exact Or.inl ⟨l, rfl, rfl, rfl⟩
  | done =>
      obtain ⟨rfl, err, hflush⟩ := path_flush_then hrest
      exact Or.inr ⟨.done, l, err, rfl, hflush, Or.inl ⟨rfl, rfl⟩⟩
  | tick =>
      obtain ⟨rfl, err, hflush⟩ := path_flush_then hrest
      exact Or.inr ⟨.tick, l, err, rfl, hflush, Or.inr ⟨rfl, rfl⟩⟩

/-- A round, and the rest of the loop. -/
theorem path_run_succ
    (hpath : Path (run lib (rounds + 1) data) calls (.ret data')) :
    ∃ next again first rest, calls = first ++ rest ∧
      Path (loopRound lib data) first (.ret (next, again)) ∧
      (again = true ∧ Path (run lib rounds next) rest (.ret data') ∨
        again = false ∧ rest = [⟨.closeDone, ()⟩] ∧ data' = next) := by
  obtain ⟨⟨next, again⟩, first, rest, rfl, hround, hrest⟩ := path_bind_ret hpath
  refine ⟨next, again, first, rest, rfl, hround, ?_⟩
  cases again with
  | true => exact Or.inl ⟨rfl, hrest⟩
  | false =>
      obtain ⟨_, l, rfl, hret⟩ := path_call_ret_iff.mp hrest
      obtain ⟨rfl, hret⟩ := path_ret_iff.mp hret
      cases hret
      exact Or.inr ⟨rfl, rfl, rfl⟩

/-- The line at position `i` of those taken was evicted: after some rounds it was the oldest
of a full buffer, and the loop took another line. -/
def EvictedOldest (lib : SliceLibrary LokiLine) (rounds : Nat) (data : List LokiLine)
    (calls : List LokiCall) (i : Nat) (x : LokiLine) : Prop :=
  ∃ done before l after rest, done < rounds ∧
    calls = before ++ ⟨.select, .line l⟩ :: after ∧
    Path (run lib done data) before (.ret (x :: rest)) ∧
    (x :: rest).length = lokiMaxBufferedLines ∧
    (data ++ linesTaken before).length = i + lokiMaxBufferedLines

/-- What a run of the loop does to the buffer. -/
structure LoopAccount (lib : SliceLibrary LokiLine) (rounds : Nat) (data : List LokiLine)
    (calls : List LokiCall) (settled : List (LokiLine × Fate)) (data' : List LokiLine) :
    Prop where
  account : Account data calls settled data'
  evicted : ∀ i x, settled[i]? = some (x, .evicted) →
    EvictedOldest lib rounds data calls i x
  bounded : data'.length ≤ lokiMaxBufferedLines

theorem account_line
    (hlib : lib.Lawful)
    (hbound : data.length ≤ lokiMaxBufferedLines)
    (l : LokiLine) :
    ∃ settled, LoopAccount lib 1 data [⟨.select, .line l⟩] settled
      (lib.appendBounded data l lokiMaxBufferedLines) := by
  rw [hlib.appendBounded_eq]
  by_cases hfull : data.length = lokiMaxBufferedLines
  · cases data with
    | nil => cases hfull
    | cons x rest =>
        rw [keepLast_concat_of_full hfull]
        refine ⟨[(x, .evicted)], ⟨rfl, rfl, rfl⟩, ?_, ?_⟩
        · intro i y hy
          obtain ⟨hi, hentry⟩ := List.getElem?_eq_some_iff.mp hy
          have hzero : i = 0 := by
            rw [List.length_singleton] at hi
            omega
          subst hzero
          cases hentry
          refine ⟨0, [], l, [], rest, Nat.zero_lt_one, rfl, Path.nil _, hfull, ?_⟩
          rw [Nat.zero_add, ← hfull]
          simp [linesTaken]
        · rw [← hfull]
          simp
  · have hroom : (data ++ [l]).length ≤ lokiMaxBufferedLines := by
      rw [List.length_append, List.length_singleton]
      omega
    rw [keepLast_of_length_le hroom]
    exact ⟨[], ⟨rfl, rfl, rfl⟩, nofun, hroom⟩

/-- A flush evicts nothing and takes no line. -/
theorem account_flush
    (hlib : lib.Lawful)
    {flushes : List LokiCall} {err : Option GoError}
    (hbound : data.length ≤ lokiMaxBufferedLines)
    {chosen : LoopCase}
    (hchosen : takenBy ⟨.select, chosen⟩ = [])
    (hflush : Path (flush lib data) flushes (.ret (data', err))) :
    ∃ settled, LoopAccount lib 1 data (⟨.select, chosen⟩ :: flushes) settled data' := by
  obtain ⟨settled, haccount, hkept⟩ := (flushed_flush hlib hbound hflush).account
  have hlength : data'.length ≤ data.length := by
    have htaken := congrArg List.length haccount.taken
    rw [linesTaken_flush hflush, List.append_nil, List.length_append] at htaken
    omega
  have hselect : Account data [⟨.select, chosen⟩] [] data := by
    refine ⟨?_, rfl, rfl⟩
    simp [linesTaken, hchosen]
  refine ⟨settled, hselect.append haccount, ?_, Nat.le_trans hlength hbound⟩
  intro i x hx
  exact absurd rfl (hkept _ (List.mem_of_getElem? hx))

theorem account_loopRound
    (hlib : lib.Lawful)
    (hbound : data.length ≤ lokiMaxBufferedLines)
    (hpath : Path (loopRound lib data) calls (.ret (data', again))) :
    ∃ settled, LoopAccount lib 1 data calls settled data' := by
  rcases path_loopRound hpath with
    ⟨l, rfl, rfl, rfl⟩ | ⟨chosen, flushes, err, rfl, hflush, hchosen⟩
  · exact account_line hlib hbound l
  · refine account_flush hlib hbound ?_ hflush
    rcases hchosen with ⟨rfl, -⟩ | ⟨rfl, -⟩
    · rfl
    · rfl

theorem LoopAccount.length_settled
    {settled : List (LokiLine × Fate)}
    (h : LoopAccount lib rounds data calls settled data') :
    (data ++ linesTaken calls).length = settled.length + data'.length := by
  rw [h.account.taken, List.length_append, List.length_map]

/-- An eviction in a later part of the run. -/
theorem EvictedOldest.later
    {next : List LokiLine} {first rest : List LokiCall}
    {settled : List (LokiLine × Fate)} {i : Nat} {x : LokiLine}
    (hround : Path (loopRound lib data) first (.ret (next, true)))
    (hfirst : LoopAccount lib 1 data first settled next)
    (h : EvictedOldest lib rounds next rest i x) :
    EvictedOldest lib (rounds + 1) data (first ++ rest) (settled.length + i) x := by
  obtain ⟨done, before, l, after, tail, hdone, rfl, hpath, hfull, hpos⟩ := h
  refine ⟨done + 1, first ++ before, l, after, tail, Nat.succ_lt_succ hdone, ?_, ?_, hfull, ?_⟩
  · rw [List.append_assoc]
  · exact hround.bind hpath
  · have hlength := hfirst.length_settled
    rw [List.length_append] at hpos hlength
    rw [linesTaken_append, List.length_append, List.length_append]
    omega

theorem EvictedOldest.first_round
    {first : List LokiCall}
    {i : Nat} {x : LokiLine}
    (rest : List LokiCall)
    (h : EvictedOldest lib 1 data first i x) :
    EvictedOldest lib (rounds + 1) data (first ++ rest) i x := by
  obtain ⟨done, before, l, after, tail, hdone, rfl, hpath, hfull, hpos⟩ := h
  refine ⟨done, before, l, after ++ rest, tail, by omega, ?_, hpath, hfull, hpos⟩
  rw [List.append_assoc, List.cons_append]

/-- A run keeps the account, by its rounds. -/
theorem account_run
    (hlib : lib.Lawful)
    (hbound : data.length ≤ lokiMaxBufferedLines)
    (hpath : Path (run lib rounds data) calls (.ret data')) :
    ∃ settled, LoopAccount lib rounds data calls settled data' := by
  induction rounds generalizing data calls with
  | zero =>
      obtain ⟨rfl, hret⟩ := path_ret_iff.mp hpath
      cases hret
      exact ⟨[], Account.nil _, nofun, hbound⟩
  | succ rounds ih =>
      obtain ⟨next, again, first, rest, rfl, hround, hrest⟩ := path_run_succ hpath
      obtain ⟨settled, hfirst⟩ := account_loopRound hlib hbound hround
      rcases hrest with ⟨rfl, hrest⟩ | ⟨rfl, rfl, rfl⟩
      · obtain ⟨settled', hlater⟩ := ih hfirst.bounded hrest
        refine ⟨settled ++ settled', hfirst.account.append hlater.account, ?_, hlater.bounded⟩
        intro i x hx
        by_cases hi : i < settled.length
        · rw [List.getElem?_append_left hi] at hx
          exact (hfirst.evicted i x hx).first_round rest
        · have hle := Nat.le_of_not_lt hi
          rw [List.getElem?_append_right hle] at hx
          have hevicted := (hlater.evicted _ x hx).later hround hfirst
          rwa [Nat.add_sub_cancel' hle] at hevicted
      · refine ⟨settled, ?_, ?_, hfirst.bounded⟩
        · have hclose : Account data' [⟨.closeDone, ()⟩] [] data' := by
            exact ⟨by simp [linesTaken, takenBy], rfl, rfl⟩
          have haccount := hfirst.account.append hclose
          rwa [List.append_nil] at haccount
        · intro i x hx
          exact (hfirst.evicted i x hx).first_round _

/-- The lines that the loop has taken have left the buffer in order, accepted, refused or
evicted as the oldest of a full one, and the rest is the buffer.  The accepted ones are a
subsequence of those taken, and after a retryable failure the buffer is what it was from the
failing chunk on. -/
theorem loses_only_as_declared
    (hlib : lib.Lawful)
    {rounds : Nat} {data : List LokiLine} {calls : List LokiCall}
    (hpath : Path (run lib rounds []) calls (.ret data)) :
    (∃ settled : List (LokiLine × Fate),
      linesTaken calls = settled.map Prod.fst ++ data ∧
      linesPushed .accepted calls = linesWith .accepted settled ∧
      linesPushed .refused calls = linesWith .refused settled ∧
      ∀ i x, settled[i]? = some (x, .evicted) → EvictedOldest lib rounds [] calls i x) ∧
    (linesPushed .accepted calls).Sublist (linesTaken calls) ∧
    data.length ≤ lokiMaxBufferedLines ∧
    ∀ posts chunk result data' err,
      Path (flush lib data) (posts ++ [⟨.push chunk, result⟩]) (.ret (data', err)) →
      pushFate result = none →
        chunk <+: data' ∧ data = posts.flatMap pushedBy ++ data' := by
  obtain ⟨settled, haccount⟩ := account_run hlib (Nat.zero_le _) hpath
  have htaken : linesTaken calls = settled.map Prod.fst ++ data := haccount.account.taken
  refine ⟨⟨settled, htaken, haccount.account.accepted, haccount.account.refused,
    haccount.evicted⟩, ?_, haccount.bounded, ?_⟩
  · rw [haccount.account.accepted, htaken]
    exact (linesWith_sublist _ _).trans (List.sublist_append_left ..)
  · intro posts chunk result data' err hflush hfate
    exact (flushed_flush hlib haccount.bounded hflush).retained posts chunk result rfl hfate

/-- A line is taken, kept after an unavailable server, and accepted by the next flush. -/
theorem loses_only_as_declared_retried :
    ∃ (l : LokiLine) (calls : List LokiCall),
      Path (run plainSlices 3 []) calls (.ret []) ∧
      ⟨.push [l], .response 503 ""⟩ ∈ calls ∧
      linesPushed .accepted calls = [l] ∧
      (linesPushed .accepted calls).Sublist (linesTaken calls) := by
  have hpath : Path (run plainSlices 3 [])
      [⟨.select, .line ⟨7, "line"⟩⟩, ⟨.select, .tick⟩, ⟨.push [⟨7, "line"⟩], .response 503 ""⟩,
        ⟨.select, .tick⟩, ⟨.push [⟨7, "line"⟩], .response 204 ""⟩] (.ret []) := by
    exact .cons (.cons (.cons (.cons (.cons (.nil _)))))
  refine ⟨⟨7, "line"⟩, _, hpath, by simp, ?_, (loses_only_as_declared plainSlices_lawful hpath).2.1⟩
  decide +kernel

end Loop

end Telemetry
end OptimumGateway
