import OptimumGateway.Foundation.AtomicProgram
import OptimumGateway.Foundation.Bytes
import OptimumGateway.Foundation.GoError
import Mathlib.Tactic.Ring

/-!
# Readers

A program that reads from an `io.Reader` issues the operation `read k`, whose answer is
what one call of `Read` with a buffer of `k` bytes returns.  `delivers` is the reader over
a byte string that hands out one or more bytes a call, in chunks of any sizes, and reports
the end of the string in a call of its own.

`limit n p` is the program `p` with its reader wrapped by `io.LimitReader`.  Seen from `p`,
the wrapped reader is one over the first `n` bytes (`returns_limit`).

`readFull` and `readUvarint` are `io.ReadFull` and `binary.ReadUvarint`.  Both leave behind
exactly what they have not returned.
-/

namespace OptimumGateway
namespace Foundation

open Prog

section Readers

inductive ReadOp where
  | read (k : Nat)
deriving DecidableEq

/-- The bytes that one call of `Read` returns, and its error. -/
structure ReadAnswer where
  data : Bytes
  err : Option GoError
deriving DecidableEq

abbrev ReadOp.Ans (_ : ReadOp) : Type :=
  ReadAnswer

abbrev ReaderProg := Prog ReadOp ReadOp.Ans

def errEOF : GoError :=
  .new "EOF"

def errUnexpectedEOF : GoError :=
  .new "unexpected EOF"

def errNoProgress : GoError :=
  .new "multiple Read calls return no data or error"

/-- A reader over a byte string. -/
def delivers : Sem ReadOp ReadOp.Ans Bytes
  | .read k, s, r, t =>
      (s = [] ∧ r = ⟨[], some errEOF⟩ ∧ t = []) ∨
        (s ≠ [] ∧ r.err = none ∧ s = r.data ++ t ∧ r.data.length ≤ k ∧
          (k ≠ 0 → r.data ≠ []))

theorem delivers_total
    (o : ReadOp)
    (s : Bytes) :
    ∃ r t, delivers o s r t := by
  cases o with
  | read k =>
      by_cases hs : s = []
      · exact ⟨⟨[], some errEOF⟩, [], Or.inl ⟨hs, rfl, rfl⟩⟩
      · refine ⟨⟨s.take k, none⟩, s.drop k, Or.inr ⟨hs, rfl, ?_, ?_, ?_⟩⟩
        · exact (List.take_append_drop k s).symm
        · exact List.length_take_le k s
        · intro hk hnil
          rcases List.take_eq_nil_iff.mp hnil with h | h
          · exact hk h
          · exact hs h

variable {α : Type}

/-- The program with `io.LimitReader(r, n)` in the place of its reader. -/
def limit : Nat → ReaderProg α → ReaderProg α
  | _, ret a => ret a
  | n, call (.read k) f =>
      if n = 0 then
        limit 0 (f ⟨[], some errEOF⟩)
      else
        call (.read (min k n)) fun r => limit (n - r.data.length) (f r)

/-- A limited reader delivers the first bytes of the string. -/
theorem returns_limit
    {p : ReaderProg α} {n : Nat} {s t : Bytes} {a : α}
    (h : Returns delivers (limit n p) s a t) :
    ∃ u, Returns delivers p (s.take n) a u := by
  induction p generalizing n s with
  | ret b =>
      obtain ⟨rfl, -⟩ := returns_pure_iff.mp h
      exact ⟨s.take n, returns_pure_iff.mpr ⟨rfl, rfl⟩⟩
  | call o f ih =>
      obtain ⟨k⟩ := o
      unfold limit at h
      by_cases hn : n = 0
      · rw [if_pos hn] at h
        obtain ⟨u, hrest⟩ := ih _ h
        subst hn
        exact ⟨u, returns_call_iff.mpr ⟨_, _, Or.inl ⟨rfl, rfl, rfl⟩, hrest⟩⟩
      · rw [if_neg hn] at h
        obtain ⟨r, v, hread, hrest⟩ := returns_call_iff.mp h
        obtain ⟨u, hrest⟩ := ih _ hrest
        refine ⟨u, returns_call_iff.mpr ⟨r, _, ?_, hrest⟩⟩
        rcases hread with ⟨rfl, rfl, rfl⟩ | ⟨hs, herr, hsplit, hlength, hsome⟩
        · exact Or.inl ⟨by simp, rfl, by simp⟩
        · refine Or.inr ⟨?_, herr, ?_, by omega, fun hk => hsome (by omega)⟩
          · simp [hs, hn]
          · rw [hsplit, List.take_append, List.take_of_length_le (by omega)]

end Readers

section Reading

/-- `io.ReadFull` with `need` bytes to go; every call of the reader makes progress, so
`fuel` such calls are enough. -/
def readFullLoop : Nat → Nat → Bytes → ReaderProg (Except GoError Bytes)
  | _, 0, acc => pure (.ok acc)
  | 0, _ + 1, _ => pure (.error errNoProgress)
  | fuel + 1, need + 1, acc => do
      let r ← Prog.op (.read (need + 1))
      match r.err with
      | some err =>
          pure (.error (if err = errEOF ∧ acc ≠ [] then errUnexpectedEOF else err))
      | none => readFullLoop fuel (need + 1 - r.data.length) (acc ++ r.data)

def readFull (n : Nat) : ReaderProg (Except GoError Bytes) :=
  readFullLoop n n []

variable {rest t : Bytes} {r : Except GoError Nat}

theorem returns_readFullLoop
    {fuel : Nat} {b acc : Bytes} {r : Except GoError Bytes}
    (hfuel : b.length ≤ fuel)
    (h : Returns delivers (readFullLoop fuel b.length acc) (b ++ rest) r t) :
    r = .ok (acc ++ b) ∧ t = rest := by
  induction fuel generalizing b acc with
  | zero =>
      obtain rfl := List.eq_nil_of_length_eq_zero (Nat.le_zero.mp hfuel)
      obtain ⟨rfl, rfl⟩ := returns_pure_iff.mp h
      simp
  | succ fuel ih =>
      cases b with
      | nil =>
          obtain ⟨rfl, rfl⟩ := returns_pure_iff.mp h
          simp
      | cons x b =>
          obtain ⟨answer, v, hread, hrest⟩ := returns_bind_iff.mp h
          rcases returns_op_iff.mp hread with ⟨hnil, -⟩ | ⟨-, herr, hsplit, hlength, hsome⟩
          · cases hnil
          · rw [herr] at hrest
            -- the answer is a piece of what is still needed
            obtain ⟨b', hb'⟩ : ∃ b', x :: b = answer.data ++ b' := by
              refine ⟨(x :: b).drop answer.data.length, ?_⟩
              have hpiece := congrArg (List.take answer.data.length) hsplit
              rw [List.take_append_of_le_length (by simpa using hlength),
                List.take_left] at hpiece
              nth_rewrite 1 [← hpiece]
              exact (List.take_append_drop _ _).symm
            rw [hb', List.append_assoc] at hsplit
            obtain rfl := List.append_cancel_left hsplit
            have hpos := List.length_pos_of_ne_nil (hsome (by omega))
            have hlengths := congrArg List.length hb'
            rw [List.length_append, List.length_cons] at hlengths
            have hneed : b.length + 1 - answer.data.length = b'.length := by
              omega
            rw [hneed] at hrest
            obtain ⟨hr, ht⟩ := ih (by simp at hfuel; omega) hrest
            rw [hr, hb', List.append_assoc]
            exact ⟨rfl, ht⟩

theorem returns_readFull
    {b : Bytes} {r : Except GoError Bytes}
    (h : Returns delivers (readFull b.length) (b ++ rest) r t) :
    r = .ok b ∧ t = rest := by
  exact returns_readFullLoop (Nat.le_refl _) h

def maxVarintLen64 : Nat := 10

def errOverflow : GoError :=
  .new "binary: varint overflows a 64-bit integer"

/-- The loop of `binary.ReadUvarint` with `left` bytes to try, the byte number `i` next and
the value `x` of the bytes before. -/
def readUvarintLoop
    (readByte : ReaderProg (Except GoError UInt8)) :
    Nat → Nat → Nat → ReaderProg (Except GoError Nat)
  | 0, _, _ => pure (.error errOverflow)
  | left + 1, i, x => do
      let r ← readByte
      match r with
      | .error err =>
          pure (.error (if 0 < i ∧ err = errEOF then errUnexpectedEOF else err))
      | .ok b =>
          if b.toNat < 128 then
            if i = maxVarintLen64 - 1 ∧ b.toNat > 1 then
              pure (.error errOverflow)
            else
              pure (.ok (x + b.toNat * 128 ^ i))
          else
            readUvarintLoop readByte left (i + 1) (x + b.toNat % 128 * 128 ^ i)

def readUvarintFrom
    (readByte : ReaderProg (Except GoError UInt8)) : ReaderProg (Except GoError Nat) :=
  readUvarintLoop readByte maxVarintLen64 0 0

/-- A byte reader takes one byte off the string. -/
def TakesByte (readByte : ReaderProg (Except GoError UInt8)) : Prop :=
  ∀ {x : UInt8} {rest t : Bytes} {r : Except GoError UInt8},
    Returns delivers readByte (x :: rest) r t → r = .ok x ∧ t = rest

variable {readByte : ReaderProg (Except GoError UInt8)}

/-- The last group of a varint. -/
theorem returns_readUvarintLoop_last
    (hbyte : TakesByte readByte)
    {k n left i x : Nat}
    (hn : n < 128)
    (hi : i < maxVarintLen64 - 1)
    (h : Returns delivers (readUvarintLoop readByte (left + 1) i x)
      (uvarintGroups (k + 1) n ++ rest) r t) :
    r = .ok (x + n * 128 ^ i) ∧ t = rest := by
  rw [uvarintGroups, if_pos hn] at h
  obtain ⟨b, v, hread, hrest⟩ := returns_bind_iff.mp h
  obtain ⟨rfl, rfl⟩ := hbyte hread
  have hvalue : (UInt8.ofNat n).toNat = n := by
    rw [UInt8.toNat_ofNat']
    omega
  simp only [hvalue, if_pos hn] at hrest
  rw [if_neg (by omega)] at hrest
  exact returns_pure_iff.mp hrest

theorem returns_readUvarintLoop
    (hbyte : TakesByte readByte)
    {k n left i x : Nat}
    (hn : n < 128 ^ (k + 1))
    (hleft : k < left)
    (hi : i + k < maxVarintLen64 - 1)
    (h : Returns delivers (readUvarintLoop readByte left i x)
      (uvarintGroups (k + 1) n ++ rest) r t) :
    r = .ok (x + n * 128 ^ i) ∧ t = rest := by
  induction k generalizing n left i x with
  | zero =>
      obtain ⟨left, rfl⟩ := Nat.exists_eq_succ_of_ne_zero (show left ≠ 0 by omega)
      exact returns_readUvarintLoop_last hbyte (by simpa using hn) (by omega) h
  | succ k ih =>
      obtain ⟨left, rfl⟩ := Nat.exists_eq_succ_of_ne_zero (show left ≠ 0 by omega)
      by_cases hsmall : n < 128
      · exact returns_readUvarintLoop_last hbyte hsmall (by omega) h
      · rw [uvarintGroups, if_neg hsmall] at h
        obtain ⟨b, v, hread, hrest⟩ := returns_bind_iff.mp h
        obtain ⟨rfl, rfl⟩ := hbyte hread
        have hvalue : (UInt8.ofNat (n % 128 + 128)).toNat = n % 128 + 128 := by
          rw [UInt8.toNat_ofNat']
          omega
        have hlow : (n % 128 + 128) % 128 = n % 128 := by
          omega
        simp only [hvalue, hlow] at hrest
        rw [if_neg (by omega)] at hrest
        have hdiv : n / 128 < 128 ^ (k + 1) := by
          rw [Nat.pow_succ] at hn
          omega
        obtain ⟨hr, ht⟩ := ih hdiv (by omega) (by omega) hrest
        have hsplit := Nat.div_add_mod n 128
        have hsum : x + n % 128 * 128 ^ i + n / 128 * 128 ^ (i + 1) = x + n * 128 ^ i := by
          calc
            x + n % 128 * 128 ^ i + n / 128 * 128 ^ (i + 1)
                = x + (128 * (n / 128) + n % 128) * 128 ^ i := by ring
            _ = x + n * 128 ^ i := by rw [hsplit]
        rw [hr, hsum]
        exact ⟨rfl, ht⟩

theorem returns_readUvarintFrom
    (hbyte : TakesByte readByte)
    {n : Nat}
    (hn : n < 2 ^ 63)
    (h : Returns delivers (readUvarintFrom readByte) (putUvarint n ++ rest) r t) :
    r = .ok n ∧ t = rest := by
  have hlog : n.log2 < 63 := by
    by_cases hzero : n = 0
    · subst hzero
      decide
    · exact (Nat.log2_lt hzero).mpr hn
  have hresult := returns_readUvarintLoop hbyte (lt_pow_groups n)
    (by unfold maxVarintLen64; omega) (by unfold maxVarintLen64; omega) h
  simpa using hresult

end Reading

end Foundation
end OptimumGateway
