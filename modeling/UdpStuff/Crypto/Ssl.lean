/-
# Crypto.Ssl — whole buffers over a stream that moves them in pieces

`SSLReadAllData` and `SSLWriteAllData` of `ssl.cc` call `SSL_read` and `SSL_write`
until the buffer is through.  What the calls return is a list given from outside:
a positive return moves that many bytes, cut to what the call asked for and, for a
read, to what the peer has sent; zero and below raise.  Where the list ends, or
nothing is left to read, the caller is still waiting.

A read over a connection that keeps answering takes exactly its bytes and leaves
the rest (`sslReadAllData_all`), or waits with everything that was there
(`sslReadAllData_short`).
-/
import Mathlib.Data.BitVec

namespace UdpStuff.Crypto

set_option autoImplicit false

/-- The exceptions of the connection code, with the text they carry. -/
inductive Failure where
  | sslError (descr : String)
  | protocolError (descr : String)
  | runtimeError (descr : String)
deriving DecidableEq

/-- The `size_t` length of a request as the `int` parameter it is passed for. -/
def asInt (n : Nat) : Int := (BitVec.ofNat 32 n).toInt

/-- The receiving end: the bytes sent and not yet read, and what the coming calls
of `SSL_read` return. -/
structure ReadEnd where
  stream : List UInt8
  returns : List Int
deriving DecidableEq

/-- The sending end: the bytes sent so far, and what the coming calls of
`SSL_write` return. -/
structure WriteEnd where
  sent : List UInt8
  returns : List Int
deriving DecidableEq

/-- How a read ends: with the buffer filled, still waiting with the bytes it has and
those it has not read, or with an exception. -/
inductive ReadOutcome where
  | returned (buf : List UInt8) (rest : ReadEnd)
  | waiting (buf unread : List UInt8)
  | raised (e : Failure)
deriving DecidableEq

inductive WriteOutcome where
  | returned (rest : WriteEnd)
  | waiting
  | raised (e : Failure)
deriving DecidableEq

/-! ## The two loops -/

/-- The loop of `SSLReadAllData`; `buf` is what was read so far.  `SSL_read` fails on
a length that is not positive as an `int`. -/
def sslReadLoop (bufLen : Nat) : List Int → List UInt8 → List UInt8 → ReadOutcome
  | returns, buf, stream =>
    if bufLen ≤ buf.length then .returned buf ⟨stream, returns⟩
    else match returns with
      | [] => .waiting buf stream
      | read :: later =>
        if asInt (bufLen - buf.length) ≤ 0 ∨ read < 0 then .raised (.sslError "SSL_read failed")
        else if read = 0 then .raised (.sslError "ssl read")
        else if stream = [] then .waiting buf stream
        else
          let n := min read.toNat (bufLen - buf.length)
          sslReadLoop bufLen later (buf ++ stream.take n) (stream.drop n)

def sslReadAllData (bufLen : Nat) (ssl : ReadEnd) : ReadOutcome :=
  sslReadLoop bufLen ssl.returns [] ssl.stream

/-- The loop of `SSLWriteAllData`, `totalWritten` bytes in. -/
def sslWriteLoop (buf : List UInt8) : List Int → Nat → List UInt8 → WriteOutcome
  | returns, totalWritten, sent =>
    if buf.length ≤ totalWritten then .returned ⟨sent, returns⟩
    else match returns with
      | [] => .waiting
      | written :: later =>
        if asInt (buf.length - totalWritten) ≤ 0 ∨ written < 0 then
          .raised (.sslError "SSL_write failed")
        else if written = 0 then .raised (.sslError "ssl write")
        else
          let n := min written.toNat (buf.length - totalWritten)
          sslWriteLoop buf later (totalWritten + n) (sent ++ (buf.drop totalWritten).take n)

def sslWriteAllData (buf : List UInt8) (ssl : WriteEnd) : WriteOutcome :=
  sslWriteLoop buf ssl.returns 0 ssl.sent

theorem sslReadLoop_done {bufLen : Nat} {returns : List Int} {buf stream : List UInt8}
    (done : bufLen ≤ buf.length) :
    sslReadLoop bufLen returns buf stream = .returned buf ⟨stream, returns⟩ := by
  cases returns with
  | nil => rw [sslReadLoop, if_pos done]
  | cons read later => rw [sslReadLoop, if_pos done]

theorem sslWriteLoop_done {buf sent : List UInt8} {returns : List Int} {totalWritten : Nat}
    (done : buf.length ≤ totalWritten) :
    sslWriteLoop buf returns totalWritten sent = .returned ⟨sent, returns⟩ := by
  cases returns with
  | nil => rw [sslWriteLoop, if_pos done]
  | cons written later => rw [sslWriteLoop, if_pos done]

theorem asInt_pos {n : Nat} (pos : 0 < n) (small : n < 2 ^ 31) : 0 < asInt n := by
  have value : (BitVec.ofNat 32 n).toNat = n := by
    rw [BitVec.toNat_ofNat]
    omega
  rw [asInt, BitVec.toInt_eq_toNat_of_lt (by rw [value]; omega), value]
  omega

/-! ## Reads that are answered -/

/-- Every coming call moves something, and there are enough of them for every byte
sent. -/
structure ReadEnd.Answered (ssl : ReadEnd) : Prop where
  positive : ∀ read ∈ ssl.returns, 0 < read
  enough : ssl.stream.length ≤ ssl.returns.length

theorem sslReadLoop_all {bufLen : Nat} {returns : List Int} {buf stream : List UInt8}
    (answered : ReadEnd.Answered ⟨stream, returns⟩) (small : bufLen < 2 ^ 31)
    (within : buf.length ≤ bufLen) (there : bufLen ≤ buf.length + stream.length) :
    ∃ later, sslReadLoop bufLen returns buf stream =
        .returned (buf ++ stream.take (bufLen - buf.length))
          ⟨stream.drop (bufLen - buf.length), later⟩ ∧
      ReadEnd.Answered ⟨stream.drop (bufLen - buf.length), later⟩ := by
  induction returns generalizing buf stream with
  | nil =>
      have empty : stream = [] := List.eq_nil_of_length_eq_zero (Nat.le_zero.mp answered.enough)
      subst empty
      have full : bufLen - buf.length = 0 := by
        simp only [List.length_nil] at there
        omega
      rw [full, sslReadLoop, if_pos (by omega)]
      exact ⟨[], by simp, ⟨by simp, by simp⟩⟩
  | cons read later ih =>
      by_cases full : bufLen ≤ buf.length
      · rw [show bufLen - buf.length = 0 by omega, sslReadLoop, if_pos full]
        exact ⟨read :: later, by simp, answered⟩
      · have pos : 0 < read := answered.positive read List.mem_cons_self
        have request : 0 < asInt (bufLen - buf.length) := asInt_pos (by omega) (by omega)
        have some : stream ≠ [] := by
          intro empty
          rw [empty] at there
          simp only [List.length_nil] at there
          omega
        have enough := answered.enough
        simp only [List.length_cons] at enough
        obtain ⟨n, taken⟩ : ∃ n, min read.toNat (bufLen - buf.length) = n := ⟨_, rfl⟩
        have moved : (buf ++ stream.take n).length = buf.length + n := by
          rw [List.length_append, List.length_take]
          omega
        have next : ReadEnd.Answered ⟨stream.drop n, later⟩ :=
          ⟨fun r member => answered.positive r (List.mem_cons_of_mem _ member), by
            simp only [List.length_drop]
            omega⟩
        obtain ⟨last, result, kept⟩ := ih next (by rw [moved]; omega)
          (by rw [moved, List.length_drop]; omega)
        refine ⟨last, ?_, ?_⟩
        · rw [sslReadLoop, if_neg full]
          dsimp only
          rw [if_neg (by omega), if_neg (by omega), if_neg some, taken, result, moved,
            List.append_assoc, List.drop_drop, ← List.take_add]
          congr 3 <;> omega
        · rw [moved, List.drop_drop] at kept
          rwa [show n + (bufLen - (buf.length + n)) = bufLen - buf.length by omega] at kept

/-- A read of bytes that were sent returns them and leaves what follows. -/
theorem sslReadAllData_all {bufLen : Nat} {ssl : ReadEnd} (answered : ssl.Answered)
    (small : bufLen < 2 ^ 31) (there : bufLen ≤ ssl.stream.length) :
    ∃ rest, sslReadAllData bufLen ssl = .returned (ssl.stream.take bufLen) rest ∧
      rest.stream = ssl.stream.drop bufLen ∧ rest.Answered := by
  obtain ⟨later, result, kept⟩ := @sslReadLoop_all bufLen _ [] _ answered small
    (Nat.zero_le _) (by simpa using there)
  exact ⟨_, result, rfl, kept⟩

/-- A read of more than was sent has taken all of it and waits. -/
theorem sslReadAllData_short {bufLen : Nat} {ssl : ReadEnd} (answered : ssl.Answered)
    (small : bufLen < 2 ^ 31) (short : ssl.stream.length < bufLen) :
    sslReadAllData bufLen ssl = .waiting ssl.stream [] := by
  have loop : ∀ (returns : List Int) (buf stream : List UInt8),
      ReadEnd.Answered ⟨stream, returns⟩ → buf.length + stream.length < bufLen →
      sslReadLoop bufLen returns buf stream = .waiting (buf ++ stream) [] := by
    intro returns
    induction returns with
    | nil =>
        intro buf stream answered short
        have empty : stream = [] := List.eq_nil_of_length_eq_zero (Nat.le_zero.mp answered.enough)
        rw [sslReadLoop, if_neg (by omega), empty, List.append_nil]
    | cons read later ih =>
        intro buf stream answered short
        have pos : 0 < read := answered.positive read List.mem_cons_self
        have request : 0 < asInt (bufLen - buf.length) := asInt_pos (by omega) (by omega)
        rw [sslReadLoop, if_neg (by omega)]
        dsimp only
        rw [if_neg (by omega), if_neg (by omega)]
        by_cases empty : stream = []
        · rw [if_pos empty, empty, List.append_nil]
        · have enough := answered.enough
          have nonempty := List.length_pos_iff.mpr empty
          simp only [List.length_cons] at enough
          rw [if_neg empty, ih, List.append_assoc, List.take_append_drop]
          · exact ⟨fun r member => answered.positive r (List.mem_cons_of_mem _ member), by
              simp only [List.length_drop]
              omega⟩
          · rw [List.length_append, List.length_take, List.length_drop]
            omega
  exact loop ssl.returns [] ssl.stream answered (by simpa using short)

/-- Every return of a read uses up some of the coming calls. -/
theorem sslReadLoop_uses {bufLen : Nat} {returns : List Int} {buf stream filled : List UInt8}
    {rest : ReadEnd} (result : sslReadLoop bufLen returns buf stream = .returned filled rest) :
    rest.returns.length ≤ returns.length ∧
      (buf.length < bufLen → rest.returns.length < returns.length) := by
  induction returns generalizing buf stream with
  | nil =>
      rw [sslReadLoop] at result
      split at result
      · injection result with _ rest
        subst rest
        exact ⟨Nat.le_refl _, by omega⟩
      · cases result
  | cons read later ih =>
      rw [sslReadLoop] at result
      split at result
      · injection result with _ rest
        subst rest
        exact ⟨Nat.le_refl _, by omega⟩
      · dsimp only at result
        split at result
        · cases result
        · split at result
          · cases result
          · split at result
            · cases result
            · have shorter := (ih result).1
              rw [List.length_cons]
              exact ⟨by omega, by omega⟩

/-! ## Writes -/

/-- A write that returns has sent its whole buffer. -/
theorem sslWriteLoop_sent {buf : List UInt8} {returns : List Int} {totalWritten : Nat}
    {sent : List UInt8} {rest : WriteEnd}
    (result : sslWriteLoop buf returns totalWritten sent = .returned rest) :
    rest.sent = sent ++ buf.drop totalWritten := by
  induction returns generalizing totalWritten sent with
  | nil =>
      rw [sslWriteLoop] at result
      split at result
      case isTrue done =>
        injection result with rest
        rw [← rest, List.drop_eq_nil_of_le done, List.append_nil]
      case isFalse => cases result
  | cons written later ih =>
      rw [sslWriteLoop] at result
      split at result
      case isTrue done =>
        injection result with rest
        rw [← rest, List.drop_eq_nil_of_le done, List.append_nil]
      case isFalse =>
        dsimp only at result
        split at result
        · cases result
        · split at result
          · cases result
          · rw [ih result, List.append_assoc, ← List.drop_drop, List.take_append_drop]

theorem sslWriteAllData_sent {buf : List UInt8} {ssl rest : WriteEnd}
    (result : sslWriteAllData buf ssl = .returned rest) : rest.sent = ssl.sent ++ buf := by
  have := sslWriteLoop_sent result
  rwa [List.drop_zero] at this

/-- A write whose calls all move something, and enough of them, returns. -/
theorem sslWriteLoop_returns {buf : List UInt8} {returns : List Int} {totalWritten : Nat}
    {sent : List UInt8} (small : buf.length < 2 ^ 31)
    (positive : ∀ written ∈ returns, 0 < written) {spare : Nat}
    (enough : buf.length - totalWritten + spare ≤ returns.length) :
    ∃ rest, sslWriteLoop buf returns totalWritten sent = .returned rest ∧
      (∀ written ∈ rest.returns, 0 < written) ∧ spare ≤ rest.returns.length := by
  induction returns generalizing totalWritten sent with
  | nil =>
      simp only [List.length_nil] at enough
      rw [sslWriteLoop, if_pos (by omega)]
      exact ⟨_, rfl, positive, by simp only [List.length_nil]; omega⟩
  | cons written later ih =>
      by_cases done : buf.length ≤ totalWritten
      · rw [sslWriteLoop, if_pos done]
        exact ⟨_, rfl, positive, by simp only [List.length_cons] at enough ⊢; omega⟩
      · have pos : 0 < written := positive written List.mem_cons_self
        have request : 0 < asInt (buf.length - totalWritten) := asInt_pos (by omega) (by omega)
        rw [sslWriteLoop, if_neg done]
        dsimp only
        rw [if_neg (by omega), if_neg (by omega)]
        simp only [List.length_cons] at enough
        exact ih (fun w member => positive w (List.mem_cons_of_mem _ member)) (by omega)

theorem sslWriteAllData_returns {buf : List UInt8} (ssl : WriteEnd) (small : buf.length < 2 ^ 31)
    (positive : ∀ written ∈ ssl.returns, 0 < written) {spare : Nat}
    (enough : buf.length + spare ≤ ssl.returns.length) :
    ∃ rest, sslWriteAllData buf ssl = .returned rest ∧
      (∀ written ∈ rest.returns, 0 < written) ∧ spare ≤ rest.returns.length :=
  sslWriteLoop_returns small positive enough

end UdpStuff.Crypto
