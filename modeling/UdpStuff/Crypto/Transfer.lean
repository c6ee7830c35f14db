/-
# Crypto.Transfer — the calls that move a buffer

The loops of `SSLReadAllData` and `SSLWriteAllData` with the calls they make: at which
offset, for which length, and what each returned.  The two differ in what they throw;
a return of zero is caught by `scall`, one below zero after it.

* `calls_split`: the offset of a call is what the calls before it returned, all of them
  above zero, and a return of zero or below ends the run with an error;
* `transferCalls_end`, `transferCalls_over`: where a run of the loop ends;
* `transfer_split`: what is written and read does not depend on the pieces.

`SSLWriteAllData` and `SSLReadAllData` of `Crypto.Ssl`, which cut a return to the length
requested, are these loops where no return is above it (`sslWriteAllData_calls`,
`sslReadAllData_calls`).
-/
import UdpStuff.Crypto.Ssl
import Mathlib.Algebra.GroupWithZero.Nat

namespace UdpStuff.Crypto

set_option autoImplicit false

/-- A call of `SSL_read` or `SSL_write`: the offset in the buffer, the length it is passed,
and what it returns. -/
structure Call where
  offset : Nat
  length : Int
  ret : Int
deriving DecidableEq

/-- How the loop is left, or that it waits in a call. -/
inductive Leave where
  | returned
  | waiting
  | raised (e : Failure)
deriving DecidableEq

/-- The loop, `total` bytes in; `zero` and `negative` are thrown for such returns. -/
def transferCalls (zero negative : Failure) (bufLen : Nat) : List Int → Nat → List Call × Leave
  | returns, total =>
    if bufLen ≤ total then ([], .returned)
    else match returns with
      | [] => ([], .waiting)
      | ret :: later =>
        let call : Call := ⟨total, asInt (bufLen - total), ret⟩
        if ret = 0 then ([call], .raised zero)
        else if ret < 0 then ([call], .raised negative)
        else
          let rest := transferCalls zero negative bufLen later (total + ret.toNat)
          (call :: rest.1, rest.2)

def sslReadCalls (bufLen : Nat) (returns : List Int) : List Call × Leave :=
  transferCalls (.sslError "ssl read") (.sslError "SSL_read failed") bufLen returns 0

def sslWriteCalls (bufLen : Nat) (returns : List Int) : List Call × Leave :=
  transferCalls (.sslError "ssl write") (.sslError "SSL_write failed") bufLen returns 0

/-- What the calls of a write put into the stream. -/
def sentBy (buf : List UInt8) (calls : List Call) : List UInt8 :=
  calls.flatMap fun c => (buf.drop c.offset).take c.ret.toNat

/-- The buffer after the calls of a read: each takes its bytes from the front of the stream. -/
def filledBy : List Call → List UInt8 → List UInt8 → List UInt8
  | [], _, buf => buf
  | c :: rest, stream, buf =>
    let n := c.ret.toNat
    filledBy rest (stream.drop n) (buf.take c.offset ++ stream.take n ++ buf.drop (c.offset + n))

/-- No call returns more than the length it was passed. -/
def Moderate (calls : List Call) : Prop := ∀ c ∈ calls, c.ret ≤ c.length

section Loop

variable {zero negative : Failure} {bufLen total : Nat} {returns : List Int}

theorem transferCalls_done (done : bufLen ≤ total) :
    transferCalls zero negative bufLen returns total = ([], .returned) := by
  cases returns with
  | nil => rw [transferCalls, if_pos done]
  | cons ret later => rw [transferCalls, if_pos done]

theorem transferCalls_cons (more : ¬ bufLen ≤ total) {ret : Int} {later : List Int}
    (positive : 0 < ret) :
    transferCalls zero negative bufLen (ret :: later) total =
      (⟨total, asInt (bufLen - total), ret⟩ ::
          (transferCalls zero negative bufLen later (total + ret.toNat)).1,
        (transferCalls zero negative bufLen later (total + ret.toNat)).2) := by
  rw [transferCalls, if_neg more]
  dsimp only
  rw [if_neg (by omega), if_neg (by omega)]

theorem transferCalls_stop (more : ¬ bufLen ≤ total) {ret : Int} {later : List Int}
    (stops : ret ≤ 0) :
    ∃ e, (e = zero ∨ e = negative) ∧
      transferCalls zero negative bufLen (ret :: later) total =
        ([⟨total, asInt (bufLen - total), ret⟩], .raised e) := by
  rw [transferCalls, if_neg more]
  dsimp only
  by_cases none : ret = 0
  · rw [if_pos none]
    exact ⟨zero, .inl rfl, rfl⟩
  · rw [if_neg none, if_pos (by omega)]
    exact ⟨negative, .inr rfl, rfl⟩

/-- A loop that returns has nothing to do, or makes a call that returns above zero and goes
on. -/
theorem transferCalls_returned {calls : List Call}
    (run : transferCalls zero negative bufLen returns total = (calls, .returned)) :
    (bufLen ≤ total ∧ calls = []) ∨
      ∃ (ret : Int) (later : List Int) (rest : List Call), returns = ret :: later ∧
        ¬ bufLen ≤ total ∧ 0 < ret ∧ calls = ⟨total, asInt (bufLen - total), ret⟩ :: rest ∧
        transferCalls zero negative bufLen later (total + ret.toNat) = (rest, .returned) := by
  by_cases done : bufLen ≤ total
  · rw [transferCalls_done done] at run
    cases run
    exact .inl ⟨done, rfl⟩
  · cases returns with
    | nil =>
        rw [transferCalls, if_neg done] at run
        cases run
    | cons ret later =>
        rcases lt_or_ge 0 ret with positive | stops
        · rw [transferCalls_cons done positive] at run
          injection run with list left
          exact .inr ⟨ret, later, _, rfl, done, positive, list.symm, Prod.ext rfl left⟩
        · obtain ⟨e, -, stopped⟩ := @transferCalls_stop zero negative _ _ done ret later stops
          rw [stopped] at run
          cases run

/-- **Progress is what the calls before returned**: all of them above zero; a return of zero
or below is that of the last call, and raises. -/
theorem calls_split {calls before after : List Call} {leave : Leave} {c : Call}
    (run : transferCalls zero negative bufLen returns total = (calls, leave))
    (split : calls = before ++ c :: after) :
    c.offset = total + (before.map fun b => b.ret.toNat).sum ∧ c.offset < bufLen ∧
      c.length = asInt (bufLen - c.offset) ∧ (∀ b ∈ before, 0 < b.ret) ∧
      (c.ret ≤ 0 → after = [] ∧ ∃ e, (e = zero ∨ e = negative) ∧ leave = .raised e) := by
  induction returns generalizing total calls before with
  | nil =>
      rw [transferCalls] at run
      split at run
      · cases run
        simp at split
      · cases run
        simp at split
  | cons ret later ih =>
      by_cases done : bufLen ≤ total
      · rw [transferCalls_done done] at run
        cases run
        simp at split
      · rcases lt_or_ge 0 ret with positive | stops
        · rw [transferCalls_cons done positive] at run
          cases run
          cases before with
          | nil =>
              rw [List.nil_append, List.cons.injEq] at split
              obtain ⟨rfl, -⟩ := split
              refine ⟨by simp, by dsimp only; omega, rfl, fun b member => (by cases member), ?_⟩
              intro stops
              exact absurd positive (not_lt.mpr stops)
          | cons first before =>
              rw [List.cons_append, List.cons.injEq] at split
              obtain ⟨rfl, split⟩ := split
              obtain ⟨offset, inside, length, positives, last⟩ := ih rfl split
              refine ⟨?_, inside, length, ?_, last⟩
              · rw [offset, List.map_cons, List.sum_cons, Nat.add_assoc]
              · intro b member
                rcases List.mem_cons.mp member with rfl | earlier
                · exact positive
                · exact positives b earlier
        · obtain ⟨e, which, stopped⟩ := @transferCalls_stop zero negative _ _ done ret later stops
          rw [stopped] at run
          cases run
          cases before with
          | nil =>
              rw [List.nil_append, List.cons.injEq] at split
              obtain ⟨rfl, rfl⟩ := split
              exact ⟨by simp, by dsimp only; omega, rfl, fun b member => (by cases member),
                fun _ => ⟨rfl, e, which, rfl⟩⟩
          | cons first before => simp at split

/-- Of a buffer that fits an `int` every request is above zero and within the buffer. -/
theorem calls_within (small : bufLen < 2 ^ 31) {calls : List Call} {leave : Leave}
    (run : transferCalls zero negative bufLen returns total = (calls, leave)) {c : Call}
    (member : c ∈ calls) : 0 < c.length ∧ c.offset + c.length = bufLen := by
  obtain ⟨before, after, split⟩ := List.append_of_mem member
  obtain ⟨-, inside, length, -, -⟩ := calls_split run split
  have fits : asInt (bufLen - c.offset) = (bufLen - c.offset : Nat) := by
    rw [asInt, BitVec.toInt_eq_toNat_of_lt, BitVec.toNat_ofNat, Nat.mod_eq_of_lt (by omega)]
    rw [BitVec.toNat_ofNat, Nat.mod_eq_of_lt (by omega)]
    omega
  rw [length, fits]
  omega

theorem le_of_no_calls (run : transferCalls zero negative bufLen returns total = ([], .returned)) :
    bufLen ≤ total := by
  rcases transferCalls_returned run with ⟨done, -⟩ | ⟨ret, later, rest, -, -, -, none, -⟩
  · exact done
  · cases none

/-- The first call of a loop that returns, and what is left of the loop after it. -/
structure Moved (zero negative : Failure) (bufLen total : Nat) (returns : List Int) (c : Call)
    (rest : List Call) (later : List Int) : Prop where
  returns : returns = c.ret :: later
  more : ¬ bufLen ≤ total
  offset : c.offset = total
  positive : 0 < c.ret
  request : 0 < asInt (bufLen - total)
  within : total + c.ret.toNat ≤ bufLen
  left : transferCalls zero negative bufLen later (total + c.ret.toNat) = (rest, .returned)
  moderate : Moderate rest

theorem exists_moved (small : bufLen < 2 ^ 31) {c : Call} {rest : List Call}
    (run : transferCalls zero negative bufLen returns total = (c :: rest, .returned))
    (moderate : Moderate (c :: rest)) :
    ∃ later, Moved zero negative bufLen total returns c rest later := by
  have request := calls_within small run List.mem_cons_self
  have most := moderate c List.mem_cons_self
  rcases transferCalls_returned run with
    ⟨-, none⟩ | ⟨ret, later, _, rfl, more, positive, list, left⟩
  · cases none
  · obtain ⟨rfl, rfl⟩ := List.cons.inj list
    dsimp only at request most
    exact ⟨later, rfl, more, rfl, positive, request.1, by dsimp only; omega, left,
      fun c member => moderate c (List.mem_cons_of_mem _ member)⟩

/-- **Positive returns end the loop**: there need not be more of them than bytes. -/
theorem transferCalls_over (positive : ∀ ret ∈ returns, 0 < ret)
    (enough : bufLen ≤ total + returns.length) :
    (transferCalls zero negative bufLen returns total).2 = .returned := by
  induction returns generalizing total with
  | nil => rw [transferCalls_done (by simpa using enough)]
  | cons ret later ih =>
      by_cases done : bufLen ≤ total
      · rw [transferCalls_done done]
      · have pos := positive ret List.mem_cons_self
        rw [List.length_cons] at enough
        rw [transferCalls_cons done pos]
        exact ih (fun r member => positive r (List.mem_cons_of_mem _ member)) (by omega)

/-- A loop that returns has moved at least its buffer, and if no call returned more than it was
asked for, exactly that. -/
theorem transferCalls_end (small : bufLen < 2 ^ 31) (within : total ≤ bufLen) {calls : List Call}
    (run : transferCalls zero negative bufLen returns total = (calls, .returned))
    (moderate : Moderate calls) : total + (calls.map fun c => c.ret.toNat).sum = bufLen := by
  induction calls generalizing total returns with
  | nil =>
      have done := le_of_no_calls run
      rw [List.map_nil, List.sum_nil]
      omega
  | cons c rest ih =>
      obtain ⟨later, moved⟩ := exists_moved small run moderate
      rw [List.map_cons, List.sum_cons, ← Nat.add_assoc]
      exact ih moved.within moved.left moved.moderate

end Loop

/-! ## The bytes -/

/-- The calls follow one another in the buffer. -/
def Consecutive : Nat → List Call → Prop
  | _, [] => True
  | total, c :: rest => c.offset = total ∧ 0 < c.ret ∧ Consecutive (total + c.ret.toNat) rest

theorem consecutive_of_returned {zero negative : Failure} {bufLen total : Nat}
    {returns : List Int} {calls : List Call}
    (run : transferCalls zero negative bufLen returns total = (calls, .returned)) :
    Consecutive total calls := by
  induction calls generalizing total returns with
  | nil => trivial
  | cons c rest ih =>
      rcases transferCalls_returned run with
        ⟨-, none⟩ | ⟨ret, later, _, rfl, -, positive, list, left⟩
      · cases none
      · obtain ⟨rfl, rfl⟩ := List.cons.inj list
        exact ⟨rfl, positive, ih left⟩

/-- Pieces that follow one another join to the part of the buffer they cover. -/
theorem sentBy_consecutive {buf : List UInt8} {calls : List Call} {total : Nat}
    (consecutive : Consecutive total calls) :
    sentBy buf calls = (buf.drop total).take (calls.map fun c => c.ret.toNat).sum := by
  induction calls generalizing total with
  | nil => rfl
  | cons c rest ih =>
      obtain ⟨offset, -, later⟩ := consecutive
      rw [sentBy, List.flatMap_cons, ← sentBy, ih later, offset, List.map_cons, List.sum_cons,
        List.take_add, List.drop_drop]

/-- Reads that follow one another leave the front of the stream in the buffer. -/
theorem filledBy_consecutive {calls : List Call} {stream buf : List UInt8} {total : Nat}
    (consecutive : Consecutive total calls)
    (there : (calls.map fun c => c.ret.toNat).sum ≤ stream.length)
    (room : total + (calls.map fun c => c.ret.toNat).sum ≤ buf.length) :
    filledBy calls stream buf = buf.take total ++
      stream.take (calls.map fun c => c.ret.toNat).sum ++
        buf.drop (total + (calls.map fun c => c.ret.toNat).sum) := by
  induction calls generalizing stream buf total with
  | nil => simp [filledBy]
  | cons c rest ih =>
      obtain ⟨offset, -, later⟩ := consecutive
      rw [List.map_cons, List.sum_cons] at there room ⊢
      obtain ⟨n, moved⟩ : ∃ n, c.ret.toNat = n := ⟨_, rfl⟩
      obtain ⟨m, left⟩ : ∃ m, (rest.map fun c => c.ret.toNat).sum = m := ⟨_, rfl⟩
      rw [moved, left] at there room ⊢
      rw [moved] at later
      have before : (buf.take total).length = total := by
        rw [List.length_take]
        omega
      have piece : (stream.take n).length = n := by
        rw [List.length_take]
        omega
      have front : (buf.take total ++ stream.take n).length = total + n := by
        rw [List.length_append, before, piece]
      have size :
          (buf.take total ++ stream.take n ++ buf.drop (total + n)).length = buf.length := by
        rw [List.length_append, front, List.length_drop]
        omega
      have tail : (buf.take total ++ stream.take n ++ buf.drop (total + n)).drop (total + n + m) =
          buf.drop (total + (n + m)) := by
        rw [← List.drop_drop, List.drop_left' front, List.drop_drop, Nat.add_assoc]
      rw [filledBy, offset, moved]
      rw [ih later (by rw [left, List.length_drop]; omega) (by rw [left, size]; omega), left, tail,
        List.take_left' front, List.append_assoc (buf.take total), ← List.take_add]

/-- What holds of the calls of one loop, whatever it throws. -/
structure Sound (bufLen : Nat) (returns : List Int) (calls : List Call) (leave : Leave) : Prop where
  requests : ∀ c ∈ calls, 0 < c.length ∧ c.offset + c.length ≤ bufLen
  progress : ∀ before c after, calls = before ++ c :: after →
    c.offset = (before.map fun b => b.ret.toNat).sum ∧ (∀ b ∈ before, 0 < b.ret) ∧
      (c.ret ≤ 0 → after = [] ∧ ∃ descr, leave = .raised (.sslError descr))
  terminates : (∀ ret ∈ returns, 0 < ret) → bufLen ≤ returns.length → leave = .returned

theorem sound_calls {zero negative : String} {bufLen : Nat} {returns : List Int}
    (small : bufLen < 2 ^ 31) {calls : List Call} {leave : Leave}
    (run : transferCalls (.sslError zero) (.sslError negative) bufLen returns 0 = (calls, leave)) :
    Sound bufLen returns calls leave := by
  constructor
  · intro c member
    have := calls_within small run member
    omega
  · intro before c after split
    obtain ⟨offset, -, -, positives, last⟩ := calls_split run split
    refine ⟨by rw [offset, Nat.zero_add], positives, fun stops => ?_⟩
    obtain ⟨final, e, which, raised⟩ := last stops
    rcases which with rfl | rfl
    · exact ⟨final, zero, raised⟩
    · exact ⟨final, negative, raised⟩
  · intro positive enough
    have := @transferCalls_over (.sslError zero) (.sslError negative) bufLen 0 returns positive
      (by omega)
    rwa [run] at this

/-- **Transfer is independent of the pieces.**  Whatever the calls return, none of them more
than it was asked for: if both loops return, what is read is what was written; every request
is above zero and within the buffer, a return of zero or below raises and is no progress, and
returns above zero end both loops. -/
theorem transfer_split (buf : List UInt8) (small : buf.length ≤ 2 ^ 31 - 1)
    (writes reads : List Int) (moderateWrites : Moderate (sslWriteCalls buf.length writes).1)
    (moderateReads : Moderate (sslReadCalls buf.length reads).1) :
    ((sslWriteCalls buf.length writes).2 = .returned →
      (sslReadCalls buf.length reads).2 = .returned →
      ∀ old : List UInt8, old.length = buf.length →
        filledBy (sslReadCalls buf.length reads).1
          (sentBy buf (sslWriteCalls buf.length writes).1) old = buf) ∧
    Sound buf.length writes (sslWriteCalls buf.length writes).1
      (sslWriteCalls buf.length writes).2 ∧
    Sound buf.length reads (sslReadCalls buf.length reads).1 (sslReadCalls buf.length reads).2 := by
  have small : buf.length < 2 ^ 31 := by omega
  refine ⟨?_, sound_calls small rfl, sound_calls small rfl⟩
  intro written read old length
  have writeRun :
      sslWriteCalls buf.length writes = ((sslWriteCalls buf.length writes).1, .returned) :=
    Prod.ext rfl written
  have readRun : sslReadCalls buf.length reads = ((sslReadCalls buf.length reads).1, .returned) :=
    Prod.ext rfl read
  have writeTotal := transferCalls_end small (Nat.zero_le _) writeRun moderateWrites
  have readTotal := transferCalls_end small (Nat.zero_le _) readRun moderateReads
  rw [Nat.zero_add] at writeTotal readTotal
  have sent : sentBy buf (sslWriteCalls buf.length writes).1 = buf := by
    rw [sentBy_consecutive (consecutive_of_returned writeRun), writeTotal, List.drop_zero,
      List.take_length]
  rw [sent, filledBy_consecutive (consecutive_of_returned readRun) readTotal.le
    (by rw [Nat.zero_add, readTotal, length]), readTotal, Nat.zero_add, List.take_length,
    List.take_zero, List.nil_append, ← length, List.drop_length, List.append_nil]

/-- Four bytes, written as three and one and read as one, two and one. -/
theorem transfer_split_four :
    filledBy (sslReadCalls 4 [1, 2, 1]).1 (sentBy [7, 8, 9, 10] (sslWriteCalls 4 [3, 1]).1)
      [0, 0, 0, 0] = [7, 8, 9, 10] :=
  (transfer_split [7, 8, 9, 10] (by decide) [3, 1] [1, 2, 1] (by unfold Moderate; decide)
    (by unfold Moderate; decide)).1 (by decide) (by decide) [0, 0, 0, 0] rfl

/-! ## The loops of `Crypto.Ssl` -/

/-- Where no return is above the request, the write loop sends these pieces. -/
theorem sslWriteLoop_calls {buf : List UInt8} (small : buf.length < 2 ^ 31) {returns : List Int}
    {total : Nat} {sent : List UInt8} {calls : List Call}
    (run : transferCalls (.sslError "ssl write") (.sslError "SSL_write failed") buf.length returns
      total = (calls, .returned)) (moderate : Moderate calls) :
    ∃ later, sslWriteLoop buf returns total sent = .returned ⟨sent ++ sentBy buf calls, later⟩ := by
  induction calls generalizing total returns sent with
  | nil => exact ⟨returns, by rw [sslWriteLoop_done (le_of_no_calls run)]; simp [sentBy]⟩
  | cons c rest ih =>
      obtain ⟨later, rfl, more, offset, positive, request, within, left, moderate⟩ :=
        exists_moved small run moderate
      have whole : min c.ret.toNat (buf.length - total) = c.ret.toNat := by omega
      obtain ⟨unused, result⟩ := @ih later (total + c.ret.toNat)
        (sent ++ (buf.drop total).take c.ret.toNat) left moderate
      rw [sslWriteLoop, if_neg more]
      dsimp only
      rw [if_neg (by omega), if_neg (by omega), whole, result]
      exact ⟨unused, by rw [sentBy, sentBy, List.flatMap_cons, offset, List.append_assoc]⟩

theorem sslWriteAllData_calls {buf : List UInt8} (small : buf.length < 2 ^ 31) {ssl : WriteEnd}
    (returned : (sslWriteCalls buf.length ssl.returns).2 = .returned)
    (moderate : Moderate (sslWriteCalls buf.length ssl.returns).1) :
    ∃ later, sslWriteAllData buf ssl =
      .returned ⟨ssl.sent ++ sentBy buf (sslWriteCalls buf.length ssl.returns).1, later⟩ :=
  sslWriteLoop_calls small (Prod.ext rfl returned) moderate

/-- Where no return is above the request, the read loop takes these bytes from the stream. -/
theorem sslReadLoop_calls {bufLen : Nat} (small : bufLen < 2 ^ 31) {returns : List Int}
    {buf stream : List UInt8} {calls : List Call} (there : bufLen ≤ buf.length + stream.length)
    (run : transferCalls (.sslError "ssl read") (.sslError "SSL_read failed") bufLen returns
      buf.length = (calls, .returned)) (moderate : Moderate calls) :
    ∃ rest, sslReadLoop bufLen returns buf stream =
      .returned (buf ++ stream.take (calls.map fun c => c.ret.toNat).sum) rest := by
  induction calls generalizing buf stream returns with
  | nil => exact ⟨⟨stream, returns⟩, by rw [sslReadLoop_done (le_of_no_calls run)]; simp⟩
  | cons c rest ih =>
      obtain ⟨later, rfl, more, -, positive, request, within, left, moderate⟩ :=
        exists_moved small run moderate
      have whole : min c.ret.toNat (bufLen - buf.length) = c.ret.toNat := by omega
      have unread : stream ≠ [] := by
        rintro rfl
        rw [List.length_nil] at there
        omega
      have moved : (buf ++ stream.take c.ret.toNat).length = buf.length + c.ret.toNat := by
        rw [List.length_append, List.length_take]
        omega
      obtain ⟨unused, result⟩ := @ih later (buf ++ stream.take c.ret.toNat)
        (stream.drop c.ret.toNat) (by rw [moved, List.length_drop]; omega)
        (by rw [moved]; exact left) moderate
      rw [sslReadLoop, if_neg more]
      dsimp only
      rw [if_neg (by omega), if_neg (by omega), if_neg unread, whole, result]
      exact ⟨unused, by rw [List.map_cons, List.sum_cons, List.take_add, List.append_assoc]⟩

/-- The buffer `SSLReadAllData` returns with is what its calls left in the caller's. -/
theorem sslReadAllData_calls {bufLen : Nat} (small : bufLen < 2 ^ 31) {ssl : ReadEnd}
    (there : bufLen ≤ ssl.stream.length)
    (returned : (sslReadCalls bufLen ssl.returns).2 = .returned)
    (moderate : Moderate (sslReadCalls bufLen ssl.returns).1) {old : List UInt8}
    (room : old.length = bufLen) :
    ∃ rest, sslReadAllData bufLen ssl =
      .returned (filledBy (sslReadCalls bufLen ssl.returns).1 ssl.stream old) rest := by
  have run : sslReadCalls bufLen ssl.returns = ((sslReadCalls bufLen ssl.returns).1, .returned) :=
    Prod.ext rfl returned
  have whole := transferCalls_end small (Nat.zero_le _) run moderate
  rw [Nat.zero_add] at whole
  obtain ⟨rest, result⟩ := @sslReadLoop_calls _ small _ [] ssl.stream _ (by simpa using there) run
    moderate
  refine ⟨rest, result.trans ?_⟩
  rw [filledBy_consecutive (consecutive_of_returned run) (by rw [whole]; exact there)
    (by rw [Nat.zero_add, whole, room]), Nat.zero_add, List.take_zero, whole, ← room,
    List.drop_length, List.append_nil]

end UdpStuff.Crypto
