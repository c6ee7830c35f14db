/-
# Proto.ReaderAccounting — which reads return, and what they touch

The bits that a reader has left are those of its current element and those of the
elements behind it, the last of which may be shorter.  `Accounts` says that together
with the bits asked for they make up the stream; the elements' values play no part.
A read so ends in one of three ways (`Accounts.readUint`), of which the undefined
shift needs elements of more than 16 bits.

The `Loads` functions list the elements that a call reads, as it goes, also where it
throws in the end.
-/
import UdpStuff.Proto.BitReader

namespace UdpStuff.Proto

set_option autoImplicit false

namespace BitBufferReader

variable (Tn : ElemType)

/-! ## Runs of reads -/

/-- Reads of the given widths, with their values and the reader behind them. -/
def readUints : List Nat → BitBufferReader → Except ReadError (List Nat × BitBufferReader)
  | [], r => .ok ([], r)
  | n :: rest, r =>
    match r.readUint Tn n with
    | .error e => .error e
    | .ok (v, next) =>
      match readUints rest next with
      | .error e => .error e
      | .ok (vs, last) => .ok (v :: vs, last)

/-- The reads that return are those of which the first does, and then the others. -/
theorem readUints_cons_ok {n : Nat} {rest vs : List Nat} {r last : BitBufferReader} :
    r.readUints Tn (n :: rest) = .ok (vs, last) ↔ ∃ v next others,
      r.readUint Tn n = .ok (v, next) ∧ next.readUints Tn rest = .ok (others, last) ∧
        vs = v :: others := by
  rw [readUints]
  constructor
  · intro read
    cases first : r.readUint Tn n with
    | error e => rw [first] at read; cases read
    | ok one =>
        rw [first] at read
        dsimp only at read
        cases later : one.2.readUints Tn rest with
        | error e => rw [later] at read; cases read
        | ok result =>
            rw [later] at read
            cases read
            exact ⟨one.1, one.2, result.1, rfl, later, rfl⟩
  · rintro ⟨v, next, others, first, later, rfl⟩
    rw [first]
    dsimp only
    rw [later]

/-! ## The elements read -/

/-- `buf[items_read++]` in the constructor. -/
def makeLoads (bitSize : Nat) : List Nat := if 0 < bitSize then [0] else []

/-- `buf[items_read++]` in `read_item`. -/
def readItemLoads (r : BitBufferReader) : List Nat :=
  if r.bitSize ≤ r.itemsRead * Tn.bits then [] else [r.itemsRead]

set_option linter.unusedVariables false in
def readPiecesLoads (n : Nat) (r : BitBufferReader) : List Nat :=
  if r.curItemBits < n then
    if 64 ≤ r.curItemBits then []
    else
      match item : r.readItem Tn with
      | .error _ => r.readItemLoads Tn
      | .ok next => r.readItemLoads Tn ++ readPiecesLoads (n - r.curItemBits) next
  else []
termination_by r.bitSize - r.itemsRead * Tn.bits
decreasing_by
  obtain ⟨more, size, items⟩ := readItem_ok Tn item
  have := Tn.bits_pos
  rw [size, items, Nat.succ_mul]
  omega

def readUintLoads (n : Nat) (r : BitBufferReader) : List Nat :=
  if n ≤ r.curItemBits then []
  else
    match r.readItem Tn with
    | .error _ => r.readItemLoads Tn
    | .ok next => r.readItemLoads Tn ++ next.readPiecesLoads Tn (n - r.curItemBits)

/-- The elements read by calls one after another, up to one that throws. -/
def readUintsLoads : List Nat → BitBufferReader → List Nat
  | [], _ => []
  | n :: rest, r =>
    match r.readUint Tn n with
    | .error _ => r.readUintLoads Tn n
    | .ok (_, next) => r.readUintLoads Tn n ++ readUintsLoads rest next

/-! ## Accounting -/

/-- Of `P` bits, `c` were asked for: the rest of the current element comes next. -/
structure Accounts (P c : Nat) (r : BitBufferReader) : Prop where
  bitSize : r.bitSize = P
  loaded : c + r.curItemBits = min P (Tn.bits * r.itemsRead)
  near : Tn.bits * r.itemsRead ≤ c + Tn.bits

variable {Tn}

theorem accounts_make (buf : Nat → Nat) (P : Nat) : Accounts Tn P 0 (make Tn buf P) := by
  have base := Tn.bits_pos
  rw [make]
  by_cases some : 0 < P
  · rw [if_pos some]
    refine ⟨rfl, ?_, by dsimp only; omega⟩
    dsimp only
    split <;> omega
  · rw [if_neg some]
    exact ⟨rfl, by dsimp only; omega, by dsimp only; omega⟩

/-- `read_item` begins the next element, or the stream is used up with this one. -/
theorem Accounts.readItem {P c : Nat} {r : BitBufferReader} (accounts : Accounts Tn P c r) :
    (∃ next, r.readItem Tn = .ok next ∧ Accounts Tn P (c + r.curItemBits) next ∧
        0 < next.curItemBits) ∨
      r.readItem Tn = .error .bitStreamFinished ∧ c + r.curItemBits = P := by
  have base := Tn.bits_pos
  have loaded := accounts.loaded
  have size := accounts.bitSize
  have comm := Nat.mul_comm r.itemsRead Tn.bits
  rw [BitBufferReader.readItem]
  by_cases past : r.bitSize ≤ r.itemsRead * Tn.bits
  · exact .inr ⟨if_pos past, by omega⟩
  · rw [if_neg past]
    refine .inl ⟨_, rfl, ⟨size, ?_, ?_⟩, ?_⟩
    · dsimp only
      rw [Nat.mul_succ]
      split <;> omega
    · dsimp only
      rw [Nat.mul_succ]
      omega
    · dsimp only
      split <;> omega

/-- How a read ends: with its bits, at the end of the stream, or in an undefined shift. -/
def Ends (Tn : ElemType) (P c n : Nat) (result : Except ReadError (Nat × BitBufferReader)) : Prop :=
  (∃ v next, result = .ok (v, next) ∧ c + n ≤ P ∧ Accounts Tn P (c + n) next) ∨
    (result = .error .bitStreamFinished ∧ P < c + n) ∨
    (result = .error .undefinedShift ∧ 16 < Tn.bits ∧ 1 < n)

/-- A read that first takes `k` bits ends as the rest of it does. -/
theorem Ends.behind {P c k n : Nat} {result : Except ReadError (Nat × BitBufferReader)}
    (rest : Ends Tn P (c + k) (n - k) result) (inside : k ≤ n) : Ends Tn P c n result := by
  have total : c + k + (n - k) = c + n := by omega
  rw [Ends, total] at rest
  rcases rest with read | finished | ⟨undefined, wide, more⟩
  · exact .inl read
  · exact .inr (.inl finished)
  · exact .inr (.inr ⟨undefined, wide, by omega⟩)

theorem Accounts.takeLow {P c n : Nat} {r : BitBufferReader} (accounts : Accounts Tn P c r)
    (inside : n ≤ r.curItemBits) : Ends Tn P c n (r.takeLow Tn n) := by
  have loaded := accounts.loaded
  have near := accounts.near
  rw [BitBufferReader.takeLow]
  by_cases defined : n + 1 < Tn.promoted
  · rw [if_pos defined]
    refine .inl ⟨_, _, rfl, by omega, accounts.bitSize, ?_, ?_⟩
    · dsimp only
      omega
    · dsimp only
      omega
  · have wide : 32 ≤ Tn.promoted := Nat.le_max_left 32 Tn.bits
    rw [if_neg defined]
    exact .inr (.inr ⟨rfl, by omega, by omega⟩)

theorem Accounts.readPieces {P c n acc : Nat} {r : BitBufferReader} (accounts : Accounts Tn P c r)
    (some : 0 < r.curItemBits) : Ends Tn P c n (r.readPieces Tn acc n) := by
  induction n using Nat.strongRecOn generalizing c acc r with
  | ind n ih =>
      have loaded := accounts.loaded
      have near := accounts.near
      by_cases long : r.curItemBits < n
      · by_cases wide : 64 ≤ r.curItemBits
        · rw [BitBufferReader.readPieces, if_pos long, if_pos wide]
          exact .inr (.inr ⟨rfl, by omega, by omega⟩)
        · rcases accounts.readItem with ⟨next, item, later, more⟩ | ⟨item, past⟩
          · rw [readPieces_long long (by omega) item]
            exact (ih (n - r.curItemBits) (by omega) later more).behind (Nat.le_of_lt long)
          · rw [BitBufferReader.readPieces, if_pos long, if_neg wide]
            split
            case h_1 e failed =>
              rw [item] at failed
              cases failed
              exact .inr (.inl ⟨rfl, by omega⟩)
            case h_2 next other => rw [item] at other; cases other
      · rw [BitBufferReader.readPieces, if_neg long]
        rcases accounts.takeLow (Nat.le_of_not_lt long) with read | finished | undefined
        · obtain ⟨v, next, taken, inside, later⟩ := read
          rw [taken]
          exact .inl ⟨_, _, rfl, inside, later⟩
        · rw [finished.1]
          exact .inr (.inl ⟨rfl, finished.2⟩)
        · rw [undefined.1]
          exact .inr (.inr ⟨rfl, undefined.2⟩)

/-- **How one call ends**, from where the bits are accounted for. -/
theorem Accounts.readUint {P c : Nat} {r : BitBufferReader} (accounts : Accounts Tn P c r)
    (n : Nat) : Ends Tn P c n (r.readUint Tn n) := by
  rw [BitBufferReader.readUint, readBits]
  by_cases one : n ≤ r.curItemBits
  · rw [if_pos one]
    exact accounts.takeLow one
  · rw [if_neg one]
    rcases accounts.readItem with ⟨next, item, later, more⟩ | ⟨item, past⟩
    · rw [item]
      exact (later.readPieces more).behind (Nat.le_of_not_le one)
    · rw [item]
      exact .inr (.inl ⟨rfl, by omega⟩)

/-- Calls that returned are accounted for. -/
theorem Accounts.readUints {P c : Nat} {r last : BitBufferReader} (accounts : Accounts Tn P c r)
    {ns vs : List Nat} (read : r.readUints Tn ns = .ok (vs, last)) :
    Accounts Tn P (c + ns.sum) last := by
  induction ns generalizing c r vs with
  | nil =>
      cases read
      exact accounts
  | cons n rest ih =>
      obtain ⟨v, next, others, first, rest, -⟩ := (readUints_cons_ok Tn).mp read
      rw [List.sum_cons, ← Nat.add_assoc]
      rcases accounts.readUint n with ⟨v', next', first', -, later⟩ | ⟨finished, -⟩ | ⟨undefined, -⟩
      · cases first.symm.trans first'
        exact ih later rest
      · cases first.symm.trans finished
      · cases first.symm.trans undefined

/-! ## The elements are those of the buffer -/

theorem readItemLoads_ok {r next : BitBufferReader} (item : r.readItem Tn = .ok next) :
    r.readItemLoads Tn = [r.itemsRead] := by
  rw [readItemLoads, if_neg (Nat.not_le.mpr (readItem_ok Tn item).1)]

theorem takeLow_itemsRead {n v : Nat} {r next : BitBufferReader}
    (taken : r.takeLow Tn n = .ok (v, next)) : next.itemsRead = r.itemsRead := by
  rw [takeLow] at taken
  split at taken
  · cases taken
    rfl
  · cases taken

theorem readPiecesLoads_ok {acc n v : Nat} {r last : BitBufferReader}
    (read : r.readPieces Tn acc n = .ok (v, last)) :
    ∃ k, last.itemsRead = r.itemsRead + k ∧
      r.readPiecesLoads Tn n = List.range' r.itemsRead k := by
  fun_induction readPieces Tn acc n r generalizing v last with
  | case1 => cases read
  | case2 => cases read
  | case3 acc n r long wide next item ih =>
      obtain ⟨k, items, loads⟩ := ih read
      have count := (readItem_ok Tn item).2.2
      refine ⟨k + 1, by omega, ?_⟩
      rw [readPiecesLoads, if_pos long, if_neg wide]
      split
      case h_1 failed => rw [item] at failed; cases failed
      case h_2 other same =>
        rw [item] at same
        cases same
        rw [loads, readItemLoads_ok item, count, List.range'_succ]
        rfl
  | case4 acc n r short e failed => cases read
  | case5 acc n r short low next taken =>
      cases read
      refine ⟨0, takeLow_itemsRead taken, ?_⟩
      rw [readPiecesLoads, if_neg short]
      rfl

/-- A call that returns reads the elements it counts, in order. -/
theorem readUintLoads_ok {n v : Nat} {r last : BitBufferReader}
    (read : r.readUint Tn n = .ok (v, last)) :
    ∃ k, last.itemsRead = r.itemsRead + k ∧
      r.readUintLoads Tn n = List.range' r.itemsRead k := by
  rw [BitBufferReader.readUint, readBits] at read
  rw [readUintLoads]
  by_cases one : n ≤ r.curItemBits
  · rw [if_pos one] at read
    rw [if_pos one]
    exact ⟨0, takeLow_itemsRead read, rfl⟩
  · rw [if_neg one] at read
    rw [if_neg one]
    cases item : r.readItem Tn with
    | error e => rw [item] at read; cases read
    | ok next =>
        rw [item] at read
        obtain ⟨k, items, loads⟩ := readPiecesLoads_ok read
        have count := (readItem_ok Tn item).2.2
        refine ⟨k + 1, by omega, ?_⟩
        dsimp only
        rw [loads, readItemLoads_ok item, count, List.range'_succ]
        rfl

/-- The elements that hold any of `P` bits. -/
def Holds (Tn : ElemType) (P : Nat) (loads : List Nat) : Prop :=
  ∀ i ∈ loads, i < (P + Tn.bits - 1) / Tn.bits

theorem holds_nil (P : Nat) : Holds Tn P [] := fun _ member => nomatch member

theorem Holds.append {P : Nat} {front rest : List Nat} (first : Holds Tn P front)
    (second : Holds Tn P rest) : Holds Tn P (front ++ rest) := by
  intro i member
  rcases List.mem_append.mp member with front | rest
  · exact first i front
  · exact second i rest

theorem holds_makeLoads (P : Nat) : Holds Tn P (makeLoads P) := by
  have base := Tn.bits_pos
  rw [makeLoads]
  by_cases some : 0 < P
  · rw [if_pos some]
    intro i member
    rw [List.mem_singleton.mp member, Nat.div_pos_iff]
    omega
  · rw [if_neg some]
    exact holds_nil P

theorem holds_readItemLoads (r : BitBufferReader) : Holds Tn r.bitSize (r.readItemLoads Tn) := by
  have base := Tn.bits_pos
  rw [readItemLoads]
  by_cases past : r.bitSize ≤ r.itemsRead * Tn.bits
  · rw [if_pos past]
    exact holds_nil _
  · rw [if_neg past]
    intro i member
    rw [List.mem_singleton.mp member, Nat.lt_iff_add_one_le, Nat.le_div_iff_mul_le base, Nat.succ_mul]
    omega

theorem holds_readPiecesLoads (n : Nat) (r : BitBufferReader) :
    Holds Tn r.bitSize (r.readPiecesLoads Tn n) := by
  fun_induction readPiecesLoads Tn n r with
  | case1 n r long wide => exact holds_nil _
  | case2 n r long wide e item => exact holds_readItemLoads r
  | case3 n r long wide next item ih =>
      rw [(readItem_ok Tn item).2.1] at ih
      exact (holds_readItemLoads r).append ih
  | case4 n r short => exact holds_nil _

theorem holds_readUintLoads (n : Nat) (r : BitBufferReader) :
    Holds Tn r.bitSize (r.readUintLoads Tn n) := by
  rw [readUintLoads]
  by_cases one : n ≤ r.curItemBits
  · rw [if_pos one]
    exact holds_nil _
  · rw [if_neg one]
    cases item : r.readItem Tn with
    | error e => exact holds_readItemLoads r
    | ok next =>
        have later := @holds_readPiecesLoads Tn (n - r.curItemBits) next
        rw [(readItem_ok Tn item).2.1] at later
        exact (holds_readItemLoads r).append later

theorem Accounts.holds_readUintsLoads {P c : Nat} {r : BitBufferReader}
    (accounts : Accounts Tn P c r) (ns : List Nat) : Holds Tn P (r.readUintsLoads Tn ns) := by
  induction ns generalizing c r with
  | nil => exact holds_nil P
  | cons n rest ih =>
      have here := @holds_readUintLoads Tn n r
      rw [accounts.bitSize] at here
      rw [readUintsLoads]
      rcases accounts.readUint n with ⟨v, next, first, -, later⟩ | ⟨finished, -⟩ | ⟨undefined, -⟩
      · rw [first]
        exact here.append (ih later)
      · rw [finished]
        exact here
      · rw [undefined]
        exact here

/-- **Reader accounting**: behind calls that returned, a call returns if and only if its bits
are there, and throws `BitStreamFinished` otherwise; and no call, whether it returns or
throws, reads an element behind the last bit. -/
theorem reader_accounting {Tn : ElemType} (narrow : Tn = .uint8 ∨ Tn = .uint16)
    (buf : Nat → Nat) (P : Nat) (ns : List Nat) :
    (∀ vs r, (make Tn buf P).readUints Tn ns = .ok (vs, r) → ∀ n,
      (ns.sum + n ≤ P → ∃ v next, r.readUint Tn n = .ok (v, next)) ∧
        (¬ ns.sum + n ≤ P → r.readUint Tn n = .error .bitStreamFinished)) ∧
      ∀ i ∈ makeLoads P ++ (make Tn buf P).readUintsLoads Tn ns, i < (P + Tn.bits - 1) / Tn.bits := by
  have thin : Tn.bits ≤ 16 := by
    rcases narrow with rfl | rfl <;> decide
  have start := @accounts_make Tn buf P
  refine ⟨fun vs r read n => ?_, ?_⟩
  · have accounts := start.readUints read
    rw [Nat.zero_add] at accounts
    rcases accounts.readUint n with ⟨v, next, returned, inside, -⟩ | ⟨finished, beyond⟩ | ⟨-, wide, -⟩
    · exact ⟨fun _ => ⟨v, next, returned⟩, fun beyond => absurd inside beyond⟩
    · exact ⟨fun inside => absurd inside (by omega), fun _ => finished⟩
    · omega
  · exact (holds_makeLoads P).append (start.holds_readUintsLoads ns)

/-- Eleven bits in two bytes: the second call throws. -/
theorem reader_accounting_eleven : ∃ vs r,
    (make .uint8 (fun i => if i = 0 then 165 else 3) 11).readUints .uint8 [5] = .ok (vs, r) ∧
      r.readUint .uint8 7 = .error .bitStreamFinished :=
  ⟨[37], _, rfl, ((reader_accounting (.inl rfl) (fun i => if i = 0 then 165 else 3) 11 [5]).1
    [37] _ rfl 7).2 (by decide)⟩

end BitBufferReader

end UdpStuff.Proto
