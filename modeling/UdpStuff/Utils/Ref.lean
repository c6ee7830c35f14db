/-
# Utils.Ref — reference counts

A `RefObject` starts with the reference of whoever constructed it, which is kept here.  A
`Ref` adds one for itself and takes it back; the count is an `int` that wraps, and an
object is deleted when it comes to zero.

`Exact` says that a count is one more than the `Ref` variables that point at the object.
Every step keeps it while the count has room (`Counted.step`).  A copy assignment drops the
old target before it reads the new one: a variable that is assigned to itself reads
`nullptr`, and then points nowhere.  `ref_counts_exact` says both.
-/
import Mathlib.Data.BitVec
import UdpStuff.Theory.Holders
import UdpStuff.Theory.Runs

namespace UdpStuff.Utils

open Theory

set_option autoImplicit false

/-- `Ref` variables, and the counts of the objects that were not deleted. -/
structure Refs (V O : Type) where
  vars : Vars V (Option O)
  refCount : O → Option (BitVec 32)

/-- What a program does with objects and variables. -/
inductive RefOp (V O : Type) where
  | newObject (o : O)
  | default (x : V)
  | construct (x : V) (ptr : Option O)
  | copyConstruct (x other : V)
  | moveConstruct (x other : V)
  | copyAssign (x other : V)
  | moveAssign (x other : V)
  | clear (x : V)
  | destroy (x : V)

namespace Refs

variable {V O : Type} [DecidableEq V] [DecidableEq O]

/-- No variable and no object yet. -/
def start : Refs V O := ⟨⟨∅, fun _ => none⟩, fun _ => none⟩

variable (s : Refs V O)

/-- The member `ptr` is written. -/
def write (x : V) (ptr : Option O) : Refs V O := { s with vars := s.vars.set x ptr }

def setCount (o : O) (count : Option (BitVec 32)) : Refs V O :=
  { s with refCount := Function.update s.refCount o count }

/-- `atomic_add` on the count of an object, and what it returns. -/
def atomicAdd (o : O) (val : BitVec 32) : Option (BitVec 32) × Refs V O :=
  let count := (s.refCount o).map (· + val)
  (count, s.setCount o count)

/-- `Ref::inc_ref` -/
def incRef (x : V) : Refs V O :=
  match s.vars.val x with
  | some o => (s.atomicAdd o 1).2
  | none => s

def clear (x : V) : Refs V O :=
  match s.vars.val x with
  | some o =>
    let refsLeft := s.atomicAdd o (-1)
    let s := if refsLeft.1 = some 0 then refsLeft.2.setCount o none else refsLeft.2
    s.write x none
  | none => s

def construct (x : V) (ptr : Option O) : Refs V O :=
  let s := { s with vars := s.vars.add x ptr }
  s.incRef x

def moveConstruct (x other : V) : Refs V O :=
  let s := { s with vars := s.vars.add x (s.vars.val other) }
  s.write other none

def copyAssign (x other : V) : Refs V O :=
  let s := s.clear x
  let s := s.write x (s.vars.val other)
  s.incRef x

def moveAssign (x other : V) : Refs V O :=
  let s := s.clear x
  let s := s.write x (s.vars.val other)
  s.write other none

def destroy (x : V) : Refs V O :=
  let s := s.clear x
  { s with vars := s.vars.remove x }

/-- A pointer that a `Ref` is constructed from points at an object. -/
def step : RefOp V O → Option (Refs V O)
  | .newObject o => if s.refCount o = none then some (s.setCount o (some 1)) else none
  | .default x => if x ∉ s.vars.live then some { s with vars := s.vars.add x none } else none
  | .construct x ptr =>
    if x ∉ s.vars.live ∧ ptr.all (fun o => (s.refCount o).isSome) then some (s.construct x ptr)
    else none
  | .copyConstruct x other =>
    if x ∉ s.vars.live ∧ other ∈ s.vars.live then some (s.construct x (s.vars.val other)) else none
  | .moveConstruct x other =>
    if x ∉ s.vars.live ∧ other ∈ s.vars.live then some (s.moveConstruct x other) else none
  | .copyAssign x other =>
    if x ∈ s.vars.live ∧ other ∈ s.vars.live then some (s.copyAssign x other) else none
  | .moveAssign x other =>
    if x ∈ s.vars.live ∧ other ∈ s.vars.live then some (s.moveAssign x other) else none
  | .clear x => if x ∈ s.vars.live then some (s.clear x) else none
  | .destroy x => if x ∈ s.vars.live then some (s.destroy x) else none

/-- How many variables point at an object. -/
abbrev pointing (o : O) : Nat := Vars.holders id s.vars o

/-- Each count is one more than the variables that point at the object. -/
def Exact : Prop := ∀ o count, s.refCount o = some count → count.toInt = 1 + s.pointing o

/-- A count that one more variable fits into. -/
def Room (o : O) : Prop := s.pointing o + 2 < 2 ^ 31

/-- The count that a step brings up by one stays an `int`. -/
def HasRoom (s : Refs V O) : RefOp V O → Prop
  | .construct _ ptr => ∀ o, ptr = some o → s.Room o
  | .copyConstruct _ other => ∀ o, s.vars.val other = some o → s.Room o
  | .copyAssign x other => ∀ o, s.vars.val other = some o → s.vars.val x ≠ some o → s.Room o
  | _ => True

instance (s : Refs V O) (o : O) : Decidable (s.Room o) :=
  inferInstanceAs (Decidable (_ < _))

instance (s : Refs V O) : (op : RefOp V O) → Decidable (s.HasRoom op)
  | .construct _ ptr => inferInstanceAs (Decidable (∀ o ∈ ptr, s.Room o))
  | .copyConstruct _ other => inferInstanceAs (Decidable (∀ o ∈ s.vars.val other, s.Room o))
  | .copyAssign x other => inferInstanceAs
      (Decidable (∀ o ∈ s.vars.val other, s.vars.val x ≠ some o → s.Room o))
  | .newObject _ | .default _ | .moveConstruct _ _ | .moveAssign _ _ | .clear _ | .destroy _ =>
    .isTrue trivial

/-! ## What every step keeps -/

/-- The counts, and that nothing points at an object that is gone. -/
structure Counted : Prop where
  alive : ∀ o count, s.refCount o = some count →
    count = BitVec.ofNat 32 (1 + s.pointing o) ∧ s.pointing o + 1 < 2 ^ 31
  gone : ∀ o, s.refCount o = none → s.pointing o = 0

variable {s} {x other : V}

omit [DecidableEq V] in
theorem Counted.exact (counted : Counted s) : s.Exact := by
  intro o count here
  obtain ⟨rfl, fits⟩ := counted.alive o count here
  rw [BitVec.toInt_eq_toNat_of_lt] <;> rw [BitVec.toNat_ofNat, Nat.mod_eq_of_lt (by omega)]
  · rw [Int.natCast_add]
    rfl
  · omega

omit [DecidableEq V] in
/-- What a variable points at is there. -/
theorem Counted.exists_count (counted : Counted s) (alive : x ∈ s.vars.live) {o : O}
    (points : s.vars.val x = some o) : ∃ count, s.refCount o = some count := by
  have positive : 0 < s.pointing o := Vars.holders_pos alive points
  cases here : s.refCount o with
  | none => exact absurd (counted.gone o here) (Nat.ne_of_gt positive)
  | some count => exact ⟨count, rfl⟩

omit [DecidableEq V] in
/-- The variables change, and the count of one object as they do. -/
theorem Counted.change (counted : Counted s) {vars : Vars V (Option O)} {o : O}
    {count : BitVec 32} (others : ∀ o', o' ≠ o →
      Vars.holders id vars o' = Vars.holders id s.vars o')
    (now : count = BitVec.ofNat 32 (1 + Vars.holders id vars o))
    (fits : Vars.holders id vars o + 1 < 2 ^ 31) :
    Counted ⟨vars, Function.update s.refCount o (some count)⟩ := by
  constructor
  · intro o' count' here
    by_cases same : o' = o
    · subst same
      obtain rfl : count = count' := by simpa using here
      exact ⟨now, fits⟩
    · dsimp only at here
      rw [Function.update_of_ne same] at here
      have before := counted.alive o' count' here
      rwa [pointing, ← others o' same] at before
  · intro o' here
    by_cases same : o' = o
    · subst same
      simp at here
    · dsimp only at here
      rw [Function.update_of_ne same] at here
      exact (others o' same).trans (counted.gone o' here)

omit [DecidableEq V] in
/-- The variables change, but not what they point at. -/
theorem Counted.keep (counted : Counted s) {vars : Vars V (Option O)}
    (same : ∀ o, Vars.holders id vars o = Vars.holders id s.vars o) :
    Counted ⟨vars, s.refCount⟩ := by
  constructor
  · intro o count here
    have before := counted.alive o count here
    rwa [pointing, ← same o] at before
  · intro o here
    exact (same o).trans (counted.gone o here)

omit [DecidableEq V] in
/-- One more variable points at an object whose count goes up. -/
theorem Counted.share (counted : Counted s) {vars : Vars V (Option O)} {o : O} {count : BitVec 32}
    (here : s.refCount o = some count) (room : s.Room o)
    (more : ∀ o', Vars.holders id vars o' = s.pointing o' + Vars.worth (some o) o') :
    Counted ⟨vars, Function.update s.refCount o (some (count + 1))⟩ := by
  obtain ⟨rfl, -⟩ := counted.alive o count here
  have one : Vars.holders id vars o = s.pointing o + 1 := by
    rw [more o, Vars.worth_self]
  have room : s.pointing o + 2 < 2 ^ 31 := room
  apply counted.change
  · intro o' other
    rw [more o', Vars.worth_of_ne other.symm, Nat.add_zero]
  · rw [one, ← Nat.add_assoc, BitVec.ofNat_add (1 + s.pointing o) 1]
    rfl
  · omega

/-! ## Clearing -/

theorem live_clear : (s.clear x).vars.live = s.vars.live := by
  unfold clear
  split
  case h_1 o points =>
    dsimp only
    split <;> rfl
  case h_2 => rfl

/-- `clear` leaves the variable without an object, and every other one as it was. -/
theorem val_clear (y : V) :
    (s.clear x).vars.val y = if y = x then none else s.vars.val y := by
  have written (t : Refs V O) (same : t.vars = s.vars) :
      (t.write x none).vars.val y = if y = x then none else s.vars.val y := by
    show (t.vars.set x none).val y = _
    rw [same]
    by_cases here : y = x
    · rw [here, Vars.val_set_self, if_pos rfl]
    · rw [Vars.val_set_of_ne _ _ here, if_neg here]
  unfold clear
  split
  case h_1 o points =>
    dsimp only
    split
    · exact written _ rfl
    · exact written _ rfl
  case h_2 points =>
    by_cases here : y = x
    · rw [here, points, if_pos rfl]
    · rw [if_neg here]

theorem val_clear_self : (s.clear x).vars.val x = none := by
  rw [val_clear, if_pos rfl]

/-- With the creator's reference a count does not come to zero: no object is deleted. -/
theorem Counted.clear_eq (counted : Counted s) (alive : x ∈ s.vars.live) {o : O}
    (points : s.vars.val x = some o) :
    s.clear x = ⟨s.vars.set x none,
      Function.update s.refCount o (some (BitVec.ofNat 32 (s.pointing o)))⟩ := by
  obtain ⟨count, here⟩ := counted.exists_count alive points
  obtain ⟨rfl, fits⟩ := counted.alive o count here
  have positive : 0 < s.pointing o := Vars.holders_pos alive points
  have down : BitVec.ofNat 32 (1 + s.pointing o) + -1 = BitVec.ofNat 32 (s.pointing o) := by
    rw [Nat.add_comm, BitVec.ofNat_add, BitVec.add_assoc]
    simp
  have kept : BitVec.ofNat 32 (s.pointing o) ≠ 0 := by
    intro zero
    have zero := congrArg BitVec.toNat zero
    rw [BitVec.toNat_ofNat, Nat.mod_eq_of_lt (by omega)] at zero
    exact absurd zero (Nat.ne_of_gt positive)
  unfold clear
  rw [points]
  dsimp only [atomicAdd]
  rw [here, Option.map_some, down, if_neg fun zero => kept (Option.some.inj zero)]
  rfl

theorem Counted.clear (counted : Counted s) (alive : x ∈ s.vars.live) : Counted (s.clear x) := by
  cases points : s.vars.val x with
  | none =>
      have same : s.clear x = s := by
        unfold Refs.clear
        rw [points]
      rwa [same]
  | some o =>
      have less := Vars.holders_set id s.vars alive none
      rw [counted.clear_eq alive points]
      obtain ⟨count, here⟩ := counted.exists_count alive points
      have fits : Vars.holders id s.vars o + 1 < 2 ^ 31 := (counted.alive o count here).2
      have one := less o
      rw [points] at one
      simp only [id, Vars.worth_self, Vars.worth_none, Nat.add_zero] at one
      apply counted.change
      · intro o' other
        have same := less o'
        rw [points] at same
        simpa [Vars.worth_of_ne other.symm] using same
      · rw [Nat.add_comm 1, one]
      · omega

/-- What points at an object when a variable was cleared. -/
theorem pointing_clear (alive : x ∈ s.vars.live) (o : O) :
    (s.clear x).pointing o + Vars.worth (s.vars.val x) o = s.pointing o := by
  have written := Vars.holders_set id s.vars alive none o
  have same : (s.clear x).pointing o = Vars.holders id (s.vars.set x none) o := by
    unfold pointing Vars.holders
    rw [live_clear, Vars.live_set]
    congr 1
    apply Finset.filter_congr
    intro y member
    rw [val_clear]
    by_cases here : y = x
    · rw [here, if_pos rfl, Vars.val_set_self]
    · rw [if_neg here, Vars.val_set_of_ne _ _ here]
  rw [same]
  simpa using written

/-! ## The other steps -/

omit [DecidableEq V] in
theorem counted_start : Counted (start : Refs V O) where
  alive o count here := by cases here
  gone o here := rfl

omit [DecidableEq V] in
theorem Counted.newObject (counted : Counted s) {o : O} (fresh : s.refCount o = none) :
    Counted (s.setCount o (some 1)) := by
  have nothing : s.pointing o = 0 := counted.gone o fresh
  show Counted ⟨s.vars, Function.update s.refCount o (some 1)⟩
  apply counted.change
  · intro o' other
    rfl
  · rw [show Vars.holders id s.vars o = 0 from nothing]
    rfl
  · rw [show Vars.holders id s.vars o = 0 from nothing]
    decide

theorem Counted.construct (counted : Counted s) (new : x ∉ s.vars.live) {ptr : Option O}
    (there : ∀ o, ptr = some o → ∃ count, s.refCount o = some count)
    (room : ∀ o, ptr = some o → s.Room o) : Counted (s.construct x ptr) := by
  have added := Vars.holders_add id s.vars new ptr
  have written : (s.vars.add x ptr).val x = ptr := Vars.val_add_self _ _ _
  unfold Refs.construct incRef
  dsimp only
  rw [written]
  cases ptr with
  | none => exact counted.keep added
  | some o =>
      obtain ⟨count, here⟩ := there o rfl
      have shared := counted.share here (room o rfl) added
      show Counted ⟨s.vars.add x (some o),
        Function.update s.refCount o ((s.refCount o).map (· + 1))⟩
      rw [here]
      exact shared

theorem Counted.moveConstruct (counted : Counted s) (new : x ∉ s.vars.live)
    (alive : other ∈ s.vars.live) : Counted (s.moveConstruct x other) :=
  counted.keep (Vars.holders_addMove id s.vars new alive rfl)

/-- A variable that points nowhere comes to share the object of another. -/
theorem Counted.copy (counted : Counted s) (alive : x ∈ s.vars.live)
    (alive' : other ∈ s.vars.live) (empty : s.vars.val x = none)
    (room : ∀ o, s.vars.val other = some o → s.Room o) :
    Counted ((s.write x (s.vars.val other)).incRef x) := by
  have more := Vars.holders_set id s.vars alive (s.vars.val other)
  rw [empty] at more
  simp only [id, Vars.worth_none, Nat.add_zero] at more
  have written : (s.vars.set x (s.vars.val other)).val x = s.vars.val other :=
    Vars.val_set_self _ _ _
  unfold incRef
  show Counted (match (s.vars.set x (s.vars.val other)).val x with
    | some o => ((s.write x (s.vars.val other)).atomicAdd o 1).2
    | none => s.write x (s.vars.val other))
  rw [written]
  cases points : s.vars.val other with
  | none =>
      rw [points] at more
      exact counted.keep more
  | some o =>
      obtain ⟨count, here⟩ := counted.exists_count alive' points
      rw [points] at more
      have shared := counted.share here (room o points) more
      show Counted ⟨s.vars.set x (some o),
        Function.update s.refCount o ((s.refCount o).map (· + 1))⟩
      rw [here]
      exact shared

theorem Counted.copyAssign (counted : Counted s) (alive : x ∈ s.vars.live)
    (alive' : other ∈ s.vars.live)
    (room : ∀ o, s.vars.val other = some o → s.vars.val x ≠ some o → s.Room o) :
    Counted (s.copyAssign x other) := by
  have cleared := counted.clear alive
  apply cleared.copy (by rwa [live_clear]) (by rwa [live_clear]) val_clear_self
  intro o points
  rw [val_clear] at points
  split at points
  case isTrue same => cases points
  case isFalse other_ =>
    -- there is room as `clear` made it, or as there was
    have less := pointing_clear alive o
    show (s.clear x).pointing o + 2 < 2 ^ 31
    by_cases shares : s.vars.val x = some o
    · obtain ⟨count, here⟩ := counted.exists_count alive shares
      have fits := (counted.alive o count here).2
      rw [shares, Vars.worth_self] at less
      omega
    · have before : s.pointing o + 2 < 2 ^ 31 := room o points shares
      omega

theorem Counted.moveAssign (counted : Counted s) (alive : x ∈ s.vars.live)
    (alive' : other ∈ s.vars.live) : Counted (s.moveAssign x other) := by
  have cleared := counted.clear alive
  rw [← live_clear (x := x)] at alive alive'
  have moved := Vars.holders_move id (s.clear x).vars alive alive' (a := none) rfl
  rw [val_clear_self] at moved
  exact cleared.keep moved

theorem Counted.destroy (counted : Counted s) (alive : x ∈ s.vars.live) :
    Counted (s.destroy x) := by
  have cleared := counted.clear alive
  have removed := Vars.holders_remove id (s.clear x).vars (x := x) (by rwa [live_clear])
  rw [val_clear_self] at removed
  exact cleared.keep removed

/-- **Every step that has room keeps the counts.** -/
theorem Counted.step (counted : Counted s) {op : RefOp V O} (room : HasRoom s op) {s' : Refs V O}
    (stepped : s.step op = some s') : Counted s' := by
  cases op with
  | newObject o =>
      obtain ⟨fresh, rfl⟩ := possible_iff.mp stepped
      exact counted.newObject fresh
  | default x =>
      obtain ⟨new, rfl⟩ := possible_iff.mp stepped
      exact counted.keep (Vars.holders_add id s.vars new none)
  | construct x ptr =>
      obtain ⟨⟨new, there⟩, rfl⟩ := possible_iff.mp stepped
      apply counted.construct new _ room
      rintro o rfl
      exact Option.isSome_iff_exists.mp there
  | copyConstruct x other =>
      obtain ⟨⟨new, alive⟩, rfl⟩ := possible_iff.mp stepped
      exact counted.construct new (fun o points => counted.exists_count alive points) room
  | moveConstruct x other =>
      obtain ⟨⟨new, alive⟩, rfl⟩ := possible_iff.mp stepped
      exact counted.moveConstruct new alive
  | copyAssign x other =>
      obtain ⟨⟨alive, alive'⟩, rfl⟩ := possible_iff.mp stepped
      exact counted.copyAssign alive alive' room
  | moveAssign x other =>
      obtain ⟨⟨alive, alive'⟩, rfl⟩ := possible_iff.mp stepped
      exact counted.moveAssign alive alive'
  | clear x =>
      obtain ⟨alive, rfl⟩ := possible_iff.mp stepped
      exact counted.clear alive
  | destroy x =>
      obtain ⟨alive, rfl⟩ := possible_iff.mp stepped
      exact counted.destroy alive

/-! ## Copy assignment -/

/-- Both variables point to what the second pointed to. -/
def Copied (s : Refs V O) (x other : V) (s' : Refs V O) : Prop :=
  s'.vars.val x = s.vars.val other ∧ s'.vars.val other = s.vars.val other

theorem val_copyAssign (s : Refs V O) (x other y : V) :
    (s.copyAssign x other).vars.val y =
      if y = x then (if other = x then none else s.vars.val other) else s.vars.val y := by
  have vars : (s.copyAssign x other).vars =
      (s.clear x).vars.set x ((s.clear x).vars.val other) := by
    unfold Refs.copyAssign incRef
    dsimp only
    split <;> rfl
  rw [vars, ← val_clear]
  by_cases here : y = x
  · rw [here, Vars.val_set_self, if_pos rfl]
  · rw [Vars.val_set_of_ne _ _ here, if_neg here, val_clear, if_neg here]

/-- A copy assignment misses exactly when a variable that points somewhere is assigned to
itself. -/
theorem copied_iff (s : Refs V O) (x other : V) :
    Copied s x other (s.copyAssign x other) ↔ (x = other → s.vars.val x = none) := by
  unfold Copied
  rw [val_copyAssign, val_copyAssign, if_pos rfl]
  by_cases same : x = other
  · subst same
    simp [eq_comm]
  · simp [same, Ne.symm same]

/-- Where a step is a copy assignment, it copies. -/
def CopiesRight (s : Refs V O) (op : RefOp V O) : Prop :=
  ∀ x other s', op = .copyAssign x other → s.step op = some s' → Copied s x other s'

/-- A variable that points at an object is not assigned to itself. -/
def NotItself (s : Refs V O) (op : RefOp V O) : Prop :=
  ∀ x, op = .copyAssign x x → s.vars.val x = none

theorem copiesRight_iff {op : RefOp V O} {s' : Refs V O} (stepped : s.step op = some s') :
    CopiesRight s op ↔ NotItself s op := by
  constructor
  · rintro right x rfl
    obtain ⟨alive, rfl⟩ := possible_iff.mp stepped
    exact (copied_iff s x x).mp (right x x _ rfl stepped) rfl
  · rintro notItself x other s'' rfl here
    obtain ⟨alive, rfl⟩ := possible_iff.mp here
    rw [copied_iff]
    rintro rfl
    exact notItself x rfl

/-- **The counts are exact**, and the copy assignments of a run right exactly if none is of a
variable to itself. -/
theorem ref_counts_exact {ops : List (RefOp V O)} {s : Refs V O}
    (ran : run step start ops = some s) (room : AlongRun step HasRoom start ops) :
    s.Exact ∧ (AlongRun step CopiesRight start ops ↔ AlongRun step NotItself start ops) := by
  constructor
  · have counted := run_inv_of Counted
      (fun s op s' counted room stepped => counted.step room stepped) counted_start room ran
    exact counted.exact
  · exact alongRun_congr (fun s op s' stepped => copiesRight_iff stepped) ran

/-- Two variables share an object, and one of them is assigned over by a third. -/
def shares : List (RefOp Nat Char) :=
  [.newObject 'o', .newObject 'p', .construct 0 (some 'o'), .copyConstruct 1 0,
    .construct 2 (some 'p'), .copyAssign 1 2, .clear 0]

theorem ref_counts_exact_shares : ∃ s, run step start shares = some s ∧
    s.refCount 'o' = some 1 ∧ s.refCount 'p' = some 3 ∧ s.Exact ∧
      AlongRun step CopiesRight start shares := by
  have room : AlongRun step HasRoom start shares := by decide +kernel
  have exact_ := ref_counts_exact rfl room
  refine ⟨_, rfl, by decide, by decide, exact_.1, exact_.2.mpr ?_⟩
  simp [shares, AlongRun, NotItself]

/-- **Refuted**: a variable is assigned to itself, and points nowhere. -/
theorem ref_counts_exact_refuted :
    ¬ ∀ (ops : List (RefOp Nat Char)) (s : Refs Nat Char), run step start ops = some s →
      s.Exact ∧ AlongRun step CopiesRight start ops := by
  intro always
  have right := (always [.newObject 'o', .construct 0 (some 'o'), .copyAssign 0 0] _ rfl).2
  have copied := (right.2 _ rfl).2 _ rfl |>.1 0 0 _ rfl rfl
  exact absurd copied.1 (by decide)

end Refs

end UdpStuff.Utils
