/-
# Conn.ChannelHandler — who destroys a channel handler

A `PeerChannelHandler` calls `destroy(arg)` when it is destroyed.  Its move
constructor and its move assignment are the defaulted ones: they copy the pointers
and leave the source as it is, and assignment drops the pointers that stood there.

The state holds the live objects, and beside them what is counted: the
handlers constructed so far, which of them each object has its pointers from, and
the calls.  `handlers_kept` says which runs call every handler once;
`allows_of_kept` that any other step has a run in which they do not.
-/
import UdpStuff.Conn.Handler
import Mathlib.Logic.Function.Basic

namespace UdpStuff.Conn

set_option autoImplicit false

/-- `PeerChannelHandler`: the maximal size and four pointers. -/
structure PeerChannelHandler where
  maxDataSize : UInt32 := 0
  onData : Nat := 0
  showDescription : Nat := 0
  destroy : Nat := 0
  arg : Nat := 0
deriving DecidableEq

/-- Where an object stands: a variable or a temporary, or a node of the map
`open_channel_handlers` of a peer. -/
inductive Place where
  | var (name : Nat)
  | node (peer : Nat) (type : UInt32)
deriving DecidableEq

/-- An object, and the number of the constructed handler it has its members from. -/
structure HandlerObject where
  handler : PeerChannelHandler
  made : Nat
deriving DecidableEq

/-- A call of `destroy(arg)` by the destructor of an object, and the objects that
were live besides that one. -/
structure DestroyCall where
  destroy : Nat
  arg : Nat
  made : Nat
  left : Place → Option HandlerObject

structure Handlers where
  objects : Place → Option HandlerObject := fun _ => none
  made : List PeerChannelHandler := []
  calls : List DestroyCall := []

/-- What a program does with handlers.  The default constructor, which a map runs
for a new key, constructs a handler of null pointers. -/
inductive HandlerOp where
  | construct (p : Place) (handler : PeerChannelHandler)
  | moveConstruct (dst src : Place)
  | moveAssign (dst src : Place)
  | destruct (p : Place)
deriving DecidableEq

namespace Handlers

open Function (update)

/-- `~PeerChannelHandler`: `if (destroy) destroy(arg);` -/
def destructor (s : Handlers) (p : Place) (o : HandlerObject) : Handlers :=
  let left := update s.objects p none
  if o.handler.destroy ≠ 0 then
    { s with
      objects := left
      calls := s.calls ++ [⟨o.handler.destroy, o.handler.arg, o.made, left⟩] }
  else { s with objects := left }

/-- One step; none where C++ gives the step no meaning, as objects are constructed
where none is and moved and destroyed where one is. -/
def step (s : Handlers) : HandlerOp → Option Handlers
  | .construct p handler =>
    match s.objects p with
    | some _ => none
    | none => some { s with
        objects := update s.objects p (some ⟨handler, s.made.length⟩)
        made := s.made ++ [handler] }
  | .moveConstruct dst src =>
    match s.objects dst, s.objects src with
    | none, some o => some { s with objects := update s.objects dst (some o) }
    | _, _ => none
  | .moveAssign dst src =>
    match s.objects dst, s.objects src with
    | some _, some o => some { s with objects := update s.objects dst (some o) }
    | _, _ => none
  | .destruct p =>
    match s.objects p with
    | some o => some (s.destructor p o)
    | none => none

def run (s : Handlers) : List HandlerOp → Option Handlers
  | [] => some s
  | op :: rest => (s.step op).bind fun next => next.run rest

/-! ## The map

What `std::unordered_map` does with `open_channel_handlers` are steps on its nodes,
which stay where they are as long as they live: `erase` destructs one, and a move out
of the map has a node as its source. -/

/-- `emplace(type, std::move(src))` -/
def emplace (s : Handlers) (peer : Nat) (type : UInt32) (src : Place) : List HandlerOp :=
  if (s.objects (.node peer type)).isSome then [] else [.moveConstruct (.node peer type) src]

/-- `open_channel_handlers[type] = std::move(src)` -/
def assignAt (s : Handlers) (peer : Nat) (type : UInt32) (src : Place) : List HandlerOp :=
  if (s.objects (.node peer type)).isSome then [.moveAssign (.node peer type) src]
  else [.construct (.node peer type) {}, .moveAssign (.node peer type) src]

/-! ## Every handler destroyed once -/

/-- Some live object has the members of the `k`-th constructed handler. -/
def Held (s : Handlers) (k : Nat) : Prop := ∃ p o, s.objects p = some o ∧ o.made = k

/-- How often the `k`-th constructed handler was destroyed. -/
def callsOf (s : Handlers) (k : Nat) : Nat := (s.calls.map DestroyCall.made).count k

/-- What ownership means: a call is for a constructed handler and leaves no live
object with its argument; no handler gets two; and one that nobody holds any more
had its own. -/
structure Kept (s : Handlers) : Prop where
  genuine : ∀ c ∈ s.calls, ∃ h, s.made[c.made]? = some h ∧ c.destroy = h.destroy ∧ c.arg = h.arg
  exclusive : ∀ c ∈ s.calls, ∀ p o, c.left p = some o → o.handler.arg ≠ c.arg
  once : ∀ k, s.callsOf k ≤ 1
  complete : ∀ k h, s.made[k]? = some h → h.destroy ≠ 0 → ¬ s.Held k → s.callsOf k = 1

/-- The steps that keep it: a handler whose `destroy` is set is neither moved from
nor assigned over, and none is constructed with the argument of a live one. -/
def Allows (s : Handlers) : HandlerOp → Prop
  | .construct _ handler => ∀ q o, s.objects q = some o → o.handler.arg = handler.arg →
      o.handler.destroy = 0 ∧ handler.destroy = 0
  | .moveConstruct _ src => ∀ o, s.objects src = some o → o.handler.destroy = 0
  | .moveAssign dst src => dst = src ∨ ∀ o old, s.objects src = some o → s.objects dst = some old →
      o.handler.destroy = 0 ∧ old.handler.destroy = 0
  | .destruct _ => True

/-- A run of such steps. -/
def AllowsAll (s : Handlers) : List HandlerOp → Prop
  | [] => True
  | op :: rest => s.Allows op ∧ ∀ next, s.step op = some next → next.AllowsAll rest

/-! ## What a step does -/

theorem step_construct {s t : Handlers} {p : Place} {handler : PeerChannelHandler} :
    s.step (.construct p handler) = some t ↔ s.objects p = none ∧
      t = { s with
        objects := update s.objects p (some ⟨handler, s.made.length⟩)
        made := s.made ++ [handler] } := by
  rw [step]
  cases here : s.objects p with
  | none => simp [eq_comm]
  | some o => simp

theorem step_moveConstruct {s t : Handlers} {dst src : Place} :
    s.step (.moveConstruct dst src) = some t ↔ s.objects dst = none ∧
      ∃ o, s.objects src = some o ∧ t = { s with objects := update s.objects dst (some o) } := by
  rw [step]
  cases there : s.objects dst with
  | none => cases here : s.objects src <;> simp [eq_comm]
  | some old => simp

theorem step_moveAssign {s t : Handlers} {dst src : Place} :
    s.step (.moveAssign dst src) = some t ↔ ∃ old o, s.objects dst = some old ∧
      s.objects src = some o ∧ t = { s with objects := update s.objects dst (some o) } := by
  rw [step]
  cases there : s.objects dst with
  | none => simp
  | some old => cases here : s.objects src <;> simp [eq_comm]

theorem step_destruct {s t : Handlers} {p : Place} :
    s.step (.destruct p) = some t ↔ ∃ o, s.objects p = some o ∧ t = s.destructor p o := by
  rw [step]
  cases here : s.objects p <;> simp [eq_comm]

/-! ## The invariant -/

/-- Objects that share an argument have no `destroy`, and a handler that has one is
held and was never destroyed, or was destroyed once and is held no more. -/
structure Sound (s : Handlers) : Prop where
  known : ∀ p o, s.objects p = some o → s.made[o.made]? = some o.handler
  alone : ∀ p q o other, s.objects p = some o → s.objects q = some other → p ≠ q →
    o.handler.arg = other.handler.arg → o.handler.destroy = 0 ∧ other.handler.destroy = 0
  genuine : ∀ c ∈ s.calls, ∃ h, s.made[c.made]? = some h ∧ h.destroy ≠ 0 ∧
    c.destroy = h.destroy ∧ c.arg = h.arg
  exclusive : ∀ c ∈ s.calls, ∀ p o, c.left p = some o → o.handler.arg ≠ c.arg
  owed : ∀ k h, s.made[k]? = some h → h.destroy ≠ 0 →
    s.Held k ∧ s.callsOf k = 0 ∨ ¬ s.Held k ∧ s.callsOf k = 1

theorem sound_fresh : Sound {} where
  known p o here := by cases here
  alone p q o other here := by cases here
  genuine c member := by cases member
  exclusive c member := by cases member
  owed k h made := by cases made

theorem callsOf_pos {s : Handlers} {k : Nat} (called : 0 < s.callsOf k) :
    ∃ c ∈ s.calls, c.made = k := by
  obtain ⟨c, member, same⟩ := List.mem_map.mp (List.count_pos_iff.mp called)
  exact ⟨c, member, same⟩

theorem Sound.kept {s : Handlers} (sound : Sound s) : Kept s where
  genuine c member := by
    obtain ⟨h, made, -, rest⟩ := sound.genuine c member
    exact ⟨h, made, rest⟩
  exclusive := sound.exclusive
  once k := by
    rcases Nat.eq_zero_or_pos (s.callsOf k) with none | some
    · rw [none]
      exact Nat.zero_le 1
    · obtain ⟨c, member, rfl⟩ := callsOf_pos some
      obtain ⟨h, made, set, -⟩ := sound.genuine c member
      rcases sound.owed c.made h made set with ⟨-, count⟩ | ⟨-, count⟩ <;> omega
  complete k h made set gone := by
    rcases sound.owed k h made set with ⟨held, -⟩ | ⟨-, count⟩
    · exact absurd held gone
    · exact count

/-- What stands at a place after one place was written. -/
theorem update_eq_some {objects : Place → Option HandlerObject} {p q : Place}
    {x : Option HandlerObject} {o : HandlerObject} :
    update objects p x q = some o ↔ q = p ∧ x = some o ∨ q ≠ p ∧ objects q = some o := by
  by_cases place : q = p
  · rw [place, Function.update_self]
    simp
  · rw [Function.update_of_ne place]
    simp [place]

theorem ne_of_free {objects : Place → Option HandlerObject} {p q : Place} {o : HandlerObject}
    (free : objects p = none) (here : objects q = some o) : q ≠ p := by
  rintro rfl
  rw [free] at here
  cases here

/-- Who holds a handler after one place was written. -/
theorem held_update {s : Handlers} {p : Place} {x : Option HandlerObject} {k : Nat} :
    ({ s with objects := update s.objects p x } : Handlers).Held k ↔
      (∃ o, x = some o ∧ o.made = k) ∨ ∃ q o, q ≠ p ∧ s.objects q = some o ∧ o.made = k := by
  constructor
  · rintro ⟨q, o, here, same⟩
    rcases update_eq_some.mp here with ⟨-, new⟩ | ⟨place, old⟩
    · exact .inl ⟨o, new, same⟩
    · exact .inr ⟨q, o, place, old, same⟩
  · rintro (⟨o, new, same⟩ | ⟨q, o, place, old, same⟩)
    · exact ⟨p, o, update_eq_some.mpr (.inl ⟨rfl, new⟩), same⟩
    · exact ⟨q, o, update_eq_some.mpr (.inr ⟨place, old⟩), same⟩

/-- A handler that has a `destroy` is held only by objects that have it. -/
theorem Sound.set_of_made {s : Handlers} (sound : Sound s) {p : Place} {o : HandlerObject}
    {h : PeerChannelHandler} (here : s.objects p = some o) (made : s.made[o.made]? = some h)
    (set : h.destroy ≠ 0) : o.handler.destroy ≠ 0 := by
  have known := sound.known p o here
  rw [made] at known
  injection known with same
  rwa [← same]

/-- Copies of a handler without `destroy`, over another or over nothing. -/
theorem Sound.put {s : Handlers} (sound : Sound s) {dst src : Place} {o : HandlerObject}
    (here : s.objects src = some o) (clear : o.handler.destroy = 0)
    (there : ∀ old, s.objects dst = some old → old.handler.destroy = 0) :
    Sound { s with objects := update s.objects dst (some o) } where
  known p other place := by
    rcases update_eq_some.mp place with ⟨-, new⟩ | ⟨-, old⟩
    · cases new
      exact sound.known src o here
    · exact sound.known p other old
  alone p q a b first second differ arg := by
    -- an object at another place with the argument of `o` has no `destroy` either
    have others (r : Place) (c : HandlerObject) (place : s.objects r = some c)
        (same : c.handler.arg = o.handler.arg) : c.handler.destroy = 0 := by
      by_cases source : r = src
      · rw [source, here] at place
        cases place
        exact clear
      · exact (sound.alone r src c o place here source same).1
    rcases update_eq_some.mp first with ⟨left, new⟩ | ⟨-, first⟩
    · cases new
      rcases update_eq_some.mp second with ⟨right, -⟩ | ⟨-, second⟩
      · exact absurd (left.trans right.symm) differ
      · exact ⟨clear, others q b second arg.symm⟩
    · rcases update_eq_some.mp second with ⟨-, new⟩ | ⟨-, second⟩
      · cases new
        exact ⟨others p a first arg, clear⟩
      · exact sound.alone p q a b first second differ arg
  genuine := sound.genuine
  exclusive := sound.exclusive
  owed k h made set := by
    have held : ({ s with objects := update s.objects dst (some o) } : Handlers).Held k ↔
        s.Held k := by
      rw [held_update]
      constructor
      · rintro (⟨other, same, rfl⟩ | ⟨q, other, -, place, same⟩)
        · cases same
          exact absurd clear (sound.set_of_made here made set)
        · exact ⟨q, other, place, same⟩
      · rintro ⟨q, other, place, rfl⟩
        refine .inr ⟨q, other, ?_, place, rfl⟩
        rintro rfl
        exact sound.set_of_made place made set (there other place)
    rw [held]
    exact sound.owed k h made set

/-- A handler keeps its number. -/
theorem made_append {made : List PeerChannelHandler} {k : Nat} {h handler : PeerChannelHandler}
    (known : made[k]? = some h) : (made ++ [handler])[k]? = some h := by
  rw [List.getElem?_append_left (List.getElem?_eq_some_iff.mp known).1]
  exact known

/-- A handler constructed with an argument of its own. -/
theorem Sound.construct {s : Handlers} (sound : Sound s) {p : Place}
    {handler : PeerChannelHandler} (free : s.objects p = none)
    (allows : s.Allows (.construct p handler)) :
    Sound { s with
      objects := update s.objects p (some ⟨handler, s.made.length⟩)
      made := s.made ++ [handler] } where
  known q o place := by
    rcases update_eq_some.mp place with ⟨-, new⟩ | ⟨-, old⟩
    · cases new
      exact List.getElem?_concat_length
    · exact made_append (sound.known q o old)
  alone q r a b first second differ arg := by
    rcases update_eq_some.mp first with ⟨left, new⟩ | ⟨-, first⟩
    · cases new
      rcases update_eq_some.mp second with ⟨right, -⟩ | ⟨-, second⟩
      · exact absurd (left.trans right.symm) differ
      · exact (allows r b second arg.symm).symm
    · rcases update_eq_some.mp second with ⟨-, new⟩ | ⟨-, second⟩
      · cases new
        exact allows q a first arg
      · exact sound.alone q r a b first second differ arg
  genuine c member := by
    obtain ⟨h, made, rest⟩ := sound.genuine c member
    exact ⟨h, made_append made, rest⟩
  exclusive := sound.exclusive
  owed k h made set := by
    have held : ({ s with
        objects := update s.objects p (some ⟨handler, s.made.length⟩)
        made := s.made ++ [handler] } : Handlers).Held k ↔ k = s.made.length ∨ s.Held k := by
      refine held_update.trans (or_congr ?_ ?_)
      · constructor
        · rintro ⟨o, new, rfl⟩
          cases new
          rfl
        · rintro rfl
          exact ⟨_, rfl, rfl⟩
      · constructor
        · rintro ⟨q, o, -, place, same⟩
          exact ⟨q, o, place, same⟩
        · rintro ⟨q, o, place, same⟩
          exact ⟨q, o, ne_of_free free place, place, same⟩
    rw [held]
    dsimp only at made
    rcases Nat.lt_trichotomy k s.made.length with old | rfl | beyond
    · rw [List.getElem?_append_left old] at made
      have differ : k ≠ s.made.length := Nat.ne_of_lt old
      simpa [differ, callsOf] using sound.owed k h made set
    · refine .inl ⟨.inl rfl, ?_⟩
      -- no call was for a handler not constructed yet
      rcases Nat.eq_zero_or_pos (s.callsOf s.made.length) with none | some
      · exact none
      · obtain ⟨c, member, same⟩ := callsOf_pos some
        obtain ⟨h, known, -⟩ := sound.genuine c member
        have bound := (List.getElem?_eq_some_iff.mp known).1
        omega
    · rw [List.getElem?_eq_none (by rw [List.length_append, List.length_singleton]; omega)] at made
      cases made

/-- Who holds a handler after an object left. -/
theorem held_remove {s : Handlers} {p : Place} {o : HandlerObject} (here : s.objects p = some o)
    {k : Nat} (other : o.made ≠ k) :
    ({ s with objects := update s.objects p none } : Handlers).Held k ↔ s.Held k := by
  rw [held_update]
  constructor
  · rintro (⟨a, none, -⟩ | ⟨q, a, -, place, same⟩)
    · cases none
    · exact ⟨q, a, place, same⟩
  · rintro ⟨q, a, place, same⟩
    refine .inr ⟨q, a, ?_, place, same⟩
    rintro rfl
    rw [here] at place
    cases place
    exact other same

/-- An object with a `destroy` is the only one of its handler. -/
theorem Sound.held_remove_self {s : Handlers} (sound : Sound s) {p : Place} {o : HandlerObject}
    (here : s.objects p = some o) (set : o.handler.destroy ≠ 0) :
    ¬ ({ s with objects := update s.objects p none } : Handlers).Held o.made := by
  rw [held_update]
  rintro (⟨a, none, -⟩ | ⟨q, a, differ, place, same⟩)
  · cases none
  · have first := sound.known q a place
    have second := sound.known p o here
    rw [same, second] at first
    injection first with handler
    exact set (sound.alone q p a o place here differ (by rw [handler])).2

/-- An object leaves, with the call of its destructor. -/
theorem Sound.destructor {s : Handlers} (sound : Sound s) {p : Place} {o : HandlerObject}
    (here : s.objects p = some o) : Sound (s.destructor p o) := by
  have remains (q : Place) (other : HandlerObject)
      (place : update s.objects p none q = some other) : q ≠ p ∧ s.objects q = some other := by
    rcases update_eq_some.mp place with ⟨-, new⟩ | old
    · cases new
    · exact old
  have known : ∀ q other, update s.objects p none q = some other →
      s.made[other.made]? = some other.handler := by
    intro q other place
    exact sound.known q other (remains q other place).2
  have alone : ∀ q r a b, update s.objects p none q = some a →
      update s.objects p none r = some b → q ≠ r → a.handler.arg = b.handler.arg →
      a.handler.destroy = 0 ∧ b.handler.destroy = 0 := by
    intro q r a b first second
    exact sound.alone q r a b (remains q a first).2 (remains r b second).2
  by_cases set : o.handler.destroy ≠ 0
  · rw [Handlers.destructor, if_pos set]
    refine ⟨known, alone, ?_, ?_, ?_⟩
    · intro c member
      rcases List.mem_append.mp member with old | new
      · exact sound.genuine c old
      · rw [List.mem_singleton.mp new]
        exact ⟨o.handler, sound.known p o here, set, rfl, rfl⟩
    · intro c member
      rcases List.mem_append.mp member with old | new
      · exact sound.exclusive c old
      · rw [List.mem_singleton.mp new]
        intro q other place arg
        obtain ⟨differ, place⟩ := remains q other place
        exact set (sound.alone q p other o place here differ arg).2
    · intro k h made owes
      have counted (calls : List DestroyCall) (c : DestroyCall) :
          ((calls ++ [c]).map DestroyCall.made).count k =
            (calls.map DestroyCall.made).count k + if c.made = k then 1 else 0 := by
        simp [List.count_singleton]
      have old := sound.owed k h made owes
      by_cases mine : o.made = k
      · have held : s.Held k := ⟨p, o, here, mine⟩
        have gone := sound.held_remove_self here set
        rw [mine] at gone
        refine .inr ⟨gone, ?_⟩
        rw [callsOf, counted, if_pos mine]
        rcases old with ⟨-, count⟩ | ⟨gone, -⟩
        · rw [← callsOf, count]
        · exact absurd held gone
      · have same := held_remove here mine
        rw [callsOf, counted, if_neg mine]
        exact Or.imp (And.imp_left same.mpr) (And.imp_left (mt same.mp)) old
  · rw [Handlers.destructor, if_neg set]
    refine ⟨known, alone, sound.genuine, sound.exclusive, ?_⟩
    intro k h made owes
    have other : o.made ≠ k := by
      rintro rfl
      exact sound.set_of_made here made owes (not_not.mp set)
    have same := held_remove here other
    exact Or.imp (And.imp_left same.mpr) (And.imp_left (mt same.mp)) (sound.owed k h made owes)

/-! ## Runs -/

theorem run_append (s : Handlers) (front rest : List HandlerOp) :
    s.run (front ++ rest) = (s.run front).bind fun t => t.run rest := by
  induction front generalizing s with
  | nil => rfl
  | cons op front ih =>
      rw [List.cons_append, run, run, Option.bind_assoc]
      exact congrArg _ (funext ih)

theorem Sound.step {s t : Handlers} (sound : Sound s) {op : HandlerOp} (allows : s.Allows op)
    (next : s.step op = some t) : Sound t := by
  cases op with
  | construct p handler =>
      obtain ⟨free, rfl⟩ := step_construct.mp next
      exact sound.construct free allows
  | moveConstruct dst src =>
      obtain ⟨free, o, here, rfl⟩ := step_moveConstruct.mp next
      refine sound.put here (allows o here) ?_
      intro old there
      rw [free] at there
      cases there
  | moveAssign dst src =>
      obtain ⟨old, o, there, here, rfl⟩ := step_moveAssign.mp next
      rcases allows with rfl | clear
      · rw [← here, Function.update_eq_self]
        exact sound
      · obtain ⟨new, before⟩ := clear o old here there
        refine sound.put here new ?_
        intro other place
        rw [there] at place
        cases place
        exact before
  | destruct p =>
      obtain ⟨o, here, rfl⟩ := step_destruct.mp next
      exact sound.destructor here

theorem Sound.run {s t : Handlers} (sound : Sound s) {ops : List HandlerOp}
    (allows : s.AllowsAll ops) (ran : s.run ops = some t) : Sound t := by
  induction ops generalizing s with
  | nil =>
      cases ran
      exact sound
  | cons op rest ih =>
      obtain ⟨next, first, later⟩ := Option.bind_eq_some_iff.mp ran
      exact ih (sound.step allows.1 first) (allows.2 next first) later

/-- **Without moves of handlers that have a `destroy`, every one is destroyed once**,
and while no live object has its argument. -/
theorem handlers_kept {ops : List HandlerOp} {s : Handlers} (ran : run {} ops = some s)
    (allows : AllowsAll {} ops) : s.Kept :=
  (sound_fresh.run allows ran).kept

/-- A handler destroyed in its place, and one without `destroy` moved into the map. -/
theorem handlers_kept_moved :
    ∃ s : Handlers, run {} [.construct (.var 0) { destroy := 7, arg := 1 },
      .construct (.var 1) { arg := 2 }, .moveConstruct (.node 0 5) (.var 1),
      .destruct (.var 0)] = some s ∧ s.Kept := by
  have allows : AllowsAll {} [.construct (.var 0) { destroy := 7, arg := 1 },
      .construct (.var 1) { arg := 2 }, .moveConstruct (.node 0 5) (.var 1),
      .destruct (.var 0)] := by
    refine ⟨fun q o here => (by cases here), fun next first => ?_⟩
    cases first
    refine ⟨fun q o here arg => ?_, fun next second => ?_⟩
    · by_cases place : q = .var 0
      · rw [place] at here
        cases here
        exact absurd arg (by decide)
      · dsimp only at here
        rw [Function.update_of_ne place] at here
        cases here
    · cases second
      refine ⟨fun o here => ?_, fun next third => ⟨trivial, fun _ _ => trivial⟩⟩
      cases here
      rfl
  exact ⟨_, rfl, handlers_kept rfl allows⟩

/-- The destructor that shows it: a call while another object has the argument. -/
theorem not_kept_of_shared {s : Handlers} {p q : Place} {o other : HandlerObject}
    (here : s.objects p = some o) (set : o.handler.destroy ≠ 0) (differ : q ≠ p)
    (there : s.objects q = some other) (arg : other.handler.arg = o.handler.arg) :
    ∃ t, s.step (.destruct p) = some t ∧ ¬ t.Kept := by
  refine ⟨_, step_destruct.mpr ⟨o, here, rfl⟩, ?_⟩
  intro kept
  rw [destructor, if_pos set] at kept
  refine kept.exclusive _ (List.mem_append_right _ (List.mem_singleton_self _)) q other ?_ arg
  dsimp only
  rw [Function.update_of_ne differ, there]

/-- **A handler with a `destroy` cannot be put into the map**: however it gets there,
it stays where it was too. -/
theorem not_kept_inserted {s : Handlers} {peer : Nat} {type : UInt32} {src : Place}
    {o : HandlerObject} (differ : src ≠ .node peer type) (here : s.objects src = some o)
    (set : o.handler.destroy ≠ 0) {ops : List HandlerOp}
    (inserts : ops = s.emplace peer type src ∧ s.objects (.node peer type) = none ∨
      ops = s.assignAt peer type src) :
    ∃ t, s.run (ops ++ [.destruct src]) = some t ∧ ¬ t.Kept := by
  have moved : ∃ u, s.run ops = some u ∧ u.objects (.node peer type) = some o ∧
      u.objects src = some o := by
    have put : update s.objects (.node peer type) (some o) (.node peer type) = some o :=
      Function.update_self _ _ _
    rcases inserts with ⟨rfl, free⟩ | rfl
    · rw [emplace, free]
      refine ⟨{ s with objects := update s.objects (.node peer type) (some o) }, ?_, put, ?_⟩
      · simp [run, step, free, here]
      · dsimp only
        rw [Function.update_of_ne differ, here]
    · rw [assignAt]
      cases old : s.objects (.node peer type) with
      | some other =>
          refine ⟨{ s with objects := update s.objects (.node peer type) (some o) }, ?_, put, ?_⟩
          · simp [run, step, old, here]
          · dsimp only
            rw [Function.update_of_ne differ, here]
      | none =>
          obtain ⟨fresh, value⟩ : ∃ fresh, update s.objects (.node peer type)
              (some ⟨{}, s.made.length⟩) = fresh := ⟨_, rfl⟩
          have source : fresh src = some o := by
            rw [← value, Function.update_of_ne differ, here]
          refine ⟨⟨update fresh (.node peer type) (some o), s.made ++ [({} : PeerChannelHandler)],
            s.calls⟩, ?_, Function.update_self _ _ _, ?_⟩
          · have node : fresh (.node peer type) = some ⟨{}, s.made.length⟩ := by
              rw [← value, Function.update_self]
            simp [run, step, old, value, node, source]
          · dsimp only
            rw [Function.update_of_ne differ, source]
  obtain ⟨u, ran, node, source⟩ := moved
  obtain ⟨t, destroyed, violated⟩ := not_kept_of_shared source set differ.symm node rfl
  refine ⟨t, ?_, violated⟩
  rw [run_append, ran]
  simp [run, destroyed]

/-- **Refuted**: a temporary emplaced and destroyed. -/
theorem handlers_kept_refuted :
    ¬ ∀ (ops : List HandlerOp) (s : Handlers), run {} ops = some s → s.Kept := by
  intro always
  have kept := always [.construct (.var 0) { destroy := 7, arg := 1 },
    .moveConstruct (.node 0 5) (.var 0), .destruct (.var 0)] _ rfl
  exact kept.exclusive _ (List.mem_singleton_self _) (.node 0 5) _ rfl rfl

/-- **No other step does**: after it, or after one more destructor, some handler was
destroyed too early or will not be destroyed at all. -/
theorem allows_of_kept {s t : Handlers} (sound : Sound s) {op : HandlerOp}
    (next : s.step op = some t) (kept : t.Kept)
    (after : ∀ p u, t.step (.destruct p) = some u → u.Kept) : s.Allows op := by
  have refuted {p q : Place} {o other : HandlerObject} (here : t.objects p = some o)
      (set : o.handler.destroy ≠ 0) (differ : q ≠ p) (there : t.objects q = some other)
      (arg : other.handler.arg = o.handler.arg) : False := by
    obtain ⟨u, destroyed, violated⟩ := not_kept_of_shared here set differ there arg
    exact violated (after p u destroyed)
  cases op with
  | construct p handler =>
      obtain ⟨free, rfl⟩ := step_construct.mp next
      intro q o place arg
      have differ : q ≠ p := ne_of_free free place
      have here : update s.objects p (some ⟨handler, s.made.length⟩) p =
          some ⟨handler, s.made.length⟩ := Function.update_self _ _ _
      have there : update s.objects p (some ⟨handler, s.made.length⟩) q = some o := by
        rw [Function.update_of_ne differ, place]
      constructor
      · by_contra set
        exact refuted there set differ.symm here arg.symm
      · by_contra set
        exact refuted here set differ there arg
  | moveConstruct dst src =>
      obtain ⟨free, o, here, rfl⟩ := step_moveConstruct.mp next
      intro other place
      rw [here] at place
      cases place
      have differ : src ≠ dst := ne_of_free free here
      by_contra set
      exact refuted (Function.update_self dst (some o) s.objects) set differ
        (by dsimp only; rw [Function.update_of_ne differ, here]) rfl
  | moveAssign dst src =>
      obtain ⟨old, o, there, here, rfl⟩ := step_moveAssign.mp next
      by_cases self : dst = src
      · exact .inl self
      · refine .inr ?_
        intro other before place past
        rw [here] at place
        rw [there] at past
        cases place
        cases past
        have source : o.handler.destroy = 0 := by
          by_contra set
          exact refuted (Function.update_self dst (some o) s.objects) set (Ne.symm self)
            (by dsimp only; rw [Function.update_of_ne (Ne.symm self), here]) rfl
        refine ⟨source, ?_⟩
        -- the handler assigned over is held by nobody, and was not destroyed
        by_contra set
        have made := sound.known dst old there
        have gone : ¬ ({ s with objects := update s.objects dst (some o) } : Handlers).Held
            old.made := by
          rw [held_update]
          rintro (⟨a, new, same⟩ | ⟨q, a, place, differ, same⟩)
          · cases new
            exact sound.set_of_made here (same ▸ made) set source
          · exact sound.held_remove_self there set
              (held_update.mpr (.inr ⟨q, a, place, differ, same⟩))
        have count := kept.complete old.made old.handler made set gone
        rcases sound.owed old.made old.handler made set with ⟨-, zero⟩ | ⟨gone, -⟩
        · exact absurd (zero.symm.trans count) (by decide)
        · exact gone ⟨dst, old, there, rfl⟩
  | destruct p => trivial

end Handlers

end UdpStuff.Conn
