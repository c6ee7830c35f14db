/-
# Theory.Monitor — data behind a lock, as it should be

A monitor has data and at most one owner, who alone accesses it.  Whatever the threads do, the
history of a monitor is one critical section after the other, and the data is what these make of
it in this order (`serializes_run`).  A lock is right if its histories are histories of a monitor.
-/
import UdpStuff.Theory.Runs

namespace UdpStuff.Theory

set_option autoImplicit false

universe u v

inductive MonitorEvent (T : Type u) (D : Type v) where
  | acquire (t : T)
  | access (t : T) (f : D → D)
  | release (t : T)

structure Monitor (T : Type u) (D : Type v) where
  owner : Option T
  data : D

/-- What one thread does from an acquire on. -/
structure CriticalSection (T : Type u) (D : Type v) where
  thread : T
  accesses : List (D → D)

namespace CriticalSection

variable {T : Type u} {D : Type v}

def opened (c : CriticalSection T D) : List (MonitorEvent T D) :=
  .acquire c.thread :: c.accesses.map (.access c.thread)

def closed (c : CriticalSection T D) : List (MonitorEvent T D) := c.opened ++ [.release c.thread]

def apply (d : D) (c : CriticalSection T D) : D := c.accesses.foldl (fun d f => f d) d

/-- Sections at one go, one after the other. -/
def serial (sections : List (CriticalSection T D)) (d : D) : D := sections.foldl apply d

end CriticalSection

namespace Monitor

open CriticalSection

variable {T : Type u} {D : Type v}

def step [DecidableEq T] (m : Monitor T D) : MonitorEvent T D → Option (Monitor T D)
  | .acquire t => if m.owner = none then some { m with owner := some t } else none
  | .access t f => if m.owner = some t then some { m with data := f m.data } else none
  | .release t => if m.owner = some t then some { m with owner := none } else none

/-- The history is one section after the other, the last of which may be open; its thread is the
owner. -/
structure SerialAs (d : D) (history : List (MonitorEvent T D)) (m : Monitor T D)
    (sections : List (CriticalSection T D)) (last : Option (CriticalSection T D)) : Prop where
  events : history = sections.flatMap closed ++ last.elim [] opened
  owner : m.owner = last.map thread
  data : m.data = serial (sections ++ last.toList) d

def Serializes (d : D) (history : List (MonitorEvent T D)) (m : Monitor T D) : Prop :=
  ∃ sections last, SerialAs d history m sections last

theorem serializes_start (d : D) : Serializes d [] (⟨none, d⟩ : Monitor T D) :=
  ⟨[], none, rfl, rfl, rfl⟩

/-- Who is in a section has opened it. -/
theorem SerialAs.last_of_owner {d : D} {history : List (MonitorEvent T D)} {m : Monitor T D}
    {sections : List (CriticalSection T D)} {last : Option (CriticalSection T D)}
    (as : SerialAs d history m sections last) {t : T} (owns : m.owner = some t) :
    ∃ accesses, last = some ⟨t, accesses⟩ := by
  rw [as.owner] at owns
  obtain ⟨c, here, rfl⟩ := Option.map_eq_some_iff.mp owns
  exact ⟨c.accesses, here⟩

variable [DecidableEq T]

theorem serializes_step {d : D} {history : List (MonitorEvent T D)} {m m' : Monitor T D}
    {e : MonitorEvent T D} (serializes : Serializes d history m) (stepped : m.step e = some m') :
    Serializes d (history ++ [e]) m' := by
  obtain ⟨sections, last, as⟩ := serializes
  cases e with
  | acquire t =>
      obtain ⟨free, rfl⟩ := possible_iff.mp stepped
      have none : last = none := by
        rw [as.owner] at free
        exact Option.map_eq_none_iff.mp free
      subst none
      refine ⟨sections, some ⟨t, []⟩, ?_, rfl, ?_⟩
      · simp [as.events, opened]
      · simp [as.data, serial, apply]
  | access t f =>
      obtain ⟨owns, rfl⟩ := possible_iff.mp stepped
      obtain ⟨accesses, rfl⟩ := as.last_of_owner owns
      refine ⟨sections, some ⟨t, accesses ++ [f]⟩, ?_, as.owner, ?_⟩
      · simp [as.events, opened]
      · simp [as.data, serial, apply]
  | release t =>
      obtain ⟨owns, rfl⟩ := possible_iff.mp stepped
      obtain ⟨accesses, rfl⟩ := as.last_of_owner owns
      refine ⟨sections ++ [⟨t, accesses⟩], none, ?_, rfl, ?_⟩
      · simp [as.events, closed]
      · simp [as.data]

/-- **A monitor serializes**: a run is some sections one after the other. -/
theorem serializes_run {d : D} {history : List (MonitorEvent T D)} {m m' : Monitor T D}
    {events : List (MonitorEvent T D)} (serializes : Serializes d history m)
    (ran : run step m events = some m') : Serializes d (history ++ events) m' := by
  induction events generalizing history m with
  | nil =>
      cases ran
      rwa [List.append_nil]
  | cons e events ih =>
      rw [run, List.foldlM_cons] at ran
      obtain ⟨between, first, later⟩ := Option.bind_eq_some_iff.mp ran
      have all := ih (serializes_step serializes first) later
      rwa [List.append_assoc] at all

end Monitor

end UdpStuff.Theory
