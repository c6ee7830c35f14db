/-
# Theory.Ledger — what is open after a log of openings and closings

A log names what is opened and what is closed, in order, over any type of names.  `replay`
runs it; it has no value where something open is opened again or something that is not open
is closed.

`Settled` is the end of a log that leaves nothing open but what is kept: everything else that
was opened has been closed exactly once.  Where no name is used twice, it is what `replay`
ends with (`settled_iff`), and logs that leave nothing open may be put in front
(`replay_append_closed`, `replay_flatten`).
-/
import Mathlib.Data.List.Count
import Mathlib.Tactic.Common

namespace UdpStuff.Theory

set_option autoImplicit false

universe u

inductive Entry (α : Type u) where
  | opened (a : α)
  | closed (a : α)
deriving DecidableEq

variable {α : Type u} [DecidableEq α]

/-- What is open after a log, from what is open before it. -/
def replay : List (Entry α) → List α → Option (List α)
  | [], live => some live
  | .opened a :: rest, live => if a ∈ live then none else replay rest (a :: live)
  | .closed a :: rest, live => if a ∈ live then replay rest (live.erase a) else none

theorem replay_append (front back : List (Entry α)) (live : List α) :
    replay (front ++ back) live = (replay front live).bind (replay back) := by
  induction front generalizing live with
  | nil => rfl
  | cons entry rest ih =>
      cases entry with
      | opened a =>
          rw [List.cons_append, replay, replay]
          split
          · rfl
          · exact ih _
      | closed a =>
          rw [List.cons_append, replay, replay]
          split
          · exact ih _
          · rfl

/-- A log that leaves nothing open does not show in what comes after it. -/
theorem replay_append_closed {front back : List (Entry α)} (closed : replay front [] = some []) :
    replay (front ++ back) [] = replay back [] := by
  rw [replay_append, closed, Option.bind_some]

theorem replay_flatten {logs : List (List (Entry α))}
    (closed : ∀ log ∈ logs, replay log [] = some []) : replay logs.flatten [] = some [] := by
  induction logs with
  | nil => rfl
  | cons log rest ih =>
      rw [List.flatten_cons, replay_append_closed (closed log List.mem_cons_self)]
      exact ih fun other member => closed other (List.mem_cons_of_mem _ member)

/-- Every opening is accounted for: it was closed, or is still open. -/
theorem replay_count {log : List (Entry α)} {live left : List α}
    (run : replay log live = some left) (a : α) :
    log.count (.opened a) + live.count a = log.count (.closed a) + left.count a := by
  induction log generalizing live with
  | nil =>
      cases run
      rfl
  | cons entry rest ih =>
      cases entry with
      | opened b =>
          rw [replay] at run
          split at run
          · cases run
          · have later := ih run
            rw [List.count_cons, List.count_cons_of_ne (by simp)]
            rw [List.count_cons] at later
            simp only [beq_iff_eq, Entry.opened.injEq] at later ⊢
            omega
      | closed b =>
          rw [replay] at run
          split at run
          · rename_i there
            have later := ih run
            rw [List.count_cons_of_ne (by simp), List.count_cons]
            simp only [beq_iff_eq, Entry.closed.injEq]
            rw [List.count_erase] at later
            simp only [beq_iff_eq] at later
            split
            · rename_i same
              subst same
              have pos := List.count_pos_iff.mpr there
              rw [if_pos rfl] at later
              omega
            · rename_i differ
              rw [if_neg differ] at later
              omega
          · cases run

/-- Nothing is open at the end but what is kept, and everything else opened was closed once. -/
structure Settled (log : List (Entry α)) (kept : Option α) : Prop where
  replays : replay log [] = some kept.toList
  closed : ∀ a, .opened a ∈ log → log.count (.closed a) = if kept = some a then 0 else 1

theorem settled_iff {log : List (Entry α)} (once : ∀ a, log.count (.opened a) ≤ 1)
    (kept : Option α) : Settled log kept ↔ replay log [] = some kept.toList := by
  refine ⟨Settled.replays, fun replays => ⟨replays, fun a member => ?_⟩⟩
  have accounted := replay_count replays a
  have pos := List.count_pos_iff.mpr member
  have least := once a
  rw [List.count_nil] at accounted
  cases kept with
  | none =>
      rw [Option.toList_none, List.count_nil] at accounted
      rw [if_neg (by simp)]
      omega
  | some b =>
      rw [Option.toList_some, List.count_singleton] at accounted
      simp only [beq_iff_eq, Option.some.injEq] at accounted ⊢
      split
      · rename_i same
        rw [if_pos same] at accounted
        omega
      · rename_i differ
        rw [if_neg differ] at accounted
        omega

end UdpStuff.Theory
