/-
# Config.Accepts — which texts the parser throws on

Three things are wrong with a text: an opening brace after no string or more than one
of the option at hand, a closing brace without an open section, and an end inside one.
`Offends` says so of the tokens of a text, by counting; `Tracks` is what the draft and
the open sections of the builder are to these counts, kept by every token.

`parseConfig_throws_iff`: the run of the parser is over within its bound, and throws
exactly on these texts.  The counter of strings is never above two when an option ends,
so that the fourth message of the parser is never seen.
-/
import UdpStuff.Config.Failures

namespace UdpStuff.Config

set_option autoImplicit false

def countWord (n : Nat) : Token → Nat
  | .word _ => n + 1
  | _ => 0

/-- The strings of the option at hand: the words since the last brace or end of an option. -/
def wordsAtHand (ts : List Token) : Nat := ts.foldl countWord 0

/-- A brace that may not come after these tokens. -/
inductive Misplaced (before : List Token) : Token → Prop
  | openBrace (strings : wordsAtHand before ≠ 1) : Misplaced before .openBrace
  | closeBrace (closed : before.count .openBrace ≤ before.count .closeBrace) :
      Misplaced before .closeBrace

/-- A brace is misplaced, or a section is open at the end. -/
def Offends (ts : List Token) : Prop :=
  (∃ before t after, ts = before ++ t :: after ∧ Misplaced before t) ∨
    ts.count .closeBrace < ts.count .openBrace

/-- The builder counts the words at hand up to two, and the sections that are open. -/
structure Tracks (before : List Token) (b : Builder) : Prop where
  words : b.draft.count = min 2 (wordsAtHand before)
  depth : before.count .openBrace = before.count .closeBrace + b.sections.length

theorem tracks_nil : Tracks [] {} := ⟨rfl, rfl⟩

theorem wordsAtHand_concat (ts : List Token) (t : Token) :
    wordsAtHand (ts ++ [t]) = countWord (wordsAtHand ts) t := by
  rw [wordsAtHand, List.foldl_append]
  rfl

theorem Draft.count_push (d : Draft) (w : Word) : (d.push w).count = min 2 (d.count + 1) := by
  cases d <;> rfl

section Step

variable {before : List Token} {b : Builder}

/-- A token stops the builder where it is misplaced. -/
theorem Tracks.step_none (tracks : Tracks before b) (t : Token) :
    b.step t = none ↔ Misplaced before t := by
  have words := tracks.words
  have depth := tracks.depth
  cases t with
  | word w =>
      constructor
      · intro stopped
        cases stopped
      · intro misplaced
        cases misplaced
  | endOption =>
      constructor
      · intro stopped
        cases stopped
      · intro misplaced
        cases misplaced
  | openBrace =>
      rw [Builder.step]
      cases drafted : b.draft with
      | named name =>
          rw [drafted] at words
          have one : wordsAtHand before = 1 := by
            have : 1 = min 2 (wordsAtHand before) := words
            omega
          constructor
          · intro stopped
            cases stopped
          · intro misplaced
            cases misplaced with
            | openBrace strings => exact absurd one strings
      | empty =>
          rw [drafted] at words
          have none : 0 = min 2 (wordsAtHand before) := words
          exact ⟨fun _ => .openBrace (by omega), fun _ => rfl⟩
      | valued name value =>
          rw [drafted] at words
          have two : 2 = min 2 (wordsAtHand before) := words
          exact ⟨fun _ => .openBrace (by omega), fun _ => rfl⟩
  | closeBrace =>
      rw [Builder.step]
      cases opened : b.sections with
      | nil =>
          rw [opened, List.length_nil] at depth
          exact ⟨fun _ => .closeBrace (by omega), fun _ => rfl⟩
      | cons first outer =>
          rw [opened, List.length_cons] at depth
          constructor
          · intro stopped
            cases stopped
          · intro misplaced
            cases misplaced with
            | closeBrace closed => omega

theorem Tracks.step_some (tracks : Tracks before b) {t : Token} {next : Builder}
    (steps : b.step t = some next) : Tracks (before ++ [t]) next := by
  have words := tracks.words
  have depth := tracks.depth
  have concat := wordsAtHand_concat before t
  cases t with
  | word w =>
      cases steps
      refine ⟨?_, by simpa [List.count_append] using depth⟩
      have pushed := b.draft.count_push w
      rw [concat, countWord]
      show (b.draft.push w).count = _
      omega
  | endOption =>
      cases steps
      exact ⟨by rw [concat]; rfl, by simpa [List.count_append, Builder.endOption] using depth⟩
  | openBrace =>
      rw [Builder.step] at steps
      split at steps
      · cases steps
        refine ⟨by rw [concat]; rfl, ?_⟩
        simp only [List.count_append, List.count_singleton, List.length_cons]
        simp only [reduceCtorEq, beq_iff_eq, if_true, if_false]
        omega
      · cases steps
  | closeBrace =>
      rw [Builder.step] at steps
      split at steps
      · cases steps
      · rename_i previous name outer opened
        cases steps
        rw [opened, List.length_cons] at depth
        refine ⟨by rw [concat]; rfl, ?_⟩
        simp only [List.count_append, List.count_singleton]
        simp only [reduceCtorEq, beq_iff_eq, if_true, if_false]
        omega

end Step

/-- **The builder stops exactly where the tokens offend.** -/
theorem Tracks.stops {before : List Token} {b : Builder} (tracks : Tracks before b)
    (ts : List Token) :
    (∃ left, b.stops ts = some left) ↔
      (∃ mid t after, ts = mid ++ t :: after ∧ Misplaced (before ++ mid) t) ∨
        (before ++ ts).count .closeBrace < (before ++ ts).count .openBrace := by
  induction ts generalizing before b with
  | nil =>
      have depth := tracks.depth
      rw [Builder.stops_nil, List.append_nil]
      constructor
      · rintro ⟨left, stopped⟩
        right
        split at stopped
        · cases stopped
        · rename_i opened
          have := List.length_pos_of_ne_nil opened
          omega
      · rintro (⟨mid, t, after, impossible, -⟩ | opened)
        · simp at impossible
        · rw [if_neg]
          · exact ⟨_, rfl⟩
          · intro closed
            rw [closed, List.length_nil] at depth
            omega
  | cons t rest ih =>
      cases step : b.step t with
      | none =>
          rw [Builder.stops_cons_none step]
          have misplaced := (tracks.step_none t).mp step
          exact ⟨fun _ => .inl ⟨[], t, rest, rfl, by rwa [List.append_nil]⟩, fun _ => ⟨_, rfl⟩⟩
      | some next =>
          have fits : ¬ Misplaced before t := by
            rw [← tracks.step_none, step]
            exact Option.some_ne_none next
          have later := ih (tracks.step_some step)
          rw [Builder.stops_cons_some step, later, List.append_assoc]
          refine or_congr_left ⟨?_, ?_⟩
          · rintro ⟨mid, u, after, rfl, misplaced⟩
            exact ⟨t :: mid, u, after, rfl, by simpa using misplaced⟩
          · rintro ⟨mid, u, after, same, misplaced⟩
            cases mid with
            | nil =>
                rw [List.nil_append, List.cons.injEq] at same
                rw [List.append_nil, ← same.1] at misplaced
                exact absurd misplaced fits
            | cons first mid =>
                rw [List.cons_append, List.cons.injEq] at same
                obtain ⟨rfl, rfl⟩ := same
                exact ⟨mid, u, after, rfl, by simpa using misplaced⟩

theorem stops_iff_offends (ts : List Token) :
    (∃ left, Builder.stops {} ts = some left) ↔ Offends ts :=
  tracks_nil.stops ts

/-- The messages for what is wrong with a text end in a quote, that of the counter does not. -/
theorem message_ne (stop : Stop) (line line' : Nat) :
    toString line ++ ": " ++ stop.message ≠
      toString line' ++ ": " ++ "Too many strings for single option" := by
  intro same
  have quote : stop.message.toList.getLast? = some (Char.ofNat 39) := by cases stop <;> decide
  have letter : "Too many strings for single option".toList.getLast? = some 'n' := by decide
  have lasts := congrArg (fun s : String => s.toList.getLast?) same
  simp only [String.toList_append, List.getLast?_append, quote, letter, Option.some_or] at lasts
  exact absurd lasts (by decide)

/-- **The parser throws exactly on the texts that offend.**  Its run is over within two
turns a character, and what it throws is the message for one of the three offences. -/
theorem parseConfig_throws_iff (text : List TextChar) :
    ∃ r, parseConfig text = some r ∧
      ((∃ e, r = .error e) ↔ Offends (tokens .outside text)) ∧
      ∀ e, r = .error e →
        (∃ (line : Nat) (stop : Stop), e.descr = toString line ++ ": " ++ stop.message) ∧
        ∀ line : Nat, e.descr ≠ toString line ++ ": " ++ "Too many strings for single option" := by
  obtain ⟨r, result, ends⟩ := parseConfig_stops text
  refine ⟨r, result, ?_⟩
  rw [EndsAt] at ends
  rw [← stops_iff_offends]
  cases stopped : Builder.stops {} (tokens .outside text) with
  | none =>
      rw [stopped] at ends
      obtain ⟨forest, -, rfl⟩ := ends
      constructor
      · constructor
        · rintro ⟨e, impossible⟩
          cases impossible
        · rintro ⟨left, impossible⟩
          cases impossible
      · intro e impossible
        cases impossible
  | some left =>
      rw [stopped] at ends
      obtain ⟨e, rfl, leaves⟩ := ends
      obtain ⟨line, descr⟩ := leaves.descr
      refine ⟨⟨fun _ => ⟨left, rfl⟩, fun _ => ⟨e, rfl⟩⟩, ?_⟩
      intro e' same
      cases same
      refine ⟨⟨line, left.2, descr⟩, fun line' => ?_⟩
      rw [descr]
      exact message_ne left.2 line line'

end UdpStuff.Config
