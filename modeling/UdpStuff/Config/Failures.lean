/-
# Config.Failures — where a text stops, and what is left

A text that stands for no forest stops the builder of `Config.OptionTree` at a brace
that may not come, or at its end.  `Builder.stops` gives the builder as it is left there,
and which of the three it was; the closing brace and the end of the text end the option
at hand first.

`parseConfig_stops`: the parser throws exactly where the builder stops, with the message
for it, and leaves the bytes of the builder: finished records, and the options and
sections under way with their lengths still zero.
-/
import UdpStuff.Config.ParseTree

namespace UdpStuff.Config

set_option autoImplicit false

open UdpStuff.Theory

/-- Why a text stands for no forest. -/
inductive Stop where
  | wordCount
  | unmatched
  | lacking
deriving DecidableEq

def Stop.message : Stop → String
  | .wordCount => "invalid string count before '\x7b'"
  | .unmatched => "unmatching '\x7d'"
  | .lacking => "Lacking '\x7d'"

namespace Builder

/-- The builder as it is left by a token that may not come. -/
def stopAt (b : Builder) : Token → Builder × Stop
  | .closeBrace => (b.endOption, .unmatched)
  | _ => (b, .wordCount)

/-- The builder as the tokens leave it, if they build no forest. -/
def stops (b : Builder) : List Token → Option (Builder × Stop)
  | [] =>
    match b.sections with
    | [] => none
    | _ => some (b.endOption, .lacking)
  | t :: rest =>
    match b.step t with
    | none => some (b.stopAt t)
    | some next => next.stops rest

theorem stops_nil (b : Builder) :
    b.stops [] = if b.sections = [] then none else some (b.endOption, .lacking) := by
  rw [stops]
  cases b.sections <;> rfl

theorem stops_cons_none {b : Builder} {t : Token} (stopped : b.step t = none) (rest : List Token) :
    b.stops (t :: rest) = some (b.stopAt t) := by
  rw [stops, stopped]

theorem stops_cons_some {b next : Builder} {t : Token} (steps : b.step t = some next)
    (rest : List Token) : b.stops (t :: rest) = next.stops rest := by
  rw [stops, steps]

theorem stops_append {b next : Builder} {ts : List Token} (steps : b.steps ts = some next)
    (us : List Token) : b.stops (ts ++ us) = next.stops us := by
  induction ts generalizing b with
  | nil =>
      cases steps
      rfl
  | cons t rest ih =>
      rw [Builder.steps] at steps
      cases step : b.step t with
      | none =>
          rw [step] at steps
          cases steps
      | some between =>
          rw [step] at steps
          rw [List.cons_append, stops_cons_some step]
          exact ih steps

/-- The builder stops where it builds no forest. -/
theorem stops_eq_none (b : Builder) (ts : List Token) :
    b.stops ts = none ↔ ∃ forest, (b.steps ts).bind Builder.finish = some forest := by
  induction ts generalizing b with
  | nil =>
      rw [stops_nil, Builder.steps, Option.bind_some, Builder.finish]
      cases b.sections with
      | nil => simp
      | cons first outer => simp
  | cons t rest ih =>
      rw [Builder.steps]
      cases step : b.step t with
      | none => simp [stops_cons_none step]
      | some next =>
          rw [stops_cons_some step]
          exact ih next

end Builder

/-! ## What the parser leaves -/

/-- A failure with the bytes of a builder and the message of a stop. -/
structure Leaves (e : ParseFailure) (left : Builder × Stop) : Prop where
  outData : e.outData = left.1.base ++ left.1.draft.bytes
  descr : ∃ line : Nat, e.descr = toString line ++ ": " ++ left.2.message

theorem Holds.openSection_fails {p : ParseConfig} {b : Builder} (holds : Holds p b .outside)
    {e : ParseFailure} (fails : p.openSection = .error e) :
    b.step .openBrace = none ∧ Leaves e (b.stopAt .openBrace) := by
  have follows := holds.openSection
  constructor
  · cases next : b.step .openBrace with
    | none => rfl
    | some b' =>
        rw [next, fails] at follows
        obtain ⟨p', impossible, -⟩ := follows
        cases impossible
  · rw [ParseConfig.openSection] at fails
    split at fails
    · cases fails
      exact ⟨holds.outData, p.lineNum, rfl⟩
    · cases fails

theorem Holds.closeSection_fails {p : ParseConfig} {b : Builder} (holds : Holds p b .outside)
    {e : ParseFailure} (fails : p.closeSection = .error e) :
    b.step .closeBrace = none ∧ Leaves e (b.stopAt .closeBrace) := by
  have follows := holds.closeSection
  constructor
  · cases next : b.step .closeBrace with
    | none => rfl
    | some b' =>
        rw [next, fails] at follows
        obtain ⟨p', impossible, -⟩ := follows
        cases impossible
  · obtain ⟨ended, result, holds'⟩ := holds.endOpt
    rw [ParseConfig.closeSection, result] at fails
    dsimp only at fails
    split at fails
    · cases fails
      exact ⟨holds'.outData, ended.lineNum, rfl⟩
    · -- the forced counter of two patches a length
      cases fails

/-- A character fails outside of words, at a brace that may not come. -/
theorem Holds.step_fails {p : ParseConfig} {b : Builder} {mode : Mode} (holds : Holds p b mode)
    {c : TextChar} {e : ParseFailure} (fails : p.step c = .error e) :
    mode = .outside ∧ ∃ t, Config.scan .outside c = ([t], .outside) ∧ b.step t = none ∧
      Leaves e (b.stopAt t) := by
  have counted := holds.countLine c
  have state := counted.state
  rw [ParseConfig.step, ParseConfig.switchState] at fails
  cases mode with
  | outside =>
      rw [show (p.countLine c).state = .outside from state] at fails
      obtain ⟨ended, result, -⟩ := counted.endOpt
      refine ⟨rfl, ?_⟩
      cases kind : kindOf c with
      | openBrace =>
          rw [kind] at fails
          cases opened : (p.countLine c).openSection with
          | ok next => simp [opened, ParseConfig.advance] at fails
          | error e' =>
              obtain rfl : e' = e := by simpa [opened, ParseConfig.advance] using fails
              exact ⟨.openBrace, by rw [Config.scan, kind], counted.openSection_fails opened⟩
      | closeBrace =>
          rw [kind] at fails
          cases closed : (p.countLine c).closeSection with
          | ok next => simp [closed, ParseConfig.advance] at fails
          | error e' =>
              obtain rfl : e' = e := by simpa [closed, ParseConfig.advance] using fails
              exact ⟨.closeBrace, by rw [Config.scan, kind], counted.closeSection_fails closed⟩
      | semicolon => simp [kind, result, ParseConfig.advance] at fails
      | newline => simp [kind, result, ParseConfig.advance] at fails
      | tab => simp [kind] at fails
      | space => simp [kind] at fails
      | colon => simp [kind] at fails
      | quote => simp [kind] at fails
      | other => simp [kind] at fails
  | inside w =>
      rw [show (p.countLine c).state = .inside from state] at fails
      cases kind : kindOf c <;> simp [kind] at fails
  | quoted w =>
      rw [show (p.countLine c).state = .quotedInside from state] at fails
      cases kind : kindOf c <;> simp [kind] at fails

/-- A character is read again inside the word that it starts, or outside after the word
that it ends. -/
theorem Holds.stepsBack {p q : ParseConfig} {b : Builder} {mode : Mode} (holds : Holds p b mode)
    {c : TextChar} (back : p.step c = .ok (q, true)) :
    Holds q b (.inside []) ∨
      ∃ w, Config.scan mode c =
          (.word w :: (Config.scan .outside c).1, (Config.scan .outside c).2) ∧
        Holds q { b with draft := b.draft.push w } .outside := by
  have counted := holds.countLine c
  have state := counted.state
  -- a result after which the next character is read does not step back
  have onward (r : Except ParseFailure ParseConfig) : ParseConfig.advance r ≠ .ok (q, true) := by
    cases r <;> simp [ParseConfig.advance]
  rw [ParseConfig.step, ParseConfig.switchState] at back
  cases mode with
  | outside =>
      rw [show (p.countLine c).state = .outside from state] at back
      cases kind : kindOf c with
      | other =>
          rw [kind] at back
          obtain rfl : { (p.countLine c).startStr with state := .inside } = q := by simpa using back
          exact .inl (counted.startStr (.inl rfl))
      | openBrace => exact absurd (by simpa [kind] using back) (onward _)
      | closeBrace => exact absurd (by simpa [kind] using back) (onward _)
      | semicolon => exact absurd (by simpa [kind] using back) (onward _)
      | newline => exact absurd (by simpa [kind] using back) (onward _)
      | tab => simp [kind] at back
      | space => simp [kind] at back
      | colon => simp [kind] at back
      | quote => simp [kind] at back
  | inside w =>
      rw [show (p.countLine c).state = .inside from state] at back
      have ended := counted.endStr (.inl rfl)
      have ends (same : (p.countLine c).endStr = q)
          (scans : Config.scan (.inside w) c =
            (.word w :: (Config.scan .outside c).1, (Config.scan .outside c).2)) :
          Holds q b (.inside []) ∨
            ∃ w', Config.scan (.inside w) c =
                (.word w' :: (Config.scan .outside c).1, (Config.scan .outside c).2) ∧
              Holds q { b with draft := b.draft.push w' } .outside :=
        .inr ⟨w, scans, same ▸ ended⟩
      cases kind : kindOf c with
      | openBrace => exact ends (by simpa [kind] using back) (by simp only [Config.scan, kind])
      | closeBrace => exact ends (by simpa [kind] using back) (by simp only [Config.scan, kind])
      | semicolon => exact ends (by simpa [kind] using back) (by simp only [Config.scan, kind])
      | newline => exact ends (by simpa [kind] using back) (by simp only [Config.scan, kind])
      | quote => exact ends (by simpa [kind] using back) (by simp only [Config.scan, kind])
      | tab => simp [kind] at back
      | space => simp [kind] at back
      | colon => simp [kind] at back
      | other => simp [kind] at back
  | quoted w =>
      rw [show (p.countLine c).state = .quotedInside from state] at back
      cases kind : kindOf c <;> simp [kind] at back

/-- The same for a character that is read once or twice. -/
theorem Holds.consumes_fails {p : ParseConfig} {b : Builder} {mode : Mode} (holds : Holds p b mode)
    {c : TextChar} {e : ParseFailure} (consumes : Consumes p c (.error e)) (more : List Token) :
    ∃ left, b.stops ((Config.scan mode c).1 ++ more) = some left ∧ Leaves e left := by
  cases consumes with
  | once first =>
      obtain ⟨rfl, t, scans, stopped, leaves⟩ := holds.step_fails first
      rw [scans]
      exact ⟨_, Builder.stops_cons_none stopped more, leaves⟩
  | twice first again =>
      rcases holds.stepsBack first with started | ⟨w, scans, ended⟩
      · obtain ⟨impossible, -⟩ := started.step_fails again
        cases impossible
      · obtain ⟨-, t, single, stopped, leaves⟩ := ended.step_fails again
        rw [scans, single]
        exact ⟨_, Builder.stops_cons_none stopped more, leaves⟩

theorem Holds.finishOutside_fails {p : ParseConfig} {b : Builder} (holds : Holds p b .outside)
    {e : ParseFailure} (fails : p.finish = .error e) :
    ∃ left, b.stops [] = some left ∧ Leaves e left := by
  have lays := holds.finishOutside
  obtain ⟨ended, result, holds'⟩ := holds.endOpt
  have outside : ¬ p.state ≠ .outside := not_not.mpr holds.state
  rw [Builder.stops_nil]
  by_cases closed : b.sections = []
  · rw [Builder.finish, closed, fails] at lays
    cases lays
  · refine ⟨_, if_neg closed, ?_⟩
    rw [ParseConfig.finish, if_neg outside, result] at fails
    dsimp only at fails
    split at fails
    · cases fails
    · cases fails
      exact ⟨holds'.outData, ended.lineNum, rfl⟩

theorem Holds.finish_fails {p : ParseConfig} {b : Builder} {mode : Mode} (holds : Holds p b mode)
    {e : ParseFailure} (fails : p.finish = .error e) :
    ∃ left, b.stops mode.last = some left ∧ Leaves e left := by
  have ends {w : Word} (word : mode = .inside w ∨ mode = .quoted w) :
      ∃ left, b.stops [.word w] = some left ∧ Leaves e left := by
    rw [holds.finish_endStr word] at fails
    exact (holds.endStr word).finishOutside_fails fails
  cases mode with
  | outside => exact holds.finishOutside_fails fails
  | inside w => exact ends (.inl rfl)
  | quoted w => exact ends (.inr rfl)

theorem Holds.loop_fails {p : ParseConfig} {b : Builder} {mode : Mode} (holds : Holds p b mode)
    {text : List TextChar} {fuel : Nat} (enough : 2 * text.length < fuel) {e : ParseFailure}
    (fails : ParseConfig.loop fuel text p = some (.error e)) :
    ∃ left, b.stops (tokens mode text) = some left ∧ Leaves e left := by
  induction text generalizing p b mode fuel with
  | nil =>
      obtain ⟨left, rfl⟩ : ∃ left, fuel = left + 1 := ⟨fuel - 1, by omega⟩
      exact holds.finish_fails (Option.some.inj fails)
  | cons c rest ih =>
      rw [List.length_cons] at enough
      obtain ⟨left, rfl⟩ : ∃ left, fuel = left + 2 := ⟨fuel - 2, by omega⟩
      obtain ⟨r, consumes, follows⟩ := holds.scan c
      obtain ⟨more, room, loops⟩ := consumes.loop left rest
      rw [loops] at fails
      rw [tokens]
      cases r with
      | error e' =>
          obtain rfl : e' = e := by simpa using fails
          exact holds.consumes_fails consumes _
      | ok p' =>
          cases next : b.steps (Config.scan mode c).1 with
          | none =>
              rw [next] at follows
              obtain ⟨e', impossible⟩ := follows
              cases impossible
          | some b' =>
              rw [next] at follows
              obtain ⟨p'', same, holds'⟩ := follows
              cases same
              rw [Builder.stops_append next]
              exact ih holds' (by omega) fails

/-- The end of a run: the records of a forest, or what is left where the text stops. -/
def EndsAt (text : List TextChar) (r : Except ParseFailure (List UInt8)) : Prop :=
  match Builder.stops {} (tokens .outside text) with
  | none => ∃ forest, treeOf text = some forest ∧ r = .ok (encode forest)
  | some left => ∃ e, r = .error e ∧ Leaves e left

/-- **The parser throws where the builder stops**, and leaves its bytes. -/
theorem parseConfig_stops (text : List TextChar) :
    ∃ r, parseConfig text = some r ∧ EndsAt text r := by
  obtain ⟨r, result, lays⟩ := parseConfig_lays text
  refine ⟨r, result, ?_⟩
  rw [EndsAt]
  cases r with
  | error e =>
      obtain ⟨left, stopped, leaves⟩ := holds_fresh.loop_fails (Nat.lt_succ_self _) result
      rw [stopped]
      exact ⟨e, rfl, leaves⟩
  | ok v =>
      obtain ⟨forest, tree, rfl⟩ := parseConfig_accepted result
      rw [(Builder.stops_eq_none _ _).mpr ⟨forest, tree⟩]
      exact ⟨forest, tree, rfl⟩

end UdpStuff.Config
