/-
# Config.ParseTree — the parser lays out the option tree

The parser and the builder of `Config.OptionTree` read a text side by side.
`Holds` says what the parser's vector, stack and counter are for a forest under
way: the finished records, the open sections with their lengths still zero, and the
option at hand.  Every character keeps it (`Holds.scan`), whether the loop reads it
once or twice.

`parseConfig_lays`: the run is over within its bound, fails when the text stands for
no forest, and otherwise leaves the records of the forest.
-/
import UdpStuff.Config.ParseConfig

namespace UdpStuff.Config

set_option autoImplicit false

open UdpStuff.Theory

/-! ## The vector for a forest under way -/

namespace Draft

/-- The bytes of an option between its words; the length is still zero. -/
def bytes : Draft → List UInt8
  | .empty => []
  | .named name => leBytes 4 0 ++ (name.bytes ++ [0])
  | .valued name value => leBytes 4 0 ++ (name.bytes ++ [0] ++ value.bytes ++ [0])

/-- The bytes of an option before the next of its words. -/
def started : Draft → List UInt8
  | .empty => leBytes 4 0
  | .named name => leBytes 4 0 ++ (name.bytes ++ [0])
  | .valued name value => leBytes 4 0 ++ (name.bytes ++ [0] ++ value.bytes ++ [32])

/-- The string counter between words. -/
def count : Draft → Nat
  | .empty => 0
  | .named _ => 1
  | .valued _ _ => 2

theorem started_push (d : Draft) (w : Word) : d.started ++ w.bytes ++ [0] = (d.push w).bytes := by
  cases d with
  | empty => simp [started, push, bytes]
  | named name => simp [started, push, bytes]
  | valued name value => simp [started, push, bytes, Word.bytes, blank]

/-- The string counter inside a word. -/
def startedCount : Draft → Nat
  | .empty => 0
  | .named _ => 1
  | .valued _ _ => 1

theorem startedCount_push (d : Draft) (w : Word) : d.startedCount + 1 = (d.push w).count := by
  cases d <;> rfl

end Draft

/-- The bytes before the innermost open section's options. -/
def sectionsBytes : List (List Opt × Word) → List UInt8
  | [] => []
  | (before, name) :: outer =>
      sectionsBytes outer ++ encode before ++ (leBytes 4 0 ++ (name.bytes ++ [0, 0]))

/-- The positions of the open sections' lengths. -/
def sectionsPos : List (List Opt × Word) → List Nat
  | [] => []
  | (before, _) :: outer => (sectionsBytes outer ++ encode before).length :: sectionsPos outer

/-- The bytes before the option at hand. -/
def Builder.base (b : Builder) : List UInt8 := sectionsBytes b.sections ++ encode b.siblings

namespace Mode

def state : Mode → ParseState
  | .outside => .outside
  | .inside _ => .inside
  | .quoted _ => .quotedInside

def bytes (d : Draft) : Mode → List UInt8
  | .outside => d.bytes
  | .inside w => d.started ++ w.bytes
  | .quoted w => d.started ++ w.bytes

def count (d : Draft) : Mode → Nat
  | .outside => d.count
  | .inside _ => d.startedCount
  | .quoted _ => d.startedCount

end Mode

/-- The parser stands where the builder does. -/
structure Holds (p : ParseConfig) (b : Builder) (mode : Mode) : Prop where
  outData : p.outData = b.base ++ mode.bytes b.draft
  back : mode = .outside ∧ b.draft = .empty ∨ p.back = b.base.length
  below : p.below = sectionsPos b.sections
  nstr : p.nstr = mode.count b.draft
  state : p.state = mode.state

/-- A result follows the builder: both fail, or the parser stands where the builder
does. -/
def Follows (r : Except ParseFailure ParseConfig) (next : Option Builder) (mode : Mode) : Prop :=
  match next with
  | none => ∃ e, r = .error e
  | some b => ∃ p, r = .ok p ∧ Holds p b mode

theorem holds_fresh : Holds {} {} .outside :=
  ⟨rfl, .inl ⟨rfl, rfl⟩, rfl, rfl, rfl⟩

theorem Holds.inWord {p : ParseConfig} {b : Builder} {mode : Mode} (holds : Holds p b mode)
    (word : mode ≠ .outside) : p.back = b.base.length := by
  rcases holds.back with ⟨outside, -⟩ | here
  · exact absurd outside word
  · exact here

theorem Holds.inOption {p : ParseConfig} {b : Builder} {mode : Mode} (holds : Holds p b mode)
    (some : b.draft ≠ .empty) : p.back = b.base.length := by
  rcases holds.back with ⟨-, none⟩ | here
  · exact absurd none some
  · exact here

/-! ## The operations -/

/-- Patching the length of the last record. -/
theorem updateLen_record {p : ParseConfig} {base body : List UInt8}
    (outData : p.outData = base ++ (leBytes 4 0 ++ body)) {lenPos : Nat}
    (here : lenPos = base.length) :
    (p.updateLen lenPos).outData = base ++ record body := by
  have before : (base ++ (leBytes 4 0 ++ body)).take base.length = base := List.take_left
  have after : (base ++ (leBytes 4 0 ++ body)).drop (base.length + 4) = body := by
    rw [← List.drop_drop, List.drop_left]
    exact List.drop_left' (length_leBytes 4 0)
  have length : (base ++ (leBytes 4 0 ++ body)).length - base.length = 4 + body.length := by
    rw [List.length_append, List.length_append, length_leBytes, Nat.add_sub_cancel_left]
  simp only [ParseConfig.updateLen, outData, here, before, after, length, record,
    List.append_assoc]

theorem Holds.endOpt {p : ParseConfig} {b : Builder} (holds : Holds p b .outside) :
    ∃ next, p.endOpt = .ok next ∧ Holds next b.endOption .outside := by
  have outData := holds.outData
  have nstr := holds.nstr
  cases drafted : b.draft with
  | empty =>
      rw [drafted] at outData nstr
      have same : b.endOption = b := by
        rw [Builder.endOption, drafted, Draft.finished, List.append_nil, ← drafted]
      rw [ParseConfig.endOpt, show p.nstr = 0 from nstr, same]
      exact ⟨p, rfl, holds⟩
  | named name =>
      have here := holds.inOption (by rw [drafted]; exact Draft.noConfusion)
      rw [drafted] at outData nstr
      rw [ParseConfig.endOpt, show p.nstr = 1 from nstr]
      refine ⟨_, rfl, ?_, .inl ⟨rfl, rfl⟩, holds.below, rfl,
        holds.state⟩
      show (p.updateLen p.back).outData = _
      rw [updateLen_record outData here]
      simp [Builder.base, Builder.endOption, drafted, Draft.finished, Mode.bytes, Draft.bytes,
        encode_append, encode, Opt.encode]
  | valued name value =>
      have here := holds.inOption (by rw [drafted]; exact Draft.noConfusion)
      rw [drafted] at outData nstr
      rw [ParseConfig.endOpt, show p.nstr = 2 from nstr]
      refine ⟨_, rfl, ?_, .inl ⟨rfl, rfl⟩, holds.below, rfl,
        holds.state⟩
      show (p.updateLen p.back).outData = _
      rw [updateLen_record outData here]
      simp [Builder.base, Builder.endOption, drafted, Draft.finished, Mode.bytes, Draft.bytes,
        encode_append, encode, Opt.encode]

theorem Holds.openSection {p : ParseConfig} {b : Builder} (holds : Holds p b .outside) :
    Follows p.openSection (b.step .openBrace) .outside := by
  have outData := holds.outData
  have nstr := holds.nstr
  cases drafted : b.draft with
  | empty =>
      rw [drafted] at nstr
      rw [Builder.step, drafted, ParseConfig.openSection, show p.nstr = 0 from nstr]
      exact ⟨_, rfl⟩
  | valued name value =>
      rw [drafted] at nstr
      rw [Builder.step, drafted, ParseConfig.openSection, show p.nstr = 2 from nstr]
      exact ⟨_, rfl⟩
  | named name =>
      have here := holds.inOption (by rw [drafted]; exact Draft.noConfusion)
      rw [drafted] at outData nstr
      rw [Builder.step, drafted, ParseConfig.openSection, show p.nstr = 1 from nstr]
      refine ⟨_, rfl, ?_, .inl ⟨rfl, rfl⟩, ?_, rfl, holds.state⟩
      · show p.outData ++ [0] = _
        rw [outData]
        simp [Builder.base, Mode.bytes, Draft.bytes, sectionsBytes, encode]
      · show p.back :: p.below = _
        rw [here, holds.below]
        rfl

theorem Holds.closeSection {p : ParseConfig} {b : Builder} (holds : Holds p b .outside) :
    Follows p.closeSection (b.step .closeBrace) .outside := by
  obtain ⟨ended, result, holds'⟩ := holds.endOpt
  have below := holds'.below
  rw [ParseConfig.closeSection, result, Builder.step]
  dsimp only
  cases opened : b.sections with
  | nil =>
      have none : ended.below = [] := by
        rw [below]
        show sectionsPos b.sections = []
        rw [opened]
        rfl
      rw [none]
      exact ⟨_, rfl⟩
  | cons first outer =>
      obtain ⟨before, name⟩ := first
      have some : ended.below =
          (sectionsBytes outer ++ encode before).length :: sectionsPos outer := by
        rw [below]
        show sectionsPos b.sections = _
        rw [opened]
        rfl
      rw [some]
      refine ⟨_, rfl, ?_, .inl ⟨rfl, rfl⟩, rfl, rfl, holds'.state⟩
      have outData : ended.outData = (sectionsBytes outer ++ encode before) ++
          (leBytes 4 0 ++ (name.bytes ++ [0, 0] ++ encode b.endOption.siblings)) := by
        rw [holds'.outData]
        simp [Builder.base, Builder.endOption, Mode.bytes, Draft.bytes, opened, sectionsBytes]
      show (ended.updateLen _).outData = _
      rw [updateLen_record outData rfl]
      simp [Builder.base, Mode.bytes, Draft.bytes, encode_append, encode, Opt.encode]

theorem Holds.startStr {p : ParseConfig} {b : Builder} (holds : Holds p b .outside) {mode : Mode}
    (fresh : mode = .inside [] ∨ mode = .quoted []) :
    Holds { p.startStr with state := mode.state } b mode := by
  have outData := holds.outData
  have nstr := holds.nstr
  have bytes : mode.bytes b.draft = b.draft.started := by
    rcases fresh with rfl | rfl <;> simp [Mode.bytes, Word.bytes]
  have count : mode.count b.draft = b.draft.startedCount := by
    rcases fresh with rfl | rfl <;> rfl
  have whole : p.startStr.outData = b.base ++ b.draft.started ∧ p.startStr.back = b.base.length ∧
      p.startStr.below = p.below ∧ p.startStr.nstr = b.draft.startedCount := by
    cases drafted : b.draft with
    | empty =>
        rw [drafted] at outData nstr
        have none : p.outData = b.base := by
          rw [outData]
          exact List.append_nil _
        rw [ParseConfig.startStr, if_pos (show p.nstr = 0 from nstr)]
        exact ⟨by rw [ParseConfig.reserveLen, none]; rfl, by rw [ParseConfig.reserveLen, none],
          rfl, nstr⟩
    | named name =>
        have here := holds.inOption (by rw [drafted]; exact Draft.noConfusion)
        rw [drafted] at outData nstr
        have one : p.nstr = 1 := nstr
        rw [ParseConfig.startStr, if_neg (by omega), if_neg (by omega)]
        exact ⟨outData, here, rfl, nstr⟩
    | valued name value =>
        have here := holds.inOption (by rw [drafted]; exact Draft.noConfusion)
        rw [drafted] at outData nstr
        have two : p.nstr = 2 := nstr
        rw [ParseConfig.startStr, if_neg (by omega), if_pos two]
        refine ⟨?_, here, rfl, by rw [two]; rfl⟩
        show p.outData.dropLast ++ [32] = _
        have split : p.outData =
            (b.base ++ (leBytes 4 0 ++ (name.bytes ++ [0] ++ value.bytes))) ++ [0] := by
          rw [outData]
          simp [Mode.bytes, Draft.bytes]
        rw [split, List.dropLast_concat]
        simp [Draft.started]
  obtain ⟨outData', back', below', nstr'⟩ := whole
  exact ⟨by rw [bytes]; exact outData', .inr back', below'.trans holds.below,
    by rw [count]; exact nstr', rfl⟩

theorem Holds.pushInside {p : ParseConfig} {b : Builder} {w : Word}
    (holds : Holds p b (.inside w)) (c : TextChar) :
    Holds (p.pushChar c.val) b (.inside (w ++ [c])) :=
  ⟨by rw [ParseConfig.pushChar, holds.outData]; simp [Mode.bytes, Word.bytes],
    .inr (holds.inWord Mode.noConfusion), holds.below, holds.nstr, holds.state⟩

theorem Holds.pushQuoted {p : ParseConfig} {b : Builder} {w : Word}
    (holds : Holds p b (.quoted w)) (c : TextChar) :
    Holds (p.pushChar c.val) b (.quoted (w ++ [c])) :=
  ⟨by rw [ParseConfig.pushChar, holds.outData]; simp [Mode.bytes, Word.bytes],
    .inr (holds.inWord Mode.noConfusion), holds.below, holds.nstr, holds.state⟩

theorem Holds.endStr {p : ParseConfig} {b : Builder} {mode : Mode} {w : Word}
    (holds : Holds p b mode) (word : mode = .inside w ∨ mode = .quoted w) :
    Holds p.endStr { b with draft := b.draft.push w } .outside := by
  have bytes : mode.bytes b.draft = b.draft.started ++ w.bytes := by
    rcases word with rfl | rfl <;> rfl
  have count : mode.count b.draft = b.draft.startedCount := by
    rcases word with rfl | rfl <;> rfl
  have notOutside : mode ≠ .outside := by
    rcases word with rfl | rfl <;> intro same <;> cases same
  refine ⟨?_, .inr (holds.inWord notOutside), holds.below, ?_, rfl⟩
  · show p.outData ++ [0] = b.base ++ (b.draft.push w).bytes
    rw [holds.outData, bytes, ← Draft.started_push, List.append_assoc]
  · show p.nstr + 1 = (b.draft.push w).count
    rw [holds.nstr, count, Draft.startedCount_push]

theorem Holds.countLine {p : ParseConfig} {b : Builder} {mode : Mode} (holds : Holds p b mode)
    (c : TextChar) : Holds (p.countLine c) b mode := by
  rw [ParseConfig.countLine]
  split
  · exact ⟨holds.outData, holds.back, holds.below, holds.nstr, holds.state⟩
  · exact holds

/-! ## One character -/

/-- The loop reads a character, once or stepping back to it once, with this result. -/
inductive Consumes (p : ParseConfig) (c : TextChar) (r : Except ParseFailure ParseConfig) : Prop
  | once (first : p.step c = ParseConfig.advance r)
  | twice {q : ParseConfig} (first : p.step c = .ok (q, true))
      (again : q.step c = ParseConfig.advance r)

theorem Builder.steps_one (b : Builder) (t : Token) : b.steps [t] = b.step t := by
  rw [steps]
  cases b.step t <;> rfl

/-- Outside a word, a character that is not the start of one is read once. -/
theorem Holds.scanOutside {p : ParseConfig} {b : Builder} (holds : Holds p b .outside)
    {c : TextChar} (special : kindOf c ≠ .other) :
    ∃ r, p.step c = ParseConfig.advance r ∧
      Follows r (b.steps (scan .outside c).1) (scan .outside c).2 := by
  have counted := holds.countLine c
  have state : (p.countLine c).state = .outside := counted.state
  rw [ParseConfig.step, ParseConfig.switchState, state, scan]
  cases kind : kindOf c with
  | openBrace => exact ⟨_, rfl, by rw [b.steps_one]; exact counted.openSection⟩
  | closeBrace => exact ⟨_, rfl, by rw [b.steps_one]; exact counted.closeSection⟩
  | semicolon => exact ⟨_, rfl, counted.endOpt⟩
  | newline => exact ⟨_, rfl, counted.endOpt⟩
  | tab => exact ⟨.ok _, rfl, _, rfl, counted⟩
  | space => exact ⟨.ok _, rfl, _, rfl, counted⟩
  | colon => exact ⟨.ok _, rfl, _, rfl, counted⟩
  | quote => exact ⟨.ok _, rfl, _, rfl, counted.startStr (.inr rfl)⟩
  | other => exact absurd kind special

/-- Inside a word, a character of the word is read once. -/
theorem Holds.scanInside {p : ParseConfig} {b : Builder} {w : Word}
    (holds : Holds p b (.inside w)) {c : TextChar}
    (plain : kindOf c = .other ∨ kindOf c = .colon) :
    ∃ next, p.step c = ParseConfig.advance (.ok next) ∧ Holds next b (.inside (w ++ [c])) := by
  have counted := holds.countLine c
  have state : (p.countLine c).state = .inside := counted.state
  refine ⟨_, ?_, counted.pushInside c⟩
  rw [ParseConfig.step, ParseConfig.switchState, state]
  rcases plain with kind | kind <;> rw [kind] <;> rfl

/-- Between words: the first character of a word is read again inside it. -/
theorem Holds.readOutside {p : ParseConfig} {b : Builder} (holds : Holds p b .outside)
    (c : TextChar) :
    ∃ r, Consumes p c r ∧
      Follows r (b.steps (Config.scan .outside c).1) (Config.scan .outside c).2 := by
  have counted := holds.countLine c
  have state : (p.countLine c).state = .outside := counted.state
  by_cases kind : kindOf c = .other
  · have started : Holds { (p.countLine c).startStr with state := .inside } b (.inside []) :=
      counted.startStr (.inl rfl)
    obtain ⟨next, again, pushed⟩ := started.scanInside (.inl kind)
    refine ⟨.ok next, .twice ?_ again, ?_⟩
    · rw [ParseConfig.step, ParseConfig.switchState, state, kind]
    · rw [Config.scan, kind]
      exact ⟨next, rfl, pushed⟩
  · obtain ⟨r, step, follows⟩ := holds.scanOutside kind
    exact ⟨r, .once step, follows⟩

/-- Inside a word: the character that ends it is read again between words if it is no blank. -/
theorem Holds.readInside {p : ParseConfig} {b : Builder} {w : Word}
    (holds : Holds p b (.inside w)) (c : TextChar) :
    ∃ r, Consumes p c r ∧
      Follows r (b.steps (Config.scan (.inside w) c).1) (Config.scan (.inside w) c).2 := by
  have counted := holds.countLine c
  have state : (p.countLine c).state = .inside := counted.state
  have ended := counted.endStr (.inl rfl)
  -- a character that ends the word and is read again between words
  have ends (special : kindOf c ≠ .other)
      (first : p.step c = .ok ((p.countLine c).endStr, true))
      (scans : Config.scan (.inside w) c =
        (.word w :: (Config.scan .outside c).1, (Config.scan .outside c).2)) :
      ∃ r, Consumes p c r ∧
        Follows r (b.steps (Config.scan (.inside w) c).1) (Config.scan (.inside w) c).2 := by
    obtain ⟨r, step, follows⟩ := ended.scanOutside special
    rw [scans]
    exact ⟨r, .twice first step, follows⟩
  -- a blank ends the word and is not read again
  have blanks (first : p.step c = .ok ((p.countLine c).endStr, false))
      (scans : Config.scan (.inside w) c = ([.word w], .outside)) :
      ∃ r, Consumes p c r ∧
        Follows r (b.steps (Config.scan (.inside w) c).1) (Config.scan (.inside w) c).2 := by
    rw [scans]
    exact ⟨.ok _, .once first, _, rfl, ended⟩
  have goesOn (plain : kindOf c = .other ∨ kindOf c = .colon)
      (scans : Config.scan (.inside w) c = ([], .inside (w ++ [c]))) :
      ∃ r, Consumes p c r ∧
        Follows r (b.steps (Config.scan (.inside w) c).1) (Config.scan (.inside w) c).2 := by
    obtain ⟨next, step, pushed⟩ := holds.scanInside plain
    rw [scans]
    exact ⟨.ok next, .once step, next, rfl, pushed⟩
  have step : p.step c = (p.countLine c).switchState c := rfl
  rw [ParseConfig.switchState, state] at step
  cases kind : kindOf c with
  | openBrace =>
      exact ends (by rw [kind]; decide) (by rw [step, kind]) (by simp only [Config.scan, kind])
  | closeBrace =>
      exact ends (by rw [kind]; decide) (by rw [step, kind]) (by simp only [Config.scan, kind])
  | semicolon =>
      exact ends (by rw [kind]; decide) (by rw [step, kind]) (by simp only [Config.scan, kind])
  | newline =>
      exact ends (by rw [kind]; decide) (by rw [step, kind]) (by simp only [Config.scan, kind])
  | quote =>
      exact ends (by rw [kind]; decide) (by rw [step, kind]) (by simp only [Config.scan, kind])
  | tab => exact blanks (by rw [step, kind]) (by simp only [Config.scan, kind])
  | space => exact blanks (by rw [step, kind]) (by simp only [Config.scan, kind])
  | colon => exact goesOn (.inr kind) (by simp only [Config.scan, kind])
  | other => exact goesOn (.inl kind) (by simp only [Config.scan, kind])

theorem Holds.readQuoted {p : ParseConfig} {b : Builder} {w : Word}
    (holds : Holds p b (.quoted w)) (c : TextChar) :
    ∃ r, Consumes p c r ∧
      Follows r (b.steps (Config.scan (.quoted w) c).1) (Config.scan (.quoted w) c).2 := by
  have counted := holds.countLine c
  have state : (p.countLine c).state = .quotedInside := counted.state
  by_cases kind : kindOf c = .quote
  · refine ⟨.ok (p.countLine c).endStr, .once ?_, ?_⟩
    · rw [ParseConfig.step, ParseConfig.switchState, state, kind]
      rfl
    · rw [Config.scan, kind]
      exact ⟨_, rfl, counted.endStr (.inr rfl)⟩
  · refine ⟨.ok ((p.countLine c).pushChar c.val), .once ?_, ?_⟩
    · rw [ParseConfig.step, ParseConfig.switchState, state]
      cases other : kindOf c <;> first | exact absurd other kind | rfl
    · have scans : Config.scan (.quoted w) c = ([], .quoted (w ++ [c])) := by
        rw [Config.scan]
        cases other : kindOf c <;> first | exact absurd other kind | rfl
      rw [scans]
      exact ⟨_, rfl, counted.pushQuoted c⟩

/-- **One character keeps the parser and the builder together.** -/
theorem Holds.scan {p : ParseConfig} {b : Builder} {mode : Mode} (holds : Holds p b mode)
    (c : TextChar) :
    ∃ r, Consumes p c r ∧ Follows r (b.steps (Config.scan mode c).1) (Config.scan mode c).2 := by
  cases mode with
  | outside => exact holds.readOutside c
  | inside w => exact holds.readInside c
  | quoted w => exact holds.readQuoted c

/-! ## A whole text -/

/-- A failed result for no forest, and otherwise the records of the forest. -/
def Lays (r : Except ParseFailure (List UInt8)) : Option (List Opt) → Prop
  | none => ∃ e, r = .error e
  | some forest => r = .ok (encode forest)

theorem Holds.finishOutside {p : ParseConfig} {b : Builder} (holds : Holds p b .outside) :
    Lays p.finish b.finish := by
  obtain ⟨ended, result, holds'⟩ := holds.endOpt
  have outside : ¬ p.state ≠ .outside := not_not.mpr holds.state
  have below : ended.below = sectionsPos b.sections := holds'.below
  rw [ParseConfig.finish, if_neg outside, result, Builder.finish]
  dsimp only
  rw [below]
  cases opened : b.sections with
  | nil =>
      show Except.ok ended.outData = _
      rw [holds'.outData]
      simp [Builder.base, Builder.endOption, opened, sectionsBytes, Mode.bytes, Draft.bytes]
  | cons first outer => exact ⟨_, rfl⟩

/-- At the end of the text a string that is under way is ended first. -/
theorem Holds.finish_endStr {p : ParseConfig} {b : Builder} {mode : Mode} (holds : Holds p b mode)
    {w : Word} (word : mode = .inside w ∨ mode = .quoted w) : p.finish = p.endStr.finish := by
  have notOutside : p.state ≠ .outside := by
    rw [holds.state]
    rcases word with rfl | rfl <;> intro same <;> cases same
  have outside : ¬ p.endStr.state ≠ .outside := not_not.mpr (holds.endStr word).state
  rw [ParseConfig.finish, if_pos notOutside, ParseConfig.finish, if_neg outside]

theorem Holds.finish {p : ParseConfig} {b : Builder} {mode : Mode} (holds : Holds p b mode) :
    Lays p.finish ((b.steps mode.last).bind Builder.finish) := by
  have ends {w : Word} (word : mode = .inside w ∨ mode = .quoted w) :
      Lays p.finish { b with draft := b.draft.push w }.finish := by
    rw [holds.finish_endStr word]
    exact (holds.endStr word).finishOutside
  cases mode with
  | outside => exact holds.finishOutside
  | inside w => exact ends (.inl rfl)
  | quoted w => exact ends (.inr rfl)

/-- A consumed character costs the loop one turn or two. -/
theorem Consumes.loop {p : ParseConfig} {c : TextChar} {r : Except ParseFailure ParseConfig}
    (consumes : Consumes p c r) (left : Nat) (rest : List TextChar) :
    ∃ more, left ≤ more ∧ ParseConfig.loop (left + 2) (c :: rest) p =
      match r with
      | .error e => some (.error e)
      | .ok next => ParseConfig.loop more rest next := by
  cases consumes with
  | once first =>
      refine ⟨left + 1, Nat.le_succ left, ?_⟩
      rw [ParseConfig.loop, first]
      cases r <;> rfl
  | twice first again =>
      refine ⟨left, Nat.le_refl left, ?_⟩
      rw [ParseConfig.loop, first]
      dsimp only
      rw [ParseConfig.loop, again]
      cases r <;> rfl

/-- From any state that holds, two turns a character are enough, and the result is the
builder's. -/
theorem Holds.loop {p : ParseConfig} {b : Builder} {mode : Mode} (holds : Holds p b mode)
    {text : List TextChar} {fuel : Nat} (enough : 2 * text.length < fuel) :
    ∃ r, ParseConfig.loop fuel text p = some r ∧
      Lays r ((b.steps (tokens mode text)).bind Builder.finish) := by
  induction text generalizing p b mode fuel with
  | nil =>
      obtain ⟨left, rfl⟩ : ∃ left, fuel = left + 1 := ⟨fuel - 1, by omega⟩
      exact ⟨p.finish, rfl, holds.finish⟩
  | cons c rest ih =>
      rw [List.length_cons] at enough
      obtain ⟨left, rfl⟩ : ∃ left, fuel = left + 2 := ⟨fuel - 2, by omega⟩
      obtain ⟨r, consumes, follows⟩ := holds.scan c
      obtain ⟨more, room, loops⟩ := consumes.loop left rest
      rw [loops, tokens, Builder.steps_append]
      cases next : b.steps (Config.scan mode c).1 with
      | none =>
          rw [next] at follows
          obtain ⟨e, rfl⟩ := follows
          exact ⟨_, rfl, e, rfl⟩
      | some b' =>
          rw [next] at follows
          obtain ⟨p', rfl, holds'⟩ := follows
          exact ih holds' (by omega)

/-- **The parser's run is over within its bound; it fails where the text stands for
no forest, and otherwise leaves the records of the forest.** -/
theorem parseConfig_lays (text : List TextChar) :
    ∃ r, parseConfig text = some r ∧ Lays r (treeOf text) :=
  holds_fresh.loop (Nat.lt_succ_self _)

/-- An accepted text has an option tree, and its vector is the tree's records. -/
theorem parseConfig_accepted {text : List TextChar} {v : List UInt8}
    (accepted : parseConfig text = some (.ok v)) :
    ∃ forest, treeOf text = some forest ∧ v = encode forest := by
  obtain ⟨r, result, lays⟩ := parseConfig_lays text
  rw [accepted] at result
  cases result
  cases tree : treeOf text with
  | none =>
      rw [tree] at lays
      obtain ⟨e, failed⟩ := lays
      cases failed
  | some forest =>
      rw [tree] at lays
      cases lays
      exact ⟨forest, rfl, rfl⟩

end UdpStuff.Config
