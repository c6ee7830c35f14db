/-
# Config.OptionTree — what a config text says

The options of a text, without any bytes of the vector that holds them.  A text is
cut into tokens: words, braces, and ends of options.  The tokens build a forest:
an option has a name and the rest of its words as its value, joined by one space;
a section has a name and options of its own.

`treeOf` is the forest a text stands for, if it stands for one, and `encode` the
records that lay it out.
-/
import UdpStuff.Theory.LittleEndian
import Mathlib.Data.BitVec

namespace UdpStuff.Config

set_option autoImplicit false

open UdpStuff.Theory

/-! ## Characters and words -/

/-- A character of a text; the text ends at the first NUL. -/
abbrev TextChar := {c : UInt8 // c ≠ 0}

abbrev Word := List TextChar

/-- The bytes of a word, without its NUL. -/
def Word.bytes (w : Word) : List UInt8 := w.map Subtype.val

def blank : TextChar := ⟨32, by decide⟩

theorem Word.zero_notMem (w : Word) : (0 : UInt8) ∉ w.bytes := by
  intro member
  obtain ⟨c, -, zero⟩ := List.mem_map.mp member
  exact c.property zero

/-- The characters that the tokenizer tells apart. -/
inductive CharKind where
  | openBrace
  | closeBrace
  | semicolon
  | newline
  | tab
  | space
  | colon
  | quote
  | other
deriving DecidableEq

def kindOf (c : TextChar) : CharKind :=
  if c.val = 123 then .openBrace
  else if c.val = 125 then .closeBrace
  else if c.val = 59 then .semicolon
  else if c.val = 10 then .newline
  else if c.val = 9 then .tab
  else if c.val = 32 then .space
  else if c.val = 58 then .colon
  else if c.val = 34 then .quote
  else .other

/-! ## Tokens -/

inductive Token where
  | word (w : Word)
  | openBrace
  | closeBrace
  | endOption
deriving DecidableEq

/-- Between words, or inside one with the characters read so far. -/
inductive Mode where
  | outside
  | inside (w : Word)
  | quoted (w : Word)
deriving DecidableEq

/-- The tokens that end with a character, and the mode after it.  A colon is only a
separator between words; a quote ends a plain word and starts a quoted one. -/
def scan : Mode → TextChar → List Token × Mode
  | .outside, c =>
    match kindOf c with
    | .openBrace => ([.openBrace], .outside)
    | .closeBrace => ([.closeBrace], .outside)
    | .semicolon | .newline => ([.endOption], .outside)
    | .tab | .space | .colon => ([], .outside)
    | .quote => ([], .quoted [])
    | .other => ([], .inside [c])
  | .inside w, c =>
    match kindOf c with
    | .openBrace => ([.word w, .openBrace], .outside)
    | .closeBrace => ([.word w, .closeBrace], .outside)
    | .semicolon | .newline => ([.word w, .endOption], .outside)
    | .tab | .space => ([.word w], .outside)
    | .quote => ([.word w], .quoted [])
    | .colon | .other => ([], .inside (w ++ [c]))
  | .quoted w, c =>
    match kindOf c with
    | .quote => ([.word w], .outside)
    | _ => ([], .quoted (w ++ [c]))

/-- The word that the end of the text ends. -/
def Mode.last : Mode → List Token
  | .outside => []
  | .inside w => [.word w]
  | .quoted w => [.word w]

def tokens : Mode → List TextChar → List Token
  | mode, [] => mode.last
  | mode, c :: rest => (scan mode c).1 ++ tokens (scan mode c).2 rest

/-! ## Options -/

/-- An option with or without a value, or a section of options. -/
inductive Opt where
  | single (name : Word) (value : Option Word)
  | group (name : Word) (children : List Opt)

/-- The option under way. -/
inductive Draft where
  | empty
  | named (name : Word)
  | valued (name value : Word)
deriving DecidableEq

namespace Draft

/-- One more word: the name, the value, or more of the value after one space. -/
def push : Draft → Word → Draft
  | .empty, w => .named w
  | .named name, w => .valued name w
  | .valued name value, w => .valued name (value ++ blank :: w)

def finished : Draft → List Opt
  | .empty => []
  | .named name => [.single name none]
  | .valued name value => [.single name (some value)]

end Draft

/-- A forest under way: the option at hand, the finished options of the innermost
open section, and for each open section its name and the options before it. -/
structure Builder where
  draft : Draft := .empty
  siblings : List Opt := []
  sections : List (List Opt × Word) := []

namespace Builder

def endOption (b : Builder) : Builder :=
  { b with draft := .empty, siblings := b.siblings ++ b.draft.finished }

/-- A token, if it may come: a brace opens a section after exactly one word, and
closes one that is open. -/
def step (b : Builder) : Token → Option Builder
  | .word w => some { b with draft := b.draft.push w }
  | .endOption => some b.endOption
  | .openBrace =>
    match b.draft with
    | .named name => some { siblings := [], sections := (b.siblings, name) :: b.sections }
    | _ => none
  | .closeBrace =>
    match b.sections with
    | [] => none
    | (before, name) :: outer =>
      some { siblings := before ++ [.group name b.endOption.siblings], sections := outer }

def steps (b : Builder) : List Token → Option Builder
  | [] => some b
  | t :: rest =>
    match b.step t with
    | none => none
    | some next => next.steps rest

/-- The forest, when no section is left open. -/
def finish (b : Builder) : Option (List Opt) :=
  match b.sections with
  | [] => some b.endOption.siblings
  | _ => none

theorem steps_append (b : Builder) (ts us : List Token) :
    b.steps (ts ++ us) = (b.steps ts).bind (fun next => next.steps us) := by
  induction ts generalizing b with
  | nil => rfl
  | cons t rest ih =>
      rw [List.cons_append, steps, steps]
      cases b.step t with
      | none => rfl
      | some next => exact ih next

end Builder

/-- The option tree of a text. -/
def treeOf (text : List TextChar) : Option (List Opt) :=
  (Builder.steps {} (tokens .outside text)).bind Builder.finish

/-! ## Records -/

/-- A record: its length in four bytes, themselves included, and its contents. -/
def record (body : List UInt8) : List UInt8 := leBytes 4 (4 + body.length) ++ body

mutual

/-- The record of an option: the name, the value if it has one, and the options of
a section after an empty value. -/
def Opt.encode : Opt → List UInt8
  | .single name none => record (name.bytes ++ [0])
  | .single name (some value) => record (name.bytes ++ [0] ++ value.bytes ++ [0])
  | .group name children => record (name.bytes ++ [0, 0] ++ encode children)

def encode : List Opt → List UInt8
  | [] => []
  | o :: rest => o.encode ++ encode rest

end

theorem encode_append (xs ys : List Opt) : encode (xs ++ ys) = encode xs ++ encode ys := by
  induction xs with
  | nil => rfl
  | cons o rest ih => rw [List.cons_append, encode, encode, ih, List.append_assoc]

/-! ## Preorder -/

/-- One option as it is listed: how deep it is, its name, and its value. -/
structure Line where
  depth : Nat
  name : List UInt8
  value : Option (List UInt8)
deriving DecidableEq

mutual

/-- The options in preorder; a section's value is empty. -/
def Opt.preorder (depth : Nat) : Opt → List Line
  | .single name value => [⟨depth, name.bytes, value.map Word.bytes⟩]
  | .group name children => ⟨depth, name.bytes, some []⟩ :: preorder (depth + 1) children

def preorder (depth : Nat) : List Opt → List Line
  | [] => []
  | o :: rest => o.preorder depth ++ preorder depth rest

end

end UdpStuff.Config
