/-
# Theory.Statements — programs of statements, and their text

Expressions and statements of a language with blocks in braces, as far as generators of such
programs use it: a program is a statement and what comes after it.  `lines` is its text.

`balanced_lines`: the braces of the text are those of the blocks.  `Scoped` says that names are
declared before they are used, in a block that is still open, and once in every block.
-/
import UdpStuff.Theory.Nesting

namespace UdpStuff.Theory

set_option autoImplicit false

/-! ## Expressions -/

inductive Expr where
  | name (x : String)
  | number (n : Nat)
  /-- A text that stands for a value, or a name that is no variable's. -/
  | text (s : String)
  | string (s : String)
  | member (e : Expr) (field : String)
  | method (e : Expr) (f : String) (args : List Expr)
  | call (f : String) (args : List Expr)
  | address (e : Expr)
  | binary (a : Expr) (op : String) (b : Expr)

namespace Expr

mutual

def print : Expr → String
  | .name x => x
  | .number n => toString n
  | .text s => s
  | .string s => "\"" ++ s ++ "\""
  | .member e field => e.print ++ "." ++ field
  | .method e f args => e.print ++ "." ++ f ++ "(" ++ printAll args ++ ")"
  | .call f args => f ++ "(" ++ printAll args ++ ")"
  | .address e => "&" ++ e.print
  | .binary a op b => a.print ++ " " ++ op ++ " " ++ b.print
termination_by structural e => e

def printAll : List Expr → String
  | [] => ""
  | e :: rest => e.print ++ printMore rest
termination_by structural es => es

def printMore : List Expr → String
  | [] => ""
  | e :: rest => ", " ++ e.print ++ printMore rest
termination_by structural es => es

end

attribute [simp] print printAll printMore

mutual

/-- The variables. -/
def names : Expr → List String
  | .name x => [x]
  | .number _ => []
  | .text _ => []
  | .string _ => []
  | .member e _ => e.names
  | .method e _ args => e.names ++ namesAll args
  | .call _ args => namesAll args
  | .address e => e.names
  | .binary a _ b => a.names ++ b.names
termination_by structural e => e

def namesAll : List Expr → List String
  | [] => []
  | e :: rest => e.names ++ namesAll rest
termination_by structural es => es

end

attribute [simp] names namesAll

end Expr

/-! ## Programs -/

/-- A program: `done`, or a statement and the program after it. -/
inductive Program where
  | done
  | expr (e : Expr) (next : Program)
  /-- A variable without a value. -/
  | declare (type x : String) (next : Program)
  | auto (x : String) (e : Expr) (next : Program)
  | throw (e : Expr) (next : Program)
  | throwIf (cond e : Expr) (next : Program)
  | leave (next : Program)
  | block (body next : Program)
  | ifThen (cond : Expr) (body next : Program)
  /-- The loop over a range; `mode` is how the variable is declared. -/
  | forEach (mode x : String) (range : Expr) (body next : Program)
  /-- What is caught is dropped. -/
  | tryCatch (body : Program) (exception : String) (next : Program)
  | switch (e : Expr) (cases next : Program)
  /-- A label of a `switch`, with the statements behind it. -/
  | label (e : Expr) (next : Program)
  | defaultLabel (next : Program)
  /-- A label with a block that ends in a `break`. -/
  | caseBlock (e : Expr) (body next : Program)

namespace Program

@[simp] def lines : Program → List String
  | .done => []
  | .expr e next => (e.print ++ ";") :: next.lines
  | .declare type x next => (type ++ " " ++ x ++ ";") :: next.lines
  | .auto x e next => ("auto " ++ x ++ " = " ++ e.print ++ ";") :: next.lines
  | .throw e next => ("throw " ++ e.print ++ ";") :: next.lines
  | .throwIf cond e next => ("if (" ++ cond.print ++ ") throw " ++ e.print ++ ";") :: next.lines
  | .leave next => "break;" :: next.lines
  | .block body next => "\x7b" :: body.lines ++ "\x7d" :: next.lines
  | .ifThen cond body next =>
    ("if (" ++ cond.print ++ ") \x7b") :: body.lines ++ "\x7d" :: next.lines
  | .forEach mode x range body next =>
    ("for (" ++ mode ++ x ++ " : " ++ range.print ++ ") \x7b") :: body.lines ++ "\x7d" :: next.lines
  | .tryCatch body exception next =>
    "try \x7b" :: body.lines ++ ("\x7d catch (" ++ exception ++ ") \x7b") :: "\x7d" :: next.lines
  | .switch e cases next =>
    ("switch (" ++ e.print ++ ") \x7b") :: cases.lines ++ "\x7d" :: next.lines
  | .label e next => ("case " ++ e.print ++ ":") :: next.lines
  | .defaultLabel next => "default:" :: next.lines
  | .caseBlock e body next =>
    ("case " ++ e.print ++ ": \x7b") :: body.lines ++ "\x7d break;" :: next.lines

/-- One program after the other. -/
def append : Program → Program → Program
  | .done, p => p
  | .expr e next, p => .expr e (next.append p)
  | .declare type x next, p => .declare type x (next.append p)
  | .auto x e next, p => .auto x e (next.append p)
  | .throw e next, p => .throw e (next.append p)
  | .throwIf cond e next, p => .throwIf cond e (next.append p)
  | .leave next, p => .leave (next.append p)
  | .block body next, p => .block body (next.append p)
  | .ifThen cond body next, p => .ifThen cond body (next.append p)
  | .forEach mode x range body next, p => .forEach mode x range body (next.append p)
  | .tryCatch body exception next, p => .tryCatch body exception (next.append p)
  | .switch e cases next, p => .switch e cases (next.append p)
  | .label e next, p => .label e (next.append p)
  | .defaultLabel next, p => .defaultLabel (next.append p)
  | .caseBlock e body next, p => .caseBlock e body (next.append p)

@[simp] theorem lines_append (p q : Program) : (p.append q).lines = p.lines ++ q.lines := by
  induction p <;> simp [append, *]

/-! ## Braces -/

end Program

def brace (c : Char) : Option Bool :=
  if c = '\x7b' then some true else if c = '\x7d' then some false else none

/-- A text without braces. -/
def Braceless (s : String) : Prop := ∀ c ∈ s.toList, brace c = none

instance (s : String) : Decidable (Braceless s) := List.decidableBAll _ _

@[simp] theorem braceless_append (s t : String) :
    Braceless (s ++ t) ↔ Braceless s ∧ Braceless t := by
  simp [Braceless, or_imp, forall_and]

@[simp] theorem braceless_repr (n : Nat) : Braceless n.repr := by
  intro c there
  have digit : c.isDigit = true :=
    Nat.isDigit_of_mem_toDigits (b := 10) (n := n) (by decide) (by decide) (by simpa using there)
  rw [brace, if_neg, if_neg]
  · rintro rfl
    exact absurd digit (by decide)
  · rintro rfl
    exact absurd digit (by decide)

namespace Program

/-- No text that stands in the program has a brace. -/
@[simp] def Plain : Program → Prop
  | .done => True
  | .expr e next => Braceless e.print ∧ next.Plain
  | .declare type x next => Braceless type ∧ Braceless x ∧ next.Plain
  | .auto x e next => Braceless x ∧ Braceless e.print ∧ next.Plain
  | .throw e next => Braceless e.print ∧ next.Plain
  | .throwIf cond e next => Braceless cond.print ∧ Braceless e.print ∧ next.Plain
  | .leave next => next.Plain
  | .block body next => body.Plain ∧ next.Plain
  | .ifThen cond body next => Braceless cond.print ∧ body.Plain ∧ next.Plain
  | .forEach mode x range body next =>
    Braceless mode ∧ Braceless x ∧ Braceless range.print ∧ body.Plain ∧ next.Plain
  | .tryCatch body exception next => body.Plain ∧ Braceless exception ∧ next.Plain
  | .switch e cases next => Braceless e.print ∧ cases.Plain ∧ next.Plain
  | .label e next => Braceless e.print ∧ next.Plain
  | .defaultLabel next => next.Plain
  | .caseBlock e body next => Braceless e.print ∧ body.Plain ∧ next.Plain

end Program

/-- The letters of lines. -/
def letters (lines : List String) : List Char := lines.flatMap String.toList

theorem letters_cons (line : String) (lines : List String) :
    letters (line :: lines) = line.toList ++ letters lines := List.flatMap_cons

theorem letters_append (lines later : List String) :
    letters (lines ++ later) = letters lines ++ letters later := List.flatMap_append

section Lines

variable {s : String} {m : Nat}

theorem Braceless.shifts (braceless : Braceless s) : Shifts brace s.toList m m :=
  Shifts.plain braceless

theorem Braceless.scan (braceless : Braceless s) (depth : Nat) :
    scan brace depth s.toList = some depth := Balanced.scan braceless.shifts depth

/-- A line that ends in an opening brace. -/
theorem Braceless.opens (braceless : Braceless s) :
    Shifts brace (s ++ "\x7b").toList m (m + 1) := by
  rw [String.toList_append]
  exact braceless.shifts.append (Shifts.opens rfl)

/-- A line that begins with a closing brace. -/
theorem Braceless.closes (braceless : Braceless s) :
    Shifts brace ("\x7d" ++ s).toList (m + 1) m := by
  rw [String.toList_append]
  apply Shifts.append _ braceless.shifts
  exact Shifts.closes rfl

/-- A block between two lines, and what comes after it. -/
theorem balanced_block {first last : String} {body later : List String}
    (opening : Shifts brace first.toList 0 1) (inside : Balanced brace (letters body))
    (closing : Shifts brace last.toList 1 0) (behind : Balanced brace (letters later)) :
    Balanced brace (letters (first :: body ++ last :: later)) := by
  rw [List.cons_append, letters_cons, letters_append, letters_cons]
  apply opening.append
  apply (inside.above 1).append
  exact closing.append behind

theorem balanced_line {line : String} {later : List String} (braceless : Braceless line)
    (behind : Balanced brace (letters later)) : Balanced brace (letters (line :: later)) := by
  rw [letters_cons]
  exact braceless.shifts.append behind

end Lines

namespace Program

/-- The braces of a program are those of its blocks. -/
theorem balanced_lines {p : Program} (plain : p.Plain) : Balanced brace (letters p.lines) := by
  have closing : Shifts brace "\x7d".toList 1 0 := Shifts.closes rfl
  induction p with
  | done => exact Shifts.nil
  | expr e next ih =>
      apply balanced_line _ (ih plain.2)
      simp +decide [plain.1]
  | declare type x next ih =>
      apply balanced_line _ (ih plain.2.2)
      simp +decide [plain.1, plain.2.1]
  | auto x e next ih =>
      apply balanced_line _ (ih plain.2.2)
      simp +decide [plain.1, plain.2.1]
  | throw e next ih =>
      apply balanced_line _ (ih plain.2)
      simp +decide [plain.1]
  | throwIf cond e next ih =>
      apply balanced_line _ (ih plain.2.2)
      simp +decide [plain.1, plain.2.1]
  | leave next ih =>
      apply balanced_line _ (ih plain)
      decide
  | block body next inside ih =>
      apply balanced_block _ (inside plain.1) closing (ih plain.2)
      exact Shifts.opens rfl
  | ifThen cond body next inside ih =>
      apply balanced_block _ (inside plain.2.1) closing (ih plain.2.2)
      rw [show ") \x7b" = ") " ++ "\x7b" from rfl, ← String.append_assoc]
      apply Braceless.opens
      simp +decide [plain.1]
  | forEach mode x range body next inside ih =>
      apply balanced_block _ (inside plain.2.2.2.1) closing (ih plain.2.2.2.2)
      rw [show ") \x7b" = ") " ++ "\x7b" from rfl, ← String.append_assoc]
      apply Braceless.opens
      simp +decide [plain.1, plain.2.1, plain.2.2.1]
  | tryCatch body exception next inside ih =>
      -- One line closes the first block and opens the second.
      have between :
          Shifts brace ("\x7d" ++ (" catch (" ++ exception ++ ") ") ++ "\x7b").toList 1 1 := by
        rw [String.toList_append]
        apply Shifts.append (Braceless.closes _) (Shifts.opens rfl)
        simp +decide [plain.2.1]
      have same : "\x7d catch (" ++ exception ++ ") \x7b" =
          "\x7d" ++ (" catch (" ++ exception ++ ") ") ++ "\x7b" := by
        simp [← String.toList_inj]
      rw [lines, List.cons_append, letters_cons, letters_append, letters_cons, letters_cons, same]
      have opening : Shifts brace "try \x7b".toList 0 1 := Braceless.opens (s := "try ") (by decide)
      apply opening.append
      apply ((inside plain.1).above 1).append
      exact between.append (closing.append (ih plain.2.2))
  | switch e cases next inside ih =>
      apply balanced_block _ (inside plain.2.1) closing (ih plain.2.2)
      rw [show ") \x7b" = ") " ++ "\x7b" from rfl, ← String.append_assoc]
      apply Braceless.opens
      simp +decide [plain.1]
  | label e next ih =>
      apply balanced_line _ (ih plain.2)
      simp +decide [plain.1]
  | defaultLabel next ih =>
      apply balanced_line _ (ih plain)
      decide
  | caseBlock e body next inside ih =>
      apply balanced_block _ (inside plain.2.1) _ (ih plain.2.2)
      · rw [show ": \x7b" = ": " ++ "\x7b" from rfl, ← String.append_assoc]
        apply Braceless.opens
        simp +decide [plain.1]
      · exact Braceless.closes (s := " break;") (by decide)

/-! ## Names -/

/-- The program uses variables that are declared: `visible` are all of them, and `here` those of
the innermost block, where none is declared again. -/
@[simp] def Scoped : Program → List String → List String → Prop
  | .done, _, _ => True
  | .expr e next, visible, here => e.names ⊆ visible ∧ next.Scoped visible here
  | .declare _ x next, visible, here => x ∉ here ∧ next.Scoped (x :: visible) (x :: here)
  | .auto x e next, visible, here =>
    e.names ⊆ visible ∧ x ∉ e.names ∧ x ∉ here ∧ next.Scoped (x :: visible) (x :: here)
  | .throw e next, visible, here => e.names ⊆ visible ∧ next.Scoped visible here
  | .throwIf cond e next, visible, here =>
    cond.names ⊆ visible ∧ e.names ⊆ visible ∧ next.Scoped visible here
  | .leave next, visible, here => next.Scoped visible here
  | .block body next, visible, here => body.Scoped visible [] ∧ next.Scoped visible here
  | .ifThen cond body next, visible, here =>
    cond.names ⊆ visible ∧ body.Scoped visible [] ∧ next.Scoped visible here
  | .forEach _ x range body next, visible, here =>
    range.names ⊆ visible ∧ body.Scoped (x :: visible) [x] ∧ next.Scoped visible here
  | .tryCatch body _ next, visible, here => body.Scoped visible [] ∧ next.Scoped visible here
  | .switch e cases next, visible, here =>
    e.names ⊆ visible ∧ cases.Scoped visible [] ∧ next.Scoped visible here
  | .label e next, visible, here => e.names ⊆ visible ∧ next.Scoped visible here
  | .defaultLabel next, visible, here => next.Scoped visible here
  | .caseBlock e body next, visible, here =>
    e.names ⊆ visible ∧ body.Scoped visible [] ∧ next.Scoped visible here

/-- What a program declares in its own block, last first. -/
@[simp] def declared : Program → List String
  | .done => []
  | .declare _ x next => next.declared ++ [x]
  | .auto x _ next => next.declared ++ [x]
  | .expr _ next | .throw _ next | .throwIf _ _ next | .leave next | .block _ next
  | .ifThen _ _ next | .forEach _ _ _ _ next | .tryCatch _ _ next | .switch _ _ next
  | .label _ next | .defaultLabel next | .caseBlock _ _ next => next.declared

theorem scoped_append {p q : Program} {visible here : List String} :
    (p.append q).Scoped visible here ↔
      p.Scoped visible here ∧ q.Scoped (p.declared ++ visible) (p.declared ++ here) := by
  induction p generalizing visible here <;> simp [append, and_assoc, *]

theorem declared_append (p q : Program) : (p.append q).declared = q.declared ++ p.declared := by
  induction p <;> simp [append, *]

end Program

end UdpStuff.Theory
