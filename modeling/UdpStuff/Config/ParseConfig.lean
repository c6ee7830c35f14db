/-
# Config.ParseConfig — the parser of `config.h`

`ParseConfig` reads a text character by character and writes records to a vector.
The length of a record is reserved when its name starts and patched when it ends,
at the position the top of `pos_stack` remembers.  Where a case steps `data` back,
the same character is read again in the new state.

The loop is bounded by `fuel`, two turns for each character; `none` is a run that
was not over by then.
-/
import UdpStuff.Config.OptionTree

namespace UdpStuff.Config

set_option autoImplicit false

open UdpStuff.Theory

/-- A thrown `ParseError`, with the vector as the parser leaves it. -/
structure ParseFailure where
  descr : String
  outData : List UInt8
deriving DecidableEq

inductive ParseState where
  | inside
  | quotedInside
  | outside
deriving DecidableEq

/-- The parser; `pos_stack` is its top and the positions below it. -/
structure ParseConfig where
  outData : List UInt8 := []
  back : Nat := 2 ^ 64 - 1
  below : List Nat := []
  nstr : Nat := 0
  lineNum : Nat := 0
  state : ParseState := .outside

namespace ParseConfig

/-- `throw_error` -/
def throwErr {α : Type} (p : ParseConfig) (msg : String) : Except ParseFailure α :=
  .error ⟨toString p.lineNum ++ ": " ++ msg, p.outData⟩

/-- `reserve_len`, and the caller's assignment of the position to `pos_stack.back()`. -/
def reserveLen (p : ParseConfig) : ParseConfig :=
  { p with outData := p.outData ++ leBytes 4 0, back := p.outData.length }

def updateLen (p : ParseConfig) (lenPos : Nat) : ParseConfig :=
  { p with outData :=
      p.outData.take lenPos ++ leBytes 4 (p.outData.length - lenPos) ++
        p.outData.drop (lenPos + 4) }

def pushChar (p : ParseConfig) (c : UInt8) : ParseConfig :=
  { p with outData := p.outData ++ [c] }

def endOpt (p : ParseConfig) : Except ParseFailure ParseConfig :=
  match p.nstr with
  | 0 => .ok p
  | 1 | 2 => .ok { p.updateLen p.back with nstr := 0 }
  | _ => p.throwErr "Too many strings for single option"

def startStr (p : ParseConfig) : ParseConfig :=
  if p.nstr = 0 then p.reserveLen
  else if p.nstr = 2 then { p with nstr := p.nstr - 1, outData := p.outData.dropLast ++ [32] }
  else p

def endStr (p : ParseConfig) : ParseConfig :=
  { p.pushChar 0 with state := .outside, nstr := p.nstr + 1 }

/-- The case `'{'` outside a string. -/
def openSection (p : ParseConfig) : Except ParseFailure ParseConfig :=
  if p.nstr ≠ 1 then p.throwErr "invalid string count before '\x7b'"
  else .ok { p.pushChar 0 with nstr := 0, back := 2 ^ 64 - 1, below := p.back :: p.below }

/-- The case `'}'` outside a string. -/
def closeSection (p : ParseConfig) : Except ParseFailure ParseConfig :=
  match p.endOpt with
  | .error e => .error e
  | .ok p =>
    match p.below with
    | [] => p.throwErr "unmatching '\x7d'"
    | back :: below => { p with back, below, nstr := 2 }.endOpt

/-- A result after which the next character is read. -/
def advance : Except ParseFailure ParseConfig → Except ParseFailure (ParseConfig × Bool)
  | .error e => .error e
  | .ok p => .ok (p, false)

/-- The line count at the head of the loop. -/
def countLine (p : ParseConfig) (c : TextChar) : ParseConfig :=
  if kindOf c = .newline ∧ p.state ≠ .inside then { p with lineNum := p.lineNum + 1 } else p

/-- The `switch` on the state, and whether it stepped `data` back. -/
def switchState (p : ParseConfig) (c : TextChar) : Except ParseFailure (ParseConfig × Bool) :=
  match p.state with
  | .outside =>
    match kindOf c with
    | .openBrace => advance p.openSection
    | .closeBrace => advance p.closeSection
    | .semicolon | .newline => advance p.endOpt
    | .tab | .space | .colon => .ok (p, false)
    | .quote => .ok ({ p.startStr with state := .quotedInside }, false)
    | .other => .ok ({ p.startStr with state := .inside }, true)
  | .inside =>
    match kindOf c with
    | .openBrace | .closeBrace | .semicolon | .newline | .quote => .ok (p.endStr, true)
    | .tab | .space => .ok (p.endStr, false)
    | .colon | .other => .ok (p.pushChar c.val, false)
  | .quotedInside =>
    match kindOf c with
    | .quote => .ok (p.endStr, false)
    | _ => .ok (p.pushChar c.val, false)

/-- The body of the loop. -/
def step (p : ParseConfig) (c : TextChar) : Except ParseFailure (ParseConfig × Bool) :=
  (p.countLine c).switchState c

/-- What follows the loop. -/
def finish (p : ParseConfig) : Except ParseFailure (List UInt8) :=
  let p := if p.state ≠ .outside then p.endStr else p
  match p.endOpt with
  | .error e => .error e
  | .ok p =>
    match p.below with
    | [] => .ok p.outData
    | _ => p.throwErr "Lacking '\x7d'"

def loop : Nat → List TextChar → ParseConfig → Option (Except ParseFailure (List UInt8))
  | 0, _, _ => none
  | _ + 1, [], p => some p.finish
  | fuel + 1, c :: rest, p =>
    match p.step c with
    | .error e => some (.error e)
    | .ok (next, false) => loop fuel rest next
    | .ok (next, true) => loop fuel (c :: rest) next

end ParseConfig

/-- The constructor, on an empty vector. -/
def parseConfig (text : List TextChar) : Option (Except ParseFailure (List UInt8)) :=
  ParseConfig.loop (2 * text.length + 1) text {}

end UdpStuff.Config
