/-
# Config.Numbers — values that are numbers

`cvt_val` of `config.h` for the two types that an address is loaded from.  A `uint32_t` is
read by `strtoul`, in base 16 behind `0x`, or by `inet_pton` behind `ipv4:`; any other type
is extracted from a stream.  The library functions are written after their documentation,
for the locale that a program starts with, and `inet_pton` after the automaton it is.

A number is read back from its numeral (`strtoul_numeral`, `extract_numeral`), and an
address from its dotted form (`inetPton_dotted`).
-/
import UdpStuff.Config.TreeText
import UdpStuff.Theory.ByteOrder
import Mathlib.Data.Nat.Digits.Lemmas

namespace UdpStuff.Config

open UdpStuff.Theory

set_option autoImplicit false

/-! ## Digits -/

/-- What a character counts in any base. -/
def letter (c : UInt8) : Option Nat :=
  if 48 ≤ c ∧ c ≤ 57 then some (c.toNat - 48)
  else if 97 ≤ c ∧ c ≤ 122 then some (c.toNat - 87)
  else if 65 ≤ c ∧ c ≤ 90 then some (c.toNat - 55)
  else none

def digit (base : Nat) (c : UInt8) : Option Nat := (letter c).filter (· < base)

/-- The number that the leading digits are, behind others that are `n`. -/
def magnitude (base : Nat) : List UInt8 → Nat → Nat
  | [], n => n
  | c :: rest, n =>
    match digit base c with
    | some d => magnitude base rest (base * n + d)
    | none => n

def isSpace (c : UInt8) : Bool := c = 32 ∨ 9 ≤ c ∧ c ≤ 13

/-- A minus or a plus sign, and what follows. -/
def sign : List UInt8 → Bool × List UInt8
  | 45 :: rest => (true, rest)
  | 43 :: rest => (false, rest)
  | rest => (false, rest)

/-- In base 16 the digits may have a prefix of their own. -/
def skipPrefix (base : Nat) : List UInt8 → List UInt8
  | 48 :: x :: rest => if base = 16 ∧ (x = 120 ∨ x = 88) then rest else 48 :: x :: rest
  | rest => rest

def strtoul (str : List UInt8) (base : Nat) : BitVec 64 :=
  let (minus, rest) := sign (str.dropWhile isSpace)
  let n := magnitude base (skipPrefix base rest) 0
  if 2 ^ 64 ≤ n then -1 else if minus then -BitVec.ofNat 64 n else BitVec.ofNat 64 n

/-- `std::istringstream(str) >> r` for a `uint16_t`; nothing but space leaves `r` as it was. -/
def extract (str : List UInt8) : Option (BitVec 16) :=
  match str.dropWhile isSpace with
  | [] => none
  | rest =>
    let (minus, rest) := sign rest
    let n := magnitude 10 rest 0
    some (if 2 ^ 16 ≤ n then -1 else if minus then -BitVec.ofNat 16 n else BitVec.ofNat 16 n)

/-! ## Dotted addresses -/

/-- The octets before, the one at hand, and whether it has a digit. -/
structure Octets where
  before : List UInt8 := []
  current : Nat := 0
  sawDigit : Bool := false
deriving DecidableEq

namespace Octets

/-- One more digit of the octet at hand. -/
def push (o : Octets) (d : Nat) : Option Octets :=
  if o.sawDigit = true ∧ o.current = 0 then none
  else if 255 < o.current * 10 + d then none
  else if o.sawDigit = false ∧ 4 < o.before.length + 1 then none
  else some { o with current := o.current * 10 + d, sawDigit := true }

/-- One character. -/
def step (o : Octets) (c : UInt8) : Option Octets :=
  if 48 ≤ c ∧ c ≤ 57 then o.push (c.toNat - 48)
  else if c = 46 ∧ o.sawDigit = true then
    if o.before.length + 1 = 4 then none
    else some { before := o.before ++ [UInt8.ofNat o.current] }
  else none

def finish (o : Octets) : Option (List UInt8) :=
  if o.before.length + (if o.sawDigit then 1 else 0) < 4 then none
  else some (o.before ++ [UInt8.ofNat o.current])

end Octets

/-- `inet_pton` for `AF_INET`: the four bytes in memory. -/
def inetPton (str : List UInt8) : Option (List UInt8) :=
  (str.foldlM Octets.step {}).bind Octets.finish

/-! ## `cvt_val` -/

/-- What looking a value up and converting it may throw. -/
inductive GetError where
  | outOfRange (what : String)
  /-- The string between the two parts of the message. -/
  | parseError (front : String) (str : List UInt8) (back : String)
deriving DecidableEq

def str2ipv4 (order : ByteOrder) (str : List UInt8) : Except GetError (BitVec 32) :=
  match inetPton str with
  | none => .error (.parseError "Converting string '" str "' to ipv4 failed")
  | some octets => .ok (order.load 32 octets)

/-- `cvt_val<uint32_t>`; what stands behind `0x` and `ipv4:` is as long as the string is. -/
def cvtVal32 (order : ByteOrder) (str : List UInt8) : Except GetError (BitVec 32) :=
  if str.take 2 = [48, 120] then .ok ((strtoul (str.drop 2) 16).setWidth 32)
  else if str.take 5 = [105, 112, 118, 52, 58] then str2ipv4 order (str.drop 5)
  else .ok ((strtoul str 10).setWidth 32)

/-- `cvt_val<uint16_t>`; `garbage` is what the variable holds before. -/
def cvtVal16 (garbage : BitVec 16) (str : List UInt8) : BitVec 16 := (extract str).getD garbage

/-! ## Numerals -/

def digitChar (d : Fin 16) : TextChar :=
  ⟨if d.val < 10 then 48 + UInt8.ofNat d.val else 87 + UInt8.ofNat d.val, by
    revert d
    decide⟩

/-- A number in a base up to 16. -/
def numeral (base n : Nat) : Word :=
  (if n = 0 then [0] else (Nat.digits base n).reverse).map fun d => digitChar (Fin.ofNat 16 d)

theorem letter_digitChar : ∀ d : Fin 16, letter (digitChar d).val = some d.val := by decide

theorem digit_digitChar {base d : Nat} (below : d < base) (small : base ≤ 16) :
    digit base (digitChar (Fin.ofNat 16 d)).val = some d := by
  have value : (Fin.ofNat 16 d).val = d := Nat.mod_eq_of_lt (below.trans_le small)
  rw [digit, letter_digitChar, value]
  simp [below]

theorem magnitude_digits {base : Nat} (small : base ≤ 16) {ds : List Nat}
    (below : ∀ d ∈ ds, d < base) (n : Nat) (rest : List UInt8) :
    magnitude base (Word.bytes (ds.map fun d => digitChar (Fin.ofNat 16 d)) ++ rest) n =
      magnitude base rest (ds.foldl (fun m d => base * m + d) n) := by
  induction ds generalizing n with
  | nil => rfl
  | cons d ds ih =>
      have one := digit_digitChar (below d List.mem_cons_self) small
      rw [List.map_cons, Word.bytes, List.map_cons, List.cons_append, magnitude, one]
      exact ih (fun d member => below d (List.mem_cons_of_mem _ member)) _

/-- **A numeral is read as its number.** -/
theorem magnitude_numeral {base : Nat} (two : 1 < base) (small : base ≤ 16) (n : Nat) :
    magnitude base (numeral base n).bytes 0 = n := by
  have below : ∀ d ∈ (if n = 0 then [0] else (Nat.digits base n).reverse), d < base := by
    intro d member
    split at member
    · rw [List.mem_singleton.mp member]
      exact Nat.zero_lt_of_lt two
    · exact Nat.digits_lt_base two (List.mem_reverse.mp member)
  have read := magnitude_digits small below 0 []
  rw [List.append_nil] at read
  rw [numeral, read, magnitude]
  split
  case isTrue zero =>
    rw [zero]
    rfl
  case isFalse =>
    have value := Nat.ofDigits_digits base n
    rw [Nat.ofDigits_eq_foldr] at value
    rw [List.foldl_reverse]
    refine Eq.trans ?_ value
    congr 1
    funext d m
    exact Nat.add_comm _ _

/-! ## What numerals begin with -/

theorem numeral_ne_nil (base n : Nat) : numeral base n ≠ [] := by
  rw [numeral, ne_eq, List.map_eq_nil_iff]
  split
  · exact List.cons_ne_nil _ _
  · rename_i nonzero
    rw [List.reverse_eq_nil_iff]
    exact Nat.digits_ne_nil_iff_ne_zero.mpr nonzero

/-- The characters of a numeral are digits, and nothing of a text but a word. -/
theorem mem_numeral {base n : Nat} {c : TextChar} (member : c ∈ numeral base n) :
    ∃ d : Fin 16, c = digitChar d := by
  obtain ⟨d, -, rfl⟩ := List.mem_map.mp member
  exact ⟨_, rfl⟩

theorem kindOf_digitChar : ∀ d : Fin 16, kindOf (digitChar d) = .other := by decide

theorem isSpace_digitChar : ∀ d : Fin 16, isSpace (digitChar d).val = false := by decide

/-- Nothing is skipped in front of a numeral. -/
theorem dropWhile_numeral (base n : Nat) :
    ((numeral base n).bytes).dropWhile isSpace = (numeral base n).bytes := by
  cases text : numeral base n with
  | nil => rfl
  | cons c rest =>
      obtain ⟨d, rfl⟩ := mem_numeral (by rw [text]; exact List.mem_cons_self)
      rw [Word.bytes, List.map_cons, List.dropWhile_cons, isSpace_digitChar]
      rfl

theorem sign_digitChar : ∀ (d : Fin 16) (rest : List UInt8),
    sign ((digitChar d).val :: rest) = (false, (digitChar d).val :: rest) := by
  intro d rest
  have other : (digitChar d).val ≠ 45 ∧ (digitChar d).val ≠ 43 := by
    revert d
    decide
  rw [sign]
  · intro more same
    exact other.1 (List.cons.inj same).1
  · intro more same
    exact other.2 (List.cons.inj same).1

theorem sign_numeral (base n : Nat) :
    sign (numeral base n).bytes = (false, (numeral base n).bytes) := by
  cases text : numeral base n with
  | nil => exact absurd text (numeral_ne_nil base n)
  | cons c rest =>
      obtain ⟨d, rfl⟩ := mem_numeral (by rw [text]; exact List.mem_cons_self)
      exact sign_digitChar d _

theorem not_prefix_digitChar : ∀ d : Fin 16,
    ¬((digitChar d).val = 120 ∨ (digitChar d).val = 88) := by decide

/-- A prefix has a letter that no numeral has. -/
theorem skipPrefix_numeral (base n : Nat) :
    skipPrefix base (numeral base n).bytes = (numeral base n).bytes := by
  rw [skipPrefix.eq_def]
  split
  · rename_i x rest text
    rw [if_neg]
    · exact text.symm
    · rintro ⟨-, letters⟩
      have member : x ∈ (numeral base n).bytes := by
        rw [text]
        exact List.mem_cons_of_mem _ List.mem_cons_self
      obtain ⟨c, inside, rfl⟩ := List.mem_map.mp member
      obtain ⟨d, rfl⟩ := mem_numeral inside
      exact not_prefix_digitChar d letters
  · rfl

theorem strtoul_numeral {base : Nat} (two : 1 < base) (small : base ≤ 16) {n : Nat}
    (fits : n < 2 ^ 64) : strtoul (numeral base n).bytes base = BitVec.ofNat 64 n := by
  rw [strtoul, dropWhile_numeral, sign_numeral]
  dsimp only
  rw [skipPrefix_numeral, magnitude_numeral two small, if_neg (not_le.mpr fits)]
  rfl

theorem extract_numeral {n : Nat} (fits : n < 2 ^ 16) :
    extract (numeral 10 n).bytes = some (BitVec.ofNat 16 n) := by
  have some' : (numeral 10 n).bytes ≠ [] := by
    rw [Word.bytes, ne_eq, List.map_eq_nil_iff]
    exact numeral_ne_nil 10 n
  rw [extract, dropWhile_numeral]
  split
  · rename_i empty
    exact absurd empty some'
  · rw [sign_numeral]
    dsimp only
    rw [magnitude_numeral (by decide) (by decide), if_neg (not_le.mpr fits)]
    rfl

/-! ## Dotted addresses are read back -/

def dot : TextChar := ⟨46, by decide⟩

/-- The dotted form of four octets. -/
def dotted (a b c d : UInt8) : Word :=
  numeral 10 a.toNat ++ dot :: (numeral 10 b.toNat ++ dot :: (numeral 10 c.toNat ++
    dot :: numeral 10 d.toNat))

/-- The digits of an octet, whatever is before it. -/
theorem foldlM_octet : ∀ n : Fin 256, ((numeral 10 n.val).bytes.foldlM Octets.step {}) =
    some { current := n.val, sawDigit := true } := by
  decide +kernel

/-- Digits are read the same behind up to three octets. -/
theorem step_behind {o o' : Octets} {c : UInt8} (first : o.before = [])
    (digit : 48 ≤ c ∧ c ≤ 57) (stepped : o.step c = some o') {before : List UInt8}
    (room : before.length < 4) :
    o'.before = [] ∧
      Octets.step { o with before } c = some { o' with before } := by
  rw [Octets.step, if_pos digit, Octets.push] at stepped
  rw [Octets.step, if_pos digit, Octets.push]
  split at stepped
  · cases stepped
  · rename_i leading
    rw [if_neg leading]
    split at stepped
    · cases stepped
    · rename_i large
      rw [if_neg large]
      split at stepped
      · cases stepped
      · cases stepped
        refine ⟨first, ?_⟩
        dsimp only
        rw [if_neg (by omega)]

theorem foldlM_behind {cs : List UInt8} (digits : ∀ c ∈ cs, 48 ≤ c ∧ c ≤ 57) {o o' : Octets}
    (first : o.before = []) (stepped : cs.foldlM Octets.step o = some o') {before : List UInt8}
    (room : before.length < 4) :
    cs.foldlM Octets.step { o with before } = some { o' with before } := by
  induction cs generalizing o with
  | nil =>
      cases stepped
      rfl
  | cons c cs ih =>
      rw [List.foldlM_cons] at stepped
      obtain ⟨next, one, later⟩ := Option.bind_eq_some_iff.mp stepped
      obtain ⟨first', one'⟩ := step_behind first (digits c List.mem_cons_self) one room
      rw [List.foldlM_cons, one']
      exact ih (fun c member => digits c (List.mem_cons_of_mem _ member)) first' later

theorem numeral_ten_digits (n : Fin 256) : ∀ c ∈ (numeral 10 n.val).bytes, 48 ≤ c ∧ c ≤ 57 := by
  revert n
  decide +kernel

/-- An octet behind up to three others. -/
theorem foldlM_numeral (a : UInt8) {before : List UInt8} (room : before.length < 4)
    (rest : List UInt8) :
    ((numeral 10 a.toNat).bytes ++ rest).foldlM Octets.step { before } =
      rest.foldlM Octets.step { before, current := a.toNat, sawDigit := true } := by
  have read := foldlM_behind (numeral_ten_digits ⟨a.toNat, a.toNat_lt⟩) rfl
    (foldlM_octet ⟨a.toNat, a.toNat_lt⟩) room
  rw [List.foldlM_append, read]
  rfl

/-- A dot behind an octet that is not the fourth. -/
theorem foldlM_dot (a : UInt8) {before : List UInt8} (room : before.length + 1 < 4)
    (rest : List UInt8) :
    (dot.val :: rest).foldlM Octets.step { before, current := a.toNat, sawDigit := true } =
      rest.foldlM Octets.step { before := before ++ [a] } := by
  have step : Octets.step { before, current := a.toNat, sawDigit := true } dot.val =
      some { before := before ++ [a] } := by
    rw [Octets.step, if_neg (by decide), if_pos ⟨rfl, rfl⟩, if_neg (by dsimp only; omega),
      UInt8.ofNat_toNat]
  rw [List.foldlM_cons, step]
  rfl

/-- **A dotted address is read as its octets.** -/
theorem inetPton_dotted (a b c d : UInt8) : inetPton (dotted a b c d).bytes = some [a, b, c, d] := by
  have text : (dotted a b c d).bytes = (numeral 10 a.toNat).bytes ++ dot.val ::
      ((numeral 10 b.toNat).bytes ++ dot.val :: ((numeral 10 c.toNat).bytes ++ dot.val ::
        ((numeral 10 d.toNat).bytes ++ []))) := by
    simp [dotted, Word.bytes]
  rw [inetPton, text, foldlM_numeral a (by simp), foldlM_dot a (by simp),
    foldlM_numeral b (by simp), foldlM_dot b (by simp), foldlM_numeral c (by simp),
    foldlM_dot c (by simp), foldlM_numeral d (by simp)]
  simp [Octets.finish, UInt8.ofNat_toNat]

end UdpStuff.Config
