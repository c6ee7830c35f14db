/-
# Proto.Outcome — how the generated parse functions end

Whether a parse returns, where, and what it throws does not depend on what the
result held before (`steadyStruct`).  Over a reader without bits, a parse of a type
that has values never meets an unknown union type (`dryStruct`).  And fields are
parsed one list after the other (`parseFields_append`).
-/
import UdpStuff.Proto.Found

namespace UdpStuff.Proto

set_option autoImplicit false

/-! ## Independence of what was there -/

/-- Two parses end alike over any two values. -/
def SameOutcome (parse parse' : Value → StreamReader → Parsed) : Prop :=
  ∀ (old other : Value) (r : StreamReader), (parse old r).rest = (parse' other r).rest

/-- The outcome is the same over any two values. -/
def Steady (parse : Value → StreamReader → Parsed) : Prop :=
  ∀ (old other : Value) (r : StreamReader), (parse old r).rest = (parse other r).rest

theorem sameItems {parse parse' : Value → StreamReader → Parsed} (same : SameOutcome parse parse')
    {olds others : List Value} (count : olds.length = others.length) (r : StreamReader) :
    (parseItems parse olds r).2 = (parseItems parse' others r).2 := by
  induction olds generalizing others r with
  | nil =>
      rw [List.eq_nil_of_length_eq_zero count.symm]
      rfl
  | cons old olds ih =>
      cases others with
      | nil => cases count
      | cons other others =>
          have ends := same old other r
          rw [parseItems, parseItems]
          cases one : parse old r with
          | mk v rest =>
              cases two : parse' other r with
              | mk w rest' =>
                  rw [one, two] at ends
                  dsimp only at ends
                  subst ends
                  cases rest with
                  | error e => rfl
                  | ok next => exact ih (Nat.succ.inj count) next

theorem sameArray {parse parse' : Value → StreamReader → Parsed}
    (same : SameOutcome parse parse') (n : Nat) :
    SameOutcome (parseArray parse n) (parseArray parse' n) := by
  intro old other r
  exact sameItems same ((length_resize _ n).trans (length_resize _ n).symm) r

/-- What a fragment lets through: the exceptions other than the end of its bits. -/
def thrown : Except ParseExc StreamReader → Option String
  | .error (.runtimeError descr) => some descr
  | _ => none

/-- How the reader goes on behind a fragment. -/
def goesOn (r : StreamReader) : Option String → Except ParseExc StreamReader
  | some descr => .error (.runtimeError descr)
  | none => .ok r

theorem rest_parseSized {prim : Primitives} {bits n k : Nat} {r : StreamReader}
    (number : prim.read (.uint bits) r.left = some (.number n, k))
    (parse : Value → StreamReader → Parsed) (old : Value) :
    (parseSized prim (some bits) parse old r).rest =
      goesOn (r.advance k) (thrown (parse old ((r.advance k).readFragment n)).rest) := by
  rw [parseSized, number]
  dsimp only
  split
  case h_1 v descr failed =>
    rw [failed]
    rfl
  case h_2 v rest quiet parsed =>
    rw [parsed]
    cases rest with
    | ok _ => rfl
    | error e =>
        cases e with
        | runtimeError descr => exact absurd rfl (quiet descr)
        | bitStreamFinished => rfl

/-- Behind a length field the parses need only throw alike. -/
theorem sameSized (prim : Primitives) {parse parse' : Value → StreamReader → Parsed}
    {length : Option Nat} (bare : length = none → SameOutcome parse parse')
    (framed : ∀ (old other : Value) (r : StreamReader),
      thrown (parse old r).rest = thrown (parse' other r).rest) :
    SameOutcome (parseSized prim length parse) (parseSized prim length parse') := by
  intro old other r
  cases length with
  | none => exact bare rfl old other r
  | some bits =>
      cases read : prim.read (.uint bits) r.left with
      | none =>
          rw [parseSized, parseSized, read]
      | some number =>
          obtain ⟨a, k⟩ := number
          obtain ⟨n, rfl, -, -, -⟩ := prim.read_uint read
          rw [rest_parseSized read, rest_parseSized read, framed old other]

theorem steadySized (prim : Primitives) {parse : Value → StreamReader → Parsed}
    (steady : Steady parse) (length : Option Nat) : Steady (parseSized prim length parse) :=
  sameSized prim (fun _ => steady) fun old other r => congrArg thrown (steady old other r)

variable (prim : Primitives)

mutual

theorem steadyField : ∀ f : FieldDescr, Steady (parseField prim f)
  | .mk _ none kind => by
      intro old other r
      rw [parseField, parseField]
      exact steadyKind kind old other r
  | .mk _ (some _) kind => by
      intro old other r
      rw [parseField, parseField]
      split
      case h_1 => rfl
      case h_2 => rfl
      case h_3 => exact steadyKind kind old other _

theorem steadyKind : ∀ kind : FieldKind, Steady (parseKind prim kind)
  | .leaf leaf => by
      intro old other r
      rw [parseKind, parseKind]
      split <;> rfl
  | .array item (.counted sizeBits) => by
      intro old other r
      rw [parseKind, parseKind]
      split
      case h_1 => exact sameArray (steadyField item) _ old other _
      case h_2 => rfl
  | .array item (.const n) => by
      intro old other r
      rw [parseKind, parseKind]
      exact sameArray (steadyField item) n old other r
  | .struct struct length => by
      intro old other r
      rw [parseKind, parseKind]
      exact steadySized prim (steadyStruct struct) length old other r
  | .union (.mk _ structs allowEmpty) typeBits length => by
      intro old other r
      rw [parseKind, parseKind]
      split
      case h_1 t k type =>
        split
        case isTrue => rfl
        case isFalse => exact steadySized prim (steadyVariant structs _) length _ _ _
      case h_2 => rfl

theorem steadyStruct : ∀ struct : StructDescr, Steady (parseStruct prim struct)
  | .mk _ fields => by
      intro old other r
      rw [parseStruct, parseStruct]
      exact steadyFields fields old.fields other.fields r

theorem steadyFields : ∀ (fields : List FieldDescr) (olds others : List Value)
    (r : StreamReader), (parseFields prim fields olds r).2 = (parseFields prim fields others r).2
  | [], _, _, _ => rfl
  | f :: rest, olds, others, r => by
      have same := steadyField f (olds.headD .blank) (others.headD .blank) r
      rw [parseFields, parseFields]
      cases one : parseField prim f (olds.headD .blank) r with
      | mk v outcome =>
          cases two : parseField prim f (others.headD .blank) r with
          | mk w outcome' =>
              rw [one, two] at same
              dsimp only at same
              subst same
              cases outcome with
              | error e => rfl
              | ok next => exact steadyFields rest olds.tail others.tail next

theorem steadyVariant : ∀ (structs : List StructDescr) (k : Nat),
    Steady (parseVariant prim structs k)
  | [], _ => fun _ _ _ => rfl
  | struct :: _, 0 => by
      intro old other r
      rw [parseVariant, parseVariant]
      exact steadyStruct struct old other r
  | _ :: rest, k + 1 => by
      intro old other r
      rw [parseVariant, parseVariant]
      exact steadyVariant rest k old other r

end

/-! ## Readers without bits -/

/-- The end of the bits, or a reader that has none. -/
def Dry (outcome : Except ParseExc StreamReader) : Prop :=
  outcome = .error .bitStreamFinished ∨ ∃ r, outcome = .ok r ∧ r.left = []

/-- The parse of a reader without bits ends so. -/
def EndsDry (parse : Value → StreamReader → Parsed) : Prop :=
  ∀ (old : Value) (r : StreamReader), r.left = [] → Dry (parse old r).rest

theorem dry_advance {r : StreamReader} (empty : r.left = []) (k : Nat) :
    Dry (.ok (r.advance k)) :=
  .inr ⟨_, rfl, by rw [StreamReader.left_advance, empty, List.drop_nil]⟩

theorem Dry.left {r : StreamReader} (dry : Dry (.ok r)) : r.left = [] := by
  rcases dry with failed | ⟨r', same, empty⟩
  · cases failed
  · cases same
    exact empty

variable {prim}

/-- Of no bits, only a number of no bits is read. -/
theorem read_uint_empty {bits k n : Nat} {a : Atom}
    (read : prim.read (.uint bits) [] = some (a, k)) (fits : n < 2 ^ bits) : a = .number n := by
  obtain ⟨m, rfl, bound, -, front⟩ := prim.read_uint read
  have width := prim.length_uint bits m
  rw [List.prefix_nil.mp front, List.length_nil] at width
  rw [← width] at bound fits
  rw [Nat.lt_one_iff.mp bound, Nat.lt_one_iff.mp fits]

theorem dryItems {parse : Value → StreamReader → Parsed} {olds : List Value}
    (dry : olds ≠ [] → EndsDry parse) {r : StreamReader} (empty : r.left = []) :
    Dry (parseItems parse olds r).2 := by
  induction olds generalizing r with
  | nil => exact .inr ⟨r, rfl, empty⟩
  | cons old olds ih =>
      have first := dry (List.cons_ne_nil _ _) old r empty
      rw [parseItems]
      split
      case h_1 failed =>
        rw [failed] at first
        exact first
      case h_2 next parsed =>
        rw [parsed] at first
        exact ih (fun _ => dry (List.cons_ne_nil _ _)) first.left

/-- An array of as many items as some value of its type. -/
theorem dryArray {parse : Value → StreamReader → Parsed} {vs : List Value}
    (dry : ∀ v ∈ vs, EndsDry parse) : EndsDry (parseArray parse vs.length) := by
  intro old r empty
  apply dryItems _ empty
  intro some
  cases vs with
  | nil => exact absurd (List.eq_nil_of_length_eq_zero (length_resize old.items 0)) some
  | cons v rest => exact dry v List.mem_cons_self

theorem drySized (prim : Primitives) {parse : Value → StreamReader → Parsed}
    (dry : EndsDry parse) (length : Option Nat) : EndsDry (parseSized prim length parse) := by
  intro old r empty
  cases length with
  | none => exact dry old r empty
  | some bits =>
      rw [parseSized, empty]
      split
      case h_1 n k number =>
        have none : n = 0 := Atom.number.inj (read_uint_empty number (Nat.two_pow_pos bits))
        have fragment := dry old ((r.advance k).readFragment n) (by
          rw [← List.length_eq_zero_iff, StreamReader.length_left_readFragment, none])
        dsimp only
        split
        case h_1 v descr failed =>
          rw [failed] at fragment
          rcases fragment with other | ⟨_, other, -⟩
          · cases other
          · cases other
        case h_2 => exact dry_advance empty k
      case h_2 => exact .inl rfl

mutual

theorem dryField : ∀ (f : FieldDescr) (v : Value), FitsField prim f v →
    EndsDry (parseField prim f)
  | .mk _ none kind, v, fits => by
      intro old r empty
      rw [parseField]
      exact dryKind kind v fits old r empty
  | .mk _ (some _) kind, v, fits => by
      intro old r empty
      rw [parseField, StreamReader.readFieldFlag, empty]
      exact .inl rfl

theorem dryKind : ∀ (kind : FieldKind) (v : Value), FitsKind prim kind v →
    EndsDry (parseKind prim kind)
  | .leaf leaf, v, fits => by
      intro old r empty
      rw [parseKind]
      split
      case h_1 => exact .inl rfl
      case h_2 => exact dry_advance empty _
  | .array item (.counted sizeBits), v, fits => by
      obtain ⟨vs, rfl, count, each⟩ := fits
      have items := dryArray fun x member => dryField item x (each x member)
      intro old r empty
      rw [parseKind, empty]
      split
      case h_1 n k size =>
        have same : n = vs.length := Atom.number.inj (read_uint_empty size count)
        rw [same]
        exact items old _ (by rw [StreamReader.left_advance, empty, List.drop_nil])
      case h_2 => exact .inl rfl
  | .array item (.const n), v, fits => by
      obtain ⟨vs, rfl, rfl, each⟩ := fits
      have items := dryArray fun x member => dryField item x (each x member)
      intro old r empty
      rw [parseKind]
      exact items old r empty
  | .struct struct length, v, fits => by
      intro old r empty
      rw [parseKind]
      exact drySized prim (dryStruct struct v fits.1) length old r empty
  | .union (.mk _ structs allowEmpty) typeBits length, v, fits => by
      obtain ⟨t, x, rfl, bound, selected⟩ := fits
      intro old r empty
      rw [parseKind, empty]
      split
      case h_1 u k type =>
        have same : u = t := Atom.number.inj (read_uint_empty type bound)
        subst same
        by_cases none : allowEmpty ∧ u = 0
        · rw [if_pos none]
          exact dry_advance empty k
        · rw [if_neg none] at selected ⊢
          have variant := drySized prim (dryVariant structs _ x selected.2.1) length
          exact variant _ _ (by rw [StreamReader.left_advance, empty, List.drop_nil])
      case h_2 => exact .inl rfl

theorem dryStruct : ∀ (struct : StructDescr) (v : Value), FitsStruct prim struct v →
    EndsDry (parseStruct prim struct)
  | .mk _ fields, v, fits => by
      obtain ⟨vs, rfl, each⟩ := fits
      intro old r empty
      rw [parseStruct]
      exact dryFields fields vs each old.fields r empty

theorem dryFields : ∀ (fields : List FieldDescr) (vs : List Value),
    FitsFields prim fields vs → ∀ (olds : List Value) (r : StreamReader), r.left = [] →
    Dry (parseFields prim fields olds r).2
  | [], _, _, _, r, empty => .inr ⟨r, rfl, empty⟩
  | f :: rest, vs, fits, olds, r, empty => by
      obtain ⟨v, later, rfl, fit, fits⟩ := fits
      have first := dryField f v fit (olds.headD .blank) r empty
      rw [parseFields]
      split
      case h_1 failed =>
        rw [failed] at first
        exact first
      case h_2 next parsed =>
        rw [parsed] at first
        exact dryFields rest later fits olds.tail _ first.left

theorem dryVariant : ∀ (structs : List StructDescr) (k : Nat) (v : Value),
    FitsVariant prim structs k v → EndsDry (parseVariant prim structs k)
  | [], _, _, fits => fits.elim
  | struct :: _, 0, v, fits => by
      intro old r empty
      rw [parseVariant]
      exact dryStruct struct v fits old r empty
  | _ :: rest, k + 1, v, fits => by
      intro old r empty
      rw [parseVariant]
      exact dryVariant rest k v fits old r empty

end

/-! ## Lists of fields -/

/-- Fields are parsed list by list, and an exception in the first list is the end. -/
theorem parseFields_append (fields later : List FieldDescr) (olds : List Value)
    (r : StreamReader) :
    parseFields prim (fields ++ later) olds r =
      match parseFields prim fields olds r with
      | (vs, .error e) => (vs, .error e)
      | (vs, .ok next) =>
        (vs ++ (parseFields prim later (olds.drop fields.length) next).1,
          (parseFields prim later (olds.drop fields.length) next).2) := by
  induction fields generalizing olds r with
  | nil => rfl
  | cons f fields ih =>
      rw [List.cons_append, parseFields, parseFields]
      split
      case h_1 => rfl
      case h_2 v next parsed =>
        dsimp only
        rw [ih olds.tail next, List.length_cons, ← List.drop_tail]
        split
        case h_1 failed => rw [failed]
        case h_2 parsed => rw [parsed]; rfl

/-- A parse that returns makes a value for each field. -/
theorem length_parseFields {fields : List FieldDescr} {olds vs : List Value}
    {r next : StreamReader} (parsed : parseFields prim fields olds r = (vs, .ok next)) :
    vs.length = fields.length := by
  induction fields generalizing olds vs r next with
  | nil =>
      cases parsed
      rfl
  | cons f fields ih =>
      rw [parseFields] at parsed
      split at parsed
      case h_1 => cases (Prod.mk.inj parsed).2
      case h_2 v r' first =>
        obtain ⟨rfl, ended⟩ := Prod.mk.inj parsed
        rw [List.length_cons, List.length_cons, ih (Prod.ext rfl ended)]

/-- Over nothing, a parse makes no more values than there are fields. -/
theorem length_parseFields_le (fields : List FieldDescr) (r : StreamReader) :
    (parseFields prim fields [] r).1.length ≤ fields.length := by
  induction fields generalizing r with
  | nil => exact Nat.le_refl 0
  | cons f fields ih =>
      rw [parseFields]
      split
      case h_1 => exact Nat.succ_le_succ (Nat.zero_le _)
      case h_2 v r' first => exact Nat.succ_le_succ (ih r')

/-- The front of a list of fields is found where a parse of all of them makes its
values. -/
theorem found_front {fields later : List FieldDescr} {vs ws : List Value} {r : StreamReader}
    (fits : FitsFields prim fields vs)
    (made : (parseFields prim (fields ++ later) [] r).1 = vs ++ ws) :
    FoundFields prim fields vs r := by
  obtain ⟨makes, finds⟩ := parseFields_exact fields vs fits
  have bound := @length_parseFields_le prim fields r
  rw [parseFields_append] at made
  cases parsed : parseFields prim fields [] r with
  | mk us outcome =>
      rw [parsed] at made bound
      cases outcome with
      | error e =>
          dsimp only at made bound
          rw [made, List.length_append, fits.length] at bound
          have none : ws = [] := List.eq_nil_of_length_eq_zero (by omega)
          rw [none, List.append_nil] at made
          exact finds (by rw [parsed]; exact made)
      | ok next =>
          have same := List.append_inj_left made
            ((length_parseFields parsed).trans fits.length.symm)
          exact finds (by rw [parsed]; exact same)

/-- The other fields are parsed after the front, if that is found. -/
theorem parseFields_front {fields : List FieldDescr} (later : List FieldDescr)
    {vs : List Value} {r : StreamReader} (fits : FitsFields prim fields vs)
    (here : FoundFields prim fields vs r) (olds : List Value) :
    parseFields prim (fields ++ later) olds r =
      (vs ++ (parseFields prim later (olds.drop fields.length)
          (r.advance (takenFields prim fields vs))).1,
        (parseFields prim later (olds.drop fields.length)
          (r.advance (takenFields prim fields vs))).2) := by
  rw [parseFields_append, (parseFields_exact fields vs fits).1 here]

end UdpStuff.Proto
