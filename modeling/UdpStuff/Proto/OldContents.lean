/-
# Proto.OldContents — what a parse leaves of the old contents

A parse assigns what it reads, and nothing else: a field whose presence flag is not set
keeps what it held, and so do the fields behind the end of a length-delimited struct,
where the exception is caught.  `scan…` goes over the bits as the parse does, without a
result, and notes whether everything is assigned.

Contents are compared by their type (`Same…`): the fields of a struct, the number of
items of an array and each of them, the type variable of a union and the variant that it
selects.  Structs without any of these have no contents to keep (`bare…`).

`old_contents_iff`: a parse that returns leaves the same over all old contents if and
only if the scan finds everything assigned.
-/
import UdpStuff.Proto.Outcome

namespace UdpStuff.Proto

set_option autoImplicit false

/-! ## Contents of a type -/

mutual

/-- No field inside that holds anything. -/
def bareField : FieldDescr → Bool
  | .mk _ _ kind => bareKind kind

def bareKind : FieldKind → Bool
  | .struct struct _ => bareStruct struct
  | _ => false

def bareStruct : StructDescr → Bool
  | .mk _ fields => bareFields fields

def bareFields : List FieldDescr → Bool
  | [] => true
  | f :: rest => bareField f && bareFields rest

end

/-- The same of the variant that a type selects, if there is one. -/
def bareVariant : List StructDescr → Nat → Bool
  | [], _ => true
  | struct :: _, 0 => bareStruct struct
  | _ :: rest, k + 1 => bareVariant rest k

mutual

/-- Nothing in the field tells two contents apart. -/
def SameField : FieldDescr → Value → Value → Prop
  | .mk _ _ kind, v, w => SameKind kind v w

def SameKind : FieldKind → Value → Value → Prop
  | .leaf _, v, w => v = w
  | .array item _, v, w => List.Forall₂ (SameField item) v.items w.items
  | .struct struct _, v, w => SameStruct struct v w
  | .union (.mk _ structs allowEmpty) _ _, v, w => v.type = w.type ∧
      (¬ (allowEmpty ∧ v.type = 0) →
        SameVariant structs (v.type - firstType allowEmpty) (v.variant v.type) (w.variant w.type))

def SameStruct : StructDescr → Value → Value → Prop
  | .mk _ fields, v, w => SameFields fields v.fields w.fields

def SameFields : List FieldDescr → List Value → List Value → Prop
  | [], _, _ => True
  | f :: rest, vs, ws =>
    SameField f (vs.headD .blank) (ws.headD .blank) ∧ SameFields rest vs.tail ws.tail

def SameVariant : List StructDescr → Nat → Value → Value → Prop
  | [], _, _, _ => True
  | struct :: _, 0, v, w => SameStruct struct v w
  | _ :: rest, k + 1, v, w => SameVariant rest k v w

end

/-- The bits of the type that `get_type_name` gives a number; wider ones have none. -/
def storageBits (bits : Nat) : Nat :=
  if bits ≤ 8 then 8 else if bits ≤ 16 then 16 else if bits ≤ 32 then 32 else 64

/-- The variable of a leaf can hold it. -/
def Leaf.Holds : Leaf → Atom → Prop
  | .bool, .bool _ => True
  | .uint bits, .number n => n < 2 ^ storageBits bits
  | .int bits, .int z => (Leaf.int (storageBits bits)).Fits (.int z)
  | .float bits, .number n => n < 2 ^ if bits ≤ 32 then 32 else 64
  | .enum _, .number n => n < 2 ^ 31
  | .string _, .string _ => True
  | _, _ => False

mutual

/-- What a variable of the field's type can hold. -/
def ContentsField : FieldDescr → Value → Prop
  | .mk _ _ kind, v => ContentsKind kind v

def ContentsKind : FieldKind → Value → Prop
  | .leaf leaf, v => ∃ a, v = .atom a ∧ leaf.Holds a
  | .array item _, v => ∃ vs, v = .array vs ∧ ∀ x ∈ vs, ContentsField item x
  | .struct struct _, v => ContentsStruct struct v
  | .union (.mk _ structs allowEmpty) _ _, v => ∃ t x, v = .union t x ∧
      if allowEmpty ∧ t = 0 then x = .blank
      else ContentsVariant structs (t - firstType allowEmpty) x

def ContentsStruct : StructDescr → Value → Prop
  | .mk _ fields, v => ∃ vs, v = .struct vs ∧ ContentsFields fields vs

def ContentsFields : List FieldDescr → List Value → Prop
  | [], vs => vs = []
  | f :: rest, vs => ∃ v later, vs = v :: later ∧ ContentsField f v ∧ ContentsFields rest later

def ContentsVariant : List StructDescr → Nat → Value → Prop
  | [], _, v => v = .blank
  | struct :: _, 0, v => ContentsStruct struct v
  | _ :: rest, k + 1, v => ContentsVariant rest k v

end

/-! ## The scan -/

/-- Whether everything is assigned by the end of a parse, and how it ends. -/
structure Scan where
  assigned : Bool
  rest : Except ParseExc StreamReader

/-- The loop over the items of an array. -/
def scanItems (bare : Bool) (scanItem : StreamReader → Scan) : Nat → StreamReader → Scan
  | 0, r => ⟨true, .ok r⟩
  | n + 1, r =>
    match scanItem r with
    | ⟨assigned, .error e⟩ => ⟨assigned && (bare || n = 0), .error e⟩
    | ⟨assigned, .ok r⟩ =>
      let later := scanItems bare scanItem n r
      ⟨assigned && later.assigned, later.rest⟩

/-- By the reader itself, or behind a length field by a fragment. -/
def scanSized (prim : Primitives) (length : Option Nat) (bare : Bool)
    (scan : StreamReader → Scan) (r : StreamReader) : Scan :=
  match length with
  | none => scan r
  | some bits =>
    match prim.read (.uint bits) r.left with
    | some (.number length, k) =>
      let r := r.advance k
      match scan (r.readFragment length) with
      | ⟨assigned, .error (.runtimeError descr)⟩ => ⟨assigned, .error (.runtimeError descr)⟩
      | ⟨assigned, _⟩ => ⟨assigned, .ok r⟩
    | _ => ⟨bare, .error .bitStreamFinished⟩

mutual

def scanField (prim : Primitives) : FieldDescr → StreamReader → Scan
  | .mk _ none kind, r => scanKind prim kind r
  | .mk _ (some _) kind, r =>
    match r.readFieldFlag with
    | none => ⟨bareKind kind, .error .bitStreamFinished⟩
    | some (false, r) => ⟨bareKind kind, .ok r⟩
    | some (true, r) => scanKind prim kind r

def scanKind (prim : Primitives) : FieldKind → StreamReader → Scan
  | .leaf leaf, r =>
    match prim.read leaf r.left with
    | none => ⟨false, .error .bitStreamFinished⟩
    | some (_, k) => ⟨true, .ok (r.advance k)⟩
  | .array item (.counted sizeBits), r =>
    match prim.read (.uint sizeBits) r.left with
    | some (.number n, k) => scanItems (bareField item) (scanField prim item) n (r.advance k)
    | _ => ⟨false, .error .bitStreamFinished⟩
  | .array item (.const n), r => scanItems (bareField item) (scanField prim item) n r
  | .struct struct length, r =>
    scanSized prim length (bareStruct struct) (scanStruct prim struct) r
  | .union (.mk _ structs allowEmpty) typeBits length, r =>
    match prim.read (.uint typeBits) r.left with
    | some (.number t, k) =>
      if allowEmpty ∧ t = 0 then ⟨true, .ok (r.advance k)⟩
      else
        scanSized prim length (bareVariant structs (t - firstType allowEmpty))
          (scanVariant prim structs (t - firstType allowEmpty)) (r.advance k)
    | _ => ⟨false, .error .bitStreamFinished⟩

def scanStruct (prim : Primitives) : StructDescr → StreamReader → Scan
  | .mk _ fields, r => scanFields prim fields r

def scanFields (prim : Primitives) : List FieldDescr → StreamReader → Scan
  | [], r => ⟨true, .ok r⟩
  | f :: rest, r =>
    match scanField prim f r with
    | ⟨assigned, .error e⟩ => ⟨assigned && bareFields rest, .error e⟩
    | ⟨assigned, .ok r⟩ =>
      let later := scanFields prim rest r
      ⟨assigned && later.assigned, later.rest⟩

def scanVariant (prim : Primitives) : List StructDescr → Nat → StreamReader → Scan
  | [], _, _ => ⟨true, .error (.runtimeError "Unknown union type")⟩
  | struct :: _, 0, r => scanStruct prim struct r
  | _ :: rest, k + 1, r => scanVariant prim rest k r

end

/-! ## Telling two contents apart -/

/-- If all is assigned, any two contents lead to the same, and if not, some two of the type do
not. -/
structure Tells {α β : Type} (contents : α → Prop) (same : β → β → Prop) (value : α → β)
    (assigned : Bool) : Prop where
  agree : assigned = true → ∀ old other, same (value old) (value other)
  differ : assigned = false →
    ∃ old other, contents old ∧ contents other ∧ ¬ same (value old) (value other)

/-- A first value and the later ones. -/
theorem Tells.cons {contents : Value → Prop} {same : Value → Value → Prop} {value : Value → Value}
    {contents' : List Value → Prop} {same' : List Value → List Value → Prop}
    {value' : List Value → List Value} {assigned assigned' : Bool}
    (head : Tells contents same value assigned) (tail : Tells contents' same' value' assigned')
    (someHead : ∃ v, contents v) (someTail : ∃ vs, contents' vs) :
    Tells (fun vs => ∃ v later, vs = v :: later ∧ contents v ∧ contents' later)
      (fun vs ws => same (vs.headD .blank) (ws.headD .blank) ∧ same' vs.tail ws.tail)
      (fun olds => value (olds.headD .blank) :: value' olds.tail) (assigned && assigned') where
  agree all old other := by
    rw [Bool.and_eq_true] at all
    exact ⟨head.agree all.1 _ _, tail.agree all.2 _ _⟩
  differ some := by
    obtain ⟨v, holds⟩ := someHead
    obtain ⟨vs, holds'⟩ := someTail
    rw [Bool.and_eq_false_iff] at some
    rcases some with first | later
    · obtain ⟨old, other, one, two, apart⟩ := head.differ first
      exact ⟨old :: vs, other :: vs, ⟨_, _, rfl, one, holds'⟩, ⟨_, _, rfl, two, holds'⟩,
        fun both => apart both.1⟩
    · obtain ⟨olds, others, one, two, apart⟩ := tail.differ later
      exact ⟨v :: olds, v :: others, ⟨_, _, rfl, holds, one⟩, ⟨_, _, rfl, holds, two⟩,
        fun both => apart both.2⟩

theorem storageBits_pos (bits : Nat) : 8 ≤ storageBits bits := by
  rw [storageBits]
  split_ifs <;> omega

/-- Every leaf can hold two atoms. -/
theorem exists_atoms (leaf : Leaf) : ∃ a b : Atom, leaf.Holds a ∧ leaf.Holds b ∧ a ≠ b := by
  have numbers {k : Nat} (some : 8 ≤ k) : 0 < 2 ^ k ∧ 1 < 2 ^ k :=
    ⟨Nat.two_pow_pos k, Nat.one_lt_two_pow (by omega)⟩
  cases leaf with
  | bool => exact ⟨.bool false, .bool true, trivial, trivial, by simp⟩
  | string sizeBits => exact ⟨.string [], .string [0], trivial, trivial, by simp⟩
  | uint bits =>
      have bounds := numbers (storageBits_pos bits)
      exact ⟨.number 0, .number 1, bounds.1, bounds.2, by simp⟩
  | enum bits =>
      have bounds := @numbers 31 (by decide)
      exact ⟨.number 0, .number 1, bounds.1, bounds.2, by simp⟩
  | float bits =>
      have bounds := @numbers (if bits ≤ 32 then 32 else 64) (by split <;> decide)
      exact ⟨.number 0, .number 1, bounds.1, bounds.2, by simp⟩
  | int bits =>
      have bounds := numbers (storageBits_pos bits)
      have power : (1 : Int) < 2 ^ storageBits bits := by exact_mod_cast bounds.2
      refine ⟨.int 0, .int (-1), ?_, ?_, by simp⟩
      · rw [Leaf.Holds, Leaf.Fits]
        omega
      · have wide : (2 : Int) ^ 1 ≤ 2 ^ storageBits bits :=
          pow_le_pow_right₀ (by decide) (by have := storageBits_pos bits; omega)
        rw [Leaf.Holds, Leaf.Fits]
        omega

mutual

theorem exists_contentsField : ∀ f : FieldDescr, ∃ v, ContentsField f v
  | .mk _ _ kind => by
      obtain ⟨v, holds⟩ := exists_contentsKind kind
      exact ⟨v, by rwa [ContentsField]⟩

theorem exists_contentsKind : ∀ kind : FieldKind, ∃ v, ContentsKind kind v
  | .leaf leaf => by
      obtain ⟨a, -, holds, -⟩ := exists_atoms leaf
      exact ⟨.atom a, a, rfl, holds⟩
  | .array item _ => ⟨.array [], [], rfl, fun _ none => nomatch none⟩
  | .struct struct _ => by
      obtain ⟨v, holds⟩ := exists_contentsStruct struct
      exact ⟨v, by rwa [ContentsKind]⟩
  | .union (.mk _ structs allowEmpty) _ _ => by
      by_cases empty : allowEmpty ∧ 0 = 0
      · exact ⟨.union 0 .blank, 0, .blank, rfl, by rw [if_pos empty]⟩
      · obtain ⟨v, holds⟩ := exists_contentsVariant structs (0 - firstType allowEmpty)
        exact ⟨.union 0 v, 0, v, rfl, by rwa [if_neg empty]⟩

theorem exists_contentsStruct : ∀ struct : StructDescr, ∃ v, ContentsStruct struct v
  | .mk _ fields => by
      obtain ⟨vs, holds⟩ := exists_contentsFields fields
      exact ⟨.struct vs, vs, rfl, holds⟩

theorem exists_contentsFields : ∀ fields : List FieldDescr, ∃ vs, ContentsFields fields vs
  | [] => ⟨[], rfl⟩
  | f :: rest => by
      obtain ⟨v, holds⟩ := exists_contentsField f
      obtain ⟨vs, later⟩ := exists_contentsFields rest
      exact ⟨v :: vs, v, vs, rfl, holds, later⟩

theorem exists_contentsVariant : ∀ (structs : List StructDescr) (k : Nat),
    ∃ v, ContentsVariant structs k v
  | [], _ => ⟨.blank, rfl⟩
  | struct :: _, 0 => exists_contentsStruct struct
  | _ :: rest, k + 1 => exists_contentsVariant rest k

end

/-- A union can have any type. -/
theorem exists_contentsUnion (name : String) (structs : List StructDescr) (allowEmpty : Bool)
    (typeBits : Nat) (length : Option Nat) (t : Nat) :
    ∃ x, ContentsKind (.union (.mk name structs allowEmpty) typeBits length) (.union t x) := by
  by_cases empty : allowEmpty ∧ t = 0
  · exact ⟨.blank, t, .blank, rfl, by rw [if_pos empty]⟩
  · obtain ⟨x, holds⟩ := exists_contentsVariant structs (t - firstType allowEmpty)
    exact ⟨x, t, x, rfl, by rwa [if_neg empty]⟩

mutual

theorem bareField_tells : ∀ f : FieldDescr,
    Tells (ContentsField f) (SameField f) id (bareField f)
  | .mk _ _ kind => by
      have here := bareKind_tells kind
      refine ⟨fun all old other => ?_, fun some => ?_⟩
      · rw [SameField]
        exact here.agree all old other
      · simp only [ContentsField, SameField]
        exact here.differ some

theorem bareKind_tells : ∀ kind : FieldKind,
    Tells (ContentsKind kind) (SameKind kind) id (bareKind kind)
  | .leaf leaf => by
      refine ⟨fun all => absurd all Bool.false_ne_true, fun _ => ?_⟩
      obtain ⟨a, b, one, two, apart⟩ := exists_atoms leaf
      refine ⟨.atom a, .atom b, ⟨a, rfl, one⟩, ⟨b, rfl, two⟩, fun same => apart ?_⟩
      cases same
      rfl
  | .array item _ => by
      refine ⟨fun all => absurd all Bool.false_ne_true, fun _ => ?_⟩
      obtain ⟨x, holds⟩ := exists_contentsField item
      refine ⟨.array [], .array [x], ⟨[], rfl, fun _ none => nomatch none⟩, ⟨[x], rfl, ?_⟩, ?_⟩
      · intro y member
        rw [List.mem_singleton.mp member]
        exact holds
      · intro same
        cases same
  | .struct struct _ => by
      have here := bareStruct_tells struct
      refine ⟨fun all old other => ?_, fun some => ?_⟩
      · rw [SameKind]
        exact here.agree all old other
      · simp only [ContentsKind, SameKind]
        exact here.differ some
  | .union (.mk name structs allowEmpty) typeBits length => by
      refine ⟨fun all => absurd all Bool.false_ne_true, fun _ => ?_⟩
      obtain ⟨x, one⟩ := exists_contentsUnion name structs allowEmpty typeBits length 0
      obtain ⟨y, two⟩ := exists_contentsUnion name structs allowEmpty typeBits length 1
      exact ⟨.union 0 x, .union 1 y, one, two, fun same => absurd same.1 Nat.zero_ne_one⟩

theorem bareStruct_tells : ∀ struct : StructDescr,
    Tells (ContentsStruct struct) (SameStruct struct) id (bareStruct struct)
  | .mk _ fields => by
      have here := bareFields_tells fields
      refine ⟨fun all old other => ?_, fun some => ?_⟩
      · rw [SameStruct]
        exact here.agree all _ _
      · obtain ⟨old, other, one, two, apart⟩ := here.differ some
        exact ⟨.struct old, .struct other, ⟨old, rfl, one⟩, ⟨other, rfl, two⟩, apart⟩

theorem bareFields_tells : ∀ fields : List FieldDescr,
    Tells (ContentsFields fields) (SameFields fields) id (bareFields fields)
  | [] => ⟨fun _ _ _ => trivial, fun some => nomatch some⟩
  | f :: rest => by
      have here := (bareField_tells f).cons (bareFields_tells rest) (exists_contentsField f)
        (exists_contentsFields rest)
      refine ⟨fun all old other => ?_, fun some => ?_⟩
      · exact here.agree all old other
      · obtain ⟨old, other, ⟨v, later, rfl, one⟩, ⟨w, later', rfl, two⟩, apart⟩ :=
          here.differ some
        exact ⟨v :: later, w :: later', ⟨v, later, rfl, one⟩, ⟨w, later', rfl, two⟩, apart⟩

end

theorem bareVariant_tells : ∀ (structs : List StructDescr) (k : Nat),
    Tells (ContentsVariant structs k) (SameVariant structs k) id (bareVariant structs k)
  | [], _ => ⟨fun _ _ _ => trivial, fun some => nomatch some⟩
  | struct :: _, 0 => bareStruct_tells struct
  | _ :: rest, k + 1 => bareVariant_tells rest k

/-! ## The scan ends as the parse, and finds what it assigns -/

/-- The scan is right about the parse. -/
structure Scanned (contents : Value → Prop) (same : Value → Value → Prop)
    (parse : Value → StreamReader → Parsed) (scan : StreamReader → Scan) : Prop where
  rest : ∀ r old, (parse old r).rest = (scan r).rest
  tells : ∀ r, Tells contents same (fun old => (parse old r).value) (scan r).assigned

/-- Everything is assigned. -/
theorem Tells.made {α β : Type} {contents : α → Prop} {same : β → β → Prop} {value : α → β}
    (agree : ∀ old other, same (value old) (value other)) : Tells contents same value true :=
  ⟨fun _ => agree, fun some => absurd some.symm Bool.false_ne_true⟩

/-- What the parse of items over as many old ones makes, and how it ends. -/
structure ScannedItems (contents : Value → Prop) (same : Value → Value → Prop)
    (parse : Value → StreamReader → Parsed) (n : Nat) (r : StreamReader) (scan : Scan) : Prop where
  rest : ∀ olds : List Value, olds.length = n → (parseItems parse olds r).2 = scan.rest
  agree : scan.assigned = true → ∀ olds others : List Value, olds.length = n →
    others.length = n →
    List.Forall₂ same (parseItems parse olds r).1 (parseItems parse others r).1
  differ : scan.assigned = false → ∃ old other, contents old ∧ contents other ∧
    ¬ List.Forall₂ same (parseItems parse (List.replicate n old) r).1
      (parseItems parse (List.replicate n other) r).1

variable {prim : Primitives} {contents : Value → Prop} {same : Value → Value → Prop}
  {parse : Value → StreamReader → Parsed} {scan : StreamReader → Scan} {bare : Bool}

theorem parseItems_error {v : Value} {old : Value} {r : StreamReader} {e : ParseExc}
    (failed : parse old r = ⟨v, .error e⟩) (olds : List Value) :
    parseItems parse (old :: olds) r = (v :: olds, .error e) := by
  rw [parseItems, failed]

theorem parseItems_ok {v : Value} {old : Value} {r next : StreamReader}
    (parsed : parse old r = ⟨v, .ok next⟩) (olds : List Value) :
    parseItems parse (old :: olds) r =
      (v :: (parseItems parse olds next).1, (parseItems parse olds next).2) := by
  rw [parseItems, parsed]

theorem Scanned.eq (scanned : Scanned contents same parse scan) (old : Value) (r : StreamReader) :
    parse old r = ⟨(parse old r).value, (scan r).rest⟩ := by
  rw [← scanned.rest r old]

/-- Items that are all alike are alike one by one. -/
theorem forall₂_of_agree {olds others : List Value} (agree : ∀ old other, same old other)
    (count : olds.length = others.length) : List.Forall₂ same olds others :=
  List.forall₂_iff_zip.mpr ⟨count, fun _ => agree _ _⟩

/-- An item that throws leaves the later ones as they were. -/
theorem Scanned.items_error (scanned : Scanned contents same parse scan)
    (keeps : Tells contents same id bare) {n : Nat} {r : StreamReader} {assigned : Bool}
    {e : ParseExc} (item : scan r = ⟨assigned, .error e⟩) :
    ScannedItems contents same parse (n + 1) r ⟨assigned && (bare || n = 0), .error e⟩ := by
  have tells := scanned.tells r
  have each (old : Value) := scanned.eq old r
  rw [item] at tells each
  refine ⟨fun olds count => ?_, fun all olds others count count' => ?_, fun some => ?_⟩
  · obtain ⟨old, rest, rfl⟩ := List.exists_cons_of_length_eq_add_one count
    rw [parseItems_error (each old)]
  · obtain ⟨old, rest, rfl⟩ := List.exists_cons_of_length_eq_add_one count
    obtain ⟨other, rest', rfl⟩ := List.exists_cons_of_length_eq_add_one count'
    rw [Bool.and_eq_true, Bool.or_eq_true, decide_eq_true_eq] at all
    rw [List.length_cons, Nat.add_right_cancel_iff] at count count'
    rw [parseItems_error (each old), parseItems_error (each other)]
    refine .cons (tells.agree all.1 old other) ?_
    rcases all.2 with nothing | none
    · exact forall₂_of_agree (keeps.agree nothing) (count.trans count'.symm)
    · rw [List.eq_nil_of_length_eq_zero (count.trans none),
        List.eq_nil_of_length_eq_zero (count'.trans none)]
      exact .nil
  · rw [Bool.and_eq_false_iff, Bool.or_eq_false_iff, decide_eq_false_iff_not] at some
    rcases some with first | ⟨later, more⟩
    · obtain ⟨old, other, one, two, apart⟩ := tells.differ first
      refine ⟨old, other, one, two, fun alike => apart ?_⟩
      rw [List.replicate_succ, List.replicate_succ, parseItems_error (each old),
        parseItems_error (each other)] at alike
      exact (List.forall₂_cons.mp alike).1
    · obtain ⟨old, other, one, two, apart⟩ := keeps.differ later
      obtain ⟨m, rfl⟩ := Nat.exists_eq_succ_of_ne_zero more
      refine ⟨old, other, one, two, fun alike => apart ?_⟩
      simp only [List.replicate_succ, parseItems_error (each _), List.forall₂_cons] at alike
      exact alike.2.1

/-- Behind an item that returns, the later ones are parsed. -/
theorem Scanned.items_ok (scanned : Scanned contents same parse scan) {n : Nat}
    {r next : StreamReader} {assigned : Bool} {later : Scan}
    (item : scan r = ⟨assigned, .ok next⟩) (rest : ScannedItems contents same parse n next later) :
    ScannedItems contents same parse (n + 1) r ⟨assigned && later.assigned, later.rest⟩ := by
  have tells := scanned.tells r
  have each (old : Value) := scanned.eq old r
  rw [item] at tells each
  refine ⟨fun olds count => ?_, fun all olds others count count' => ?_, fun some => ?_⟩
  · obtain ⟨old, olds, rfl⟩ := List.exists_cons_of_length_eq_add_one count
    rw [parseItems_ok (each old)]
    exact rest.rest olds (Nat.succ.inj count)
  · obtain ⟨old, olds, rfl⟩ := List.exists_cons_of_length_eq_add_one count
    obtain ⟨other, others, rfl⟩ := List.exists_cons_of_length_eq_add_one count'
    rw [Bool.and_eq_true] at all
    rw [parseItems_ok (each old), parseItems_ok (each other)]
    exact .cons (tells.agree all.1 old other)
      (rest.agree all.2 olds others (Nat.succ.inj count) (Nat.succ.inj count'))
  · rw [Bool.and_eq_false_iff] at some
    rcases some with first | last
    · obtain ⟨old, other, one, two, apart⟩ := tells.differ first
      refine ⟨old, other, one, two, fun alike => apart ?_⟩
      rw [List.replicate_succ, List.replicate_succ, parseItems_ok (each old),
        parseItems_ok (each other)] at alike
      exact (List.forall₂_cons.mp alike).1
    · obtain ⟨old, other, one, two, apart⟩ := rest.differ last
      refine ⟨old, other, one, two, fun alike => apart ?_⟩
      rw [List.replicate_succ, List.replicate_succ, parseItems_ok (each old),
        parseItems_ok (each other)] at alike
      exact (List.forall₂_cons.mp alike).2

theorem Scanned.items (scanned : Scanned contents same parse scan)
    (keeps : Tells contents same id bare) (n : Nat) (r : StreamReader) :
    ScannedItems contents same parse n r (scanItems bare scan n r) := by
  induction n generalizing r with
  | zero =>
      refine ⟨fun olds none => ?_, fun _ olds others none none' => ?_, fun some => nomatch some⟩
      · rw [List.eq_nil_of_length_eq_zero none]
        rfl
      · rw [List.eq_nil_of_length_eq_zero none, List.eq_nil_of_length_eq_zero none']
        exact .nil
  | succ n ih =>
      rw [scanItems]
      cases item : scan r with
      | mk assigned rest =>
          cases rest with
          | error e => exact scanned.items_error keeps item
          | ok next => exact scanned.items_ok item (ih next)

/-- An array of as many items as there are old ones, or not. -/
theorem Scanned.array (scanned : Scanned contents same parse scan)
    (keeps : Tells contents same id bare) (n : Nat) :
    Scanned (fun v => ∃ vs, v = .array vs ∧ ∀ x ∈ vs, contents x)
      (fun v w => List.Forall₂ same v.items w.items) (parseArray parse n) (scanItems bare scan n)
    where
  rest r old := (scanned.items keeps n r).rest _ (length_resize _ n)
  tells r := by
    have items := scanned.items keeps n r
    refine ⟨fun all old other => ?_, fun some => ?_⟩
    · exact items.agree all _ _ (length_resize _ n) (length_resize _ n)
    · obtain ⟨old, other, one, two, apart⟩ := items.differ some
      have whole (v : Value) : resize (Value.array (List.replicate n v)).items n =
          List.replicate n v := by
        simp [resize]
      have each {v : Value} (holds : contents v) : ∀ x ∈ List.replicate n v, contents x := by
        intro x member
        rw [(List.mem_replicate.mp member).2]
        exact holds
      refine ⟨.array (List.replicate n old), .array (List.replicate n other),
        ⟨_, rfl, each one⟩, ⟨_, rfl, each two⟩, fun alike => apart ?_⟩
      rw [parseArray, parseArray, whole, whole] at alike
      exact alike

/-- Behind a number that says what comes. -/
theorem Scanned.number {parseOf : Nat → Value → StreamReader → Parsed}
    {scanOf : Nat → StreamReader → Scan} (keeps : Tells contents same id bare)
    (each : ∀ n, Scanned contents same (parseOf n) (scanOf n)) (prim : Primitives) (bits : Nat)
    (parses : ∀ old r, parse old r =
      match prim.read (.uint bits) r.left with
      | some (.number n, k) => parseOf n old (r.advance k)
      | _ => ⟨old, .error .bitStreamFinished⟩)
    (scans : ∀ r, scan r =
      match prim.read (.uint bits) r.left with
      | some (.number n, k) => scanOf n (r.advance k)
      | _ => ⟨bare, .error .bitStreamFinished⟩) : Scanned contents same parse scan := by
  refine ⟨fun r old => ?_, fun r => ?_⟩
  · rw [parses, scans]
    cases read : prim.read (.uint bits) r.left with
    | none => rfl
    | some number =>
        obtain ⟨a, k⟩ := number
        obtain ⟨n, rfl, -, -, -⟩ := prim.read_uint read
        exact (each n).rest _ old
  · simp only [parses, scans]
    cases read : prim.read (.uint bits) r.left with
    | none => exact keeps
    | some number =>
        obtain ⟨a, k⟩ := number
        obtain ⟨n, rfl, -, -, -⟩ := prim.read_uint read
        exact (each n).tells _

/-- The value is what the parse of the fragment makes. -/
theorem value_parseSized {bits n k : Nat} {r : StreamReader}
    (number : prim.read (.uint bits) r.left = some (.number n, k)) (old : Value) :
    (parseSized prim (some bits) parse old r).value =
      (parse old ((r.advance k).readFragment n)).value := by
  rw [parseSized, number]
  dsimp only
  split
  case h_1 v descr failed => rw [failed]
  case h_2 v rest quiet parsed => rw [parsed]

theorem scanSized_eq {bits n k : Nat} {r : StreamReader}
    (number : prim.read (.uint bits) r.left = some (.number n, k)) :
    scanSized prim (some bits) bare scan r =
      ⟨(scan ((r.advance k).readFragment n)).assigned,
        goesOn (r.advance k) (thrown (scan ((r.advance k).readFragment n)).rest)⟩ := by
  rw [scanSized, number]
  dsimp only
  cases scan ((r.advance k).readFragment n) with
  | mk assigned rest =>
      cases rest with
      | ok next => rfl
      | error e => cases e <;> rfl

/-- Behind a length field, or without one. -/
theorem Scanned.sized (scanned : Scanned contents same parse scan)
    (keeps : Tells contents same id bare) (length : Option Nat) :
    Scanned contents same (parseSized prim length parse) (scanSized prim length bare scan) := by
  cases length with
  | none => exact scanned
  | some bits =>
      refine ⟨fun r old => ?_, fun r => ?_⟩
      · cases read : prim.read (.uint bits) r.left with
        | none => rw [parseSized, scanSized, read]
        | some number =>
            obtain ⟨a, k⟩ := number
            obtain ⟨n, rfl, -, -, -⟩ := prim.read_uint read
            rw [rest_parseSized read, scanSized_eq read, scanned.rest]
      · cases read : prim.read (.uint bits) r.left with
        | none =>
            simp only [parseSized, scanSized, read]
            exact keeps
        | some number =>
            obtain ⟨a, k⟩ := number
            obtain ⟨n, rfl, -, -, -⟩ := prim.read_uint read
            rw [scanSized_eq read]
            simp only [value_parseSized read]
            exact scanned.tells _

/-- The selected variant of a union, which has its type then. -/
theorem Scanned.asUnion {structs : List StructDescr} {allowEmpty : Bool} {t : Nat}
    (some : ¬ (allowEmpty ∧ t = 0))
    (scanned : Scanned (ContentsVariant structs (t - firstType allowEmpty))
      (SameVariant structs (t - firstType allowEmpty)) parse scan)
    (name : String) (typeBits : Nat) (length : Option Nat) :
    Scanned (ContentsKind (.union (.mk name structs allowEmpty) typeBits length))
      (SameKind (.union (.mk name structs allowEmpty) typeBits length))
      (fun old r => (parse (old.variant t) r).asUnion t) scan where
  rest r old := scanned.rest r _
  tells r := by
    have variant := scanned.tells r
    refine ⟨fun all old other => ?_, fun part => ?_⟩
    · refine ⟨rfl, fun _ => ?_⟩
      simp only [Parsed.asUnion, Value.type_union, Value.variant_union]
      exact variant.agree all _ _
    · obtain ⟨old, other, one, two, apart⟩ := variant.differ part
      refine ⟨.union t old, .union t other, ⟨t, old, rfl, by rwa [if_neg some]⟩,
        ⟨t, other, rfl, by rwa [if_neg some]⟩, fun alike => apart ?_⟩
      have inside := alike.2 some
      simp only [Parsed.asUnion, Value.type_union, Value.variant_union] at inside
      exact inside

/-- A field that throws leaves the later ones as they were. -/
theorem parseFields_error {f : FieldDescr} {r : StreamReader} {e : ParseExc}
    (failed : ∀ old, (parseField prim f old r).rest = .error e) (rest : List FieldDescr)
    (olds : List Value) : parseFields prim (f :: rest) olds r =
      ((parseField prim f (olds.headD .blank) r).value :: olds.tail, .error e) := by
  have here : parseField prim f (olds.headD .blank) r =
      ⟨(parseField prim f (olds.headD .blank) r).value, .error e⟩ := by
    rw [← failed (olds.headD .blank)]
  rw [parseFields, here]

theorem parseFields_ok {f : FieldDescr} {r next : StreamReader}
    (parsed : ∀ old, (parseField prim f old r).rest = .ok next) (rest : List FieldDescr)
    (olds : List Value) : parseFields prim (f :: rest) olds r =
      ((parseField prim f (olds.headD .blank) r).value ::
        (parseFields prim rest olds.tail next).1, (parseFields prim rest olds.tail next).2) := by
  have here : parseField prim f (olds.headD .blank) r =
      ⟨(parseField prim f (olds.headD .blank) r).value, .ok next⟩ := by
    rw [← parsed (olds.headD .blank)]
  rw [parseFields, here]

mutual

theorem scannedField : ∀ f : FieldDescr,
    Scanned (ContentsField f) (SameField f) (parseField prim f) (scanField prim f)
  | .mk name none kind => by
      have here := scannedKind kind
      refine ⟨fun r old => ?_, fun r => ?_⟩
      · rw [parseField, scanField]
        exact here.rest r old
      · simp only [parseField, scanField]
        exact here.tells r
  | .mk name (some default) kind => by
      have here := scannedKind kind
      have keeps := bareKind_tells kind
      refine ⟨fun r old => ?_, fun r => ?_⟩
      · rw [parseField, scanField]
        cases r.readFieldFlag with
        | none => rfl
        | some flag =>
            obtain ⟨set, next⟩ := flag
            cases set with
            | false => rfl
            | true => exact here.rest next old
      · simp only [parseField, scanField]
        cases r.readFieldFlag with
        | none => exact keeps
        | some flag =>
            obtain ⟨set, next⟩ := flag
            cases set with
            | false => exact keeps
            | true => exact here.tells next

theorem scannedKind : ∀ kind : FieldKind,
    Scanned (ContentsKind kind) (SameKind kind) (parseKind prim kind) (scanKind prim kind)
  | .leaf leaf => by
      refine ⟨fun r old => ?_, fun r => ?_⟩
      · rw [parseKind, scanKind]
        cases prim.read leaf r.left with
        | none => rfl
        | some read => rfl
      · simp only [parseKind, scanKind]
        cases prim.read leaf r.left with
        | none => exact bareKind_tells (.leaf leaf)
        | some read => exact .made fun _ _ => rfl
  | .array item (.counted sizeBits) => by
      have items := (scannedField item).array (bareField_tells item)
      refine Scanned.number (bareKind_tells (.array item (.counted sizeBits))) items prim sizeBits
        (fun old r => ?_) (fun r => ?_)
      · unfold parseKind
        rfl
      · unfold scanKind
        rfl
  | .array item (.const n) => by
      have items := (scannedField item).array (bareField_tells item) n
      refine ⟨fun r old => ?_, fun r => ?_⟩
      · rw [parseKind, scanKind]
        exact items.rest r old
      · simp only [parseKind, scanKind]
        exact items.tells r
  | .struct struct length => by
      have here := @Scanned.sized prim _ _ _ _ _ (scannedStruct struct) (bareStruct_tells struct)
        length
      refine ⟨fun r old => ?_, fun r => ?_⟩
      · rw [parseKind, scanKind]
        exact here.rest r old
      · simp only [parseKind, scanKind]
        exact here.tells r
  | .union (.mk name structs allowEmpty) typeBits length => by
      have variant (t : Nat) := @Scanned.sized prim _ _ _ _ _
        (scannedVariant structs (t - firstType allowEmpty))
        (bareVariant_tells structs (t - firstType allowEmpty)) length
      have each (t : Nat) :
          Scanned (ContentsKind (.union (.mk name structs allowEmpty) typeBits length))
            (SameKind (.union (.mk name structs allowEmpty) typeBits length))
            (fun old r => if allowEmpty ∧ t = 0 then ⟨.union 0 .blank, .ok r⟩ else
              (parseSized prim length (parseVariant prim structs (t - firstType allowEmpty))
                (old.variant t) r).asUnion t)
            (fun r => if allowEmpty ∧ t = 0 then ⟨true, .ok r⟩ else
              scanSized prim length (bareVariant structs (t - firstType allowEmpty))
                (scanVariant prim structs (t - firstType allowEmpty)) r) := by
        by_cases empty : allowEmpty ∧ t = 0
        · simp only [if_pos empty]
          exact ⟨fun _ _ => rfl, fun _ => .made fun _ _ =>
            ⟨rfl, fun other => absurd ⟨empty.1, rfl⟩ other⟩⟩
        · simp only [if_neg empty]
          exact (variant t).asUnion empty name typeBits length
      refine Scanned.number (bareKind_tells (.union (.mk name structs allowEmpty) typeBits length))
        each prim typeBits (fun old r => ?_) (fun r => ?_)
      · unfold parseKind
        rfl
      · unfold scanKind
        rfl

theorem scannedStruct : ∀ struct : StructDescr,
    Scanned (ContentsStruct struct) (SameStruct struct) (parseStruct prim struct)
      (scanStruct prim struct)
  | .mk name fields => by
      have here := scannedFields fields
      refine ⟨fun r old => ?_, fun r => ?_⟩
      · rw [parseStruct, scanStruct]
        exact (here r).1 old.fields
      · simp only [parseStruct, scanStruct]
        refine ⟨fun all old other => (here r).2.agree all _ _, fun part => ?_⟩
        obtain ⟨olds, others, one, two, apart⟩ := (here r).2.differ part
        exact ⟨.struct olds, .struct others, ⟨olds, rfl, one⟩, ⟨others, rfl, two⟩, apart⟩

theorem scannedFields : ∀ (fields : List FieldDescr) (r : StreamReader),
    (∀ olds, (parseFields prim fields olds r).2 = (scanFields prim fields r).rest) ∧
      Tells (ContentsFields fields) (SameFields fields)
        (fun olds => (parseFields prim fields olds r).1) (scanFields prim fields r).assigned
  | [], r => ⟨fun _ => rfl, .made fun _ _ => trivial⟩
  | f :: rest, r => by
      have first := (scannedField f).tells r
      have ends := (scannedField f).rest r
      have someFirst := exists_contentsField f
      have someRest := exists_contentsFields rest
      rw [scanFields]
      cases scanned : scanField prim f r with
      | mk assigned outcome =>
          rw [scanned] at first ends
          cases outcome with
          | error e =>
              simp only [parseFields_error ends]
              exact ⟨fun _ => trivial, first.cons (bareFields_tells rest) someFirst someRest⟩
          | ok next =>
              have later := scannedFields rest next
              simp only [parseFields_ok ends]
              exact ⟨fun olds => later.1 olds.tail, first.cons later.2 someFirst someRest⟩

theorem scannedVariant : ∀ (structs : List StructDescr) (k : Nat),
    Scanned (ContentsVariant structs k) (SameVariant structs k) (parseVariant prim structs k)
      (scanVariant prim structs k)
  | [], _ => ⟨fun _ _ => rfl, fun _ => .made fun _ _ => trivial⟩
  | struct :: _, 0 => scannedStruct struct
  | _ :: rest, k + 1 => scannedVariant rest k

end

/-! ## Two runs -/

/-- A parse that returns leaves the same over any two old contents of the type. -/
def LeavesSame (prim : Primitives) (struct : StructDescr) (r : StreamReader) : Prop :=
  ∀ old other, ContentsStruct struct old → ContentsStruct struct other →
    ∀ next, (parseStruct prim struct old r).rest = .ok next →
      SameStruct struct (parseStruct prim struct old r).value
        (parseStruct prim struct other r).value

/-- **Nothing of the old contents is left** if and only if the parse does not return, or assigns
everything: it comes to every field, and finds every presence flag set. -/
theorem old_contents_iff (prim : Primitives) (struct : StructDescr) (r : StreamReader) :
    LeavesSame prim struct r ↔
      ∀ next, (scanStruct prim struct r).rest = .ok next →
        (scanStruct prim struct r).assigned = true := by
  have scanned := @scannedStruct prim struct
  constructor
  · intro leaves next returns
    by_contra part
    obtain ⟨old, other, one, two, apart⟩ :=
      (scanned.tells r).differ (Bool.eq_false_iff.mpr part)
    exact apart (leaves old other one two next ((scanned.rest r old).trans returns))
  · intro assigned old other _ _ next returns
    rw [scanned.rest] at returns
    exact (scanned.tells r).agree (assigned next returns) old other

/-- **Refuted**: a number with a default, whose flag is not set. -/
theorem old_contents_refuted : ¬ ∀ (prim : Primitives) (struct : StructDescr)
    (r : StreamReader), LeavesSame prim struct r := by
  intro always
  have same := always (bitPrimitives fun _ _ => true)
    (.mk "s" [.mk "x" (some (.atom (.number 5))) (.leaf (.uint 8))])
    (.start 8 (fun _ => false) 1) (.struct [.atom (.number 1)]) (.struct [.atom (.number 2)])
    ⟨_, rfl, _, _, rfl, ⟨.number 1, rfl, Nat.lt_of_sub_eq_succ rfl⟩, rfl⟩
    ⟨_, rfl, _, _, rfl, ⟨.number 2, rfl, Nat.lt_of_sub_eq_succ rfl⟩, rfl⟩ _ rfl
  cases same.1

end UdpStuff.Proto
