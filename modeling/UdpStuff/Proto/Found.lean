/-
# Proto.Found — where the generated parse functions look for a value

`Found…` follows a parse through the schema with the value it should make in hand,
and says which bits have to stand where the parse looks for them: presence flags
that are set, leaves, counts and types, and the content of a length field in the
fragment that is read for it.  `taken…` is how far the reader itself goes.

Found, a value is parsed over anything; and a parse over blank memory makes a value
that fits only where it is found (`parseStruct_exact`).
-/
import UdpStuff.Proto.Layout
import UdpStuff.Proto.RenderParse

namespace UdpStuff.Proto

set_option autoImplicit false

variable (prim : Primitives)

/-- How far a reader goes over content, or over its length field alone. -/
def takenSized (length : Option Nat) (content : Nat) : Nat := length.getD content

mutual

def takenField : FieldDescr → Value → Nat
  | .mk _ none kind, v => takenKind kind v
  | .mk _ (some _) kind, v => 1 + takenKind kind v

def takenKind : FieldKind → Value → Nat
  | .leaf leaf, v => (prim.write leaf v.asAtom).length
  | .array item (.counted sizeBits), v => sizeBits + (v.items.map (takenField item)).sum
  | .array item (.const _), v => (v.items.map (takenField item)).sum
  | .struct struct length, v => takenSized length (takenStruct struct v)
  | .union (.mk _ structs allowEmpty) typeBits length, v =>
    typeBits +
      if allowEmpty ∧ v.type = 0 then 0
      else
        takenSized length
          (takenVariant structs (v.type - firstType allowEmpty) (v.variant v.type))

def takenStruct : StructDescr → Value → Nat
  | .mk _ fields, v => takenFields fields v.fields

def takenFields : List FieldDescr → List Value → Nat
  | [], _ => 0
  | f :: rest, vs => takenField f (vs.headD .blank) + takenFields rest vs.tail

def takenVariant : List StructDescr → Nat → Value → Nat
  | [], _, _ => 0
  | struct :: _, 0, v => takenStruct struct v
  | _ :: rest, k + 1, v => takenVariant rest k v

end

/-- Items found one after the other. -/
def FoundItems (found : Value → StreamReader → Prop) (taken : Value → Nat) :
    List Value → StreamReader → Prop
  | [], _ => True
  | v :: rest, r => found v r ∧ FoundItems found taken rest (r.advance (taken v))

/-- Found by the reader itself, or by the fragment that whatever stands in the length
field asks for. -/
def FoundSized (length : Option Nat) (found : StreamReader → Prop) (r : StreamReader) : Prop :=
  match length with
  | none => found r
  | some bits =>
    ∃ n, n < 2 ^ bits ∧ prim.write (.uint bits) (.number n) <+: r.left ∧
      found ((r.advance bits).readFragment n)

mutual

def FoundField : FieldDescr → Value → StreamReader → Prop
  | .mk _ none kind, v, r => FoundKind kind v r
  | .mk _ (some _) kind, v, r => [true] <+: r.left ∧ FoundKind kind v (r.advance 1)

def FoundKind : FieldKind → Value → StreamReader → Prop
  | .leaf leaf, v, r => prim.write leaf v.asAtom <+: r.left
  | .array item (.counted sizeBits), v, r =>
    prim.write (.uint sizeBits) (.number v.items.length) <+: r.left ∧
      FoundItems (FoundField item) (takenField prim item) v.items (r.advance sizeBits)
  | .array item (.const _), v, r =>
    FoundItems (FoundField item) (takenField prim item) v.items r
  | .struct struct length, v, r => FoundSized prim length (FoundStruct struct v) r
  | .union (.mk _ structs allowEmpty) typeBits length, v, r =>
    prim.write (.uint typeBits) (.number v.type) <+: r.left ∧
      (allowEmpty ∧ v.type = 0 ∨
        FoundSized prim length
          (FoundVariant structs (v.type - firstType allowEmpty) (v.variant v.type))
          (r.advance typeBits))

def FoundStruct : StructDescr → Value → StreamReader → Prop
  | .mk _ fields, v, r => FoundFields fields v.fields r

def FoundFields : List FieldDescr → List Value → StreamReader → Prop
  | [], _, _ => True
  | f :: rest, vs, r =>
    FoundField f (vs.headD .blank) r ∧
      FoundFields rest vs.tail (r.advance (takenField prim f (vs.headD .blank)))

def FoundVariant : List StructDescr → Nat → Value → StreamReader → Prop
  | [], _, _, _ => True
  | struct :: _, 0, v, r => FoundStruct struct v r
  | _ :: rest, k + 1, v, r => FoundVariant rest k v r

end

/-! ## A parse makes a value where it is found, and only there -/

/-- The parse makes this value over anything where it is found, and over blank memory
only there. -/
structure Exact (parse : Value → StreamReader → Parsed) (v : Value)
    (found : StreamReader → Prop) (taken : Nat) : Prop where
  makes : ∀ {r : StreamReader}, found r → ∀ old, parse old r = ⟨v, .ok (r.advance taken)⟩
  finds : ∀ {r : StreamReader}, (parse .blank r).value = v → found r

variable {prim}

/-- No field's value is blank. -/
theorem not_fits_blank (f : FieldDescr) : ¬ FitsField prim f .blank := by
  obtain ⟨name, default, kind⟩ := f
  intro fits
  rw [FitsField] at fits
  cases kind with
  | leaf leaf =>
      obtain ⟨a, same, -⟩ := fits
      cases same
  | array item size =>
      cases size with
      | counted sizeBits =>
          obtain ⟨vs, same, -⟩ := fits
          cases same
      | const n =>
          obtain ⟨vs, same, -⟩ := fits
          cases same
  | struct struct length =>
      obtain ⟨name, fields⟩ := struct
      obtain ⟨⟨vs, same, -⟩, -⟩ := fits
      cases same
  | union union typeBits length =>
      obtain ⟨name, structs, allowEmpty⟩ := union
      obtain ⟨t, x, same, -⟩ := fits
      cases same

theorem length_resize (items : List Value) (n : Nat) : (resize items n).length = n := by
  rw [resize, List.length_append, List.length_take, List.length_replicate]
  omega

theorem parseItems_found {parse : Value → StreamReader → Parsed}
    {found : Value → StreamReader → Prop} {taken : Value → Nat} {vs : List Value}
    (each : ∀ v ∈ vs, Exact parse v (found v) (taken v)) {olds : List Value}
    (count : olds.length = vs.length) {r : StreamReader} (here : FoundItems found taken vs r) :
    parseItems parse olds r = (vs, .ok (r.advance (vs.map taken).sum)) := by
  induction vs generalizing olds r with
  | nil =>
      rw [List.eq_nil_of_length_eq_zero count]
      rfl
  | cons v later ih =>
      cases olds with
      | nil => cases count
      | cons old olds =>
          obtain ⟨first, others⟩ := here
          have others := ih (fun x member => each x (List.mem_cons_of_mem _ member))
            (Nat.succ.inj count) others
          rw [parseItems, (each v List.mem_cons_self).makes first]
          dsimp only
          rw [others, StreamReader.advance_advance, List.map_cons, List.sum_cons]

theorem found_of_parseItems {parse : Value → StreamReader → Parsed}
    {found : Value → StreamReader → Prop} {taken : Value → Nat} {vs : List Value}
    (each : ∀ v ∈ vs, Exact parse v (found v) (taken v)) {n : Nat} {r : StreamReader}
    (made : (parseItems parse (List.replicate n .blank) r).1 = vs) :
    FoundItems found taken vs r ∧ vs.length = n := by
  induction n generalizing vs r with
  | zero =>
      cases made
      exact ⟨trivial, rfl⟩
  | succ n ih =>
      rw [List.replicate_succ, parseItems] at made
      have exact_of {v : Value} (member : v ∈ vs) (same : (parse .blank r).value = v) :
          found v r ∧ parse .blank r = ⟨v, .ok (r.advance (taken v))⟩ := by
        have here := (each v member).finds same
        exact ⟨here, (each v member).makes here .blank⟩
      split at made
      case h_1 v e failed =>
        subst made
        obtain ⟨-, parsed⟩ := exact_of (v := v) List.mem_cons_self (by rw [failed])
        rw [failed] at parsed
        cases parsed
      case h_2 v next parsed =>
        subst made
        obtain ⟨here, same⟩ := exact_of (v := v) List.mem_cons_self (by rw [parsed])
        rw [parsed] at same
        cases same
        obtain ⟨later, count⟩ := ih
          (fun x member => each x (List.mem_cons_of_mem _ member)) rfl
        exact ⟨⟨here, later⟩, by rw [List.length_cons, count]⟩

theorem parseArray_makes {parse : Value → StreamReader → Parsed}
    {found : Value → StreamReader → Prop} {taken : Value → Nat} {vs : List Value}
    (each : ∀ v ∈ vs, Exact parse v (found v) (taken v)) {r : StreamReader}
    (here : FoundItems found taken vs r) (old : Value) :
    parseArray parse vs.length old r = ⟨.array vs, .ok (r.advance (vs.map taken).sum)⟩ := by
  rw [parseArray, parseItems_found each (length_resize _ _) here]

theorem parseArray_finds {parse : Value → StreamReader → Parsed}
    {found : Value → StreamReader → Prop} {taken : Value → Nat} {vs : List Value}
    (each : ∀ v ∈ vs, Exact parse v (found v) (taken v)) {n : Nat} {r : StreamReader}
    (made : (parseArray parse n .blank r).value = .array vs) :
    FoundItems found taken vs r ∧ vs.length = n := by
  have blanks : resize (Value.items .blank) n = List.replicate n .blank := by
    show List.take n [] ++ List.replicate (n - 0) Value.blank = _
    rw [List.take_nil, List.nil_append, Nat.sub_zero]
  rw [parseArray, blanks] at made
  exact found_of_parseItems each (Value.array.inj made)

/-- Content is found behind a length field by the fragment alone. -/
theorem parseSized_exact (prim : Primitives) {parse : Value → StreamReader → Parsed} {v : Value}
    {found : StreamReader → Prop} {taken : Nat} (exact : Exact parse v found taken)
    (notBlank : v ≠ .blank) (length : Option Nat) :
    Exact (parseSized prim length parse) v (FoundSized prim length found)
      (takenSized length taken) := by
  cases length with
  | none => exact exact
  | some bits =>
      constructor
      · rintro r ⟨n, bound, front, here⟩ old
        rw [parseSized, prim.read_front bound front]
        dsimp only
        rw [exact.makes here old]
        rfl
      · intro r made
        rw [parseSized] at made
        split at made
        case h_1 n k number =>
          obtain ⟨m, same, bound, rfl, front⟩ := prim.read_uint number
          cases same
          refine ⟨n, bound, front, exact.finds ?_⟩
          dsimp only at made
          split at made
          case h_1 failed => rw [failed]; exact made
          case h_2 parsed => rw [parsed]; exact made
        case h_2 => exact absurd made.symm notBlank

theorem not_fits_blank_variant (structs : List StructDescr) (k : Nat) :
    ¬ FitsVariant prim structs k .blank := by
  induction structs generalizing k with
  | nil => exact id
  | cons struct rest ih =>
      cases k with
      | zero =>
          obtain ⟨name, fields⟩ := struct
          rintro ⟨vs, same, -⟩
          cases same
      | succ k => exact ih k

theorem leaf_exact {leaf : Leaf} {a : Atom} (fit : leaf.Fits a) :
    Exact (parseKind prim (.leaf leaf)) (.atom a) (FoundKind prim (.leaf leaf) (.atom a))
      (takenKind prim (.leaf leaf) (.atom a)) := by
  constructor
  · rintro r ⟨rest, front⟩ old
    rw [Value.asAtom_atom] at front
    rw [parseKind, ← front, prim.read_write fit]
    rfl
  · intro r made
    rw [parseKind] at made
    split at made
    case h_1 => cases made
    case h_2 b k read =>
      cases made
      exact ((prim.read_iff _ _ _ _).mp read).2.2

theorem countedArray_exact {item : FieldDescr} {sizeBits : Nat} {vs : List Value}
    (count : vs.length < 2 ^ sizeBits)
    (each : ∀ x ∈ vs,
      Exact (parseField prim item) x (FoundField prim item x) (takenField prim item x)) :
    Exact (parseKind prim (.array item (.counted sizeBits))) (.array vs)
      (FoundKind prim (.array item (.counted sizeBits)) (.array vs))
      (takenKind prim (.array item (.counted sizeBits)) (.array vs)) := by
  constructor
  · rintro r ⟨front, here⟩ old
    rw [Value.items_array] at front
    rw [parseKind, prim.read_front count front]
    dsimp only
    rw [parseArray_makes each here, takenKind, Value.items_array, StreamReader.advance_advance]
  · intro r made
    rw [parseKind] at made
    split at made
    case h_1 n k size =>
      obtain ⟨m, same, -, rfl, front⟩ := prim.read_uint size
      cases same
      obtain ⟨here, rfl⟩ := parseArray_finds each made
      exact ⟨front, here⟩
    case h_2 => cases made

theorem constArray_exact {item : FieldDescr} {vs : List Value}
    (each : ∀ x ∈ vs,
      Exact (parseField prim item) x (FoundField prim item x) (takenField prim item x)) :
    Exact (parseKind prim (.array item (.const vs.length))) (.array vs)
      (FoundKind prim (.array item (.const vs.length)) (.array vs))
      (takenKind prim (.array item (.const vs.length)) (.array vs)) := by
  constructor
  · intro r here old
    rw [parseKind, parseArray_makes each here, takenKind, Value.items_array]
  · intro r made
    rw [parseKind] at made
    exact (parseArray_finds each made).1

/-- Type 0 of a union that may be empty selects nothing. -/
theorem emptyUnion_exact {name : String} {structs : List StructDescr} {allowEmpty : Bool}
    {typeBits : Nat} {length : Option Nat} (allowed : allowEmpty = true) (bound : 0 < 2 ^ typeBits) :
    Exact (parseKind prim (.union (.mk name structs allowEmpty) typeBits length))
      (.union 0 .blank)
      (FoundKind prim (.union (.mk name structs allowEmpty) typeBits length) (.union 0 .blank))
      (takenKind prim (.union (.mk name structs allowEmpty) typeBits length)
        (.union 0 .blank)) := by
  constructor
  · rintro r ⟨front, -⟩ old
    rw [Value.type_union] at front
    rw [parseKind, prim.read_front bound front]
    dsimp only
    rw [if_pos ⟨allowed, rfl⟩, takenKind, Value.type_union, if_pos ⟨allowed, rfl⟩, Nat.add_zero]
  · intro r made
    rw [parseKind] at made
    split at made
    case h_1 t k type =>
      obtain ⟨m, same, -, rfl, front⟩ := prim.read_uint type
      cases same
      split at made
      case isTrue other =>
        obtain ⟨-, rfl⟩ := other
        exact ⟨front, .inl ⟨allowed, rfl⟩⟩
      case isFalse other =>
        exact absurd ⟨allowed, (Value.union.inj made).1⟩ other
    case h_2 => cases made

theorem variant_exact {name : String} {structs : List StructDescr} {allowEmpty : Bool}
    {typeBits t : Nat} {length : Option Nat} {x : Value} (bound : t < 2 ^ typeBits)
    (empty : ¬ (allowEmpty = true ∧ t = 0))
    (fits : FitsVariant prim structs (t - firstType allowEmpty) x)
    (exact : Exact (parseVariant prim structs (t - firstType allowEmpty)) x
      (FoundVariant prim structs (t - firstType allowEmpty) x)
      (takenVariant prim structs (t - firstType allowEmpty) x)) :
    Exact (parseKind prim (.union (.mk name structs allowEmpty) typeBits length))
      (.union t x)
      (FoundKind prim (.union (.mk name structs allowEmpty) typeBits length) (.union t x))
      (takenKind prim (.union (.mk name structs allowEmpty) typeBits length) (.union t x)) := by
  have notBlank : x ≠ .blank := by
    rintro rfl
    exact not_fits_blank_variant _ _ fits
  have exact := parseSized_exact prim exact notBlank length
  constructor
  · rintro r ⟨front, here⟩ old
    have here := here.resolve_left empty
    rw [Value.type_union, Value.variant_union] at here
    rw [Value.type_union] at front
    rw [parseKind, prim.read_front bound front]
    dsimp only
    rw [if_neg empty, exact.makes here, takenKind, Value.type_union, Value.variant_union,
      if_neg empty, Parsed.asUnion, StreamReader.advance_advance]
  · intro r made
    rw [parseKind] at made
    split at made
    case h_1 u k type =>
      obtain ⟨m, same, -, rfl, front⟩ := prim.read_uint type
      cases same
      split at made
      case isTrue other =>
        obtain ⟨rfl, -⟩ := Value.union.inj made
        exact absurd ⟨other.1, rfl⟩ empty
      case isFalse other =>
        obtain ⟨rfl, content⟩ := Value.union.inj made
        rw [FoundKind, Value.type_union, Value.variant_union]
        exact ⟨front, .inr (exact.finds content)⟩
    case h_2 => cases made

mutual

theorem parseField_exact : ∀ (f : FieldDescr) (v : Value), FitsField prim f v →
    Exact (parseField prim f) v (FoundField prim f v) (takenField prim f v)
  | .mk _ none kind, v, fits => by
      have exact := parseKind_exact kind v fits
      constructor
      · intro r here old
        rw [parseField, takenField]
        exact exact.makes here old
      · intro r made
        rw [parseField] at made
        exact exact.finds made
  | .mk name (some default) kind, v, fits => by
      have exact := parseKind_exact kind v fits
      constructor
      · rintro r ⟨⟨rest, front⟩, here⟩ old
        have flag : r.readFieldFlag = some (true, r.advance 1) := by
          rw [StreamReader.readFieldFlag, ← front]
          rfl
        rw [parseField, flag]
        dsimp only
        rw [exact.makes here old, takenField, StreamReader.advance_advance]
      · intro r made
        have notBlank : Value.blank ≠ v := by
          rintro rfl
          exact not_fits_blank _ fits
        rw [parseField] at made
        split at made
        case h_1 => exact absurd made notBlank
        case h_2 => exact absurd made notBlank
        case h_3 next flag =>
          rw [StreamReader.readFieldFlag] at flag
          split at flag
          case h_1 => cases flag
          case h_2 b rest front =>
            cases flag
            exact ⟨⟨rest, front.symm⟩, exact.finds made⟩

theorem parseKind_exact : ∀ (kind : FieldKind) (v : Value), FitsKind prim kind v →
    Exact (parseKind prim kind) v (FoundKind prim kind v) (takenKind prim kind v)
  | .leaf leaf, v, fits => by
      obtain ⟨a, rfl, fit⟩ := fits
      exact leaf_exact fit
  | .array item (.counted sizeBits), v, fits => by
      obtain ⟨vs, rfl, count, each⟩ := fits
      exact countedArray_exact count fun x member => parseField_exact item x (each x member)
  | .array item (.const n), v, fits => by
      obtain ⟨vs, rfl, rfl, each⟩ := fits
      exact constArray_exact fun x member => parseField_exact item x (each x member)
  | .struct struct length, v, fits => by
      have notBlank : v ≠ .blank := by
        rintro rfl
        exact not_fits_blank (.mk "" none (.struct struct length)) fits
      have exact := parseSized_exact prim (parseStruct_exact struct v fits.1) notBlank length
      constructor
      · intro r here old
        rw [parseKind, takenKind]
        exact exact.makes here old
      · intro r made
        rw [parseKind] at made
        exact exact.finds made
  | .union (.mk name structs allowEmpty) typeBits length, v, fits => by
      obtain ⟨t, x, rfl, bound, selected⟩ := fits
      by_cases empty : allowEmpty ∧ t = 0
      · rw [if_pos empty] at selected
        obtain ⟨allowed, rfl⟩ := empty
        subst selected
        exact emptyUnion_exact allowed bound
      · rw [if_neg empty] at selected
        exact variant_exact bound empty selected.2.1
          (parseVariant_exact structs (t - firstType allowEmpty) x selected.2.1)

theorem parseStruct_exact : ∀ (struct : StructDescr) (v : Value), FitsStruct prim struct v →
    Exact (parseStruct prim struct) v (FoundStruct prim struct v) (takenStruct prim struct v)
  | .mk _ fields, v, fits => by
      obtain ⟨vs, rfl, each⟩ := fits
      obtain ⟨makes, finds⟩ := parseFields_exact fields vs each
      constructor
      · intro r here old
        rw [parseStruct, makes here, takenStruct, Value.fields_struct]
      · intro r made
        rw [parseStruct] at made
        exact finds (Value.struct.inj made)

theorem parseFields_exact : ∀ (fields : List FieldDescr) (vs : List Value),
    FitsFields prim fields vs →
    (∀ {r : StreamReader}, FoundFields prim fields vs r → ∀ olds,
      parseFields prim fields olds r = (vs, .ok (r.advance (takenFields prim fields vs)))) ∧
    (∀ {r : StreamReader}, (parseFields prim fields [] r).1 = vs → FoundFields prim fields vs r)
  | [], vs, fits => by
      cases fits
      exact ⟨fun _ _ => rfl, fun _ => trivial⟩
  | f :: rest, vs, fits => by
      obtain ⟨v, later, rfl, fit, fits⟩ := fits
      have exact := parseField_exact f v fit
      obtain ⟨makes, finds⟩ := parseFields_exact rest later fits
      constructor
      · rintro r ⟨first, others⟩ olds
        rw [List.headD_cons] at first others
        rw [parseFields, exact.makes first]
        dsimp only
        rw [makes others, takenFields, List.headD_cons, List.tail_cons,
          StreamReader.advance_advance]
      · intro r made
        rw [parseFields, List.headD_nil, List.tail_nil] at made
        split at made
        case h_1 w e failed =>
          obtain ⟨rfl, -⟩ := List.cons.inj made
          have parsed := exact.makes (exact.finds (by rw [failed])) .blank
          rw [failed] at parsed
          cases parsed
        case h_2 w next parsed =>
          obtain ⟨rfl, others⟩ := List.cons.inj made
          have here := exact.finds (r := r) (by rw [parsed])
          have same := exact.makes here .blank
          rw [parsed] at same
          cases same
          exact ⟨here, finds others⟩

theorem parseVariant_exact : ∀ (structs : List StructDescr) (k : Nat) (v : Value),
    FitsVariant prim structs k v →
    Exact (parseVariant prim structs k) v (FoundVariant prim structs k v)
      (takenVariant prim structs k v)
  | [], _, _, fits => fits.elim
  | struct :: _, 0, v, fits => by
      have exact := parseStruct_exact struct v fits
      constructor
      · intro r here old
        rw [parseVariant, takenVariant]
        exact exact.makes here old
      · intro r made
        rw [parseVariant] at made
        exact exact.finds made
  | _ :: rest, k + 1, v, fits => by
      have exact := parseVariant_exact rest k v fits
      constructor
      · intro r here old
        rw [parseVariant, takenVariant]
        exact exact.makes here old
      · intro r made
        rw [parseVariant] at made
        exact exact.finds made

end

end UdpStuff.Proto
