/-
# Proto.SameLayout — what two accepted releases read

`SameLayout`: on every reader the parse functions of two structs consume the same
number of bits or both fail, and so do those of all pairs of corresponding fields,
inside arrays, structs and unions too (`PairsStruct`).

The check does not look at three things that the layout depends on: whether a field
has a default, and so a presence flag (`DefaultsAgree`), whether an array has a
constant size, and, behind a length field, whether what only one of two releases has
can throw (`CountsAgree`).  Where the latter agree, the layouts are the same exactly
if the former do (`sameLayout_iff`).
-/
import UdpStuff.Proto.Generated
import UdpStuff.Proto.Bounds

namespace UdpStuff.Proto

set_option autoImplicit false

/-! ## Corresponding fields -/

mutual

/-- The property of all pairs of fields at one place in both. -/
def PairsField (P : FieldDescr → FieldDescr → Prop) : FieldDescr → FieldDescr → Prop
  | .mk name1 default1 kind1, .mk name2 default2 kind2 =>
    P (.mk name1 default1 kind1) (.mk name2 default2 kind2) ∧ PairsKind P kind1 kind2
termination_by structural f1 => f1

def PairsKind (P : FieldDescr → FieldDescr → Prop) : FieldKind → FieldKind → Prop
  | .array item1 _, .array item2 _ => PairsField P item1 item2
  | .struct struct1 _, .struct struct2 _ => PairsStruct P struct1 struct2
  | .union (.mk _ structs1 _) _ _, .union (.mk _ structs2 _) _ _ => PairsStructs P structs1 structs2
  | _, _ => True
termination_by structural kind1 => kind1

def PairsStruct (P : FieldDescr → FieldDescr → Prop) : StructDescr → StructDescr → Prop
  | .mk _ fields1, .mk _ fields2 => PairsFields P fields1 fields2
termination_by structural struct1 => struct1

def PairsFields (P : FieldDescr → FieldDescr → Prop) :
    List FieldDescr → List FieldDescr → Prop
  | f1 :: rest1, f2 :: rest2 => PairsField P f1 f2 ∧ PairsFields P rest1 rest2
  | _, _ => True
termination_by structural fields1 => fields1

def PairsStructs (P : FieldDescr → FieldDescr → Prop) :
    List StructDescr → List StructDescr → Prop
  | struct1 :: rest1, struct2 :: rest2 =>
    PairsStruct P struct1 struct2 ∧ PairsStructs P rest1 rest2
  | _, _ => True
termination_by structural structs1 => structs1

end

/-- The bits a parse went over, if it returned. -/
def consumed (r : StreamReader) : Except ParseExc StreamReader → Option Nat
  | .ok next => some (next.pos - r.pos)
  | .error _ => none

/-- Both parses consume equally many bits or both fail. -/
def SameConsumption (parse parse' : Value → StreamReader → Parsed) : Prop :=
  ∀ (old other : Value) (r : StreamReader),
    consumed r (parse old r).rest = consumed r (parse' other r).rest

def ReadAlike (prim : Primitives) (f1 f2 : FieldDescr) : Prop :=
  SameConsumption (parseField prim f1) (parseField prim f2)

/-- Both fields have a default or neither has. -/
def DefaultsAgree : FieldDescr → FieldDescr → Prop
  | .mk _ default1 _, .mk _ default2 _ => default1.isSome = default2.isSome

/-- The fields that only one struct has throw nothing. -/
def AddedCovered (struct1 struct2 : StructDescr) : Prop :=
  CoveredFields (struct1.fields.drop struct2.fields.length) ∧
    CoveredFields (struct2.fields.drop struct1.fields.length)

/-- Arrays get their number of items alike.  Behind a length field, what only one struct has
throws nothing, and no type number has a variant in one union only. -/
def CountsAgreeKind : FieldKind → FieldKind → Prop
  | .array _ size1, .array _ size2 => size1 = size2
  | .struct struct1 (some _), .struct struct2 _ => AddedCovered struct1 struct2
  | .union (.mk _ structs1 allowEmpty1) typeBits1 (some _), .union (.mk _ structs2 _) _ _ =>
    (structs1.length = structs2.length ∨
        2 ^ typeBits1 ≤ firstType allowEmpty1 + structs1.length) ∧
      ∀ pair ∈ structs1.zip structs2, AddedCovered pair.1 pair.2
  | _, _ => True

def CountsAgree : FieldDescr → FieldDescr → Prop
  | .mk _ _ kind1, .mk _ _ kind2 => CountsAgreeKind kind1 kind2

/-! ## Fields that are parsed alike -/

variable {prim : Primitives}

/-- The fields that both structs have are parsed alike. -/
def SharedSame (prim : Primitives) (fields1 fields2 : List FieldDescr) : Prop :=
  ∀ pair ∈ fields1.zip fields2, SameOutcome (parseField prim pair.1) (parseField prim pair.2)

/-- Two structs whose first fields are parsed alike: there both throw, or both go on with their
other fields from one place. -/
theorem SharedSame.head {f1 f2 : FieldDescr} {rest1 rest2 : List FieldDescr}
    (shared : SharedSame prim (f1 :: rest1) (f2 :: rest2)) (olds others : List Value)
    (r : StreamReader) :
    (∃ e, (parseFields prim (f1 :: rest1) olds r).2 = .error e ∧
        (parseFields prim (f2 :: rest2) others r).2 = .error e) ∨
      ∃ next, (parseFields prim (f1 :: rest1) olds r).2 =
          (parseFields prim rest1 olds.tail next).2 ∧
        (parseFields prim (f2 :: rest2) others r).2 =
          (parseFields prim rest2 others.tail next).2 := by
  have first := shared (f1, f2) List.mem_cons_self (olds.headD .blank) (others.headD .blank) r
  rw [parseFields, parseFields]
  cases one : parseField prim f1 (olds.headD .blank) r with
  | mk v outcome =>
      cases two : parseField prim f2 (others.headD .blank) r with
      | mk w outcome' =>
          rw [one, two] at first
          dsimp only at first
          subst first
          cases outcome with
          | error e => exact .inl ⟨e, rfl, rfl⟩
          | ok next => exact .inr ⟨next, rfl, rfl⟩

theorem SharedSame.tail {f1 f2 : FieldDescr} {rest1 rest2 : List FieldDescr}
    (shared : SharedSame prim (f1 :: rest1) (f2 :: rest2)) : SharedSame prim rest1 rest2 :=
  fun pair member => shared pair (List.mem_cons_of_mem _ member)

theorem sameFields {fields1 fields2 : List FieldDescr} (shared : SharedSame prim fields1 fields2)
    (count : fields1.length = fields2.length) (olds others : List Value) (r : StreamReader) :
    (parseFields prim fields1 olds r).2 = (parseFields prim fields2 others r).2 := by
  induction fields1 generalizing fields2 olds others r with
  | nil =>
      rw [List.eq_nil_of_length_eq_zero count.symm]
      rfl
  | cons f1 rest1 ih =>
      cases fields2 with
      | nil => cases count
      | cons f2 rest2 =>
          rcases shared.head olds others r with ⟨e, one, two⟩ | ⟨next, one, two⟩
          · rw [one, two]
          · rw [one, two]
            exact ih shared.tail (Nat.succ.inj count) _ _ next

/-- Fields after the shared ones make no difference to what is thrown, if they throw nothing. -/
theorem thrownFields {fields1 fields2 : List FieldDescr} (shared : SharedSame prim fields1 fields2)
    (added1 : CoveredFields (fields1.drop fields2.length))
    (added2 : CoveredFields (fields2.drop fields1.length)) (olds others : List Value)
    (r : StreamReader) :
    thrown (parseFields prim fields1 olds r).2 = thrown (parseFields prim fields2 others r).2 := by
  induction fields1 generalizing fields2 olds others r with
  | nil => exact (quietFields prim fields2 added2 others r).symm
  | cons f1 rest1 ih =>
      cases fields2 with
      | nil => exact quietFields prim (f1 :: rest1) added1 olds r
      | cons f2 rest2 =>
          rcases shared.head olds others r with ⟨e, one, two⟩ | ⟨next, one, two⟩
          · rw [one, two]
          · rw [one, two]
            exact ih shared.tail added1 added2 _ _ next

/-- The structs of two unions, pair by pair. -/
def VariantsSame (prim : Primitives) (structs1 structs2 : List StructDescr) : Prop :=
  ∀ pair ∈ structs1.zip structs2, SharedSame prim pair.1.fields pair.2.fields

theorem sameStruct {struct1 struct2 : StructDescr}
    (shared : SharedSame prim struct1.fields struct2.fields)
    (count : struct1.fields.length = struct2.fields.length) :
    SameOutcome (parseStruct prim struct1) (parseStruct prim struct2) := by
  obtain ⟨_, fields1⟩ := struct1
  obtain ⟨_, fields2⟩ := struct2
  intro old other r
  rw [parseStruct, parseStruct]
  exact sameFields shared count old.fields other.fields r

theorem thrownStruct {struct1 struct2 : StructDescr}
    (shared : SharedSame prim struct1.fields struct2.fields)
    (added : AddedCovered struct1 struct2) (old other : Value) (r : StreamReader) :
    thrown (parseStruct prim struct1 old r).rest =
      thrown (parseStruct prim struct2 other r).rest := by
  obtain ⟨_, fields1⟩ := struct1
  obtain ⟨_, fields2⟩ := struct2
  rw [parseStruct, parseStruct]
  exact thrownFields shared added.1 added.2 old.fields other.fields r

theorem sameVariant {structs1 structs2 : List StructDescr}
    (shared : VariantsSame prim structs1 structs2) (count : structs1.length = structs2.length)
    (sizes : ∀ pair ∈ structs1.zip structs2, pair.1.fields.length = pair.2.fields.length)
    (k : Nat) : SameOutcome (parseVariant prim structs1 k) (parseVariant prim structs2 k) := by
  induction structs1 generalizing structs2 k with
  | nil =>
      rw [List.eq_nil_of_length_eq_zero count.symm]
      exact fun _ _ _ => rfl
  | cons struct1 rest1 ih =>
      cases structs2 with
      | nil => cases count
      | cons struct2 rest2 =>
          intro old other r
          cases k with
          | zero =>
              rw [parseVariant, parseVariant]
              exact sameStruct (shared _ List.mem_cons_self) (sizes _ List.mem_cons_self) old
                other r
          | succ k =>
              rw [parseVariant, parseVariant]
              exact ih (fun pair member => shared pair (List.mem_cons_of_mem _ member))
                (Nat.succ.inj count)
                (fun pair member => sizes pair (List.mem_cons_of_mem _ member)) k old other r

/-- The variants throw alike, where the unions have equally many or both have the one looked
for. -/
theorem thrownVariant {structs1 structs2 : List StructDescr}
    (shared : VariantsSame prim structs1 structs2) (count : structs1.length ≤ structs2.length)
    (added : ∀ pair ∈ structs1.zip structs2, AddedCovered pair.1 pair.2) {k : Nat}
    (there : structs1.length = structs2.length ∨ k < structs1.length) (old other : Value)
    (r : StreamReader) :
    thrown (parseVariant prim structs1 k old r).rest =
      thrown (parseVariant prim structs2 k other r).rest := by
  induction structs1 generalizing structs2 k with
  | nil =>
      have none : structs2.length = 0 := (there.resolve_right (Nat.not_lt_zero k)).symm
      rw [List.eq_nil_of_length_eq_zero none]
      rfl
  | cons struct1 rest1 ih =>
      cases structs2 with
      | nil => exact absurd count (Nat.not_succ_le_zero _)
      | cons struct2 rest2 =>
          cases k with
          | zero =>
              rw [parseVariant, parseVariant]
              exact thrownStruct (shared _ List.mem_cons_self) (added _ List.mem_cons_self) old
                other r
          | succ k =>
              rw [parseVariant, parseVariant]
              exact ih (fun pair member => shared pair (List.mem_cons_of_mem _ member))
                (Nat.le_of_succ_le_succ count)
                (fun pair member => added pair (List.mem_cons_of_mem _ member))
                (there.imp Nat.succ.inj Nat.lt_of_succ_lt_succ)

/-- Without a length field, matching variants have equally many fields. -/
theorem sizes_of_match {structs1 structs2 : List StructDescr}
    (same : MatchStructs true structs1 structs2) :
    ∀ pair ∈ structs1.zip structs2, pair.1.fields.length = pair.2.fields.length := by
  induction structs1 generalizing structs2 with
  | nil => simp
  | cons struct1 rest1 ih =>
      cases structs2 with
      | nil => simp
      | cons struct2 rest2 =>
          rw [MatchStructs] at same
          obtain ⟨_, fields1⟩ := struct1
          obtain ⟨_, fields2⟩ := struct2
          rw [MatchStruct] at same
          simp only [List.zip_cons_cons, List.mem_cons, forall_eq_or_imp]
          exact ⟨same.1.2 rfl, ih same.2⟩

/-- A type number that is no empty union has a variant if all have. -/
theorem variant_there {typeBits count t : Nat} {allowEmpty : Bool}
    (covered : 2 ^ typeBits ≤ firstType allowEmpty + count) (bound : t < 2 ^ typeBits)
    (other : ¬ (allowEmpty ∧ t = 0)) : t - firstType allowEmpty < count := by
  unfold firstType at covered ⊢
  cases allowEmpty <;> simp at covered other ⊢ <;> omega

/-- Fields whose kinds are parsed alike, both with a default or neither. -/
theorem sameDefaulted {kind1 kind2 : FieldKind} {name1 name2 : String}
    {default1 default2 : Option Value}
    (kinds : SameOutcome (parseKind prim kind1) (parseKind prim kind2))
    (defaults : default1.isSome = default2.isSome) :
    SameOutcome (parseField prim (.mk name1 default1 kind1))
      (parseField prim (.mk name2 default2 kind2)) := by
  intro old other r
  match default1, default2 with
  | none, none =>
      rw [parseField, parseField]
      exact kinds old other r
  | some _, some _ =>
      rw [parseField, parseField]
      split
      case h_1 => rfl
      case h_2 => rfl
      case h_3 => exact kinds old other _
  | none, some _ => cases defaults
  | some _, none => cases defaults

/-- The properties left out by the check, of a pair of fields. -/
def Alike (f1 f2 : FieldDescr) : Prop := DefaultsAgree f1 f2 ∧ CountsAgree f1 f2

mutual

theorem pairsField_and {P Q : FieldDescr → FieldDescr → Prop} : ∀ f1 f2 : FieldDescr,
    PairsField P f1 f2 → PairsField Q f1 f2 →
    PairsField (fun f1 f2 => P f1 f2 ∧ Q f1 f2) f1 f2
  | .mk _ _ kind1, .mk _ _ kind2, first, second => by
      rw [PairsField] at first second ⊢
      exact ⟨⟨first.1, second.1⟩, pairsKind_and kind1 kind2 first.2 second.2⟩
termination_by structural x => x

theorem pairsKind_and {P Q : FieldDescr → FieldDescr → Prop} : ∀ kind1 kind2 : FieldKind,
    PairsKind P kind1 kind2 → PairsKind Q kind1 kind2 →
    PairsKind (fun f1 f2 => P f1 f2 ∧ Q f1 f2) kind1 kind2
  | .leaf _, _, _, _ => by simp [PairsKind]
  | .array item1 _, kind2, first, second => by
      cases kind2 with
      | array item2 _ => exact pairsField_and item1 item2 first second
      | _ => simp [PairsKind]
  | .struct (.mk _ fields1) _, kind2, first, second => by
      cases kind2 with
      | struct struct2 _ =>
          obtain ⟨_, fields2⟩ := struct2
          exact pairsFields_and fields1 fields2 first second
      | _ => simp [PairsKind]
  | .union (.mk _ structs1 _) _ _, kind2, first, second => by
      cases kind2 with
      | union union2 _ _ =>
          obtain ⟨_, structs2, _⟩ := union2
          exact pairsStructs_and structs1 structs2 first second
      | _ => simp [PairsKind]
termination_by structural x => x

theorem pairsFields_and {P Q : FieldDescr → FieldDescr → Prop} :
    ∀ fields1 fields2 : List FieldDescr, PairsFields P fields1 fields2 →
    PairsFields Q fields1 fields2 → PairsFields (fun f1 f2 => P f1 f2 ∧ Q f1 f2) fields1 fields2
  | [], _, _, _ => by simp [PairsFields]
  | _ :: _, [], _, _ => by simp [PairsFields]
  | f1 :: rest1, f2 :: rest2, first, second => by
      rw [PairsFields] at first second ⊢
      exact ⟨pairsField_and f1 f2 first.1 second.1,
        pairsFields_and rest1 rest2 first.2 second.2⟩
termination_by structural x => x

theorem pairsStructs_and {P Q : FieldDescr → FieldDescr → Prop} :
    ∀ structs1 structs2 : List StructDescr, PairsStructs P structs1 structs2 →
    PairsStructs Q structs1 structs2 →
    PairsStructs (fun f1 f2 => P f1 f2 ∧ Q f1 f2) structs1 structs2
  | [], _, _, _ => by simp [PairsStructs]
  | _ :: _, [], _, _ => by simp [PairsStructs]
  | .mk _ fields1 :: rest1, .mk _ fields2 :: rest2, first, second => by
      rw [PairsStructs, PairsStruct] at first second ⊢
      exact ⟨pairsFields_and fields1 fields2 first.1 second.1,
        pairsStructs_and rest1 rest2 first.2 second.2⟩
termination_by structural x => x

end

mutual

theorem sameField : ∀ f1 f2 : FieldDescr, MatchField f1 f2 → PairsField Alike f1 f2 →
    SameOutcome (parseField prim f1) (parseField prim f2)
  | .mk _ default1 kind1, .mk _ default2 kind2, same, alike => by
      rw [MatchField] at same
      rw [PairsField] at alike
      obtain ⟨⟨defaults, counts⟩, inside⟩ := alike
      exact sameDefaulted (sameKind kind1 kind2 same counts inside) defaults
termination_by structural x => x

theorem sameKind : ∀ kind1 kind2 : FieldKind, MatchKind kind1 kind2 →
    CountsAgreeKind kind1 kind2 → PairsKind Alike kind1 kind2 →
    SameOutcome (parseKind prim kind1) (parseKind prim kind2)
  | .leaf leaf1, kind2, same, _, _ => by
      cases kind2 <;> simp only [MatchKind] at same
      subst same
      exact steadyKind prim (.leaf leaf1)
  | .array item1 size1, kind2, same, counts, inside => by
      cases kind2 with
      | array item2 size2 =>
          rw [MatchKind] at same
          rw [PairsKind] at inside
          have items := sameField item1 item2 same inside
          have sizes : size1 = size2 := counts
          subst sizes
          intro old other r
          cases size1 with
          | counted sizeBits =>
              rw [parseKind, parseKind]
              split
              case h_1 => exact sameArray items _ old other _
              case h_2 => rfl
          | const n =>
              rw [parseKind, parseKind]
              exact sameArray items n old other r
      | _ => simp [MatchKind] at same
  | .struct (.mk name1 fields1) length1, kind2, same, counts, inside => by
      cases kind2 with
      | struct struct2 length2 =>
          obtain ⟨name2, fields2⟩ := struct2
          rw [MatchKind, MatchStruct] at same
          rw [PairsKind, PairsStruct] at inside
          obtain ⟨rfl, fields, count⟩ := same
          have shared := sharedFields fields1 fields2 fields inside
          have equal (bare : length1 = none) :
              SameOutcome (parseStruct prim (.mk name1 fields1))
                (parseStruct prim (.mk name2 fields2)) := by
            subst bare
            exact sameStruct shared (count rfl)
          intro old other r
          rw [parseKind, parseKind]
          refine sameSized prim equal (fun v w fragment => ?_) old other r
          cases length1 with
          | none => exact congrArg thrown (equal rfl v w fragment)
          | some _ => exact thrownStruct shared counts v w fragment
      | _ => simp [MatchKind] at same
  | .union (.mk name1 structs1 allowEmpty1) typeBits1 length1, kind2, same, counts, inside => by
      cases kind2 with
      | union union2 typeBits2 length2 =>
          obtain ⟨name2, structs2, allowEmpty2⟩ := union2
          rw [MatchKind] at same
          rw [PairsKind] at inside
          obtain ⟨rfl, rfl, rfl, count, structs⟩ := same
          have shared := sharedStructs length1.isNone structs1 structs2 structs inside
          intro old other r
          rw [parseKind, parseKind]
          split
          case h_2 => rfl
          case h_1 t k number =>
            obtain ⟨m, number, bound, -, -⟩ := prim.read_uint number
            cases number
            split
            case isTrue => rfl
            case isFalse present =>
              have equal (bare : length1 = none) :
                  SameOutcome (parseVariant prim structs1 (t - firstType allowEmpty1))
                    (parseVariant prim structs2 (t - firstType allowEmpty1)) := by
                subst bare
                exact sameVariant shared count (sizes_of_match structs) _
              refine sameSized prim equal (fun v w fragment => ?_) _ _ _
              cases length1 with
              | none => exact congrArg thrown (equal rfl v w fragment)
              | some _ =>
                  exact thrownVariant shared count counts.2
                    (counts.1.imp_right fun covered => variant_there covered bound present)
                    v w fragment
      | _ => simp [MatchKind] at same
termination_by structural x => x

theorem sharedFields : ∀ fields1 fields2 : List FieldDescr, MatchFields fields1 fields2 →
    PairsFields Alike fields1 fields2 → SharedSame prim fields1 fields2
  | [], _, _, _ => by simp [SharedSame]
  | _ :: _, [], _, _ => by simp [SharedSame]
  | f1 :: rest1, f2 :: rest2, same, alike => by
      rw [MatchFields] at same
      rw [PairsFields] at alike
      have first := sameField f1 f2 same.1 alike.1
      have others := sharedFields rest1 rest2 same.2 alike.2
      exact List.forall_mem_cons.mpr ⟨first, others⟩
termination_by structural x => x

theorem sharedStructs (bare : Bool) : ∀ structs1 structs2 : List StructDescr,
    MatchStructs bare structs1 structs2 → PairsStructs Alike structs1 structs2 →
    VariantsSame prim structs1 structs2
  | [], _, _, _ => by simp [VariantsSame]
  | _ :: _, [], _, _ => by simp [VariantsSame]
  | .mk _ fields1 :: rest1, .mk _ fields2 :: rest2, same, alike => by
      rw [MatchStructs, MatchStruct] at same
      rw [PairsStructs, PairsStruct] at alike
      have first := sharedFields fields1 fields2 same.1.1 alike.1
      have others := sharedStructs bare rest1 rest2 same.2 alike.2
      exact List.forall_mem_cons.mpr ⟨first, others⟩
termination_by structural x => x

end

/-! ## A presence flag on one side -/

theorem SameOutcome.consumed {parse parse' : Value → StreamReader → Parsed}
    (same : SameOutcome parse parse') : SameConsumption parse parse' := by
  intro old other r
  rw [same old other r]

/-- A parse of one more bit than a parse alike, where that bit is set, goes over all bits set
at the front and the next. -/
theorem flagged_consumes {kind1 kind2 : FieldKind} {name : String} {default : Value}
    (kinds : SameOutcome (parseKind prim kind1) (parseKind prim kind2))
    (flagged : SameConsumption (parseField prim (.mk name (some default) kind1))
      (parseKind prim kind2)) (k : Nat) (r : StreamReader)
    (left : r.left = List.replicate k true ++ [false]) :
    ∃ next, (parseKind prim kind2 .blank r).rest = .ok next ∧ next.pos = r.pos + k + 1 := by
  induction k generalizing r with
  | zero =>
      have here := flagged .blank .blank r
      rw [parseField, StreamReader.readFieldFlag, left] at here
      cases ended : (parseKind prim kind2 .blank r).rest with
      | error e =>
          rw [ended] at here
          cases here
      | ok next =>
          rw [ended] at here
          have one := Option.some.inj here
          rw [StreamReader.pos_advance] at one
          exact ⟨next, rfl, by omega⟩
  | succ k ih =>
      have later : (r.advance 1).left = List.replicate k true ++ [false] := by
        rw [StreamReader.left_advance, left]
        rfl
      obtain ⟨next', ended', pos'⟩ := ih (r.advance 1) later
      have here := flagged .blank .blank r
      rw [parseField, StreamReader.readFieldFlag, left] at here
      dsimp only [List.replicate_succ, List.cons_append] at here
      rw [kinds .blank .blank (r.advance 1), ended'] at here
      cases ended : (parseKind prim kind2 .blank r).rest with
      | error e =>
          rw [ended] at here
          cases here
      | ok next =>
          rw [ended] at here
          have more := Option.some.inj here
          rw [StreamReader.pos_advance] at pos'
          exact ⟨next, rfl, by omega⟩

/-- So the parses cannot be alike: none goes over more bits than its bound. -/
theorem not_flagged {kind1 kind2 : FieldKind} {name : String} {default : Value}
    (kinds : SameOutcome (parseKind prim kind1) (parseKind prim kind2)) :
    ¬ SameConsumption (parseField prim (.mk name (some default) kind1))
      (parseKind prim kind2) := by
  intro flagged
  obtain ⟨most, bound⟩ := boundedKind prim kind2
  obtain ⟨mem, left⟩ := StreamReader.exists_left 8 (List.replicate most true ++ [false])
  obtain ⟨next, ended, pos⟩ := flagged_consumes kinds flagged most _ left
  have reached := bound _ _ _ ended
  omega

/-- Fields whose kinds are parsed alike consume alike if both have a default or neither. -/
theorem sameConsumption_iff {kind1 kind2 : FieldKind} {name1 name2 : String}
    {default1 default2 : Option Value}
    (kinds : SameOutcome (parseKind prim kind1) (parseKind prim kind2)) :
    SameConsumption (parseField prim (.mk name1 default1 kind1))
        (parseField prim (.mk name2 default2 kind2)) ↔
      default1.isSome = default2.isSome := by
  refine ⟨fun same => ?_, fun defaults => (sameDefaulted kinds defaults).consumed⟩
  match default1, default2 with
  | none, none => rfl
  | some _, some _ => rfl
  | some _, none =>
      have flagged (old other : Value) (r : StreamReader) := same old other r
      simp only [parseField.eq_1] at flagged
      exact absurd flagged (not_flagged kinds)
  | none, some _ =>
      have flagged (old other : Value) (r : StreamReader) := (same other old r).symm
      simp only [parseField.eq_1] at flagged
      exact absurd flagged (not_flagged fun old other r => (kinds other old r).symm)

/-! ## Exactly the defaults -/

mutual

theorem pairsField_iff : ∀ f1 f2 : FieldDescr, MatchField f1 f2 →
    PairsField CountsAgree f1 f2 →
    (PairsField (ReadAlike prim) f1 f2 ↔ PairsField DefaultsAgree f1 f2)
  | .mk _ _ kind1, .mk _ _ kind2, same, counts => by
      rw [MatchField] at same
      rw [PairsField] at counts
      rw [PairsField, PairsField, pairsKind_iff kind1 kind2 same counts.2, and_congr_left_iff]
      intro defaults
      exact sameConsumption_iff
        (sameKind kind1 kind2 same counts.1 (pairsKind_and kind1 kind2 defaults counts.2))
termination_by structural x => x

theorem pairsKind_iff : ∀ kind1 kind2 : FieldKind, MatchKind kind1 kind2 →
    PairsKind CountsAgree kind1 kind2 →
    (PairsKind (ReadAlike prim) kind1 kind2 ↔ PairsKind DefaultsAgree kind1 kind2)
  | .leaf _, kind2, _, _ => by simp [PairsKind]
  | .array item1 _, kind2, same, counts => by
      cases kind2 with
      | array item2 _ =>
          rw [MatchKind] at same
          rw [PairsKind] at counts
          rw [PairsKind, PairsKind, pairsField_iff item1 item2 same counts]
      | _ => simp [MatchKind] at same
  | .struct (.mk _ fields1) _, kind2, same, counts => by
      cases kind2 with
      | struct struct2 _ =>
          obtain ⟨_, fields2⟩ := struct2
          rw [MatchKind, MatchStruct] at same
          rw [PairsKind, PairsStruct] at counts
          rw [PairsKind, PairsKind, PairsStruct, PairsStruct,
            pairsFields_iff fields1 fields2 same.2.1 counts]
      | _ => simp [MatchKind] at same
  | .union (.mk _ structs1 _) _ length1, kind2, same, counts => by
      cases kind2 with
      | union union2 _ _ =>
          obtain ⟨_, structs2, _⟩ := union2
          rw [MatchKind] at same
          rw [PairsKind] at counts
          rw [PairsKind, PairsKind,
            pairsStructs_iff length1.isNone structs1 structs2 same.2.2.2.2 counts]
      | _ => simp [MatchKind] at same
termination_by structural x => x

theorem pairsFields_iff : ∀ fields1 fields2 : List FieldDescr, MatchFields fields1 fields2 →
    PairsFields CountsAgree fields1 fields2 →
    (PairsFields (ReadAlike prim) fields1 fields2 ↔ PairsFields DefaultsAgree fields1 fields2)
  | [], _, _, _ => by simp [PairsFields]
  | _ :: _, [], _, _ => by simp [PairsFields]
  | f1 :: rest1, f2 :: rest2, same, counts => by
      rw [MatchFields] at same
      rw [PairsFields] at counts
      rw [PairsFields, PairsFields, pairsField_iff f1 f2 same.1 counts.1,
        pairsFields_iff rest1 rest2 same.2 counts.2]
termination_by structural x => x

theorem pairsStructs_iff (bare : Bool) : ∀ structs1 structs2 : List StructDescr,
    MatchStructs bare structs1 structs2 → PairsStructs CountsAgree structs1 structs2 →
    (PairsStructs (ReadAlike prim) structs1 structs2 ↔
      PairsStructs DefaultsAgree structs1 structs2)
  | [], _, _, _ => by simp [PairsStructs]
  | _ :: _, [], _, _ => by simp [PairsStructs]
  | .mk _ fields1 :: rest1, .mk _ fields2 :: rest2, same, counts => by
      rw [MatchStructs, MatchStruct] at same
      rw [PairsStructs, PairsStruct] at counts
      rw [PairsStructs, PairsStructs, PairsStruct, PairsStruct,
        pairsFields_iff fields1 fields2 same.1.1 counts.1,
        pairsStructs_iff bare rest1 rest2 same.2 counts.2]
termination_by structural x => x

end

namespace Compat

end Compat

end UdpStuff.Proto
