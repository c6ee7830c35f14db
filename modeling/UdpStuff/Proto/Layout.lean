/-
# Proto.Layout — the bits of a value

The bits that a value of a schema stands for on the wire, part by part: `layout…`
has no writer, no patching and no exceptions.  `Fits…` says that the value is one
of the schema's type and its numbers, counts and lengths fit their widths.

The generated writer appends exactly the layout of a value that fits
(`writeStruct_eq`): the patch of a length field lands on its own zeros.
-/
import UdpStuff.Proto.RenderWrite

namespace UdpStuff.Proto

set_option autoImplicit false

variable (prim : Primitives)

/-- Content behind its length, if it has one. -/
def sized (length : Option Nat) (content : List Bool) : List Bool :=
  match length with
  | none => content
  | some bits => prim.write (.uint bits) (.number content.length) ++ content

mutual

def layoutField : FieldDescr → Value → List Bool
  | .mk _ none kind, v => layoutKind kind v
  | .mk _ (some default) kind, v => if prim.differs v default then layoutKind kind v else []

def layoutKind : FieldKind → Value → List Bool
  | .leaf leaf, v => prim.write leaf v.asAtom
  | .array item (.counted sizeBits), v =>
    prim.write (.uint sizeBits) (.number v.items.length) ++ v.items.flatMap (layoutField item)
  | .array item (.const _), v => v.items.flatMap (layoutField item)
  | .struct struct length, v => sized prim length (layoutStruct struct v)
  | .union (.mk _ structs allowEmpty) typeBits length, v =>
    prim.write (.uint typeBits) (.number v.type) ++
      if allowEmpty ∧ v.type = 0 then []
      else
        sized prim length
          (layoutVariant structs (v.type - firstType allowEmpty) (v.variant v.type))

def layoutStruct : StructDescr → Value → List Bool
  | .mk _ fields, v => layoutFields fields v.fields

def layoutFields : List FieldDescr → List Value → List Bool
  | [], _ => []
  | f :: rest, vs => layoutField f (vs.headD .blank) ++ layoutFields rest vs.tail

def layoutVariant : List StructDescr → Nat → Value → List Bool
  | [], _, _ => []
  | struct :: _, 0, v => layoutStruct struct v
  | _ :: rest, k + 1, v => layoutVariant rest k v

end

/-- The length of content fits its length field. -/
def FitsLength (length : Option Nat) (content : List Bool) : Prop :=
  ∀ bits, length = some bits → content.length < 2 ^ bits

mutual

def FitsField : FieldDescr → Value → Prop
  | .mk _ _ kind, v => FitsKind kind v

def FitsKind : FieldKind → Value → Prop
  | .leaf leaf, v => ∃ a, v = .atom a ∧ leaf.Fits a
  | .array item (.counted sizeBits), v =>
    ∃ vs, v = .array vs ∧ vs.length < 2 ^ sizeBits ∧ ∀ x ∈ vs, FitsField item x
  | .array item (.const n), v => ∃ vs, v = .array vs ∧ vs.length = n ∧ ∀ x ∈ vs, FitsField item x
  | .struct struct length, v =>
    FitsStruct struct v ∧ FitsLength length (layoutStruct prim struct v)
  | .union (.mk _ structs allowEmpty) typeBits length, v =>
    ∃ t x, v = .union t x ∧ t < 2 ^ typeBits ∧
      if allowEmpty ∧ t = 0 then x = .blank
      else
        firstType allowEmpty ≤ t ∧ FitsVariant structs (t - firstType allowEmpty) x ∧
          FitsLength length (layoutVariant prim structs (t - firstType allowEmpty) x)

def FitsStruct : StructDescr → Value → Prop
  | .mk _ fields, v => ∃ vs, v = .struct vs ∧ FitsFields fields vs

def FitsFields : List FieldDescr → List Value → Prop
  | [], vs => vs = []
  | f :: rest, vs => ∃ v later, vs = v :: later ∧ FitsField f v ∧ FitsFields rest later

def FitsVariant : List StructDescr → Nat → Value → Prop
  | [], _, _ => False
  | struct :: _, 0, v => FitsStruct struct v
  | _ :: rest, k + 1, v => FitsVariant rest k v

end

/-! ## Lists of fields -/

variable {prim}

theorem FitsFields.length {fields : List FieldDescr} {vs : List Value}
    (fits : FitsFields prim fields vs) : vs.length = fields.length := by
  induction fields generalizing vs with
  | nil =>
      cases fits
      rfl
  | cons f fields ih =>
      obtain ⟨v, later, rfl, -, fits⟩ := fits
      rw [List.length_cons, List.length_cons, ih fits]

theorem FitsFields.append {fields later : List FieldDescr} {vs ws : List Value}
    (front : FitsFields prim fields vs) (back : FitsFields prim later ws) :
    FitsFields prim (fields ++ later) (vs ++ ws) := by
  induction fields generalizing vs with
  | nil =>
      cases front
      exact back
  | cons f fields ih =>
      obtain ⟨v, rest, rfl, first, front⟩ := front
      exact ⟨v, rest ++ ws, rfl, first, ih front⟩

theorem layoutFields_append {fields later : List FieldDescr} {vs ws : List Value}
    (fits : FitsFields prim fields vs) :
    layoutFields prim (fields ++ later) (vs ++ ws) =
      layoutFields prim fields vs ++ layoutFields prim later ws := by
  induction fields generalizing vs with
  | nil =>
      cases fits
      rfl
  | cons f fields ih =>
      obtain ⟨v, rest, rfl, -, fits⟩ := fits
      rw [List.cons_append, List.cons_append, layoutFields, layoutFields, List.headD_cons,
        List.headD_cons, List.tail_cons, List.tail_cons, ih fits, List.append_assoc]

/-! ## The writer -/

theorem writeItems_eq {item : FieldDescr} {vs : List Value}
    (each : ∀ v ∈ vs, ∀ writer, writeField prim item v writer =
      .ok (writer ++ layoutField prim item v)) (writer : List Bool) :
    writeItems (writeField prim item) vs writer =
      .ok (writer ++ vs.flatMap (layoutField prim item)) := by
  induction vs generalizing writer with
  | nil => rw [writeItems, List.flatMap_nil, List.append_nil]
  | cons v rest ih =>
      rw [writeItems, each v List.mem_cons_self]
      show writeItems _ rest _ = _
      rw [ih (fun x member => each x (List.mem_cons_of_mem _ member)), List.flatMap_cons,
        List.append_assoc]

/-- The patch lands on the zeros written for it. -/
theorem writeSized_eq {write : List Bool → Written} {content : List Bool}
    (appends : ∀ writer, write writer = .ok (writer ++ content)) (length : Option Nat)
    (writer : List Bool) :
    writeSized prim length write writer = .ok (writer ++ sized prim length content) := by
  cases length with
  | none => exact appends writer
  | some bits =>
      have zeros := prim.length_uint bits 0
      have position : (writer ++ prim.write (.uint bits) (.number 0)).length - bits =
          writer.length := by
        rw [List.length_append, zeros, Nat.add_sub_cancel]
      have grown : (writer ++ prim.write (.uint bits) (.number 0) ++ content).length -
          (writer ++ prim.write (.uint bits) (.number 0)).length = content.length := by
        rw [List.length_append, Nat.add_sub_cancel_left]
      have after : (writer ++ prim.write (.uint bits) (.number 0) ++ content).drop
          (writer.length + bits) = content := by
        apply List.drop_left'
        rw [List.length_append, zeros]
      have before : (writer ++ prim.write (.uint bits) (.number 0) ++ content).take
          writer.length = writer := by
        rw [List.append_assoc, List.take_left]
      rw [writeSized]
      rw [appends]
      dsimp only
      rw [position, grown, writeUintAt, before, after, sized, List.append_assoc]

mutual

theorem writeField_eq : ∀ (f : FieldDescr) (v : Value), FitsField prim f v →
    ∀ writer, writeField prim f v writer = .ok (writer ++ layoutField prim f v)
  | .mk _ none kind, v, fits, writer => by
      rw [writeField, layoutField]
      exact writeKind_eq kind v fits writer
  | .mk _ (some default) kind, v, fits, writer => by
      rw [writeField, layoutField]
      by_cases differs : prim.differs v default
      · rw [if_pos differs, if_pos differs]
        exact writeKind_eq kind v fits writer
      · rw [if_neg differs, if_neg differs, List.append_nil]

theorem writeKind_eq : ∀ (kind : FieldKind) (v : Value), FitsKind prim kind v →
    ∀ writer, writeKind prim kind v writer = .ok (writer ++ layoutKind prim kind v)
  | .leaf leaf, v, fits, writer => by rw [writeKind, layoutKind]
  | .array item (.counted sizeBits), v, fits, writer => by
      obtain ⟨vs, rfl, -, each⟩ := fits
      rw [writeKind, layoutKind, Value.items_array,
        writeItems_eq fun x member => writeField_eq item x (each x member), List.append_assoc]
  | .array item (.const n), v, fits, writer => by
      obtain ⟨vs, rfl, count, each⟩ := fits
      rw [writeKind, layoutKind, Value.items_array, if_neg (not_not.mpr count),
        writeItems_eq fun x member => writeField_eq item x (each x member)]
  | .struct struct length, v, fits, writer => by
      rw [writeKind, layoutKind, writeSized_eq (writeStruct_eq struct v fits.1)]
  | .union (.mk name structs allowEmpty) typeBits length, v, fits, writer => by
      obtain ⟨t, x, rfl, -, selected⟩ := fits
      rw [writeKind, layoutKind, Value.type_union, Value.variant_union]
      by_cases empty : allowEmpty ∧ t = 0
      · rw [if_pos empty, if_pos empty, List.append_nil]
      · rw [if_neg empty] at selected
        rw [if_neg empty, if_neg empty,
          writeSized_eq (writeVariant_eq structs _ x selected.2.1), List.append_assoc]

theorem writeStruct_eq : ∀ (struct : StructDescr) (v : Value), FitsStruct prim struct v →
    ∀ writer, writeStruct prim struct v writer = .ok (writer ++ layoutStruct prim struct v)
  | .mk _ fields, v, fits, writer => by
      obtain ⟨vs, rfl, each⟩ := fits
      rw [writeStruct, layoutStruct]
      exact writeFields_eq fields vs each writer

theorem writeFields_eq : ∀ (fields : List FieldDescr) (vs : List Value),
    FitsFields prim fields vs →
    ∀ writer, writeFields prim fields vs writer = .ok (writer ++ layoutFields prim fields vs)
  | [], vs, _, writer => by rw [writeFields, layoutFields, List.append_nil]
  | f :: rest, vs, fits, writer => by
      obtain ⟨v, later, rfl, first, others⟩ := fits
      rw [writeFields, layoutFields, List.headD_cons, List.tail_cons,
        writeField_eq f v first writer]
      dsimp only
      rw [writeFields_eq rest later others, List.append_assoc]

theorem writeVariant_eq : ∀ (structs : List StructDescr) (k : Nat) (v : Value),
    FitsVariant prim structs k v →
    ∀ writer, writeVariant prim structs k v writer =
      .ok (writer ++ layoutVariant prim structs k v)
  | [], _, _, fits, _ => fits.elim
  | struct :: _, 0, v, fits, writer => by
      rw [writeVariant, layoutVariant]
      exact writeStruct_eq struct v fits writer
  | _ :: rest, k + 1, v, fits, writer => by
      rw [writeVariant, layoutVariant]
      exact writeVariant_eq rest k v fits writer

end

end UdpStuff.Proto
