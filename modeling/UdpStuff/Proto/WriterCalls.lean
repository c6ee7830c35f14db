/-
# Proto.WriterCalls — the generated write functions on the `BitBufferWriter`

The generated code calls `write_uint(bits, value)` and `write_uint_at(pos, bits, length)`,
the class has the value first and the width last.  Both are integers, so it compiles:
a field is written as the value `bits` with as many bits as its own value says.

`calls…` lists the counts that a value leads to, and `placeAll` where they get a writer.
`advances_iff`: the position advances by the size of the layout if and only if the calls
are defined and the numbers written happen to add up to it.
-/
import UdpStuff.Proto.IntWriter
import UdpStuff.Proto.Layout

namespace UdpStuff.Proto.WriterCalls

set_option autoImplicit false

/-! ## The generated functions -/

/-- What stops a write function; `noMember` is a call that the class does not have. -/
inductive CallExc where
  | write (e : WriteError)
  | invalidArgument (descr : String)
  | noMember
deriving DecidableEq

/-- A writer after calls, or what stopped them. -/
abbrev Called := Except CallExc IntWriter

def call : Except WriteError IntWriter → Called
  | .ok w => .ok w
  | .error e => .error (.write e)

/-- The number of an atom. -/
def number : Atom → Nat
  | .number n => n
  | _ => 0

/-- The loop over the items of an array. -/
def writeItems (writeItem : Value → IntWriter → Called) : List Value → IntWriter → Called
  | [], w => .ok w
  | v :: rest, w =>
    match writeItem v w with
    | .error e => .error e
    | .ok w => writeItems writeItem rest w

section Generated

variable (Tn : ElemType) (order : ArgOrder) (differs : Value → Value → Bool)

/-- `writer.write_uint(bits, n)` -/
def writeUint (bits n : Nat) (w : IntWriter) : Called := call (w.writeUint Tn bits (toInt n))

/-- A struct behind its length field. -/
def writeSized (bits : Nat) (write : IntWriter → Called) (w : IntWriter) : Called :=
  match writeUint Tn bits 0 w with
  | .error e => .error e
  | .ok w =>
    let structPos := w.getBitPos Tn
    match write w with
    | .error e => .error e
    | .ok w =>
      let length := w.getBitPos Tn - structPos
      call (w.writeUintAt Tn order (structPos - bits) bits (toInt length))

mutual

/-- `render_write_field` -/
def writeField : FieldDescr → Value → IntWriter → Called
  | .mk _ none kind, v, w => writeKind kind v w
  | .mk _ (some default) kind, v, w => if differs v default then writeKind kind v w else .ok w

def writeKind : FieldKind → Value → IntWriter → Called
  | .leaf (.uint bits), v, w => writeUint Tn bits (number v.asAtom) w
  | .leaf _, _, _ => .error .noMember
  | .array item (.counted sizeBits), v, w =>
    match writeUint Tn sizeBits v.items.length w with
    | .error e => .error e
    | .ok w => writeItems (writeField item) v.items w
  | .array item (.const n), v, w =>
    if v.items.length ≠ n then
      .error (.invalidArgument ("Array size must be " ++ toString n))
    else writeItems (writeField item) v.items w
  | .struct struct none, v, w => writeStruct struct v w
  | .struct struct (some bits), v, w => writeSized Tn order bits (writeStruct struct v) w
  | .union _ _ _, _, _ => .error .noMember

/-- `render_write_struct` -/
def writeStruct : StructDescr → Value → IntWriter → Called
  | .mk _ fields, v, w => writeFields fields v.fields w

def writeFields : List FieldDescr → List Value → IntWriter → Called
  | [], _, w => .ok w
  | f :: rest, vs, w =>
    match writeField f (vs.headD .blank) w with
    | .error e => .error e
    | .ok w => writeFields rest vs.tail w

end

end Generated

/-! ## Schemas of numbers and their values -/

mutual

/-- Numbers of 1 to 64 bits, arrays and structs, without defaults. -/
def OfUintsField : FieldDescr → Prop
  | .mk _ none kind => OfUintsKind kind
  | .mk _ (some _) _ => False

def OfUintsKind : FieldKind → Prop
  | .leaf (.uint bits) => 1 ≤ bits ∧ bits ≤ 64
  | .leaf _ => False
  | .array item _ => OfUintsField item
  | .struct struct _ => OfUintsStruct struct
  | .union _ _ _ => False

def OfUintsStruct : StructDescr → Prop
  | .mk _ fields => OfUintsFields fields

def OfUintsFields : List FieldDescr → Prop
  | [] => True
  | f :: rest => OfUintsField f ∧ OfUintsFields rest

end

mutual

/-- Numbers and counts fit their widths. -/
def HoldsField : FieldDescr → Value → Prop
  | .mk _ _ kind, v => HoldsKind kind v

def HoldsKind : FieldKind → Value → Prop
  | .leaf leaf, v => ∃ a, v = .atom a ∧ leaf.Fits a
  | .array item (.counted sizeBits), v =>
    ∃ vs, v = .array vs ∧ vs.length < 2 ^ sizeBits ∧ ∀ x ∈ vs, HoldsField item x
  | .array item (.const n), v => ∃ vs, v = .array vs ∧ vs.length = n ∧ ∀ x ∈ vs, HoldsField item x
  | .struct struct _, v => HoldsStruct struct v
  | .union _ _ _, _ => False

def HoldsStruct : StructDescr → Value → Prop
  | .mk _ fields, v => ∃ vs, v = .struct vs ∧ HoldsFields fields vs

def HoldsFields : List FieldDescr → List Value → Prop
  | [], vs => vs = []
  | f :: rest, vs => ∃ v later, vs = v :: later ∧ HoldsField f v ∧ HoldsFields rest later

end

mutual

/-- The widths of all fields, sizes and lengths. -/
def sizeField : FieldDescr → Value → Nat
  | .mk _ _ kind, v => sizeKind kind v

def sizeKind : FieldKind → Value → Nat
  | .leaf (.uint bits), _ => bits
  | .leaf _, _ => 0
  | .array item (.counted sizeBits), v => sizeBits + (v.items.map (sizeField item)).sum
  | .array item (.const _), v => (v.items.map (sizeField item)).sum
  | .struct struct length, v => length.getD 0 + sizeStruct struct v
  | .union _ _ _, _ => 0

def sizeStruct : StructDescr → Value → Nat
  | .mk _ fields, v => sizeFields fields v.fields

def sizeFields : List FieldDescr → List Value → Nat
  | [], _ => 0
  | f :: rest, vs => sizeField f (vs.headD .blank) + sizeFields rest vs.tail

end

/-! ## The calls and their counts -/

/-- A `write_uint`, by its count, or calls behind a length field. -/
inductive Call where
  | uint (count : Int)
  | sized (lengthBits : Nat) (calls : List Call)

mutual

def callsField : FieldDescr → Value → List Call
  | .mk _ _ kind, v => callsKind kind v

def callsKind : FieldKind → Value → List Call
  | .leaf _, v => [.uint (toInt (number v.asAtom))]
  | .array item (.counted _), v =>
    .uint (toInt v.items.length) :: v.items.flatMap (callsField item)
  | .array item (.const _), v => v.items.flatMap (callsField item)
  | .struct struct none, v => callsStruct struct v
  | .struct struct (some bits), v => [.sized bits (callsStruct struct v)]
  | .union _ _ _, _ => []

def callsStruct : StructDescr → Value → List Call
  | .mk _ fields, v => callsFields fields v.fields

def callsFields : List FieldDescr → List Value → List Call
  | [], _ => []
  | f :: rest, vs => callsField f (vs.headD .blank) ++ callsFields rest vs.tail

end

mutual

/-- The bits that a call counts. -/
def Call.count : Call → Int
  | .uint n => n
  | .sized _ calls => counts calls

def counts : List Call → Int
  | [] => 0
  | c :: rest => c.count + counts rest

end

section Place

variable (Tn : ElemType) (order : ArgOrder)

mutual

/-- Where a call gets to, if it is defined. -/
def Call.place : Call → Cursor → Option Cursor
  | .uint n, c => c.put Tn n
  | .sized bits calls, c =>
    match c.put Tn 0 with
    | none => none
    | some start =>
      match placeAll calls start with
      | none => none
      | some c =>
        if Cursor.patches Tn order c.stored (start.pos Tn - bits)
          (toInt (c.pos Tn - start.pos Tn)) then some c else none

def placeAll : List Call → Cursor → Option Cursor
  | [], c => some c
  | call :: rest, c =>
    match call.place c with
    | none => none
    | some c => placeAll rest c

end

end Place

variable {Tn : ElemType} {order : ArgOrder} {differs : Value → Value → Bool}

mutual

/-- **A position** advances by what is counted. -/
theorem Call.place_pos : ∀ (call : Call) {c next : Cursor},
    call.place Tn order c = some next → next.pos Tn = c.pos Tn + call.count
  | .uint n, c, next, there => by
      rw [Call.place] at there
      rw [Call.count]
      exact Cursor.put_pos there
  | .sized bits calls, c, next, there => by
      rw [Call.place] at there
      rw [Call.count]
      cases zeros : c.put Tn 0 with
      | none => rw [zeros] at there; cases there
      | some start =>
          rw [zeros] at there
          dsimp only at there
          cases inside : placeAll Tn order calls start with
          | none => rw [inside] at there; cases there
          | some last =>
              rw [inside] at there
              dsimp only at there
              have first := Cursor.put_pos zeros
              have later := placeAll_pos calls inside
              split at there
              · cases there
                omega
              · cases there

theorem placeAll_pos : ∀ (calls : List Call) {c next : Cursor},
    placeAll Tn order calls c = some next → next.pos Tn = c.pos Tn + counts calls
  | [], c, next, there => by
      cases there
      rw [counts, Int.add_zero]
  | call :: rest, c, next, there => by
      rw [placeAll] at there
      cases one : call.place Tn order c with
      | none => rw [one] at there; cases there
      | some mid =>
          rw [one] at there
          have first := Call.place_pos call one
          have later := placeAll_pos rest there
          rw [counts]
          omega

end

theorem placeAll_one (call : Call) (c : Cursor) :
    placeAll Tn order [call] c = call.place Tn order c := by
  rw [placeAll]
  cases call.place Tn order c <;> rfl

theorem placeAll_append (front back : List Call) (c : Cursor) :
    placeAll Tn order (front ++ back) c =
      (placeAll Tn order front c).bind (placeAll Tn order back) := by
  induction front generalizing c with
  | nil => rfl
  | cons call rest ih =>
      rw [List.cons_append, placeAll, placeAll]
      cases call.place Tn order c with
      | none => rfl
      | some next => exact ih next

/-- Without length fields, elements of 8 and 16 bits take all counts that are not negative. -/
theorem placeAll_defined (narrow : Tn.bits < 32) {calls : List Call}
    (plain : ∀ call ∈ calls, ∃ n, call = .uint n ∧ 0 ≤ n) {c : Cursor} (pending : c.Pending Tn) :
    (placeAll Tn order calls c).isSome := by
  induction calls generalizing c with
  | nil => rfl
  | cons call rest ih =>
      obtain ⟨n, rfl, positive⟩ := plain call List.mem_cons_self
      obtain ⟨next, there, later⟩ := Cursor.put_defined narrow pending positive
      rw [placeAll, Call.place, there]
      exact ih (fun other member => plain other (List.mem_cons_of_mem _ member)) later

/-! ## The generated functions make these calls -/

open IntWriter (reached)

theorem reached_call (result : Except WriteError IntWriter) :
    reached (call result) = reached result := by
  cases result <;> rfl

theorem reached_writeUint (bits n : Nat) (w : IntWriter) :
    reached (writeUint Tn bits n w) = w.cursor.put Tn (toInt n) := by
  rw [writeUint, reached_call, IntWriter.writeUint_cursor]

/-- One call and what follows it. -/
theorem reached_seq {first : Called} {second : IntWriter → Called}
    {place : Cursor → Option Cursor} (later : ∀ w, reached (second w) = place w.cursor) :
    reached (match first with
      | .error e => .error e
      | .ok w => second w) = (reached first).bind place := by
  cases first with
  | error e => rfl
  | ok w => exact later w

theorem reached_items {item : FieldDescr} {vs : List Value}
    (each : ∀ v ∈ vs, ∀ w, reached (writeField Tn order differs item v w) =
      placeAll Tn order (callsField item v) w.cursor) (w : IntWriter) :
    reached (writeItems (writeField Tn order differs item) vs w) =
      placeAll Tn order (vs.flatMap (callsField item)) w.cursor := by
  induction vs generalizing w with
  | nil => rfl
  | cons v rest ih =>
      have later := ih fun x member => each x (List.mem_cons_of_mem _ member)
      rw [writeItems, List.flatMap_cons, placeAll_append, reached_seq later,
        each v List.mem_cons_self]

/-- The patch is at the position of its length field. -/
theorem reached_writeSized {write : IntWriter → Called} {calls : List Call}
    (inside : ∀ w, reached (write w) = placeAll Tn order calls w.cursor) (bits : Nat)
    (w : IntWriter) :
    reached (writeSized Tn order bits write w) =
      placeAll Tn order [.sized bits calls] w.cursor := by
  have zeros := @reached_writeUint Tn bits 0 w
  have none : toInt (0 : Nat) = 0 := rfl
  rw [none] at zeros
  rw [writeSized, placeAll_one, Call.place, ← zeros]
  cases writeUint Tn bits 0 w with
  | error e => rfl
  | ok start =>
      have content := inside start
      have position : start.getBitPos Tn = start.cursor.pos Tn := rfl
      dsimp only [reached]
      rw [← content]
      cases write start with
      | error e => rfl
      | ok last =>
          have after : last.getBitPos Tn = last.cursor.pos Tn := rfl
          have patched := @IntWriter.writeUintAt_cursor Tn order last
            (start.getBitPos Tn - bits) bits (toInt (last.getBitPos Tn - start.getBitPos Tn))
          rw [← reached_call, position, after] at patched
          exact patched

mutual

theorem reached_field : ∀ (f : FieldDescr) (v : Value), OfUintsField f → HoldsField f v →
    ∀ w, reached (writeField Tn order differs f v w) =
      placeAll Tn order (callsField f v) w.cursor
  | .mk _ none kind, v, uints, holds, w => by
      rw [writeField, callsField]
      exact reached_kind kind v uints holds w
  | .mk _ (some _) _, _, uints, _, _ => uints.elim

theorem reached_kind : ∀ (kind : FieldKind) (v : Value), OfUintsKind kind → HoldsKind kind v →
    ∀ w, reached (writeKind Tn order differs kind v w) =
      placeAll Tn order (callsKind kind v) w.cursor
  | .leaf (.uint bits), v, _, holds, w => by
      rw [writeKind, callsKind, reached_writeUint, placeAll_one, Call.place]
  | .leaf .bool, _, uints, _, _ => uints.elim
  | .leaf (.int _), _, uints, _, _ => uints.elim
  | .leaf (.float _), _, uints, _, _ => uints.elim
  | .leaf (.enum _), _, uints, _, _ => uints.elim
  | .leaf (.string _), _, uints, _, _ => uints.elim
  | .array item (.counted sizeBits), v, uints, holds, w => by
      obtain ⟨vs, rfl, -, each⟩ := holds
      have items := reached_items fun x member => reached_field item x uints (each x member)
      rw [writeKind, callsKind, Value.items_array, reached_seq items, reached_writeUint, placeAll,
        Call.place]
      cases w.cursor.put Tn (toInt vs.length) <;> rfl
  | .array item (.const n), v, uints, holds, w => by
      obtain ⟨vs, rfl, count, each⟩ := holds
      rw [writeKind, callsKind, Value.items_array, if_neg (not_not.mpr count)]
      exact reached_items (fun x member => reached_field item x uints (each x member)) w
  | .struct struct none, v, uints, holds, w => by
      rw [writeKind, callsKind]
      exact reached_struct struct v uints holds w
  | .struct struct (some bits), v, uints, holds, w => by
      rw [writeKind, callsKind]
      exact reached_writeSized (reached_struct struct v uints holds) bits w
  | .union _ _ _, _, uints, _, _ => uints.elim

theorem reached_struct : ∀ (struct : StructDescr) (v : Value), OfUintsStruct struct →
    HoldsStruct struct v → ∀ w, reached (writeStruct Tn order differs struct v w) =
      placeAll Tn order (callsStruct struct v) w.cursor
  | .mk _ fields, v, uints, holds, w => by
      obtain ⟨vs, rfl, each⟩ := holds
      rw [writeStruct, callsStruct]
      exact reached_fields fields vs uints each w

theorem reached_fields : ∀ (fields : List FieldDescr) (vs : List Value), OfUintsFields fields →
    HoldsFields fields vs → ∀ w, reached (writeFields Tn order differs fields vs w) =
      placeAll Tn order (callsFields fields vs) w.cursor
  | [], vs, _, _, w => by
      rw [writeFields, callsFields]
      rfl
  | f :: rest, vs, uints, holds, w => by
      obtain ⟨v, later, rfl, first, others⟩ := holds
      rw [writeFields, callsFields, List.headD_cons, List.tail_cons, placeAll_append,
        reached_seq (reached_fields rest later uints.2 others),
        reached_field f v uints.1 first w]

end

/-! ## The layout -/

theorem sizeItems_layout {prim : Primitives} {item : FieldDescr} {vs : List Value}
    (each : ∀ v ∈ vs, (layoutField prim item v).length = sizeField item v) :
    (vs.flatMap (layoutField prim item)).length = (vs.map (sizeField item)).sum := by
  rw [List.length_flatMap, List.map_congr_left each]

mutual

theorem sizeField_layout (prim : Primitives) : ∀ (f : FieldDescr) (v : Value), OfUintsField f →
    HoldsField f v → (layoutField prim f v).length = sizeField f v
  | .mk _ none kind, v, uints, holds => by
      rw [layoutField, sizeField]
      exact sizeKind_layout prim kind v uints holds
  | .mk _ (some _) _, _, uints, _ => uints.elim

theorem sizeKind_layout (prim : Primitives) : ∀ (kind : FieldKind) (v : Value),
    OfUintsKind kind → HoldsKind kind v → (layoutKind prim kind v).length = sizeKind kind v
  | .leaf (.uint bits), v, _, holds => by
      obtain ⟨a, rfl, fits⟩ := holds
      cases a with
      | number n => rw [layoutKind, sizeKind, Value.asAtom_atom, prim.length_uint]
      | bool b => exact fits.elim
      | int z => exact fits.elim
      | string s => exact fits.elim
  | .leaf .bool, _, uints, _ => uints.elim
  | .leaf (.int _), _, uints, _ => uints.elim
  | .leaf (.float _), _, uints, _ => uints.elim
  | .leaf (.enum _), _, uints, _ => uints.elim
  | .leaf (.string _), _, uints, _ => uints.elim
  | .array item (.counted sizeBits), v, uints, holds => by
      obtain ⟨vs, rfl, -, each⟩ := holds
      rw [layoutKind, sizeKind, Value.items_array, List.length_append, prim.length_uint,
        sizeItems_layout fun x member => sizeField_layout prim item x uints (each x member)]
  | .array item (.const n), v, uints, holds => by
      obtain ⟨vs, rfl, -, each⟩ := holds
      rw [layoutKind, sizeKind, Value.items_array,
        sizeItems_layout fun x member => sizeField_layout prim item x uints (each x member)]
  | .struct struct length, v, uints, holds => by
      have inside := sizeStruct_layout prim struct v uints holds
      rw [layoutKind, sizeKind, ← inside]
      cases length with
      | none => rw [sized, Option.getD_none, Nat.zero_add]
      | some bits => rw [sized, List.length_append, prim.length_uint, Option.getD_some]
  | .union _ _ _, _, uints, _ => uints.elim

/-- The size is that of the bits that the value stands for. -/
theorem sizeStruct_layout (prim : Primitives) : ∀ (struct : StructDescr) (v : Value),
    OfUintsStruct struct → HoldsStruct struct v →
    (layoutStruct prim struct v).length = sizeStruct struct v
  | .mk _ fields, v, uints, holds => by
      obtain ⟨vs, rfl, each⟩ := holds
      rw [layoutStruct, sizeStruct]
      exact sizeFields_layout prim fields vs uints each

theorem sizeFields_layout (prim : Primitives) : ∀ (fields : List FieldDescr) (vs : List Value),
    OfUintsFields fields → HoldsFields fields vs →
    (layoutFields prim fields vs).length = sizeFields fields vs
  | [], _, _, _ => rfl
  | f :: rest, vs, uints, holds => by
      obtain ⟨v, later, rfl, first, others⟩ := holds
      rw [layoutFields, sizeFields, List.headD_cons, List.tail_cons, List.length_append,
        sizeField_layout prim f v uints.1 first, sizeFields_layout prim rest later uints.2 others]

end

/-! ## The position -/

/-- The write function returns, and the position is the layout's size further. -/
def Advances (Tn : ElemType) (order : ArgOrder) (differs : Value → Value → Bool)
    (struct : StructDescr) (v : Value) (w : IntWriter) : Prop :=
  ∃ w', writeStruct Tn order differs struct v w = .ok w' ∧
    w'.getBitPos Tn = w.getBitPos Tn + sizeStruct struct v

/-- **The position advances by the size of the layout** if and only if every call is defined
where it is made, and the numbers and counts, as `int`s, add up to the widths. -/
theorem advances_iff (Tn : ElemType) (order : ArgOrder) (differs : Value → Value → Bool)
    {struct : StructDescr} {v : Value} (uints : OfUintsStruct struct) (holds : HoldsStruct struct v)
    (w : IntWriter) :
    Advances Tn order differs struct v w ↔
      (placeAll Tn order (callsStruct struct v) w.cursor).isSome ∧
        counts (callsStruct struct v) = sizeStruct struct v := by
  have places := @reached_struct Tn order differs struct v uints holds w
  have start : w.getBitPos Tn = w.cursor.pos Tn := rfl
  cases outcome : writeStruct Tn order differs struct v w with
  | error e =>
      rw [outcome] at places
      constructor
      · rintro ⟨w', written, -⟩
        rw [outcome] at written
        cases written
      · rintro ⟨placed, -⟩
        rw [← places] at placed
        cases placed
  | ok last =>
      rw [outcome] at places
      have there := placeAll_pos _ places.symm
      have finish : last.getBitPos Tn = last.cursor.pos Tn := rfl
      constructor
      · rintro ⟨w', written, advanced⟩
        rw [outcome] at written
        cases written
        refine ⟨by rw [← places]; rfl, ?_⟩
        omega
      · rintro ⟨-, total⟩
        exact ⟨last, outcome, by omega⟩

/-- For elements of 8 and 16 bits and no length fields, only the sum matters. -/
theorem advances_narrow_iff {Tn : ElemType} (narrow : Tn.bits < 32) (order : ArgOrder)
    (differs : Value → Value → Bool) {struct : StructDescr} {v : Value}
    (uints : OfUintsStruct struct) (holds : HoldsStruct struct v)
    (plain : ∀ call ∈ callsStruct struct v, ∃ n, call = .uint n ∧ 0 ≤ n) {w : IntWriter}
    (pending : w.cursor.Pending Tn) :
    Advances Tn order differs struct v w ↔
      counts (callsStruct struct v) = sizeStruct struct v := by
  have placed := @placeAll_defined Tn order narrow _ plain _ pending
  rw [advances_iff Tn order differs uints holds w]
  exact and_iff_right placed

/-- One number of a byte. -/
def byteDescr : StructDescr := .mk "s" [.mk "x" none (.leaf (.uint 8))]

theorem byte_holds {n : Nat} (small : n < 256) :
    OfUintsStruct byteDescr ∧ HoldsStruct byteDescr (.struct [.atom (.number n)]) :=
  ⟨⟨⟨by decide, by decide⟩, trivial⟩, _, rfl, _, _, rfl, ⟨_, rfl, small⟩, rfl⟩

/-- The number eight. -/
theorem advances_eight :
    Advances .uint8 .leftToRight (fun _ _ => true) byteDescr (.struct [.atom (.number 8)]) {} :=
  have eight := @byte_holds 8 (by decide)
  (advances_iff .uint8 .leftToRight (fun _ _ => true) eight.1 eight.2 {}).mpr ⟨rfl, rfl⟩

/-- **Refuted**: the number three, in eight bits, advances by three. -/
theorem advances_refuted : ¬ ∀ (Tn : ElemType) (order : ArgOrder)
    (differs : Value → Value → Bool) (struct : StructDescr) (v : Value),
    OfUintsStruct struct → HoldsStruct struct v → Advances Tn order differs struct v {} := by
  intro always
  have three := @byte_holds 3 (by decide)
  obtain ⟨w', written, advanced⟩ := always .uint8 .leftToRight (fun _ _ => true) byteDescr
    (.struct [.atom (.number 3)]) three.1 three.2
  cases written
  exact absurd advanced (by decide)

end UdpStuff.Proto.WriterCalls
