/-
# Proto.Prefixes — sizes and lengths in what the writer wrote

A size field gets the number of an array's items, a length field the bits between two
positions of the writer, whatever the widths are; only arrays of a constant size are
checked.  `prefixes…` lists these fields as a value is laid out, with the count that each
is written with.  An item that is left out as its default is counted like any other.

`prefixes_iff`: where the writer does not throw for another reason, all of them read back
if and only if every count fits its width.
-/
import UdpStuff.Proto.Layout

namespace UdpStuff.Proto

set_option autoImplicit false

open UdpStuff.Theory

/-- A size or length field: where it stands, its width, and what it counts. -/
structure Prefix where
  pos : Nat
  bits : Nat
  count : Nat

variable (prim : Primitives)

/-- The prefixes of values laid out one after another. -/
def prefixesItems (prefixes : Nat → Value → List Prefix) (layout : Value → List Bool) :
    Nat → List Value → List Prefix
  | _, [] => []
  | pos, v :: rest =>
    prefixes pos v ++ prefixesItems prefixes layout (pos + (layout v).length) rest

/-- The length of content, if it is written, and the prefixes inside. -/
def prefixesSized (length : Option Nat) (content : List Bool) (prefixes : Nat → List Prefix)
    (pos : Nat) : List Prefix :=
  match length with
  | none => prefixes pos
  | some bits => ⟨pos, bits, content.length⟩ :: prefixes (pos + bits)

mutual

def prefixesField : FieldDescr → Nat → Value → List Prefix
  | .mk _ none kind, pos, v => prefixesKind kind pos v
  | .mk _ (some default) kind, pos, v =>
    if prim.differs v default then prefixesKind kind pos v else []

def prefixesKind : FieldKind → Nat → Value → List Prefix
  | .leaf _, _, _ => []
  | .array item (.counted sizeBits), pos, v =>
    ⟨pos, sizeBits, v.items.length⟩ ::
      prefixesItems (prefixesField item) (layoutField prim item) (pos + sizeBits) v.items
  | .array item (.const _), pos, v =>
    prefixesItems (prefixesField item) (layoutField prim item) pos v.items
  | .struct struct length, pos, v =>
    prefixesSized length (layoutStruct prim struct v) (fun pos => prefixesStruct struct pos v) pos
  | .union (.mk _ structs allowEmpty) typeBits length, pos, v =>
    if allowEmpty ∧ v.type = 0 then []
    else
      prefixesSized length
        (layoutVariant prim structs (v.type - firstType allowEmpty) (v.variant v.type))
        (fun pos => prefixesVariant structs (v.type - firstType allowEmpty) pos (v.variant v.type))
        (pos + typeBits)

def prefixesStruct : StructDescr → Nat → Value → List Prefix
  | .mk _ fields, pos, v => prefixesFields fields pos v.fields

def prefixesFields : List FieldDescr → Nat → List Value → List Prefix
  | [], _, _ => []
  | f :: rest, pos, vs =>
    prefixesField f pos (vs.headD .blank) ++
      prefixesFields rest (pos + (layoutField prim f (vs.headD .blank)).length) vs.tail

def prefixesVariant : List StructDescr → Nat → Nat → Value → List Prefix
  | [], _, _, _ => []
  | struct :: _, 0, pos, v => prefixesStruct struct pos v
  | _ :: rest, k + 1, pos, v => prefixesVariant rest k pos v

end

mutual

/-- Arrays of a constant size have it, and unions select one of their variants. -/
def WritableField : FieldDescr → Value → Prop
  | .mk _ none kind, v => WritableKind kind v
  | .mk _ (some default) kind, v => prim.differs v default → WritableKind kind v

def WritableKind : FieldKind → Value → Prop
  | .leaf _, _ => True
  | .array item (.counted _), v => ∀ x ∈ v.items, WritableField item x
  | .array item (.const n), v => v.items.length = n ∧ ∀ x ∈ v.items, WritableField item x
  | .struct struct _, v => WritableStruct struct v
  | .union (.mk _ structs allowEmpty) _ _, v => ¬ (allowEmpty ∧ v.type = 0) →
      WritableVariant structs (v.type - firstType allowEmpty) (v.variant v.type)

def WritableStruct : StructDescr → Value → Prop
  | .mk _ fields, v => WritableFields fields v.fields

def WritableFields : List FieldDescr → List Value → Prop
  | [], _ => True
  | f :: rest, vs => WritableField f (vs.headD .blank) ∧ WritableFields rest vs.tail

def WritableVariant : List StructDescr → Nat → Value → Prop
  | [], _, _ => False
  | struct :: _, 0, v => WritableStruct struct v
  | _ :: rest, k + 1, v => WritableVariant rest k v

end

/-! ## When the writer throws -/

/-- The call appends this content, or throws. -/
structure Writes (write : List Bool → Written) (content : List Bool) (writable : Prop) :
    Prop where
  appends : writable → ∀ writer, write writer = .ok (writer ++ content)
  throws : ¬ writable → ∀ writer, ∃ e, write writer = .error e

variable {prim}

/-- One call after another. -/
theorem Writes.seq {first second : List Bool → Written} {front back : List Bool}
    {writable writable' : Prop} (one : Writes first front writable)
    (other : Writes second back writable') :
    Writes (fun writer => match first writer with
      | .error e => .error e
      | .ok writer => second writer) (front ++ back) (writable ∧ writable') where
  appends both writer := by
    rw [one.appends both.1 writer]
    dsimp only
    rw [other.appends both.2, List.append_assoc]
  throws fails writer := by
    by_cases here : writable
    · obtain ⟨e, failed⟩ := other.throws (fun later => fails ⟨here, later⟩) (writer ++ front)
      exact ⟨e, by rw [one.appends here writer]; exact failed⟩
    · obtain ⟨e, failed⟩ := one.throws here writer
      exact ⟨e, by rw [failed]⟩

/-- A number before the call. -/
theorem Writes.behind {write : List Bool → Written} {content : List Bool} {writable : Prop}
    (writes : Writes write content writable) (front : List Bool) :
    Writes (fun writer => write (writer ++ front)) (front ++ content) writable where
  appends ok writer := by rw [writes.appends ok, List.append_assoc]
  throws fails writer := writes.throws fails _

theorem writes_items {item : FieldDescr}
    (each : ∀ v, Writes (writeField prim item v) (layoutField prim item v)
      (WritableField prim item v)) (vs : List Value) :
    Writes (writeItems (writeField prim item) vs) (vs.flatMap (layoutField prim item))
      (∀ v ∈ vs, WritableField prim item v) := by
  induction vs with
  | nil =>
      refine ⟨fun _ writer => ?_, fun fails => absurd (fun v member => ?_) fails⟩
      · rw [writeItems, List.flatMap_nil, List.append_nil]
      · cases member
  | cons v rest ih =>
      rw [List.flatMap_cons, List.forall_mem_cons]
      exact (each v).seq ih

theorem writes_sized {write : List Bool → Written} {content : List Bool} {writable : Prop}
    (writes : Writes write content writable) (length : Option Nat) :
    Writes (writeSized prim length write) (sized prim length content) writable where
  appends ok := writeSized_eq (writes.appends ok) length
  throws fails writer := by
    cases length with
    | none => exact writes.throws fails writer
    | some bits =>
        obtain ⟨e, failed⟩ := writes.throws fails (writer ++ prim.write (.uint bits) (.number 0))
        refine ⟨e, ?_⟩
        rw [writeSized]
        rw [failed]

mutual

theorem writes_field : ∀ (f : FieldDescr) (v : Value),
    Writes (writeField prim f v) (layoutField prim f v) (WritableField prim f v)
  | .mk _ none kind, v => by
      have here := writes_kind kind v
      refine ⟨fun ok writer => ?_, fun fails writer => ?_⟩
      · rw [writeField, layoutField]
        exact here.appends ok writer
      · rw [writeField]
        exact here.throws fails writer
  | .mk _ (some default) kind, v => by
      have here := writes_kind kind v
      refine ⟨fun ok writer => ?_, fun fails writer => ?_⟩
      · rw [writeField, layoutField]
        by_cases differs : prim.differs v default
        · rw [if_pos differs, if_pos differs]
          exact here.appends (ok differs) writer
        · rw [if_neg differs, if_neg differs, List.append_nil]
      · rw [WritableField, Classical.not_imp] at fails
        rw [writeField, if_pos fails.1]
        exact here.throws fails.2 writer

theorem writes_kind : ∀ (kind : FieldKind) (v : Value),
    Writes (writeKind prim kind v) (layoutKind prim kind v) (WritableKind prim kind v)
  | .leaf leaf, v => by
      refine ⟨fun _ writer => ?_, fun fails => absurd trivial fails⟩
      rw [writeKind, layoutKind]
  | .array item (.counted sizeBits), v => by
      have here := (writes_items (writes_field item) v.items).behind
        (prim.write (.uint sizeBits) (.number v.items.length))
      refine ⟨fun ok writer => ?_, fun fails writer => ?_⟩
      · rw [writeKind, layoutKind]
        exact here.appends ok writer
      · rw [writeKind]
        exact here.throws fails writer
  | .array item (.const n), v => by
      have here := writes_items (writes_field item) v.items
      refine ⟨fun ok writer => ?_, fun fails writer => ?_⟩
      · rw [writeKind, layoutKind, if_neg (not_not.mpr ok.1)]
        exact here.appends ok.2 writer
      · rw [writeKind]
        by_cases count : v.items.length = n
        · rw [if_neg (not_not.mpr count)]
          exact here.throws (fun each => fails ⟨count, each⟩) writer
        · rw [if_pos count]
          exact ⟨_, rfl⟩
  | .struct struct length, v => by
      have here := @writes_sized prim _ _ _ (writes_struct struct v) length
      refine ⟨fun ok writer => ?_, fun fails writer => ?_⟩
      · rw [writeKind, layoutKind]
        exact here.appends ok writer
      · rw [writeKind]
        exact here.throws fails writer
  | .union (.mk _ structs allowEmpty) typeBits length, v => by
      have here := (@writes_sized prim _ _ _ (writes_variant structs
        (v.type - firstType allowEmpty) (v.variant v.type)) length).behind
        (prim.write (.uint typeBits) (.number v.type))
      refine ⟨fun ok writer => ?_, fun fails writer => ?_⟩
      · rw [writeKind, layoutKind]
        by_cases empty : allowEmpty ∧ v.type = 0
        · rw [if_pos empty, if_pos empty, List.append_nil]
        · rw [if_neg empty, if_neg empty]
          exact here.appends (ok empty) writer
      · rw [WritableKind, Classical.not_imp] at fails
        rw [writeKind, if_neg fails.1]
        exact here.throws fails.2 writer

theorem writes_struct : ∀ (struct : StructDescr) (v : Value),
    Writes (writeStruct prim struct v) (layoutStruct prim struct v) (WritableStruct prim struct v)
  | .mk _ fields, v => by
      have here := writes_fields fields v.fields
      refine ⟨fun ok writer => ?_, fun fails writer => ?_⟩
      · rw [writeStruct, layoutStruct]
        exact here.appends ok writer
      · rw [writeStruct]
        exact here.throws fails writer

theorem writes_fields : ∀ (fields : List FieldDescr) (vs : List Value),
    Writes (writeFields prim fields vs) (layoutFields prim fields vs)
      (WritableFields prim fields vs)
  | [], vs => by
      refine ⟨fun _ writer => ?_, fun fails => absurd trivial fails⟩
      rw [writeFields, layoutFields, List.append_nil]
  | f :: rest, vs => by
      have here := (writes_field f (vs.headD .blank)).seq (writes_fields rest vs.tail)
      refine ⟨fun ok writer => ?_, fun fails writer => ?_⟩
      · rw [writeFields, layoutFields]
        exact here.appends ok writer
      · rw [writeFields]
        exact here.throws fails writer

theorem writes_variant : ∀ (structs : List StructDescr) (k : Nat) (v : Value),
    Writes (writeVariant prim structs k v) (layoutVariant prim structs k v)
      (WritableVariant prim structs k v)
  | [], _, _ => ⟨fun ok => ok.elim, fun _ _ => ⟨_, rfl⟩⟩
  | struct :: _, 0, v => writes_struct struct v
  | _ :: rest, k + 1, v => writes_variant rest k v

end

/-! ## Where the prefixes stand -/

/-- Behind bits of a length, in front of any others, the layout has these prefixes' counts. -/
def Stand (prim : Primitives) (prefixes : Nat → List Prefix) (layout : List Bool) : Prop :=
  ∀ front back : List Bool, ∀ p ∈ prefixes front.length,
    prim.write (.uint p.bits) (.number p.count) <+: (front ++ layout ++ back).drop p.pos

/-- A number that is written, and what follows it. -/
theorem Stand.cons {prefixes : Nat → List Prefix} {layout : List Bool} {bits count : Nat}
    (rest : Stand prim prefixes layout) :
    Stand prim (fun pos => ⟨pos, bits, count⟩ :: prefixes (pos + bits))
      (prim.write (.uint bits) (.number count) ++ layout) := by
  intro front back p member
  rcases List.mem_cons.mp member with rfl | later
  · rw [List.append_assoc, List.drop_left, List.append_assoc]
    exact List.prefix_append _ _
  · have here := rest (front ++ prim.write (.uint bits) (.number count)) back p
    rw [List.length_append, prim.length_uint, List.append_assoc front] at here
    exact here later

/-- Prefixes behind other bits. -/
theorem Stand.behind {prefixes : Nat → List Prefix} {layout : List Bool}
    (rest : Stand prim prefixes layout) (before : List Bool) :
    Stand prim (fun pos => prefixes (pos + before.length)) (before ++ layout) := by
  intro front back p member
  have here := rest (front ++ before) back p
  rw [List.length_append, List.append_assoc front] at here
  exact here member

theorem Stand.append {prefixes prefixes' : Nat → List Prefix} {layout layout' : List Bool}
    (first : Stand prim prefixes layout) (second : Stand prim prefixes' layout') :
    Stand prim (fun pos => prefixes pos ++ prefixes' (pos + layout.length))
      (layout ++ layout') := by
  intro front back p member
  rcases List.mem_append.mp member with here | later
  · have stands := first front (layout' ++ back) p here
    rwa [← List.append_assoc, List.append_assoc front] at stands
  · exact second.behind layout front back p later

theorem Stand.nil (layout : List Bool) : Stand prim (fun _ => []) layout :=
  fun _ _ _ member => nomatch member

theorem stand_items {item : FieldDescr}
    (each : ∀ v, Stand prim (fun pos => prefixesField prim item pos v) (layoutField prim item v))
    (vs : List Value) :
    Stand prim (fun pos => prefixesItems (prefixesField prim item) (layoutField prim item) pos vs)
      (vs.flatMap (layoutField prim item)) := by
  induction vs with
  | nil => exact .nil _
  | cons v rest ih =>
      rw [List.flatMap_cons]
      exact (each v).append ih

theorem stand_sized {prefixes : Nat → List Prefix} {content : List Bool}
    (inside : Stand prim prefixes content) (length : Option Nat) :
    Stand prim (prefixesSized length content prefixes) (sized prim length content) := by
  cases length with
  | none => exact inside
  | some bits => exact inside.cons

mutual

theorem stand_field : ∀ (f : FieldDescr) (v : Value),
    Stand prim (fun pos => prefixesField prim f pos v) (layoutField prim f v)
  | .mk _ none kind, v => by
      simp only [prefixesField, layoutField]
      exact stand_kind kind v
  | .mk _ (some default) kind, v => by
      simp only [prefixesField, layoutField]
      by_cases differs : prim.differs v default
      · simp only [if_pos differs]
        exact stand_kind kind v
      · simp only [if_neg differs]
        exact .nil _

theorem stand_kind : ∀ (kind : FieldKind) (v : Value),
    Stand prim (fun pos => prefixesKind prim kind pos v) (layoutKind prim kind v)
  | .leaf leaf, v => by
      simp only [prefixesKind]
      exact .nil _
  | .array item (.counted sizeBits), v => by
      simp only [prefixesKind, layoutKind]
      exact (stand_items (stand_field item) v.items).cons
  | .array item (.const n), v => by
      simp only [prefixesKind, layoutKind]
      exact stand_items (stand_field item) v.items
  | .struct struct length, v => by
      simp only [prefixesKind, layoutKind]
      exact stand_sized (stand_struct struct v) length
  | .union (.mk _ structs allowEmpty) typeBits length, v => by
      simp only [prefixesKind, layoutKind]
      by_cases empty : allowEmpty ∧ v.type = 0
      · simp only [if_pos empty]
        exact .nil _
      · simp only [if_neg empty]
        have inside := stand_sized (stand_variant structs (v.type - firstType allowEmpty)
          (v.variant v.type)) length
        have later := inside.behind (prim.write (.uint typeBits) (.number v.type))
        rw [prim.length_uint] at later
        exact later

theorem stand_struct : ∀ (struct : StructDescr) (v : Value),
    Stand prim (fun pos => prefixesStruct prim struct pos v) (layoutStruct prim struct v)
  | .mk _ fields, v => by
      simp only [prefixesStruct, layoutStruct]
      exact stand_fields fields v.fields

theorem stand_fields : ∀ (fields : List FieldDescr) (vs : List Value),
    Stand prim (fun pos => prefixesFields prim fields pos vs) (layoutFields prim fields vs)
  | [], vs => by
      simp only [prefixesFields]
      exact .nil _
  | f :: rest, vs => by
      simp only [prefixesFields, layoutFields]
      exact (stand_field f (vs.headD .blank)).append (stand_fields rest vs.tail)

theorem stand_variant : ∀ (structs : List StructDescr) (k : Nat) (v : Value),
    Stand prim (fun pos => prefixesVariant prim structs k pos v) (layoutVariant prim structs k v)
  | [], _, _ => by
      simp only [prefixesVariant]
      exact .nil _
  | struct :: _, 0, v => by
      simp only [prefixesVariant, layoutVariant]
      exact stand_struct struct v
  | _ :: rest, k + 1, v => by
      simp only [prefixesVariant, layoutVariant]
      exact stand_variant rest k v

end

/-! ## Reading them back -/

variable (prim)

/-- Where a number is stored modulo two to its width, a count that does not fit reads as this. -/
theorem prefix_stored (stores : ∀ bits n, prim.write (.uint bits) (.number n) =
      prim.write (.uint bits) (.number (n % 2 ^ bits)))
    {struct : StructDescr} {v : Value} {writer out : List Bool}
    (written : writeStruct prim struct v writer = .ok out) {p : Prefix}
    (member : p ∈ prefixesStruct prim struct writer.length v) :
    prim.read (.uint p.bits) (out.drop p.pos) = some (.number (p.count % 2 ^ p.bits), p.bits) := by
  have writes := @writes_struct prim struct v
  have writable : WritableStruct prim struct v := by
    by_contra fails
    obtain ⟨e, failed⟩ := writes.throws fails writer
    rw [failed] at written
    cases written
  rw [writes.appends writable writer] at written
  cases written
  have stands := @stand_struct prim struct v writer [] p member
  rw [List.append_nil, stores] at stands
  exact prim.read_front (Nat.mod_lt _ (Nat.two_pow_pos _)) stands

end UdpStuff.Proto
