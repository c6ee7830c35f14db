/-
# Proto.Evolution — reading messages of another version of a struct

Fields are appended to a struct that others embed behind a length field.  The old
reader of a new message and the new reader of an old one both read the length, parse
the struct in the fragment of that length, and go on.

The fragment starts at the end of the element that the length field ends in, as many
bits later as are left of that element; and the parent goes on at the content, not
after it.  `evolves_iff` says what has to stand there for both readers to obtain the
fields they share and those that follow.
-/
import UdpStuff.Proto.Embedding
import UdpStuff.Proto.Codec

namespace UdpStuff.Proto

set_option autoImplicit false

/-- Two versions of a struct: the newer one has fields appended. -/
structure Versions where
  oldName : String
  newName : String
  fields : List FieldDescr
  added : List FieldDescr

namespace Versions

def old (s : Versions) : StructDescr := .mk s.oldName s.fields

def new (s : Versions) : StructDescr := .mk s.newName (s.fields ++ s.added)

end Versions

/-- The values of a message: those before and after the embedded struct, of its fields
in both versions, and of those that the newer one adds. -/
structure Message where
  pre : List Value
  shared : List Value
  added : List Value
  post : List Value

namespace Message

/-- The message with what some version embeds. -/
def embedding (m : Message) (fields : List Value) : Value := surround m.pre m.post (.struct fields)

def old (m : Message) : Value := m.embedding m.shared

def new (m : Message) : Value := m.embedding (m.shared ++ m.added)

end Message

variable (prim : Primitives) (elemBits : Nat) (e : Enclosing) (s : Versions) (m : Message)

/-- The old reader obtains its fields and what follows from a new message. -/
def OldReadsNew : Prop :=
  ∃ bits, writeStruct prim (e.around s.new) m.new [] = .ok bits ∧
    ∀ (old : Value) (mem : Nat → Bool) (bitSize : Nat),
      let r := StreamReader.start elemBits mem bitSize
      bits <+: r.left → ∃ next, parseStruct prim (e.around s.old) old r = ⟨m.old, .ok next⟩

/-- The new reader obtains the old fields and what follows from an old message. -/
def NewReadsOld : Prop :=
  ∃ bits, writeStruct prim (e.around s.old) m.old [] = .ok bits ∧
    ∀ (old : Value) (mem : Nat → Bool) (bitSize : Nat),
      let r := StreamReader.start elemBits mem bitSize
      bits <+: r.left → ∃ added next,
        parseStruct prim (e.around s.new) old r = ⟨m.embedding (m.shared ++ added), .ok next⟩

/-- Both messages have values of their types, and lengths that fit the length field. -/
structure FitsVersions : Prop where
  pre : FitsFields prim e.pre m.pre
  shared : FitsFields prim s.fields m.shared
  added : FitsFields prim s.added m.added
  post : FitsFields prim e.post m.post
  length : (layoutFields prim s.fields m.shared ++ layoutFields prim s.added m.added).length <
    2 ^ e.lengthBits

/-! ## Where the parts of a message are looked for -/

/-- The fields meet no unknown union type. -/
def Quiet (fields : List FieldDescr) (r : StreamReader) : Prop :=
  ∀ descr, (parseFields prim fields [] r).2 ≠ .error (.runtimeError descr)

/-- Where the new version finds the old one's fields: the added ones are parsed from
what is left of the fragment. -/
def FoundShared (fragment : StreamReader) : Prop :=
  FoundFields prim s.fields m.shared fragment ∧
    Quiet prim s.added (fragment.advance (takenFields prim s.fields m.shared))

/-- Both readers find what they share in the layout of the other's message. -/
def FoundAcross : Prop :=
  (∀ (mem : Nat → Bool) (bitSize : Nat),
    let r := StreamReader.start elemBits mem bitSize
    layoutStruct prim (e.around s.new) m.new <+: r.left →
      FoundAround prim e m.pre m.post (FoundFields prim s.fields m.shared) r) ∧
  ∀ (mem : Nat → Bool) (bitSize : Nat),
    let r := StreamReader.start elemBits mem bitSize
    layoutStruct prim (e.around s.old) m.old <+: r.left →
      FoundAround prim e m.pre m.post (FoundShared prim s m) r

variable {prim elemBits e s m}

theorem obtains_old (fits : FitsFields prim s.fields m.shared) :
    Obtains (parseStruct prim s.old) (fun v => v = .struct m.shared)
      (FoundFields prim s.fields m.shared) := by
  obtain ⟨makes, finds⟩ := parseFields_exact s.fields m.shared fits
  constructor
  · intro r here old
    rw [Versions.old, parseStruct, makes here]
    exact ⟨rfl, fun descr other => by cases other⟩
  · intro r made _
    rw [Versions.old, parseStruct] at made
    exact finds (Value.struct.inj made)

theorem obtains_new (fits : FitsFields prim s.fields m.shared) :
    Obtains (parseStruct prim s.new) (fun v => ∃ added, v = .struct (m.shared ++ added))
      (FoundShared prim s m) := by
  constructor
  · rintro r ⟨here, quiet⟩ old
    rw [Versions.new, parseStruct, parseFields_front s.added fits here]
    refine ⟨⟨_, rfl⟩, fun descr => ?_⟩
    dsimp only
    rw [steadyFields prim s.added _ []]
    exact quiet descr
  · rintro r ⟨added, made⟩ quiet
    rw [Versions.new, parseStruct] at made quiet
    have here := found_front fits (Value.struct.inj made)
    refine ⟨here, fun descr => ?_⟩
    have same := quiet descr
    dsimp only at same
    rw [show Value.fields .blank = [] from rfl, parseFields_front s.added fits here,
      List.drop_nil] at same
    exact same


/-! ## The messages -/

theorem fits_surround {inner : StructDescr} {vs : List Value} (fits : FitsVersions prim e s m)
    (content : FitsStruct prim inner (.struct vs))
    (length : (layoutStruct prim inner (.struct vs)).length < 2 ^ e.lengthBits) :
    FitsStruct prim (e.around inner) (m.embedding vs) := by
  have embedded : FitsField prim (e.embedding inner) (.struct vs) := by
    refine ⟨content, fun bits same => ?_⟩
    cases same
    exact length
  exact ⟨_, rfl, fits.pre.append ⟨_, _, rfl, embedded, fits.post⟩⟩

theorem layout_old : layoutStruct prim s.old (.struct m.shared) =
    layoutFields prim s.fields m.shared := by
  rw [Versions.old, layoutStruct, Value.fields_struct]

theorem layout_new (fits : FitsVersions prim e s m) :
    layoutStruct prim s.new (.struct (m.shared ++ m.added)) =
      layoutFields prim s.fields m.shared ++ layoutFields prim s.added m.added := by
  rw [Versions.new, layoutStruct, Value.fields_struct, layoutFields_append fits.shared]

namespace FitsVersions

variable (fits : FitsVersions prim e s m)

include fits

theorem old : FitsStruct prim (e.around s.old) m.old := by
  have content : FitsStruct prim s.old (.struct m.shared) := ⟨_, rfl, fits.shared⟩
  apply fits_surround fits content
  rw [layout_old]
  have bound := fits.length
  rw [List.length_append] at bound
  exact Nat.lt_of_le_of_lt (Nat.le_add_right _ _) bound

theorem new : FitsStruct prim (e.around s.new) m.new := by
  have content : FitsStruct prim s.new (.struct (m.shared ++ m.added)) :=
    ⟨_, rfl, fits.shared.append fits.added⟩
  apply fits_surround fits content
  rw [layout_new fits]
  exact fits.length

theorem oldReadsNew_iff : OldReadsNew prim elemBits e s m ↔
    ∀ (mem : Nat → Bool) (bitSize : Nat),
      let r := StreamReader.start elemBits mem bitSize
      layoutStruct prim (e.around s.new) m.new <+: r.left →
        FoundAround prim e m.pre m.post (FoundFields prim s.fields m.shared) r := by
  have obtains := obtains_old fits.shared
  have written := writeStruct_layout fits.new
  constructor
  · rintro ⟨bits, wrote, parses⟩ mem bitSize r here
    rw [written] at wrote
    cases wrote
    obtain ⟨next, parsed⟩ := parses .blank mem bitSize here
    exact parseAround_found obtains nofun fits.pre fits.post parsed rfl
  · intro found
    refine ⟨_, written, fun old mem bitSize here => ?_⟩
    obtain ⟨v, rfl, parsed⟩ :=
      parseAround_obtains obtains fits.pre fits.post (found mem bitSize here) old
    exact ⟨_, parsed⟩

theorem newReadsOld_iff : NewReadsOld prim elemBits e s m ↔
    ∀ (mem : Nat → Bool) (bitSize : Nat),
      let r := StreamReader.start elemBits mem bitSize
      layoutStruct prim (e.around s.old) m.old <+: r.left →
        FoundAround prim e m.pre m.post (FoundShared prim s m) r := by
  have obtains := obtains_new fits.shared
  have written := writeStruct_layout fits.old
  constructor
  · rintro ⟨bits, wrote, parses⟩ mem bitSize r here
    rw [written] at wrote
    cases wrote
    obtain ⟨added, next, parsed⟩ := parses .blank mem bitSize here
    exact parseAround_found obtains nofun fits.pre fits.post parsed ⟨added, rfl⟩
  · intro found
    refine ⟨_, written, fun old mem bitSize here => ?_⟩
    obtain ⟨v, ⟨added, rfl⟩, parsed⟩ :=
      parseAround_obtains obtains fits.pre fits.post (found mem bitSize here) old
    exact ⟨added, _, parsed⟩

end FitsVersions

/-! ## Plain messages -/

variable (prim elemBits e s m) in
/-- All that both readers meet is plain, the length field ends with an element, and
what follows the struct stands where its content does. -/
structure PlainAcross : Prop where
  default : e.default = none
  pre : PlainFields prim e.pre m.pre
  shared : PlainFields prim s.fields m.shared
  post : PlainFields prim e.post m.post
  aligned : ((layoutFields prim e.pre m.pre).length + e.lengthBits) % elemBits = 0
  followsOld : layoutFields prim e.post m.post <+:
    layoutFields prim s.fields m.shared ++ layoutFields prim e.post m.post
  followsNew : layoutFields prim e.post m.post <+:
    layoutFields prim s.fields m.shared ++ layoutFields prim s.added m.added ++
      layoutFields prim e.post m.post

theorem layout_around {inner : StructDescr} {vs : List Value} (fits : FitsVersions prim e s m)
    (none : e.default = none) :
    layoutStruct prim (e.around inner) (m.embedding vs) =
      layoutFields prim e.pre m.pre ++
        (prim.write (.uint e.lengthBits)
            (.number (layoutStruct prim inner (.struct vs)).length) ++
          (layoutStruct prim inner (.struct vs) ++ layoutFields prim e.post m.post)) := by
  rw [Enclosing.around, Message.embedding, surround, layoutStruct, Value.fields_struct,
    layoutFields_append fits.pre, layoutFields, Enclosing.embedding, none, layoutField, layoutKind,
    sized, List.headD_cons, List.tail_cons, List.append_assoc]

namespace PlainAcross

variable (plain : PlainAcross prim elemBits e s m)

include plain

theorem foundAround {inner : StructDescr} {vs : List Value} (fits : FitsVersions prim e s m)
    {content : List Bool} (layout : layoutStruct prim inner (.struct vs) = content)
    (bound : content.length < 2 ^ e.lengthBits)
    (follows : layoutFields prim e.post m.post <+: content ++ layoutFields prim e.post m.post)
    {found : StreamReader → Prop}
    (inside : ∀ fragment : StreamReader, fragment.left = content → found fragment)
    {mem : Nat → Bool} {bitSize : Nat}
    (here : layoutStruct prim (e.around inner) (m.embedding vs) <+:
      (StreamReader.start elemBits mem bitSize).left) :
    FoundAround prim e m.pre m.post found (.start elemBits mem bitSize) := by
  obtain ⟨takenPre, foundPre⟩ := plainFields_found e.pre m.pre plain.pre
  obtain ⟨-, foundPost⟩ := plainFields_found e.post m.post plain.post
  rw [layout_around fits plain.default, layout] at here
  obtain ⟨front, back⟩ := prefix_advance here
  obtain ⟨number, back⟩ := prefix_advance back
  obtain ⟨stands, -⟩ := prefix_advance back
  rw [prim.length_uint] at back stands
  have flag : e.flagBits = 0 := by simp [Enclosing.flagBits, plain.default]
  have position : (((StreamReader.start elemBits mem bitSize).advance
      (layoutFields prim e.pre m.pre).length).advance e.lengthBits).pos =
        (layoutFields prim e.pre m.pre).length + e.lengthBits := by
    simp [StreamReader.start]
  have aligned := plain.aligned
  have later : 0 < content.length → 0 < (layoutFields prim e.pre m.pre).length + e.lengthBits := by
    intro some
    apply Nat.add_pos_right
    apply Nat.pos_of_ne_zero
    intro none
    rw [none, pow_zero] at bound
    omega
  rw [← position] at aligned later
  have fragment := StreamReader.left_readFragment aligned later stands
  unfold FoundAround
  rw [takenPre, flag]
  refine ⟨foundPre _ front, fun other => ?_, ⟨_, bound, number, inside _ fragment⟩,
    foundPost _ (follows.trans back)⟩
  rw [plain.default] at other
  cases other

theorem foundAcross (fits : FitsVersions prim e s m) : FoundAcross prim elemBits e s m := by
  obtain ⟨taken, found⟩ := plainFields_found s.fields m.shared plain.shared
  constructor
  · intro mem bitSize r here
    apply plain.foundAround fits (layout_new fits) fits.length plain.followsNew _ here
    intro fragment content
    apply found
    rw [content]
    exact List.prefix_append _ _
  · have bound := fits.length
    rw [List.length_append] at bound
    intro mem bitSize r here
    apply plain.foundAround fits layout_old (by omega) plain.followsOld _ here
    intro fragment content
    refine ⟨found _ ⟨[], by rw [content, List.append_nil]⟩, fun descr failed => ?_⟩
    have empty : (fragment.advance (takenFields prim s.fields m.shared)).left = [] := by
      rw [taken, StreamReader.left_advance, content, List.drop_length]
    have dry := dryFields s.added m.added fits.added [] _ empty
    rw [failed] at dry
    rcases dry with other | ⟨_, other, -⟩
    · cases other
    · cases other

end PlainAcross

/-- **When messages survive a change of version**: exactly where both readers find the
shared fields in the fragment and the following ones right behind the length field.
In plain messages that is where the following fields look like the content. -/
theorem evolves_iff (fits : FitsVersions prim e s m) :
    (OldReadsNew prim elemBits e s m ∧ NewReadsOld prim elemBits e s m ↔
        FoundAcross prim elemBits e s m) ∧
      (PlainAcross prim elemBits e s m →
        OldReadsNew prim elemBits e s m ∧ NewReadsOld prim elemBits e s m) := by
  have both : OldReadsNew prim elemBits e s m ∧ NewReadsOld prim elemBits e s m ↔
      FoundAcross prim elemBits e s m :=
    and_congr fits.oldReadsNew_iff fits.newReadsOld_iff
  exact ⟨both, fun plain => both.mpr (plain.foundAcross fits)⟩

/-- A byte behind a length-delimited struct. -/
def envelope : Enclosing where
  name := "envelope"
  pre := []
  field := "body"
  default := none
  lengthBits := 8
  post := [.mk "tag" none (.leaf (.uint 8))]

/-- A byte, and another one in the newer version. -/
def bodies : Versions where
  oldName := "body"
  newName := "body"
  fields := [.mk "first" none (.leaf (.uint 8))]
  added := [.mk "second" none (.leaf (.uint 8))]

/-- Bodies 1 and 1, 2 before a tag. -/
def tagged (tag : Nat) : Message where
  pre := []
  shared := [.atom (.number 1)]
  added := [.atom (.number 2)]
  post := [.atom (.number tag)]

theorem fits_tagged {tag : Nat} (bound : tag < 2 ^ 8) :
    FitsVersions (bitPrimitives atomsDiffer) envelope bodies (tagged tag) where
  pre := rfl
  shared := ⟨_, _, rfl, ⟨_, rfl, show 1 < 2 ^ 8 by decide⟩, rfl⟩
  added := ⟨_, _, rfl, ⟨_, rfl, show 2 < 2 ^ 8 by decide⟩, rfl⟩
  post := ⟨_, _, rfl, ⟨_, rfl, bound⟩, rfl⟩
  length := by
    show 16 < 2 ^ 8
    decide

/-- A tag that is the first byte of the body is read in either version. -/
theorem evolves_repeated_tag :
    OldReadsNew (bitPrimitives atomsDiffer) 8 envelope bodies (tagged 1) ∧
      NewReadsOld (bitPrimitives atomsDiffer) 8 envelope bodies (tagged 1) :=
  (evolves_iff (fits_tagged (by decide))).2
    { default := rfl
      pre := trivial
      shared := ⟨trivial, trivial⟩
      post := ⟨trivial, trivial⟩
      aligned := rfl
      followsOld := by decide
      followsNew := by decide }

/-- With the tag 3 behind it, the old reader takes the body's first byte for the tag. -/
theorem evolves_refuted :
    FitsVersions (bitPrimitives atomsDiffer) envelope bodies (tagged 3) ∧
      ¬ OldReadsNew (bitPrimitives atomsDiffer) 8 envelope bodies (tagged 3) := by
  have fits := fits_tagged (show 3 < 2 ^ 8 by decide)
  refine ⟨fits, fun reads => ?_⟩
  have found := fits.oldReadsNew_iff.mp reads
  obtain ⟨mem, left⟩ := StreamReader.exists_left 8
    (layoutStruct (bitPrimitives atomsDiffer) (envelope.around bodies.new) (tagged 3).new)
  obtain ⟨-, -, -, tag, -⟩ := found mem _ ⟨[], by rw [left, List.append_nil]⟩
  have body : Theory.bitsOf 8 3 <+:
      (layoutStruct (bitPrimitives atomsDiffer) (envelope.around bodies.new) (tagged 3).new).drop
        8 := by
    rw [← left, ← StreamReader.left_advance]
    exact tag
  revert body
  decide

end UdpStuff.Proto
