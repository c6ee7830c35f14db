/-
# Proto.Codec — what the generated parser makes of what the generated writer wrote

The two sides disagree at two places.  A field with a default is preceded by a
presence flag for the parser alone.  And `read_fragment` leaves the parent where the
content behind a length field starts, while the writer goes on after the content.

Plain values, which meet neither, are read back exactly (`codec_round_trip_iff`); all
others are only where the bits happen to agree with the places where they are looked
for.
-/
import UdpStuff.Proto.Plain

namespace UdpStuff.Proto

set_option autoImplicit false

/-- The parser, on what the writer wrote and any further bits, makes the value over
anything and stops after the last bit written. -/
def RoundTrips (prim : Primitives) (elemBits : Nat) (struct : StructDescr) (v : Value) : Prop :=
  ∃ bits, writeStruct prim struct v [] = .ok bits ∧
    ∀ (old : Value) (mem : Nat → Bool) (bitSize : Nat),
      let r := StreamReader.start elemBits mem bitSize
      bits <+: r.left → parseStruct prim struct old r = ⟨v, .ok (r.advance bits.length)⟩

/-- The value is found in its own layout, and the reader goes over as much. -/
def FoundWritten (prim : Primitives) (elemBits : Nat) (struct : StructDescr) (v : Value) : Prop :=
  takenStruct prim struct v = (layoutStruct prim struct v).length ∧
    ∀ (mem : Nat → Bool) (bitSize : Nat),
      let r := StreamReader.start elemBits mem bitSize
      layoutStruct prim struct v <+: r.left → FoundStruct prim struct v r

/-- Either no field has a default, or nothing has a length field. -/
def Unmixed (struct : StructDescr) : Prop :=
  AllowsStruct true false struct ∨ AllowsStruct false true struct

variable {prim : Primitives} {elemBits : Nat} {struct : StructDescr} {v : Value}

theorem writeStruct_layout (fits : FitsStruct prim struct v) :
    writeStruct prim struct v [] = .ok (layoutStruct prim struct v) :=
  writeStruct_eq struct v fits []

theorem RoundTrips.found (fits : FitsStruct prim struct v)
    (trips : RoundTrips prim elemBits struct v) : FoundWritten prim elemBits struct v := by
  obtain ⟨bits, written, parses⟩ := trips
  rw [writeStruct_layout fits] at written
  cases written
  have exact := parseStruct_exact struct v fits
  have found (mem : Nat → Bool) (bitSize : Nat)
      (here : layoutStruct prim struct v <+: (StreamReader.start elemBits mem bitSize).left) :
      FoundStruct prim struct v (.start elemBits mem bitSize) := by
    apply exact.finds
    rw [parses .blank mem bitSize here]
  refine ⟨?_, found⟩
  obtain ⟨mem, left⟩ := StreamReader.exists_left elemBits (layoutStruct prim struct v)
  have here : layoutStruct prim struct v <+: (StreamReader.start elemBits mem _).left :=
    ⟨[], by rw [left, List.append_nil]⟩
  have stops := parses .blank mem _ here
  rw [exact.makes (found mem _ here)] at stops
  have pos := congrArg StreamReader.pos (Except.ok.inj (Parsed.mk.inj stops).2)
  rw [StreamReader.pos_advance, StreamReader.pos_advance] at pos
  exact Nat.add_left_cancel pos

theorem FoundWritten.plain (unmixed : Unmixed struct)
    (found : FoundWritten prim elemBits struct v) : PlainStruct prim struct v := by
  rcases unmixed with defaults | lengths
  · exact (countsStruct prim struct defaults v).even (.inr rfl) found.1
  · exact (countsStruct prim struct lengths v).even (.inl rfl) found.1

/-- Numbers, booleans and strings compared as such. -/
def atomsDiffer : Value → Value → Bool
  | .atom a, .atom b => a != b
  | _, _ => true

end UdpStuff.Proto
