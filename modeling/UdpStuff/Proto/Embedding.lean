/-
# Proto.Embedding — a struct behind a length field, between other fields

What an enclosing struct makes of a struct that it embeds behind a length field, for
whatever the embedded struct's parse obtains (`Obtains`).  The enclosing parse
obtains the same, and the values of the other fields, exactly where all of these are
found (`FoundAround`): the content in the fragment, and the fields that follow right
behind the length field.
-/
import UdpStuff.Proto.Outcome

namespace UdpStuff.Proto

set_option autoImplicit false

/-- A struct's other fields, and how it embeds a struct behind a length field. -/
structure Enclosing where
  name : String
  pre : List FieldDescr
  field : String
  default : Option Value
  lengthBits : Nat
  post : List FieldDescr

namespace Enclosing

def embedding (e : Enclosing) (inner : StructDescr) : FieldDescr :=
  .mk e.field e.default (.struct inner (some e.lengthBits))

def around (e : Enclosing) (inner : StructDescr) : StructDescr :=
  .mk e.name (e.pre ++ e.embedding inner :: e.post)

/-- The presence flag of the embedded struct. -/
def flagBits (e : Enclosing) : Nat := e.default.toList.length

end Enclosing

/-- The value of an enclosing struct. -/
def surround (pre post : List Value) (inner : Value) : Value := .struct (pre ++ inner :: post)

/-- The fields before the embedded struct, its presence flag if it has a default, the
struct in the fragment of whatever length stands there, and the fields after it right
behind the length field. -/
def FoundAround (prim : Primitives) (e : Enclosing) (pre post : List Value)
    (found : StreamReader → Prop) (r : StreamReader) : Prop :=
  FoundFields prim e.pre pre r ∧
    let flag := r.advance (takenFields prim e.pre pre)
    let length := flag.advance e.flagBits
    (e.default.isSome → [true] <+: flag.left) ∧
      FoundSized prim (some e.lengthBits) found length ∧
      FoundFields prim e.post post (length.advance e.lengthBits)

/-- Where it is found, the parse makes a good value over anything without meeting an
unknown union type, and over blank memory only there. -/
structure Obtains (parse : Value → StreamReader → Parsed) (good : Value → Prop)
    (found : StreamReader → Prop) : Prop where
  makes : ∀ {r : StreamReader}, found r → ∀ old, good (parse old r).value ∧
    ∀ descr, (parse old r).rest ≠ .error (.runtimeError descr)
  finds : ∀ {r : StreamReader}, good (parse .blank r).value →
    (∀ descr, (parse .blank r).rest ≠ .error (.runtimeError descr)) → found r

variable {prim : Primitives} {e : Enclosing} {pre post : List Value} {inner : StructDescr}
  {good : Value → Prop} {found : StreamReader → Prop}

/-- Behind the length field, the end of the fragment's bits is not noticed. -/
theorem parseSized_obtains (obtains : Obtains (parseStruct prim inner) good found) {bits : Nat}
    {r : StreamReader} (here : FoundSized prim (some bits) found r) (old : Value) :
    ∃ v, good v ∧ parseSized prim (some bits) (parseStruct prim inner) old r =
      ⟨v, .ok (r.advance bits)⟩ := by
  obtain ⟨n, bound, front, here⟩ := here
  obtain ⟨isGood, quiet⟩ := obtains.makes here old
  refine ⟨_, isGood, ?_⟩
  rw [parseSized, prim.read_front bound front]
  dsimp only
  split
  case h_1 v descr failed =>
    rw [failed] at quiet
    exact absurd rfl (quiet descr)
  case h_2 v outcome _ parsed => rw [parsed]

theorem parseSized_found (obtains : Obtains (parseStruct prim inner) good found) {bits : Nat}
    {r next : StreamReader} {v : Value}
    (parsed : parseSized prim (some bits) (parseStruct prim inner) .blank r = ⟨v, .ok next⟩)
    (isGood : good v) : FoundSized prim (some bits) found r ∧ next = r.advance bits := by
  rw [parseSized] at parsed
  split at parsed
  case h_1 n k number =>
    obtain ⟨_, same, bound, rfl, front⟩ := prim.read_uint number
    cases same
    dsimp only at parsed
    split at parsed
    case h_1 => cases parsed
    case h_2 w outcome quiet fragment =>
      cases parsed
      refine ⟨⟨n, bound, front, obtains.finds ?_ ?_⟩, rfl⟩
      · rw [fragment]
        exact isGood
      · rw [fragment]
        rintro descr rfl
        exact quiet descr rfl
  case h_2 => cases parsed

theorem parseEmbedding_obtains (obtains : Obtains (parseStruct prim inner) good found)
    {r : StreamReader} (flag : e.default.isSome → [true] <+: r.left)
    (here : FoundSized prim (some e.lengthBits) found (r.advance e.flagBits)) (old : Value) :
    ∃ v, good v ∧ parseField prim (e.embedding inner) old r =
      ⟨v, .ok ((r.advance e.flagBits).advance e.lengthBits)⟩ := by
  obtain ⟨name, pre, field, default, lengthBits, post⟩ := e
  obtain ⟨v, isGood, parsed⟩ := parseSized_obtains obtains here old
  refine ⟨v, isGood, ?_⟩
  cases default with
  | none =>
      rw [Enclosing.embedding, parseField, parseKind]
      exact parsed
  | some value =>
      obtain ⟨rest, front⟩ := flag rfl
      have set : r.readFieldFlag = some (true, r.advance 1) := by
        rw [StreamReader.readFieldFlag, ← front]
        rfl
      rw [Enclosing.embedding, parseField, set]
      dsimp only
      rw [parseKind]
      exact parsed

theorem parseEmbedding_found (obtains : Obtains (parseStruct prim inner) good found)
    (notBlank : ¬ good .blank) {r next : StreamReader} {v : Value}
    (parsed : parseField prim (e.embedding inner) .blank r = ⟨v, .ok next⟩) (isGood : good v) :
    (e.default.isSome → [true] <+: r.left) ∧
      FoundSized prim (some e.lengthBits) found (r.advance e.flagBits) ∧
      next = (r.advance e.flagBits).advance e.lengthBits := by
  obtain ⟨name, pre, field, default, lengthBits, post⟩ := e
  rw [Enclosing.embedding] at parsed
  cases default with
  | none =>
      rw [parseField, parseKind] at parsed
      have here := parseSized_found obtains parsed isGood
      exact ⟨fun some => (by cases some), here⟩
  | some value =>
      rw [parseField] at parsed
      split at parsed
      case h_1 => cases parsed
      case h_2 =>
        cases parsed
        exact absurd isGood notBlank
      case h_3 after flag =>
        rw [StreamReader.readFieldFlag] at flag
        split at flag
        case h_1 => cases flag
        case h_2 b rest front =>
          cases flag
          rw [parseKind] at parsed
          exact ⟨fun _ => ⟨rest, front.symm⟩, parseSized_found obtains parsed isGood⟩

/-! ## The enclosing struct -/

theorem parseAround_obtains (obtains : Obtains (parseStruct prim inner) good found)
    (fitsPre : FitsFields prim e.pre pre) (fitsPost : FitsFields prim e.post post)
    {r : StreamReader} (here : FoundAround prim e pre post found r) (old : Value) :
    ∃ v, good v ∧ parseStruct prim (e.around inner) old r =
      ⟨surround pre post v, .ok (r.advance (takenFields prim e.pre pre + e.flagBits + e.lengthBits +
        takenFields prim e.post post))⟩ := by
  obtain ⟨front, flag, embedded, back⟩ := here
  obtain ⟨v, isGood, parsed⟩ := parseEmbedding_obtains obtains flag embedded
    ((old.fields.drop e.pre.length).headD .blank)
  refine ⟨v, isGood, ?_⟩
  rw [Enclosing.around, parseStruct, parseFields_front _ fitsPre front, parseFields, parsed]
  dsimp only
  rw [(parseFields_exact e.post post fitsPost).1 back]
  simp only [StreamReader.advance_advance, surround]

theorem parseAround_found (obtains : Obtains (parseStruct prim inner) good found)
    (notBlank : ¬ good .blank) (fitsPre : FitsFields prim e.pre pre)
    (fitsPost : FitsFields prim e.post post) {r next : StreamReader} {v : Value}
    (parsed : parseStruct prim (e.around inner) .blank r = ⟨surround pre post v, .ok next⟩)
    (isGood : good v) : FoundAround prim e pre post found r := by
  rw [Enclosing.around, parseStruct] at parsed
  obtain ⟨values, ended⟩ := Parsed.mk.inj parsed
  have values : (parseFields prim (e.pre ++ e.embedding inner :: e.post) [] r).1 =
      pre ++ v :: post := Value.struct.inj values
  have front := found_front fitsPre values
  refine ⟨front, ?_⟩
  rw [show Value.fields .blank = [] from rfl, parseFields_front _ fitsPre front, List.drop_nil] at ended
  rw [parseFields_front _ fitsPre front, List.drop_nil, List.append_cancel_left_eq] at values
  dsimp only at ended
  rw [parseFields] at ended values
  split at ended
  case h_1 => cases ended
  case h_2 w after first =>
    rw [List.headD_nil] at first
    rw [List.headD_nil, first] at values
    obtain ⟨rfl, others⟩ := List.cons.inj values
    obtain ⟨flag, embedded, rfl⟩ := parseEmbedding_found obtains notBlank first isGood
    exact ⟨flag, embedded, (parseFields_exact e.post post fitsPost).2 others⟩

end UdpStuff.Proto
