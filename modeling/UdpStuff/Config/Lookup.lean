/-
# Config.Lookup — what a name is looked up to

`find` and `_get` of `config.h`.  The loop steps from record to record of the top
level by the stored lengths and compares names; the value is the string behind the
name, unless the record ends there.

A record whose length fits its 32 bits is stepped over as a whole, with all options
nested in it (`find_skip`).  `lookup_first`: where all top-level records do, a name
is looked up to the first top-level option with it.
-/
import UdpStuff.Config.Dump

namespace UdpStuff.Config

set_option autoImplicit false

open UdpStuff.Theory

/-! ## The loop -/

/-- `find` between two positions; the string behind the name and the end of the record,
or the end twice.  `none` is an undefined read, or a loop that is not over. -/
def find (v name : List UInt8) : Nat → Nat → Nat → Option (Nat × Nat)
  | 0, _, _ => none
  | fuel + 1, pos, posE =>
    if pos < posE then
      match readLen v pos with
      | none => none
      | some len =>
        match cstr v (pos + 4) with
        | none => none
        | some str =>
          if str = name then some (pos + 4 + name.length + 1, pos + len)
          else find v name fuel (pos + len) posE
    else some (posE, posE)

/-- What `_get` makes of what was found: a string, or nothing where the record ends or
the string is empty. -/
def valueAt (v : List UInt8) (found : Nat × Nat) : Option (Option (List UInt8)) :=
  if found.1 = found.2 then some none
  else
    match v[found.1]? with
    | none => none
    | some c => if c = 0 then some none else (cstr v found.1).map some

/-- `_get<const char *>` without a default: a string, or `out_of_range`. -/
def getIn (fuel : Nat) (v name : List UInt8) (fb fe : Nat) :
    Option (Except String (List UInt8)) :=
  match (find v name fuel fb fe).bind (valueAt v) with
  | none => none
  | some none => some (.error "Value not found")
  | some (some value) => some (.ok value)

/-- `_get<const char *>` with a default. -/
def getInOr (fuel : Nat) (v name default : List UInt8) (fb fe : Nat) : Option (List UInt8) :=
  match (find v name fuel fb fe).bind (valueAt v) with
  | none => none
  | some none => some default
  | some (some value) => some value

def get (fuel : Nat) (v name : List UInt8) : Option (Except String (List UInt8)) :=
  getIn fuel v name 0 v.length

def getOr (fuel : Nat) (v name default : List UInt8) : Option (List UInt8) :=
  getInOr fuel v name default 0 v.length

/-! ## Options -/

namespace Opt

def name : Opt → Word
  | .single name _ => name
  | .group name _ => name

/-- The value an option has; that of a section is empty. -/
def value : Opt → Option Word
  | .single _ value => value
  | .group _ _ => some []

/-- What a record holds behind its name. -/
def behindName : Opt → List UInt8
  | .single _ none => []
  | .single _ (some value) => value.bytes ++ [0]
  | .group _ children => 0 :: Config.encode children

theorem encode_eq (o : Opt) : o.encode = record (o.name.bytes ++ 0 :: o.behindName) := by
  match o with
  | .single name none => rfl
  | .single name (some value) => simp [encode, Opt.name, behindName]
  | .group name children => simp [encode, Opt.name, behindName]

end Opt

/-- A value, if it has a character. -/
def nonEmpty : Option Word → Option Word
  | some (c :: rest) => some (c :: rest)
  | _ => none

/-- The value of the first option with a name, if it has one that is not empty. -/
def firstValue (forest : List Opt) (name : Word) : Option Word :=
  match forest.find? (fun o => o.name = name) with
  | none => none
  | some o => nonEmpty o.value

/-- Every lookup in the vector is over and gives the first option's value; without one
it throws, or gives the default. -/
def LooksUp (forest : List Opt) (v : List UInt8) : Prop :=
  ∀ name : Word, ∃ bound, ∀ fuel, bound ≤ fuel →
    match firstValue forest name with
    | some value => get fuel v name.bytes = some (.ok value.bytes) ∧
        ∀ default, getOr fuel v name.bytes default = some value.bytes
    | none => get fuel v name.bytes = some (.error "Value not found") ∧
        ∀ default, getOr fuel v name.bytes default = some default

/-- Every record fits a stored length. -/
def ShortRecords (forest : List Opt) : Prop := ∀ o ∈ forest, o.encode.length < 2 ^ 32

theorem bytes_inj {x y : Word} : x.bytes = y.bytes ↔ x = y :=
  List.map_inj_right fun _ _ => Subtype.ext

/-! ## Turns of the loop -/

section Turns

variable {v pre post rest : List UInt8} {name : Word} {fuel posE : Nat}

theorem name_here (here : v = pre ++ (record (name.bytes ++ 0 :: rest) ++ post)) :
    cstr v (pre.length + 4) = some name.bytes := by
  have four := length_leBytes 4 (4 + (name.bytes ++ 0 :: rest).length)
  refine @cstr_here v (pre ++ leBytes 4 (4 + (name.bytes ++ 0 :: rest).length)) name.bytes
    (rest ++ post) _ ?_ ?_ name.zero_notMem
  · rw [here, record]
    simp
  · rw [List.length_append, four]

/-- A record of another name is stepped over. -/
theorem find_skip {other : Word} (here : v = pre ++ (record (other.bytes ++ 0 :: rest) ++ post))
    (small : (record (other.bytes ++ 0 :: rest)).length < 2 ^ 32) (differs : other ≠ name)
    (inside : pre.length < posE) :
    find v name.bytes (fuel + 1) pre.length posE =
      find v name.bytes fuel (pre.length + (record (other.bytes ++ 0 :: rest)).length) posE := by
  rw [length_record] at small ⊢
  rw [find, if_pos inside, readLen_record here small, name_here here]
  dsimp only
  rw [if_neg fun same => differs (bytes_inj.mp same)]

/-- A record of the name is found, and its end as far as the stored length tells. -/
theorem find_here (here : v = pre ++ (record (name.bytes ++ 0 :: rest) ++ post))
    (inside : pre.length < posE) :
    find v name.bytes (fuel + 1) pre.length posE =
      some (pre.length + 4 + name.bytes.length + 1,
        pre.length + (record (name.bytes ++ 0 :: rest)).length % 2 ^ 32) := by
  rw [length_record, find, if_pos inside, readLen_record_mod here, name_here here]
  dsimp only
  rw [if_pos rfl]

end Turns

/-- The walk over records of other names. -/
theorem find_past {v pre post : List UInt8} {name : Word} {posE : Nat} (fuel : Nat)
    (forest : List Opt) (here : v = pre ++ (encode forest ++ post)) (short : ShortRecords forest)
    (absent : ∀ o ∈ forest, o.name ≠ name)
    (inside : pre.length + (encode forest).length ≤ posE) :
    find v name.bytes (forest.length + fuel) pre.length posE =
      find v name.bytes fuel (pre.length + (encode forest).length) posE := by
  induction forest generalizing pre with
  | nil => rw [encode, List.length_nil, List.length_nil, Nat.zero_add, Nat.add_zero]
  | cons o rest ih =>
      have here' : v = pre ++ (o.encode ++ (encode rest ++ post)) := by
        rw [here, encode, List.append_assoc]
      have behind : v = (pre ++ o.encode) ++ (encode rest ++ post) := by
        rw [here', List.append_assoc]
      have small : o.encode.length < 2 ^ 32 := short o List.mem_cons_self
      have positive : 0 < o.encode.length := by
        rw [o.encode_eq, length_record]
        omega
      rw [encode, List.length_append] at inside ⊢
      have later := ih behind (fun o' member => short o' (List.mem_cons_of_mem _ member))
        (fun o' member => absent o' (List.mem_cons_of_mem _ member))
        (by rw [List.length_append]; omega)
      rw [List.length_append] at later
      rw [o.encode_eq] at here' small
      rw [List.length_cons, Nat.add_right_comm,
        find_skip here' small (absent o List.mem_cons_self) (by omega), ← o.encode_eq, later,
        Nat.add_assoc]

/-- The walk over a forest that has the name ends at the first record of it. -/
theorem find_first {v pre post : List UInt8} {name : Word} {fuel posE : Nat} {forest : List Opt}
    {o : Opt} (first : forest.find? (fun o => o.name = name) = some o)
    (here : v = pre ++ (encode forest ++ post)) (short : ShortRecords forest)
    (inside : pre.length + (encode forest).length ≤ posE) (enough : forest.length < fuel) :
    ∃ front back, v = front ++ (o.encode ++ back) ∧ o.encode.length < 2 ^ 32 ∧
      find v name.bytes fuel pre.length posE =
        some (front.length + 4 + name.bytes.length + 1, front.length + o.encode.length) := by
  obtain ⟨same, before, after, rfl, absent⟩ := List.find?_eq_some_iff_append.mp first
  have same : o.name = name := by simpa using same
  have absent (o' : Opt) (member : o' ∈ before) : o'.name ≠ name := by
    simpa using absent o' member
  have small : o.encode.length < 2 ^ 32 := short o (by simp)
  have positive : 0 < o.encode.length := by
    rw [o.encode_eq, length_record]
    omega
  rw [encode_append, encode, List.length_append, List.length_append] at inside
  rw [List.length_append, List.length_cons] at enough
  obtain ⟨left, rfl⟩ : ∃ left, fuel = before.length + (left + 1) :=
    ⟨fuel - before.length - 1, by omega⟩
  have walk : v = pre ++ (encode before ++ (o.encode ++ (encode after ++ post))) := by
    rw [here, encode_append, encode]
    simp only [List.append_assoc]
  have there : v = (pre ++ encode before) ++ (o.encode ++ (encode after ++ post)) := by
    rw [walk, List.append_assoc]
  refine ⟨pre ++ encode before, _, there, small, ?_⟩
  rw [find_past (left + 1) before walk
    (fun o' member => short o' (List.mem_append_left _ member)) absent (by omega),
    ← List.length_append]
  rw [o.encode_eq, same] at there
  rw [find_here there (by rw [List.length_append]; omega), ← same, ← o.encode_eq,
    Nat.mod_eq_of_lt small]

/-- The walk over the records of a forest: nothing, or the first record of the name. -/
theorem find_forest {v pre post : List UInt8} {name : Word} {fuel posE : Nat} (forest : List Opt)
    (here : v = pre ++ (encode forest ++ post)) (short : ShortRecords forest)
    (ends : posE = pre.length + (encode forest).length) (enough : forest.length < fuel) :
    match forest.find? (fun o => o.name = name) with
    | none => find v name.bytes fuel pre.length posE = some (posE, posE)
    | some o => ∃ front back, v = front ++ (o.encode ++ back) ∧ o.encode.length < 2 ^ 32 ∧
        find v name.bytes fuel pre.length posE =
          some (front.length + 4 + name.bytes.length + 1, front.length + o.encode.length) := by
  cases first : forest.find? (fun o => o.name = name) with
  | none =>
      obtain ⟨left, rfl⟩ : ∃ left, fuel = forest.length + (left + 1) :=
        ⟨fuel - forest.length - 1, by omega⟩
      have absent (o : Opt) (member : o ∈ forest) : o.name ≠ name := by
        simpa using List.find?_eq_none.mp first o member
      show find _ _ _ _ _ = _
      rw [find_past (left + 1) forest here short absent ends.ge, ← ends, find,
        if_neg (Nat.lt_irrefl posE)]
  | some o => exact find_first first here short ends.ge enough

/-! ## Values -/

/-- Behind the name of a record stands its value. -/
theorem valueAt_record {v front back : List UInt8} (o : Opt)
    (here : v = front ++ (o.encode ++ back)) :
    valueAt v (front.length + 4 + o.name.bytes.length + 1, front.length + o.encode.length) =
      some ((nonEmpty o.value).map Word.bytes) := by
  have ends : o.encode.length = 4 + (o.name.bytes.length + (1 + o.behindName.length)) := by
    rw [o.encode_eq, length_record, List.length_append, List.length_cons, Nat.add_comm 1]
  -- what stands at the position behind the name
  have front' : v = (front ++ leBytes 4 (4 + (o.name.bytes ++ 0 :: o.behindName).length) ++
      (o.name.bytes ++ [0])) ++ (o.behindName ++ back) := by
    rw [here, o.encode_eq, record]
    simp
  have position : front.length + 4 + o.name.bytes.length + 1 =
      (front ++ leBytes 4 (4 + (o.name.bytes ++ 0 :: o.behindName).length) ++
        (o.name.bytes ++ [0])).length := by
    simp [Nat.add_assoc]
  generalize front ++ leBytes 4 (4 + (o.name.bytes ++ 0 :: o.behindName).length) ++
    (o.name.bytes ++ [0]) = before at front' position
  have next : v[front.length + 4 + o.name.bytes.length + 1]? = (o.behindName ++ back)[0]? := by
    rw [position, front', List.getElem?_append_right (Nat.le_refl _), Nat.sub_self]
  unfold valueAt
  dsimp only
  match o with
  | .single name none =>
      rw [if_pos (by rw [ends, Opt.behindName, List.length_nil]; omega)]
      rfl
  | .single name (some []) =>
      have zero : v[front.length + 4 + name.bytes.length + 1]? = some 0 := next
      rw [if_neg (by rw [ends]; simp [Opt.behindName]; omega)]
      simp only [Opt.name, zero]
      rfl
  | .single name (some (c :: w)) =>
      have first : v[front.length + 4 + name.bytes.length + 1]? = some c.val := next
      have string : v = before ++ (Word.bytes (c :: w) ++ 0 :: back) := by
        rw [front', Opt.behindName, List.append_assoc]
        rfl
      have str := cstr_here string position (Word.zero_notMem (c :: w))
      rw [if_neg (by rw [ends]; simp [Opt.behindName]; omega)]
      simp only [Opt.name] at str ⊢
      simp only [first, if_neg c.property, str]
      rfl
  | .group name children =>
      have zero : v[front.length + 4 + name.bytes.length + 1]? = some 0 := next
      rw [if_neg (by rw [ends]; simp [Opt.behindName]; omega)]
      simp only [Opt.name, zero]
      rfl

/-! ## Lookups -/

/-- A record that was found gives its value. -/
theorem get_found {forest : List Opt} {v front back : List UInt8} {name : Word} {fuel : Nat}
    {o : Opt}
    (first : forest.find? (fun o => o.name = name) = some o)
    (here : v = front ++ (o.encode ++ back))
    (found : find v name.bytes fuel 0 v.length =
      some (front.length + 4 + name.bytes.length + 1, front.length + o.encode.length)) :
    match firstValue forest name with
    | some value => get fuel v name.bytes = some (.ok value.bytes) ∧
        ∀ default, getOr fuel v name.bytes default = some value.bytes
    | none => get fuel v name.bytes = some (.error "Value not found") ∧
        ∀ default, getOr fuel v name.bytes default = some default := by
  have same : o.name = name := by simpa using List.find?_some first
  have value := valueAt_record o here
  rw [same] at value
  unfold firstValue get getOr getIn getInOr
  rw [first, found, Option.bind_some, value]
  dsimp only
  cases nonEmpty o.value with
  | none => exact ⟨rfl, fun _ => rfl⟩
  | some w => exact ⟨rfl, fun _ => rfl⟩

theorem looksUp {forest : List Opt} (short : ShortRecords forest) :
    LooksUp forest (encode forest) := by
  intro name
  refine ⟨forest.length + 1, fun fuel enough => ?_⟩
  have here : encode forest = [] ++ (encode forest ++ []) := by simp
  have found := @find_forest _ _ _ name _ _ forest here short (Nat.zero_add _).symm enough
  cases first : forest.find? (fun o => o.name = name) with
  | none =>
      rw [first] at found
      simp only at found
      rw [List.length_nil] at found
      unfold firstValue get getOr getIn getInOr
      rw [first, found]
      simp [valueAt]
  | some o =>
      rw [first] at found
      obtain ⟨front, back, here', -, found⟩ := found
      exact get_found first here' found

/-- **The vector of an accepted text looks every name up to the first top-level option
with it**, if each top-level option takes less than `2 ^ 32` bytes there. -/
theorem lookup_first {text : List TextChar} {v : List UInt8}
    (accepted : parseConfig text = some (.ok v)) :
    ∃ forest, treeOf text = some forest ∧ (ShortRecords forest → LooksUp forest v) := by
  obtain ⟨forest, tree, rfl⟩ := parseConfig_accepted accepted
  exact ⟨forest, tree, looksUp⟩

/-- A section first, then an option of the name that is nested in it. -/
theorem lookup_first_nested :
    ∃ forest, treeOf [⟨115, by decide⟩, ⟨123, by decide⟩, ⟨107, by decide⟩, ⟨32, by decide⟩,
        ⟨49, by decide⟩, ⟨125, by decide⟩, ⟨107, by decide⟩, ⟨32, by decide⟩, ⟨50, by decide⟩] =
          some forest ∧
      (ShortRecords forest → LooksUp forest
        [15, 0, 0, 0, 115, 0, 0, 8, 0, 0, 0, 107, 0, 49, 0, 8, 0, 0, 0, 107, 0, 50, 0]) :=
  lookup_first (by decide)

/-! ## A record that does not fit -/

theorem tokens_inside {c : TextChar} (other : kindOf c = .other) (n : Nat) (w : Word) :
    tokens (.inside w) (List.replicate n c) = [.word (w ++ List.replicate n c)] := by
  induction n generalizing w with
  | zero => simp [tokens, Mode.last]
  | succ n ih =>
      have step : scan (.inside w) c = ([], .inside (w ++ [c])) := by
        rw [scan, other]
      rw [List.replicate_succ, tokens, step, ih]
      simp

/-- The characters `a` and `x`. -/
def letterA : TextChar := ⟨97, by decide⟩

def letterX : TextChar := ⟨120, by decide⟩

/-- The text `a x…x`. -/
def longText (n : Nat) : List TextChar := letterA :: blank :: List.replicate n letterX

theorem treeOf_longText (n : Nat) :
    treeOf (longText (n + 1)) =
      some [.single [letterA] (some (List.replicate (n + 1) letterX))] := by
  have first : tokens .outside (List.replicate (n + 1) letterX) =
      [.word (List.replicate (n + 1) letterX)] := by
    rw [List.replicate_succ, tokens, show scan .outside letterX = ([], .inside [letterX]) from rfl,
      tokens_inside rfl]
    rfl
  have all : tokens .outside (longText (n + 1)) =
      [.word [letterA], .word (List.replicate (n + 1) letterX)] := by
    rw [longText, tokens, tokens, show scan .outside letterA = ([], .inside [letterA]) from rfl,
      show scan (.inside [letterA]) blank = ([.word [letterA]], .outside) from rfl, first]
    rfl
  rw [treeOf, all]
  rfl

/-- A record as long as its stored length modulo `2 ^ 32` without its value is taken for an
option that has none. -/
theorem get_longText {n : Nat} (wraps : (n + 8) % 2 ^ 32 = 6) (fuel : Nat) :
    get (fuel + 1) (encode [.single [letterA] (some (List.replicate (n + 1) letterX))])
      [letterA.val] = some (.error "Value not found") := by
  let o : Opt := .single [letterA] (some (List.replicate (n + 1) letterX))
  have length : o.encode.length = n + 8 := by
    simp [o, Opt.encode_eq, length_record, Opt.name, Opt.behindName, Word.bytes]
    omega
  have here : encode [o] = [] ++ (record (Word.bytes [letterA] ++ 0 :: o.behindName) ++ []) := by
    rw [encode, encode, o.encode_eq]
    simp [o, Opt.name]
  have inside : ([] : List UInt8).length < (encode [o]).length := by
    rw [encode, encode, List.append_nil, length]
    exact Nat.succ_pos _
  have whole : (record (Word.bytes [letterA] ++ 0 :: o.behindName)).length = n + 8 := by
    rw [← length, o.encode_eq]
    rfl
  have found := @find_here _ _ _ _ _ fuel _ here inside
  rw [whole, wraps] at found
  have same : find (encode [o]) [letterA.val] (fuel + 1) 0 (encode [o]).length = some (6, 6) :=
    found
  rw [get, getIn, same]
  rfl

/-- **Refuted without the bound**: a value of `2 ^ 32 - 1` bytes is not found. -/
theorem lookup_first_refuted :
    ¬ ∀ (text : List TextChar) (v : List UInt8), parseConfig text = some (.ok v) →
      ∃ forest, treeOf text = some forest ∧ LooksUp forest v := by
  intro always
  obtain ⟨n, wraps⟩ : ∃ n, (n + 8) % 2 ^ 32 = 6 := ⟨2 ^ 32 - 2, by decide⟩
  let forest : List Opt := [.single [letterA] (some (List.replicate (n + 1) letterX))]
  have tree : treeOf (longText (n + 1)) = some forest := treeOf_longText n
  obtain ⟨r, result, lays⟩ := parseConfig_lays (longText (n + 1))
  rw [tree] at lays
  rw [show r = .ok (encode forest) from lays] at result
  obtain ⟨forest', tree', looks⟩ := always _ _ result
  obtain rfl : forest = forest' := Option.some_inj.mp (tree.symm.trans tree')
  obtain ⟨bound, ends⟩ := looks [letterA]
  have value : firstValue forest [letterA] = some (List.replicate (n + 1) letterX) := by
    simp [firstValue, forest, Opt.name, Opt.value, List.replicate_succ, nonEmpty]
  have found := ends (bound + 1) (Nat.le_succ bound)
  rw [value] at found
  have missed := found.1.symm.trans (get_longText wraps bound)
  cases missed

end UdpStuff.Config
