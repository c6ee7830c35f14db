/-
# Config.Dump — the listing of a parsed text is its option tree in preorder

`dump` of `config.h` walks the records of a vector with a stack of the ends of
those it is inside.  A read outside the vector is undefined, and so is a string
with no NUL after it.

On the records of a forest, one record costs one turn of the loop to enter it and
one to leave (`dump_opt`), and lists what it holds at the depth of the stack.
`config_fidelity`: an accepted text's vector is the records of its option tree, and
its dump is over and lists that tree in preorder.
-/
import UdpStuff.Config.ParseTree

namespace UdpStuff.Config

set_option autoImplicit false

open UdpStuff.Theory

/-! ## The walk -/

/-- `read_len`, without its step. -/
def readLen (v : List UInt8) (pos : Nat) : Option Nat :=
  if pos + 4 ≤ v.length then some (ofLeBytes ((v.drop pos).take 4)) else none

/-- The string at a position. -/
def cstr (v : List UInt8) (pos : Nat) : Option (List UInt8) :=
  if 0 ∈ v.drop pos then some ((v.drop pos).takeWhile (fun c => c ≠ 0)) else none

/-- The loop of `dump`; `posStack` has its top first and `out` is what was printed,
each line with the width of its indent.  `none` is an undefined read, or a loop that
is not over. -/
def dumpLoop (v : List UInt8) : Nat → Nat → List Nat → List Line → Option (List Line)
  | 0, _, _, _ => none
  | _ + 1, _, [], out => some out
  | fuel + 1, pos, back :: below, out =>
    if pos < back then
      match readLen v pos with
      | none => none
      | some len =>
        let posStack := min (pos + len) v.length :: back :: below
        match cstr v (pos + 4) with
        | none => none
        | some name =>
          let pos2 := pos + 4 + name.length + 1
          if pos2 < min (pos + len) v.length then
            match cstr v pos2 with
            | none => none
            | some value =>
              dumpLoop v fuel (pos2 + value.length + 1) posStack
                (out ++ [⟨posStack.length, name, some value⟩])
          else dumpLoop v fuel pos2 posStack (out ++ [⟨posStack.length, name, none⟩])
    else dumpLoop v fuel pos below out

def dump (fuel : Nat) (v : List UInt8) : Option (List Line) := dumpLoop v fuel 0 [v.length] []

/-! ## Reads -/

/-- A length is stored in 32 bits. -/
theorem readLen_record_mod {v pre body post : List UInt8}
    (here : v = pre ++ (record body ++ post)) :
    readLen v pre.length = some ((4 + body.length) % 2 ^ 32) := by
  have four : (leBytes 4 (4 + body.length)).length = 4 := length_leBytes 4 _
  have length : v.length = pre.length + (4 + body.length + post.length) := by
    rw [here, record, List.length_append, List.length_append, List.length_append, four]
  rw [readLen, if_pos (by omega), here, List.drop_left, record, List.append_assoc,
    List.take_left' four, ofLeBytes_leBytes_mod, show 256 ^ 4 = 2 ^ 32 from rfl]

theorem readLen_record {v pre body post : List UInt8} (here : v = pre ++ (record body ++ post))
    (small : 4 + body.length < 2 ^ 32) : readLen v pre.length = some (4 + body.length) := by
  rw [readLen_record_mod here, Nat.mod_eq_of_lt small]

theorem cstr_here {v pre w post : List UInt8} {pos : Nat} (here : v = pre ++ (w ++ 0 :: post))
    (at_ : pos = pre.length) (clean : (0 : UInt8) ∉ w) : cstr v pos = some w := by
  have whole : (w ++ 0 :: post).takeWhile (fun c => c ≠ 0) = w := by
    rw [List.takeWhile_append_of_pos, List.takeWhile_cons]
    · simp
    · intro c member
      simp only [ne_eq, decide_not, Bool.not_eq_eq_eq_not, Bool.not_true, decide_eq_false_iff_not]
      intro zero
      exact clean (zero ▸ member)
  rw [cstr, at_, here, List.drop_left, if_pos (by simp), whole]

theorem length_record (body : List UInt8) : (record body).length = 4 + body.length := by
  rw [record, List.length_append, length_leBytes]

/-! ## Turns of the loop -/

section Turns

variable {v pre post name value rest : List UInt8} {back fuel : Nat} {below : List Nat}
  {out : List Line}

theorem dumpLoop_leave {pos : Nat} (ended : back ≤ pos) :
    dumpLoop v (fuel + 1) pos (back :: below) out = dumpLoop v fuel pos below out := by
  rw [dumpLoop, if_neg (Nat.not_lt.mpr ended)]

/-- A record with a value is entered and listed with it. -/
theorem dumpLoop_valued
    (here : v = pre ++ (record (name ++ [0] ++ value ++ [0] ++ rest) ++ post))
    (small : v.length < 2 ^ 32) (cleanName : (0 : UInt8) ∉ name) (cleanValue : (0 : UInt8) ∉ value)
    (inside : pre.length < back) :
    dumpLoop v (fuel + 1) pre.length (back :: below) out =
      dumpLoop v fuel (pre.length + 4 + name.length + 1 + value.length + 1)
        ((pre.length + (record (name ++ [0] ++ value ++ [0] ++ rest)).length) :: back :: below)
        (out ++ [⟨below.length + 2, name, some value⟩]) := by
  have length : v.length = pre.length +
      (4 + (name.length + (1 + (value.length + (1 + rest.length)))) + post.length) := by
    rw [here]
    simp [length_record]
    omega
  have len := readLen_record here (by
    simp only [List.length_append, List.length_singleton]
    omega)
  have ends : min (pre.length + (4 + (name ++ [0] ++ value ++ [0] ++ rest).length)) v.length =
      pre.length + (4 + (name ++ [0] ++ value ++ [0] ++ rest).length) := by
    apply Nat.min_eq_left
    rw [length]
    simp
    omega
  have nameHere : cstr v (pre.length + 4) = some name := by
    refine @cstr_here v (pre ++ leBytes 4 (4 + (name ++ [0] ++ value ++ [0] ++ rest).length)) name
      (value ++ [0] ++ rest ++ post) _ ?_ (by simp) cleanName
    rw [here, record]
    simp
  have valueHere : cstr v (pre.length + 4 + name.length + 1) = some value := by
    refine @cstr_here v (pre ++ leBytes 4 (4 + (name ++ [0] ++ value ++ [0] ++ rest).length) ++ name
      ++ [0]) value (rest ++ post) _ ?_ (by simp; omega) cleanValue
    rw [here, record]
    simp
  rw [dumpLoop, if_pos inside, len]
  dsimp only
  rw [nameHere]
  dsimp only
  rw [ends, if_pos (by simp; omega), valueHere, length_record]
  rfl

/-- A record of a name alone is entered and listed without a value. -/
theorem dumpLoop_bare (here : v = pre ++ (record (name ++ [0]) ++ post))
    (small : v.length < 2 ^ 32) (cleanName : (0 : UInt8) ∉ name) (inside : pre.length < back) :
    dumpLoop v (fuel + 1) pre.length (back :: below) out =
      dumpLoop v fuel (pre.length + (record (name ++ [0])).length)
        ((pre.length + (record (name ++ [0])).length) :: back :: below)
        (out ++ [⟨below.length + 2, name, none⟩]) := by
  have length : v.length = pre.length + (4 + (name.length + 1) + post.length) := by
    rw [here]
    simp [length_record]
  have len := readLen_record here (by
    rw [List.length_append, List.length_singleton]
    omega)
  have ends : min (pre.length + (4 + (name ++ [0]).length)) v.length =
      pre.length + (4 + (name ++ [0]).length) := by
    apply Nat.min_eq_left
    rw [length]
    simp
  have nameHere : cstr v (pre.length + 4) = some name := by
    refine @cstr_here v (pre ++ leBytes 4 (4 + (name ++ [0]).length)) name post _ ?_ (by simp)
      cleanName
    rw [here, record]
    simp
  rw [dumpLoop, if_pos inside, len]
  dsimp only
  rw [nameHere]
  dsimp only
  rw [ends, if_neg (by simp; omega), length_record]
  have position : pre.length + 4 + name.length + 1 = pre.length + (4 + (name ++ [0]).length) := by
    simp
    omega
  rw [position]
  rfl

end Turns

/-! ## Records of a forest -/

mutual

/-- How many options there are, sections and those inside them included. -/
def Opt.count : Opt → Nat
  | .single _ _ => 1
  | .group _ children => 1 + countAll children

def countAll : List Opt → Nat
  | [] => 0
  | o :: rest => o.count + countAll rest

end

mutual

/-- The walk over one record lists the option and all inside it, and stands behind
the record. -/
theorem dump_opt (o : Opt) {v pre post : List UInt8} {back fuel : Nat} {below : List Nat}
    {out : List Line} (here : v = pre ++ (o.encode ++ post)) (small : v.length < 2 ^ 32)
    (inside : pre.length + o.encode.length ≤ back) :
    dumpLoop v (fuel + 2 * o.count) pre.length (back :: below) out =
      dumpLoop v fuel (pre.length + o.encode.length) (back :: below)
        (out ++ o.preorder (below.length + 2)) := by
  cases o with
  | single name value =>
      cases value with
      | none =>
          rw [Opt.encode] at here inside ⊢
          rw [Opt.count, dumpLoop_bare here small name.zero_notMem
            (by rw [length_record] at inside; omega), dumpLoop_leave (Nat.le_refl _), Opt.preorder]
          rfl
      | some value =>
          have body : name.bytes ++ [0] ++ value.bytes ++ [0] =
              name.bytes ++ [0] ++ value.bytes ++ [0] ++ [] := (List.append_nil _).symm
          rw [Opt.encode, body] at here inside ⊢
          rw [Opt.count, dumpLoop_valued here small name.zero_notMem value.zero_notMem
            (by rw [length_record] at inside; omega), dumpLoop_leave, Opt.preorder]
          · congr 1
            rw [length_record]
            simp
            omega
          · rw [length_record]
            simp
            omega
  | group name children =>
      have body : name.bytes ++ [0, 0] ++ encode children =
          name.bytes ++ [0] ++ [] ++ [0] ++ encode children := by simp
      rw [Opt.encode, body] at here inside ⊢
      have turns : fuel + 2 * (Opt.group name children).count =
          fuel + 1 + 2 * countAll children + 1 := by
        rw [Opt.count]
        omega
      have length := length_record (name.bytes ++ [0] ++ [] ++ [0] ++ encode children)
      simp only [List.length_append, List.length_singleton, List.length_nil] at length
      have here' : v = (pre ++ leBytes 4 (4 + (name.bytes ++ [0] ++ [] ++ [0] ++
          encode children).length) ++ (name.bytes ++ [0] ++ [] ++ [0])) ++
          (encode children ++ post) := by
        rw [here, record]
        simp
      have position : pre.length + 4 + name.bytes.length + 1 + ([] : List UInt8).length + 1 =
          (pre ++ leBytes 4 (4 + (name.bytes ++ [0] ++ [] ++ [0] ++ encode children).length) ++
            (name.bytes ++ [0] ++ [] ++ [0])).length := by
        simp
        omega
      rw [turns, dumpLoop_valued here small name.zero_notMem List.not_mem_nil (by omega), position,
        dump_all children here' small (by rw [← position]; simp only [List.length_nil]; omega),
        ← position, dumpLoop_leave (by simp only [List.length_nil]; omega), Opt.preorder,
        List.append_assoc]
      congr 1
      simp only [List.length_nil]
      omega

theorem dump_all (os : List Opt) {v pre post : List UInt8} {back fuel : Nat} {below : List Nat}
    {out : List Line} (here : v = pre ++ (encode os ++ post)) (small : v.length < 2 ^ 32)
    (inside : pre.length + (encode os).length ≤ back) :
    dumpLoop v (fuel + 2 * countAll os) pre.length (back :: below) out =
      dumpLoop v fuel (pre.length + (encode os).length) (back :: below)
        (out ++ preorder (below.length + 2) os) := by
  cases os with
  | nil => rw [preorder, encode, List.append_nil]; rfl
  | cons o rest =>
      rw [encode] at here inside ⊢
      rw [List.length_append] at inside ⊢
      have here' : v = (pre ++ o.encode) ++ (encode rest ++ post) := by
        rw [here]
        simp
      have turns : fuel + 2 * countAll (o :: rest) = fuel + 2 * countAll rest + 2 * o.count := by
        rw [countAll]
        omega
      rw [turns, dump_opt o (by rw [here, List.append_assoc]) small (by omega),
        ← List.length_append, dump_all rest here' small (by rw [List.length_append]; omega),
        List.length_append, preorder, List.append_assoc, Nat.add_assoc]

end

/-! ## Fidelity -/

/-- **The vector of an accepted text is the records of its option tree, and its dump
is over and lists the tree in preorder**, for a vector below `2 ^ 32` bytes. -/
theorem config_fidelity {text : List TextChar} {v : List UInt8}
    (accepted : parseConfig text = some (.ok v)) (small : v.length < 2 ^ 32) :
    ∃ forest, treeOf text = some forest ∧ v = encode forest ∧
      ∃ bound, ∀ fuel, bound ≤ fuel → dump fuel v = some (preorder 2 forest) := by
  obtain ⟨forest, tree, records⟩ := parseConfig_accepted accepted
  refine ⟨forest, tree, records, 2 * countAll forest + 2, ?_⟩
  intro fuel enough
  obtain ⟨left, rfl⟩ : ∃ left, fuel = left + 2 + 2 * countAll forest :=
    ⟨fuel - 2 - 2 * countAll forest, by omega⟩
  have here : v = [] ++ (encode forest ++ []) := by
    rw [records]
    simp
  have walked : dumpLoop v (left + 2 + 2 * countAll forest) 0 [v.length] [] =
      dumpLoop v (left + 2) (0 + (encode forest).length) [v.length] (preorder 2 forest) :=
    dump_all forest here small (by rw [records]; simp)
  rw [dump, walked, ← records, dumpLoop_leave (Nat.le_add_left _ _)]
  rfl

/-- A section with one option and a quoted value in it. -/
theorem config_fidelity_section :
    ∃ forest, treeOf [⟨115, by decide⟩, ⟨123, by decide⟩, ⟨107, by decide⟩, ⟨34, by decide⟩,
        ⟨59, by decide⟩, ⟨34, by decide⟩, ⟨125, by decide⟩] = some forest ∧
      [15, 0, 0, 0, 115, 0, 0, 8, 0, 0, 0, 107, 0, 59, 0] = encode forest ∧
      ∃ bound, ∀ fuel, bound ≤ fuel →
        dump fuel [15, 0, 0, 0, 115, 0, 0, 8, 0, 0, 0, 107, 0, 59, 0] =
          some (preorder 2 forest) :=
  config_fidelity (by decide) (by decide)

end UdpStuff.Config
