/-
# Proto.TagWidths — how wide enums and union types are

`EnumField` and `UnionField` compute their widths with `ceil(log2(…))`, which are
taken as exact.  Of a union it is the number of cases, and the tags fit
(`union_tags`).  Of an enum it is the largest number itself: a width of `k` for the
number `2 ^ k`, which needs one bit more, and no width at all for zero
(`enum_width_iff`).
-/
import Mathlib.Data.Nat.Log
import UdpStuff.Proto.Enums
import UdpStuff.Proto.Descr

namespace UdpStuff.Proto

set_option autoImplicit false

/-- What a field's constructor raises. -/
inductive WidthError where
  | enum (e : EnumError)
  | emptyMax
  | mathDomain
deriving DecidableEq

/-- `ceil(log2(n))` -/
def ceilLog2 (n : Int) : Except WidthError Nat :=
  if n ≤ 0 then .error .mathDomain else .ok (Nat.clog 2 n.toNat)

/-- The bits of `EnumField(enum=enum, bits=bits)`. -/
def EnumField.bits (enum : EnumClass) : Option Nat → Except WidthError Nat
  | some bits => .ok bits
  | none =>
    match getEnumIntMapping 0 enum.members with
    | .error e => .error (.enum e)
    | .ok mapping =>
      match (mapping.map fun item => item.2.num).max? with
      | none => .error .emptyMax
      | some enumMax => ceilLog2 enumMax

/-- The bits of `UnionField(union=union, type_bits=typeBits)`, without a `type_field`. -/
def UnionField.typeBits : UnionDescr → Option Nat → Except WidthError Nat
  | _, some typeBits => .ok typeBits
  | .mk _ structs allowEmpty, none => ceilLog2 (structs.length + if allowEmpty then 1 else 0 : Nat)

/-! ## Widths -/

theorem ceilLog2_pos {n : Nat} (some : 0 < n) : ceilLog2 n = .ok (Nat.clog 2 n) := by
  rw [ceilLog2, if_neg (by omega), Int.toNat_natCast]

/-- A number needs one bit more than this if it is a power of two. -/
theorem lt_two_pow_clog_iff {n : Nat} : n < 2 ^ Nat.clog 2 n ↔ ∀ k : Nat, n ≠ 2 ^ k := by
  constructor
  · rintro below k rfl
    rw [Nat.clog_pow 2 k Nat.one_lt_two] at below
    exact lt_irrefl _ below
  · intro other
    exact Nat.lt_of_le_of_ne (Nat.le_pow_clog Nat.one_lt_two n) (other _)

/-! ## Enums -/

/-- What an enum's field is for: its members are numbered upwards, and it has a width that
holds every number. -/
def EnumFits (enum : EnumClass) (mapping : List (String × PyInt)) : Prop :=
  (mapping.Pairwise fun a b => a.2.num < b.2.num) ∧
    ∃ bits, EnumField.bits enum none = .ok bits ∧ ∀ item ∈ mapping, item.2.num < 2 ^ bits

/-- The field of an enum whose largest number is known. -/
theorem enumField_bits {enum : EnumClass} {mapping : List (String × PyInt)}
    (mapped : getEnumIntMapping 0 enum.members = .ok mapping) {item : String × PyInt}
    (member : item ∈ mapping) (largest : ∀ other ∈ mapping, other.2.num ≤ item.2.num) :
    EnumField.bits enum none = ceilLog2 item.2.num := by
  have top : (mapping.map fun item => item.2.num).max? = some item.2.num := by
    rw [List.max?_eq_some_iff]
    refine ⟨List.mem_map_of_mem member, fun n among => ?_⟩
    obtain ⟨other, there, rfl⟩ := List.mem_map.mp among
    exact largest other there
  rw [EnumField.bits, mapped]
  dsimp only
  rw [top]

/-- Some member has the largest number. -/
theorem exists_largest {mapping : List (String × PyInt)} (some : mapping ≠ []) :
    ∃ item ∈ mapping, ∀ other ∈ mapping, other.2.num ≤ item.2.num := by
  induction mapping with
  | nil => exact absurd rfl some
  | cons first rest ih =>
      rcases List.eq_nil_or_concat rest with rfl | ⟨front, last, rfl⟩
      · refine ⟨first, List.mem_cons_self, fun other member => ?_⟩
        rw [List.mem_singleton.mp member]
      · obtain ⟨item, member, largest⟩ := ih (by simp)
        rcases le_total first.2.num item.2.num with below | above
        · refine ⟨item, List.mem_cons_of_mem _ member, fun other there => ?_⟩
          rcases List.mem_cons.mp there with rfl | there
          · exact below
          · exact largest other there
        · refine ⟨first, List.mem_cons_self, fun other there => ?_⟩
          rcases List.mem_cons.mp there with rfl | there
          · exact le_refl _
          · exact le_trans (largest other there) above

/-- **An enum fits its field** if and only if its largest number is neither zero nor a power
of two. -/
theorem enum_width_iff {enum : EnumClass} {mapping : List (String × PyInt)}
    (mapped : getEnumIntMapping 0 enum.members = .ok mapping) (nonempty : enum.members ≠ []) :
    EnumFits enum mapping ↔ ∃ item ∈ mapping, (∀ other ∈ mapping, other.2.num ≤ item.2.num) ∧
      item.2.num ≠ 0 ∧ ∀ k : Nat, item.2.num ≠ 2 ^ k := by
  obtain ⟨least, increasing⟩ := getEnumIntMapping_increasing mapped
  have some : mapping ≠ [] := by
    obtain ⟨m, rest, members⟩ := List.exists_cons_of_ne_nil nonempty
    rw [members] at mapped
    obtain ⟨v, later, -, -, -, rfl⟩ := getEnumIntMapping_cons mapped
    exact List.cons_ne_nil _ _
  have powers (n : Nat) : (∀ k : Nat, (n : Int) ≠ 2 ^ k) ↔ ∀ k : Nat, n ≠ 2 ^ k := by
    refine forall_congr' fun k => not_congr ?_
    rw [← Int.natCast_inj, Int.natCast_pow]
    rfl
  constructor
  · rintro ⟨-, bits, width, below⟩
    obtain ⟨item, member, largest⟩ := exists_largest some
    rw [enumField_bits mapped member largest] at width
    obtain ⟨n, number⟩ := Int.eq_ofNat_of_zero_le (least item member)
    have small := below item member
    refine ⟨item, member, largest, ?_⟩
    rw [number] at width small ⊢
    rcases Nat.eq_zero_or_pos n with rfl | positive
    · cases width
    · rw [ceilLog2_pos positive] at width
      cases width
      refine ⟨by omega, (powers n).mpr (lt_two_pow_clog_iff.mp ?_)⟩
      exact_mod_cast small
  · rintro ⟨item, member, largest, nonzero, other⟩
    obtain ⟨n, number⟩ := Int.eq_ofNat_of_zero_le (least item member)
    have width := enumField_bits mapped member largest
    rw [number] at width nonzero other
    rw [ceilLog2_pos (by omega)] at width
    refine ⟨increasing, _, width, fun item' member' => ?_⟩
    have top : (n : Int) < 2 ^ Nat.clog 2 n := by
      exact_mod_cast lt_two_pow_clog_iff.mpr ((powers n).mp other)
    have below := largest item' member'
    rw [number] at below
    omega

/-- Four members without values: two bits. -/
theorem enum_width_four : EnumFits ⟨"suit", none,
    [⟨"A", .other, none⟩, ⟨"B", .other, none⟩, ⟨"C", .other, none⟩, ⟨"D", .other, none⟩]⟩
    [("A", .int 0), ("B", .int 1), ("C", .int 2), ("D", .int 3)] := by
  refine (enum_width_iff rfl (by simp)).mpr ⟨("D", .int 3), by simp, by decide, by decide, ?_⟩
  intro k same
  have three : (3 : Int) = 2 ^ k := same
  have value : (3 : Nat) = 2 ^ k := by exact_mod_cast three
  rcases k with _ | _ | k
  · exact absurd value (by decide)
  · exact absurd value (by decide)
  · rw [pow_add] at value
    omega

/-- **Refuted**: two members have the width zero, and the second is one. -/
theorem enum_width_refuted : ¬ ∀ (enum : EnumClass) (mapping : List (String × PyInt)),
    getEnumIntMapping 0 enum.members = .ok mapping → enum.members ≠ [] → EnumFits enum mapping := by
  intro always
  obtain ⟨-, bits, width, below⟩ := always ⟨"side", none, [⟨"L", .other, none⟩, ⟨"R", .other, none⟩]⟩
    [("L", .int 0), ("R", .int 1)] rfl (by simp)
  rw [@enumField_bits _ _ rfl ("R", .int 1) (by simp) (by decide)] at width
  have zero : ceilLog2 (PyInt.int 1).num = .ok 0 := by decide
  rw [zero] at width
  cases width
  exact absurd (below ("R", .int 1) (by simp)) (by decide)

/-! ## Unions -/

def StructDescr.name : StructDescr → String
  | .mk name _ => name

/-- The loop over the variants of `render_cc.render_union_enum`. -/
def variantLines (n : Int) : List StructDescr → List EnumLine
  | [] => []
  | struct :: rest => .member struct.name (some (.int n)) none :: variantLines (n + 1) rest

/-- `render_cc.render_union_enum` -/
def RenderCc.renderUnionEnum : UnionDescr → List EnumLine
  | .mk name structs allowEmpty =>
    [.text ("enum class " ++ name ++ "_enum_class \x7b"), .identStart] ++
      (if allowEmpty then [.member (name ++ "_empty") (some (.int 0)) none] else []) ++
      variantLines (if allowEmpty then 1 else 0) structs ++ [.identEnd, .text "\x7d;", .sep]

/-- `render_pyx.render_union_enum` -/
def RenderPyx.renderUnionEnum : UnionDescr → List EnumLine
  | .mk name structs allowEmpty =>
    [.text ("ctypedef enum " ++ name ++ "_enum_class:"), .identStart] ++
      (if allowEmpty then [.member (name ++ "_empty") none none] else []) ++
      structs.map (fun struct => .member struct.name none none) ++ [.identEnd, .sep]

/-- The cases of a union, the empty one first. -/
def unionCases : UnionDescr → List String
  | .mk name structs allowEmpty =>
    (if allowEmpty then [name ++ "_empty"] else []) ++ structs.map StructDescr.name

/-- Cases numbered from `k` on. -/
def numberedFrom (k : Int) (names : List String) : List (String × Option Int) :=
  names.mapIdx fun i name => (name, some (k + i))

theorem numberedFrom_cons (k : Int) (name : String) (names : List String) :
    numberedFrom k (name :: names) = (name, some k) :: numberedFrom (k + 1) names := by
  rw [numberedFrom, List.mapIdx_cons, Nat.cast_zero, Int.add_zero]
  refine congrArg _ (congrArg (fun f => List.mapIdx f names) ?_)
  funext i other
  rw [Nat.cast_succ, Int.add_assoc, Int.add_comm 1]

theorem memberNumbers_variantLines (n : Int) (next : Option Int) (structs : List StructDescr)
    {last : List EnumLine} (plain : ∀ line ∈ last, line.Plain) :
    memberNumbers cppLiteral next (variantLines n structs ++ last) =
      numberedFrom n (structs.map StructDescr.name) := by
  induction structs generalizing n next with
  | nil =>
      have none := memberNumbers_plain cppLiteral next plain []
      rwa [List.append_nil] at none
  | cons struct rest ih =>
      rw [List.map_cons, numberedFrom_cons, variantLines, List.cons_append, memberNumbers]
      exact congrArg _ (ih _ _)

theorem memberNumbers_implicit (k : Int) (names : List String) {last : List EnumLine}
    (plain : ∀ line ∈ last, line.Plain) :
    memberNumbers cppLiteral (some k) (names.map (fun name => .member name none none) ++ last) =
      numberedFrom k names := by
  induction names generalizing k with
  | nil =>
      have none := memberNumbers_plain cppLiteral (some k) plain []
      rwa [List.append_nil] at none
  | cons name rest ih =>
      rw [numberedFrom_cons, List.map_cons, List.cons_append, memberNumbers]
      exact congrArg _ (ih _)

/-- The C++ header numbers the cases as they stand. -/
theorem renderCc_union_numbers (union : UnionDescr) :
    memberNumbers cppLiteral (some 0) (RenderCc.renderUnionEnum union) =
      numberedFrom 0 (unionCases union) := by
  obtain ⟨name, structs, allowEmpty⟩ := union
  have plain : ∀ line ∈ [EnumLine.identEnd, .text "\x7d;", .sep], line.Plain := by
    simp [EnumLine.Plain]
  rw [RenderCc.renderUnionEnum, unionCases]
  cases allowEmpty with
  | false => exact memberNumbers_variantLines 0 _ structs plain
  | true =>
      have rest := memberNumbers_variantLines 1 (some 1) structs plain
      refine Eq.trans ?_ (numberedFrom_cons 0 (name ++ "_empty") _).symm
      exact congrArg _ rest

/-- So does Cython. -/
theorem renderPyx_union_numbers (union : UnionDescr) :
    memberNumbers cppLiteral (some 0) (RenderPyx.renderUnionEnum union) =
      numberedFrom 0 (unionCases union) := by
  obtain ⟨name, structs, allowEmpty⟩ := union
  have plain : ∀ line ∈ [EnumLine.identEnd, .sep], line.Plain := by
    simp [EnumLine.Plain]
  have counted := memberNumbers_implicit 0 (unionCases (.mk name structs allowEmpty)) plain
  rw [← counted, RenderPyx.renderUnionEnum, unionCases]
  cases allowEmpty with
  | false => simp [memberNumbers, List.map_map, Function.comp_def]
  | true => simp [memberNumbers, List.map_map, Function.comp_def]

/-- The width of a union's tag is computed from the number of its cases. -/
theorem unionField_typeBits {union : UnionDescr} (nonempty : unionCases union ≠ []) :
    UnionField.typeBits union none = .ok (Nat.clog 2 (unionCases union).length) := by
  have positive := List.length_pos_iff.mpr nonempty
  obtain ⟨name, structs, allowEmpty⟩ := union
  have count : structs.length + (if allowEmpty then 1 else 0) =
      (unionCases (.mk name structs allowEmpty)).length := by
    cases allowEmpty <;> simp [unionCases]
  rw [UnionField.typeBits, count]
  exact ceilLog2_pos positive

/-- **Union tags**: they are as many as there are cases, different from each other, below two to
the width that the field computes, and the same in the header and in Cython. -/
theorem union_tags (union : UnionDescr) (nonempty : unionCases union ≠ []) :
    ∃ typeBits, UnionField.typeBits union none = .ok typeBits ∧
      ∃ tags : List (String × Nat), tags.map Prod.fst = unionCases union ∧
        (tags.map Prod.snd).Nodup ∧ (∀ tag ∈ tags, tag.2 < 2 ^ typeBits) ∧
        memberNumbers cppLiteral (some 0) (RenderCc.renderUnionEnum union) =
          tags.map (fun tag => (tag.1, some (tag.2 : Int))) ∧
        memberNumbers cppLiteral (some 0) (RenderPyx.renderUnionEnum union) =
          tags.map (fun tag => (tag.1, some (tag.2 : Int))) := by
  have numbered : numberedFrom 0 (unionCases union) =
      (unionCases union).zipIdx.map fun tag => (tag.1, some (tag.2 : Int)) := by
    simp [numberedFrom, List.mapIdx_eq_zipIdx_map]
  refine ⟨_, unionField_typeBits nonempty, (unionCases union).zipIdx, List.zipIdx_map_fst _ _,
    ?_, ?_, ?_, ?_⟩
  · rw [List.zipIdx_map_snd]
    exact List.nodup_range'
  · intro tag member
    have below : tag.2 < (unionCases union).length := by
      have bound := List.snd_lt_of_mem_zipIdx member
      rwa [Nat.add_zero] at bound
    exact below.trans_le (Nat.le_pow_clog Nat.one_lt_two _)
  · rw [renderCc_union_numbers, numbered]
  · rw [renderPyx_union_numbers, numbered]

/-- Three variants and the empty case: two bits. -/
theorem union_tags_four :
    let union : UnionDescr := .mk "u" [.mk "a" [], .mk "b" [], .mk "c" []] true
    unionCases union = ["u_empty", "a", "b", "c"] ∧
      ∃ typeBits, UnionField.typeBits union none = .ok typeBits ∧
        ∃ tags : List (String × Nat), tags.map Prod.fst = unionCases union ∧
          (tags.map Prod.snd).Nodup ∧ (∀ tag ∈ tags, tag.2 < 2 ^ typeBits) ∧
          memberNumbers cppLiteral (some 0) (RenderCc.renderUnionEnum union) =
            tags.map (fun tag => (tag.1, some (tag.2 : Int))) ∧
          memberNumbers cppLiteral (some 0) (RenderPyx.renderUnionEnum union) =
            tags.map (fun tag => (tag.1, some (tag.2 : Int))) :=
  ⟨rfl, union_tags (.mk "u" [.mk "a" [], .mk "b" [], .mk "c" []] true) (by simp [unionCases])⟩

end UdpStuff.Proto
