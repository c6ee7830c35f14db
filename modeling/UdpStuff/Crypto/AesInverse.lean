/-
# Crypto.AesInverse — when decryption takes encryption back

`AES_ECB_encrypt` and `AES_ECB_decrypt` go through the round keys in the same order.
The AES instructions for decryption want them backwards, and those between through
`InvMixColumns`: `inverseKeys`.  Handed the array of the encryption, decryption takes
back the blocks that are encrypted the same with another array, `undoneKeys`.  These
are all blocks if the array is its own inverse, and none if it is off at one key.

An array that `AES_KEY_256_LOAD` makes is never its own inverse: the keys between
would have columns that repeat after two bytes, and the round constant breaks that.
Whether a loaded array could still take back every block is left open.
-/
import UdpStuff.Crypto.AesNi
import UdpStuff.Theory.RoundCipher

namespace UdpStuff.Crypto.AesNi

open Theory Theory.RoundCipher

set_option autoImplicit false

/-! ## The instructions as bijections -/

theorem invSubByte_subByte (x : Gf256) : invSubByte (subByte x) = x := by
  have every : ∀ x : BitVec 8, invSubByte (subByte ⟨x⟩) = ⟨x⟩ := by decide +kernel
  exact every x.bits

theorem subByte_invSubByte (x : Gf256) : subByte (invSubByte x) = x := by
  have every : ∀ x : BitVec 8, subByte (invSubByte ⟨x⟩) = ⟨x⟩ := by decide +kernel
  exact every x.bits

/-- `SubBytes` after `ShiftRows`. -/
def substitution : M128i ≃ M128i where
  toFun a := subBytes (shiftRows a)
  invFun a := invSubBytes (invShiftRows a)
  left_inv a := by
    simp only [subBytes, invSubBytes, mapState, mapColumn, shiftRows, invShiftRows,
      invSubByte_subByte]
  right_inv a := by
    simp only [subBytes, invSubBytes, mapState, mapColumn, shiftRows, invShiftRows,
      subByte_invSubByte]

theorem mixColumn_add (c d : Column) : mixColumn (c + d) = mixColumn c + mixColumn d :=
  Column.circulant_add _ _ _ _ c d

theorem mixColumn_rotate (c : Column) : mixColumn c.rotate = (mixColumn c).rotate :=
  Column.circulant_rotate _ _ _ _ c

theorem invMixColumn_mixColumn (c : Column) : invMixColumn (mixColumn c) = c :=
  Column.circulant_cancel _ _ _ _ (by decide +kernel) c

theorem mixColumn_invMixColumn (c : Column) : mixColumn (invMixColumn c) = c :=
  Column.circulant_cancel _ _ _ _ (by decide +kernel) c

def mixing : M128i ≃+ M128i where
  toFun := mixColumns
  invFun := invMixColumns
  left_inv a := by simp only [mixColumns, invMixColumns, mapState, invMixColumn_mixColumn]
  right_inv a := by simp only [mixColumns, invMixColumns, mapState, mixColumn_invMixColumn]
  map_add' a b := by
    simp only [mixColumns, mapState, mixColumn_add, Prod.mk_add_mk]

/-! ## The two loops -/

theorem encryptRounds_eq (expandedKey : List M128i) (n j : Nat) (tmp : M128i) :
    encryptRounds expandedKey n j tmp =
      rounds (fun a => mixing (substitution a)) (keyAt expandedKey) n j tmp := by
  induction n generalizing j tmp with
  | zero => rfl
  | succ n ih =>
      rw [encryptRounds, ih]
      rfl

theorem decryptRounds_eq (expandedKey : List M128i) (n j : Nat) (tmp : M128i) :
    decryptRounds expandedKey n j tmp =
      rounds (fun a => mixing.symm (substitution.symm a)) (keyAt expandedKey) n j tmp := by
  induction n generalizing j tmp with
  | zero => rfl
  | succ n ih =>
      rw [decryptRounds, ih]
      rfl

theorem aesEcbEncrypt_eq (block : M128i) (expandedKey : List M128i) (n : Nat) :
    aesEcbEncrypt block expandedKey (n + 1) =
      encrypt substitution mixing (keyAt expandedKey) n block := by
  rw [aesEcbEncrypt, encryptRounds_eq, Nat.add_sub_cancel, Nat.add_comm 1 n]
  rfl

theorem aesEcbDecrypt_eq (block : M128i) (expandedKey : List M128i) (n : Nat) :
    aesEcbDecrypt block expandedKey (n + 1) =
      decrypt substitution mixing (keyAt expandedKey) n block := by
  rw [aesEcbDecrypt, decryptRounds_eq, Nat.add_sub_cancel, Nat.add_comm 1 n]
  rfl

/-! ## The keys that decryption needs -/

/-- The array backwards, with the round keys between sent through `f`. -/
def backwards (f : M128i → M128i) (expandedKey : List M128i) (nrounds : Nat) : List M128i :=
  (List.range (nrounds + 1)).map fun j =>
    if j = 0 then keyAt expandedKey nrounds
    else if j = nrounds then keyAt expandedKey 0
    else f (keyAt expandedKey (nrounds - j))

/-- The array that decryption needs for an encryption with this one. -/
def inverseKeys (expandedKey : List M128i) (nrounds : Nat) : List M128i :=
  backwards invMixColumns expandedKey nrounds

/-- The array whose encryption is taken back by a decryption with this one. -/
def undoneKeys (expandedKey : List M128i) (nrounds : Nat) : List M128i :=
  backwards mixColumns expandedKey nrounds

theorem keyAt_backwards (f : M128i → M128i) (expandedKey : List M128i) {nrounds j : Nat}
    (inside : j ≤ nrounds) :
    keyAt (backwards f expandedKey nrounds) j =
      if j = 0 then keyAt expandedKey nrounds
      else if j = nrounds then keyAt expandedKey 0
      else f (keyAt expandedKey (nrounds - j)) := by
  rw [keyAt, backwards, List.getD_eq_getElem?_getD, List.getElem?_map,
    List.getElem?_range (Nat.lt_succ_of_le inside)]
  rfl

theorem keyAt_inverseKeys (expandedKey : List M128i) {n j : Nat} (inside : j ≤ n + 1) :
    keyAt (inverseKeys expandedKey (n + 1)) j =
      RoundCipher.inverseKeys mixing (keyAt expandedKey) n j :=
  keyAt_backwards invMixColumns expandedKey inside

theorem keyAt_undoneKeys (expandedKey : List M128i) {n j : Nat} (inside : j ≤ n + 1) :
    keyAt (undoneKeys expandedKey (n + 1)) j =
      RoundCipher.inverseKeys mixing.symm (keyAt expandedKey) n j :=
  keyAt_backwards mixColumns expandedKey inside

/-- The array is its own inverse at `j`. -/
def OwnInverseAt (expandedKey : List M128i) (nrounds j : Nat) : Prop :=
  keyAt expandedKey j = keyAt (inverseKeys expandedKey nrounds) j

instance (expandedKey : List M128i) (nrounds j : Nat) :
    Decidable (OwnInverseAt expandedKey nrounds j) :=
  inferInstanceAs (Decidable (_ = _))

theorem decrypt_inverseKeys (expandedKey : List M128i) (n : Nat) (block : M128i) :
    aesEcbDecrypt (aesEcbEncrypt block expandedKey (n + 1))
      (inverseKeys expandedKey (n + 1)) (n + 1) = block := by
  have inverse (a : M128i) :
      decrypt substitution mixing (keyAt (inverseKeys expandedKey (n + 1))) n a =
      decrypt substitution mixing (RoundCipher.inverseKeys mixing (keyAt expandedKey) n) n a :=
    keyed_congr (fun j inside => keyAt_inverseKeys expandedKey inside) a
  rw [aesEcbDecrypt_eq, aesEcbEncrypt_eq, inverse, decrypt_encrypt]

theorem restored_iff (expandedKey expandedKey' : List M128i) (n : Nat) (block : M128i) :
    aesEcbDecrypt (aesEcbEncrypt block expandedKey' (n + 1)) expandedKey (n + 1) = block ↔
      aesEcbEncrypt block expandedKey' (n + 1) =
        aesEcbEncrypt block (undoneKeys expandedKey (n + 1)) (n + 1) := by
  have undone : encrypt substitution mixing (keyAt (undoneKeys expandedKey (n + 1))) n block =
      encrypt substitution mixing (RoundCipher.inverseKeys mixing.symm (keyAt expandedKey) n) n
        block :=
    keyed_congr (fun j inside => keyAt_undoneKeys expandedKey inside) block
  rw [aesEcbDecrypt_eq, aesEcbEncrypt_eq, aesEcbEncrypt_eq, undone]
  exact comes_back_iff substitution mixing (keyAt expandedKey) n (keyAt expandedKey') block

theorem decrypt_iff {expandedKey : List M128i} {n i : Nat} (inside : i ≤ n + 1)
    (others : ∀ j ≤ n + 1, j ≠ i → OwnInverseAt expandedKey (n + 1) j) (block : M128i) :
    aesEcbDecrypt (aesEcbEncrypt block expandedKey (n + 1)) expandedKey (n + 1) = block ↔
      OwnInverseAt expandedKey (n + 1) i := by
  rw [aesEcbDecrypt_eq, aesEcbEncrypt_eq, OwnInverseAt, keyAt_inverseKeys expandedKey inside]
  refine decrypt_encrypt_iff substitution mixing (keyAt expandedKey) n inside ?_ block
  intro j below other
  rw [← keyAt_inverseKeys expandedKey below]
  exact others j below other

/-! ## Loaded keys -/

/-- A column that repeats after two bytes. -/
def Repeats (c : Column) : Prop := c.rotate.rotate = c

theorem Repeats.add_iff {c : Column} (repeats : Repeats c) (d : Column) :
    Repeats (c + d) ↔ Repeats d := by
  show c.rotate.rotate + d.rotate.rotate = c + d ↔ d.rotate.rotate = d
  rw [repeats, add_right_inj]

theorem repeats_subWord {c : Column} (repeats : Repeats c) : Repeats (subWord c) := by
  show subWord c.rotate.rotate = subWord c
  rw [repeats]

theorem repeats_rotWord {c : Column} (repeats : Repeats c) : Repeats (rotWord c) := by
  show rotWord c.rotate.rotate = rotWord c
  rw [repeats]

theorem not_repeats_rcon {rcon : BitVec 8} (set : rcon ≠ 0) : ¬ Repeats (⟨rcon⟩, 0, 0, 0) := by
  intro repeats
  have first : (0 : Gf256) = ⟨rcon⟩ := congrArg Prod.fst repeats
  exact set (congrArg Gf256.bits first).symm

def quadruple : Column → Column := mapColumn fun b => b.xtime.xtime

theorem mixColumn_mixColumn (c : Column) :
    mixColumn (mixColumn c) = c + quadruple (c + c.rotate.rotate) := by
  have quadruple_add : ∀ c d, quadruple (c + d) = quadruple c + quadruple d := by
    intro c d
    simp only [quadruple, mapColumn, Gf256.xtime_add, Prod.mk_add_mk]
  refine Column.ext_of_bit (f := fun c => mixColumn (mixColumn c))
    (g := fun c => c + quadruple (c + c.rotate.rotate)) ?_ ?_ ?_ (fun _ => rfl)
    (by decide +kernel) c
  · intro c d
    rw [mixColumn_add, mixColumn_add]
  · intro c d
    show c + d + quadruple (c + d + (c.rotate.rotate + d.rotate.rotate)) = _
    rw [add_add_add_comm c d, quadruple_add, add_add_add_comm]
  · intro c
    rw [mixColumn_rotate, mixColumn_rotate]

theorem quadruple_eq_zero {c : Column} (zero : quadruple c = 0) : c = 0 := by
  have every : ∀ x : BitVec 8, Gf256.xtime (Gf256.xtime ⟨x⟩) = 0 → (⟨x⟩ : Gf256) = 0 := by
    decide +kernel
  obtain ⟨b0, b1, b2, b3⟩ := c
  simp only [quadruple, mapColumn, Prod.mk_eq_zero] at zero ⊢
  exact ⟨every b0.bits zero.1, every b1.bits zero.2.1, every b2.bits zero.2.2.1,
    every b3.bits zero.2.2.2⟩

theorem repeats_of_mix_mix {c : Column} (back : mixColumn (mixColumn c) = c) : Repeats c := by
  rw [mixColumn_mixColumn, add_eq_left] at back
  exact eq_neg_of_add_eq_zero_right (quadruple_eq_zero back)

theorem mix_of_ownInverse {expandedKey : List M128i} {nrounds j : Nat} (later : 0 < j)
    (earlier : j < nrounds) (own : OwnInverseAt expandedKey nrounds j) :
    mixColumns (keyAt expandedKey j) = keyAt expandedKey (nrounds - j) := by
  have between : keyAt (inverseKeys expandedKey nrounds) j =
      invMixColumns (keyAt expandedKey (nrounds - j)) := by
    rw [inverseKeys, keyAt_backwards _ _ (Nat.le_of_lt earlier), if_neg (by omega),
      if_neg (by omega)]
  rw [own, between]
  exact mixing.apply_symm_apply _

/-- Two keys that are each other's inverse have columns that repeat. -/
theorem mix_mix_of_ownInverse {expandedKey : List M128i} {nrounds j : Nat} (later : 0 < j)
    (earlier : j < nrounds) (own : ∀ k ≤ nrounds, OwnInverseAt expandedKey nrounds k) :
    mixColumns (mixColumns (keyAt expandedKey j)) = keyAt expandedKey j := by
  have there : nrounds - (nrounds - j) = j := by omega
  rw [mix_of_ownInverse later earlier (own j (by omega)),
    mix_of_ownInverse (by omega) (by omega) (own (nrounds - j) (by omega)), there]

theorem assist1_first (temp1 temp2 : M128i) :
    (aesKey256Assist1 temp1 temp2).1 = temp1.1 + temp2.2.2.2 := by
  show temp1.1 + 0 + 0 + 0 + temp2.2.2.2 = _
  rw [add_zero, add_zero, add_zero]

theorem repeats_of_mixColumns {a : M128i} (back : mixColumns (mixColumns a) = a) :
    Repeats a.1 ∧ Repeats a.2.2.2 := by
  have first : mixColumn (mixColumn a.1) = a.1 := congrArg Prod.fst back
  have last : mixColumn (mixColumn a.2.2.2) = a.2.2.2 := congrArg (fun a => a.2.2.2) back
  exact ⟨repeats_of_mix_mix first, repeats_of_mix_mix last⟩

/-- The round constant does not repeat, so one of three keys in a row does not. -/
theorem assist1_not_repeats {key0 key1 : M128i} {rcon : BitVec 8} (set : rcon ≠ 0)
    (first : Repeats key0.1) (last : Repeats key1.2.2.2) :
    ¬ Repeats (aesKey256Assist1 key0 (mmAeskeygenassist key1 rcon)).1 := by
  intro next
  rw [assist1_first, first.add_iff] at next
  have parts : Repeats (rotWord (subWord key1.2.2.2) + (⟨rcon⟩, 0, 0, 0)) := next
  rw [(repeats_rotWord (repeats_subWord last)).add_iff] at parts
  exact not_repeats_rcon set parts

theorem load_not_ownInverse (userKey : M128i × M128i) :
    ∃ j ≤ 14, ¬ OwnInverseAt (aesKey256Load userKey) 14 j := by
  by_contra none_off
  push Not at none_off
  have back : ∀ j, 0 < j → j < 14 → mixColumns (mixColumns (keyAt (aesKey256Load userKey) j)) =
      keyAt (aesKey256Load userKey) j := fun j later earlier =>
    mix_mix_of_ownInverse later earlier none_off
  have key4 : keyAt (aesKey256Load userKey) 4 = aesKey256Assist1 (keyAt (aesKey256Load userKey) 2)
      (mmAeskeygenassist (keyAt (aesKey256Load userKey) 3) 0x02) := rfl
  have first4 := (repeats_of_mixColumns (back 4 (by omega) (by omega))).1
  rw [key4] at first4
  exact assist1_not_repeats (by decide) (repeats_of_mixColumns (back 2 (by omega) (by omega))).1
    (repeats_of_mixColumns (back 3 (by omega) (by omega))).2 first4

/-! ## The cipher -/

/-- **Decryption is right with the inverse keys.  With the keys of the encryption it takes
back the blocks that are encrypted as by the undone keys: all of them if the keys are
their own inverse, none if just one of them is not.  Loaded keys never are.** -/
theorem ecb_inverse_iff (expandedKey : List M128i) (block : M128i) :
    aesEcbDecrypt (aesEcbEncrypt block expandedKey 14) (inverseKeys expandedKey 14) 14 = block ∧
    (aesEcbDecrypt (aesEcbEncrypt block expandedKey 14) expandedKey 14 = block ↔
      aesEcbEncrypt block expandedKey 14 = aesEcbEncrypt block (undoneKeys expandedKey 14) 14) ∧
    ((∀ j ≤ 14, OwnInverseAt expandedKey 14 j) →
      aesEcbDecrypt (aesEcbEncrypt block expandedKey 14) expandedKey 14 = block) ∧
    (∀ i ≤ 14, (∀ j ≤ 14, j ≠ i → OwnInverseAt expandedKey 14 j) →
      (aesEcbDecrypt (aesEcbEncrypt block expandedKey 14) expandedKey 14 = block ↔
        OwnInverseAt expandedKey 14 i)) ∧
    ∀ userKey, expandedKey = aesKey256Load userKey →
      ∃ j ≤ 14, ¬ OwnInverseAt expandedKey 14 j := by
  refine ⟨decrypt_inverseKeys expandedKey 13 block, restored_iff expandedKey expandedKey 13 block,
    ?_, ?_, ?_⟩
  · intro own
    exact (decrypt_iff (Nat.zero_le _) (fun j below _ => own j below) block).mpr
      (own 0 (Nat.zero_le _))
  · intro i inside others
    exact decrypt_iff inside others block
  · intro userKey loaded
    rw [loaded]
    exact load_not_ownInverse userKey

theorem ecb_inverse_zero_keys :
    (∀ j ≤ 14, OwnInverseAt (List.replicate 15 0) 14 j) ∧
    aesEcbDecrypt (aesEcbEncrypt ((⟨1⟩, 0, 0, 0), 0, 0, 0) (List.replicate 15 0) 14)
      (List.replicate 15 0) 14 = ((⟨1⟩, 0, 0, 0), 0, 0, 0) := by
  have own : ∀ j ≤ 14, OwnInverseAt (List.replicate 15 0) 14 j := by decide +kernel
  exact ⟨own, (ecb_inverse_iff _ _).2.2.1 own⟩

theorem ecb_inverse_refuted :
    ¬ ∀ (userKey : M128i × M128i) (block : M128i),
      aesEcbDecrypt (aesEcbEncrypt block (aesKey256Load userKey) 14) (aesKey256Load userKey) 14 =
        block := by
  intro inverse
  have back := inverse 0 0
  have elsewhere : aesEcbDecrypt (aesEcbEncrypt 0 (aesKey256Load 0) 14) (aesKey256Load 0) 14 ≠ 0 :=
    by decide +kernel
  exact elsewhere back

end UdpStuff.Crypto.AesNi
