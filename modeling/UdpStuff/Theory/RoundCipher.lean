/-
# Theory.RoundCipher — a block sent through rounds with a key each

`keyed g l` adds a key to a block, sends it through `n` rounds `g` with a key after
each, and through a last round `l` with its key.  Encryption substitutes and mixes in a
round, and decryption takes substitution and mixing back in this order too: the mixing
is additive, so that it may be taken back before the key that was added after it, with
that key sent through the inverse mixing.  `inverseKeys` are the keys that decryption
needs, `decrypt_encrypt_iff` says what one wrong key does, and `comes_back_iff` what any
keys do to one block.
-/
import Mathlib.Algebra.Group.Equiv.Basic

namespace UdpStuff.Theory.RoundCipher

set_option autoImplicit false

universe u

variable {V : Type u} [AddGroup V]

/-- `n` rounds with the keys from `j` on. -/
def rounds (g : V → V) (key : ℕ → V) : ℕ → ℕ → V → V
  | 0, _, s => s
  | n + 1, j, s => rounds g key n (j + 1) (g s + key j)

def keyed (g l : V → V) (key : ℕ → V) (n : ℕ) (s : V) : V :=
  l (rounds g key n 1 (s + key 0)) + key (n + 1)

theorem rounds_succ (g : V → V) (key : ℕ → V) (n j : ℕ) (s : V) :
    rounds g key (n + 1) j s = g (rounds g key n j s) + key (j + n) := by
  induction n generalizing j s with
  | zero => rfl
  | succ n ih =>
      rw [rounds, ih, rounds, Nat.add_right_comm]
      rfl

section Comparison

variable {g l : V → V} {key key' : ℕ → V}

theorem rounds_congr {n j : ℕ} (agree : ∀ k, j ≤ k → k < j + n → key k = key' k) (s : V) :
    rounds g key n j s = rounds g key' n j s := by
  induction n with
  | zero => rfl
  | succ n ih =>
      rw [rounds_succ, rounds_succ, agree (j + n) (Nat.le_add_right j n) (by omega),
        ih fun k from_j below => agree k from_j (by omega)]

theorem rounds_injective (gInj : g.Injective) (n j : ℕ) : (rounds g key n j).Injective := by
  induction n generalizing j with
  | zero => exact Function.injective_id
  | succ n ih =>
      intro s t same
      have first : g s + key j = g t + key j := ih (j + 1) same
      exact gInj (add_right_cancel first)

/-- With one key changed the rounds end elsewhere, from every block. -/
theorem rounds_eq_iff (gInj : g.Injective) {n j i : ℕ} (from_j : j ≤ i) (below : i < j + n)
    (agree : ∀ k, j ≤ k → k < j + n → k ≠ i → key k = key' k) (s : V) :
    rounds g key n j s = rounds g key' n j s ↔ key i = key' i := by
  induction n with
  | zero => omega
  | succ n ih =>
      rw [rounds_succ, rounds_succ]
      rcases Nat.lt_succ_iff_lt_or_eq.mp (show i < (j + n).succ by omega) with earlier | last
      · rw [agree (j + n) (Nat.le_add_right j n) (by omega) (by omega), add_left_inj, gInj.eq_iff]
        exact ih earlier fun k above under other => agree k above (by omega) other
      · have before : rounds g key n j s = rounds g key' n j s :=
          rounds_congr (fun k above under => agree k above (by omega) (by omega)) s
        rw [before, last, add_right_inj]

theorem keyed_injective (gInj : g.Injective) (lInj : l.Injective) (n : ℕ) :
    (keyed g l key n).Injective := by
  intro s t same
  have ended := rounds_injective gInj n 1 (lInj (add_right_cancel same))
  exact add_right_cancel ended

theorem keyed_congr {n : ℕ} (agree : ∀ k ≤ n + 1, key k = key' k) (s : V) :
    keyed g l key n s = keyed g l key' n s := by
  unfold keyed
  rw [agree 0 (Nat.zero_le _), agree (n + 1) (Nat.le_refl _),
    rounds_congr (fun k above under => agree k (by omega)) _]

/-- **Two families that differ in one key agree on no block.** -/
theorem keyed_eq_iff (gInj : g.Injective) (lInj : l.Injective) {n i : ℕ} (inside : i ≤ n + 1)
    (agree : ∀ k ≤ n + 1, k ≠ i → key k = key' k) (s : V) :
    keyed g l key n s = keyed g l key' n s ↔ key i = key' i := by
  unfold keyed
  by_cases last : i = n + 1
  · rw [agree 0 (Nat.zero_le _) (by omega),
      rounds_congr (fun k above under => agree k (by omega) (by omega)) _, add_right_inj, last]
  · rw [agree (n + 1) (Nat.le_refl _) (Ne.symm last), add_left_inj, lInj.eq_iff]
    by_cases first : i = 0
    · rw [rounds_congr (fun k above under => agree k (by omega) (by omega)) _,
        (rounds_injective gInj n 1).eq_iff, add_right_inj, first]
    · rw [agree 0 (Nat.zero_le _) (Ne.symm first)]
      exact rounds_eq_iff gInj (by omega) (by omega)
        (fun k above under other => agree k (by omega) other) _

end Comparison

/-! ## Decryption -/

variable (sub : V ≃ V) (mix : V ≃+ V)

def encrypt (key : ℕ → V) (n : ℕ) (s : V) : V := keyed (fun t => mix (sub t)) sub key n s

def decrypt (key : ℕ → V) (n : ℕ) (s : V) : V :=
  keyed (fun t => mix.symm (sub.symm t)) sub.symm key n s

/-- The keys backwards and negated, those between through the inverse mixing. -/
def inverseKeys (key : ℕ → V) (n j : ℕ) : V :=
  if j = 0 then -key (n + 1) else if j = n + 1 then -key 0 else -mix.symm (key (n + 1 - j))

variable (key : ℕ → V) (n : ℕ)

theorem inverseKeys_first : inverseKeys mix key n 0 = -key (n + 1) := if_pos rfl

theorem inverseKeys_last : inverseKeys mix key n (n + 1) = -key 0 := by
  rw [inverseKeys, if_neg (Nat.succ_ne_zero n), if_pos rfl]

theorem inverseKeys_between {j : ℕ} (later : 0 < j) (earlier : j ≤ n) :
    inverseKeys mix key n j = -mix.symm (key (n + 1 - j)) := by
  rw [inverseKeys, if_neg (by omega), if_neg (by omega)]

/-- The last `m` rounds of decryption take back the first `m` of encryption, up to a substitution. -/
theorem rounds_rounds {m : ℕ} (inside : m ≤ n) (t : V) :
    rounds (fun s => mix.symm (sub.symm s)) (inverseKeys mix key n) m (n + 1 - m)
        (sub (rounds (fun s => mix (sub s)) key m 1 t)) = sub t := by
  induction m with
  | zero => rfl
  | succ m ih =>
      have keyOf : inverseKeys mix key n (n + 1 - (m + 1)) = -mix.symm (key (1 + m)) := by
        have back : n + 1 - (n + 1 - (m + 1)) = 1 + m := by omega
        rw [inverseKeys_between mix key n (by omega) (by omega), back]
      have next : n + 1 - (m + 1) + 1 = n + 1 - m := by omega
      rw [rounds_succ (fun s => mix (sub s)), rounds, next, keyOf, Equiv.symm_apply_apply, map_add,
        AddEquiv.symm_apply_apply, add_neg_cancel_right]
      exact ih (by omega)

/-- **Decryption with the inverse keys takes encryption back.** -/
theorem decrypt_encrypt (s : V) :
    decrypt sub mix (inverseKeys mix key n) n (encrypt sub mix key n s) = s := by
  have middle := rounds_rounds sub mix key n (Nat.le_refl n) (s + key 0)
  rw [Nat.add_sub_cancel_left] at middle
  unfold decrypt encrypt keyed
  rw [inverseKeys_first, inverseKeys_last, add_neg_cancel_right, middle, Equiv.symm_apply_apply,
    add_neg_cancel_right]

/-- **With one key changed decryption takes back no block.** -/
theorem decrypt_encrypt_iff {key' : ℕ → V} {i : ℕ} (inside : i ≤ n + 1)
    (agree : ∀ j ≤ n + 1, j ≠ i → key' j = inverseKeys mix key n j) (s : V) :
    decrypt sub mix key' n (encrypt sub mix key n s) = s ↔ key' i = inverseKeys mix key n i := by
  rw [← keyed_eq_iff (mix.symm.injective.comp sub.symm.injective) sub.symm.injective inside agree
    (encrypt sub mix key n s)]
  show decrypt sub mix key' n (encrypt sub mix key n s) = s ↔
    decrypt sub mix key' n (encrypt sub mix key n s) =
      decrypt sub mix (inverseKeys mix key n) n (encrypt sub mix key n s)
  rw [decrypt_encrypt]

/-! ## The encryption that a decryption takes back -/

theorem inverseKeys_inverseKeys {j : ℕ} (inside : j ≤ n + 1) :
    inverseKeys mix (inverseKeys mix.symm key n) n j = key j := by
  by_cases first : j = 0
  · rw [first, inverseKeys_first, inverseKeys_last, neg_neg]
  by_cases last : j = n + 1
  · rw [last, inverseKeys_last, inverseKeys_first, neg_neg]
  · have there : n + 1 - (n + 1 - j) = j := by omega
    rw [inverseKeys_between mix _ n (by omega) (by omega),
      inverseKeys_between mix.symm key n (by omega) (by omega), there, map_neg, neg_neg,
      AddEquiv.symm_symm, AddEquiv.symm_apply_apply]

theorem decrypt_encrypt_undone (s : V) :
    decrypt sub mix key n (encrypt sub mix (inverseKeys mix.symm key n) n s) = s := by
  have back := decrypt_encrypt sub mix (inverseKeys mix.symm key n) n s
  unfold decrypt at back ⊢
  rwa [keyed_congr (fun j inside => inverseKeys_inverseKeys mix key n inside)] at back

/-- **A block comes back from decryption with any keys exactly if it was encrypted as those
keys want it.** -/
theorem comes_back_iff (key' : ℕ → V) (s : V) :
    decrypt sub mix key n (encrypt sub mix key' n s) = s ↔
      encrypt sub mix key' n s = encrypt sub mix (inverseKeys mix.symm key n) n s := by
  constructor
  · intro back
    have injective : (decrypt sub mix key n).Injective :=
      keyed_injective (mix.symm.injective.comp sub.symm.injective) sub.symm.injective n
    apply injective
    rw [back, decrypt_encrypt_undone]
  · intro same
    rw [same, decrypt_encrypt_undone]

end UdpStuff.Theory.RoundCipher
