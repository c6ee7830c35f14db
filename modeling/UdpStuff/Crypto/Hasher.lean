/-
# Crypto.Hasher — hashing, and the id of a peer

`SSLHasher` of `sgn.cc` and `peer_id_from_sha512` of `auth.cc`.  A context is started, given
data and asked for the digest; any call may fail, and `compute_hash` then resets the context
and throws on.  The constructor looks the digest up into a variable of its own, so what the
member `md` names is left open: `Digest` is whichever digest OpenSSL takes it for.

The id of a peer is a digest that is hashed again in its place, `2 ^ 14` times.
`hashPeerId_eq`: it is computed if no call fails.  `collision_of_id`: two keys with one id are
the same, or somewhere on the way two different inputs have one digest.
-/
import Mathlib.Logic.Function.Iterate
import UdpStuff.Crypto.Ssl

namespace UdpStuff.Crypto

set_option autoImplicit false

/-- A digest function; `EVP_MAX_MD_SIZE` is 64. -/
structure Digest where
  size : Nat
  hash : List UInt8 → List UInt8
  length_hash : ∀ data, (hash data).length = size
  short : size ≤ 64

/-- The bytes of a `PeerId512_t`. -/
@[ext]
structure PeerId512 where
  id : List UInt8
  whole : id.length = 64
deriving DecidableEq

/-- `{0}` -/
def PeerId512.zero : PeerId512 := ⟨List.replicate 64 0, List.length_replicate⟩

/-- A digest is written over the id. -/
def PeerId512.write (peerId : PeerId512) (digest : Digest) (data : List UInt8) : PeerId512 where
  id := digest.hash data ++ peerId.id.drop digest.size
  whole := by
    have size := digest.length_hash data
    have short := digest.short
    rw [List.length_append, List.length_drop, size, peerId.whole]
    omega

/-! ## The context -/

/-- What has been put since the context was started, if it is, and how many calls there have
been. -/
structure HashContext where
  data : Option (List UInt8)
  calls : Nat

/-- How the calls end, by their numbers: a call that fails leaves some state behind. -/
abbrev HashCalls := Nat → Option (Option (List UInt8))

abbrev Hashing := EStateM Failure HashContext

namespace SSLHasher

variable (digest : Digest) (fails : HashCalls)

/-- A call that does what it is documented to do, where it can and does not fail. -/
def call {α : Type} (descr : String)
    (effect : Option (List UInt8) → Option (α × Option (List UInt8))) : Hashing α := fun ctx =>
  match fails ctx.calls with
  | some left => .error (.sslError descr) ⟨left, ctx.calls + 1⟩
  | none =>
    match effect ctx.data with
    | none => .error (.sslError descr) ⟨ctx.data, ctx.calls + 1⟩
    | some (a, data) => .ok a ⟨data, ctx.calls + 1⟩

def start : Hashing Unit := call fails "hashing - init" fun _ => some ((), some [])

def put (data : List UInt8) : Hashing Unit :=
  call fails "hashing - append data" fun before => before.map fun before => ((), some (before ++ data))

/-- `finish` writes the digest, here over an id. -/
def finish (out : PeerId512) : Hashing PeerId512 :=
  call fails "hashing - retrieving digest" fun before =>
    before.map fun before => (out.write digest before, none)

def reset : Hashing Unit := call fails "hashing - resetting context" fun _ => some ((), none)

def computeHash (data : List UInt8) (out : PeerId512) : Hashing PeerId512 :=
  tryCatch
    (do
      start fails
      put fails data
      finish digest fails out)
    fun e => do
      reset fails
      throw e

end SSLHasher

/-! ## The id of a peer -/

/-- The bytes of a string literal, with the zero at its end. -/
def literal (s : String) : List UInt8 := s.toList.map (fun c => UInt8.ofNat c.toNat) ++ [0]

def peerIdSeed1 : List UInt8 := literal "834h804n82y387ynx2307ny8x70236n4786yn38923"

def peerIdSeed2 : List UInt8 := literal "83n1-9348yc5n780345mn83485mt483mtg7tm58c48"

open SSLHasher in
/-- The loop of `peer_id_from_sha512`, `n` rounds from its end. -/
def hashRounds (digest : Digest) (fails : HashCalls) : Nat → PeerId512 → Hashing PeerId512
  | 0, peerId => pure peerId
  | n + 1, peerId => do
    let peerId ← computeHash digest fails peerId.id peerId
    hashRounds digest fails n peerId

/-- The bound of that loop; nothing below depends on its value. -/
@[irreducible]
def rehashRounds : Nat := 1 <<< 14

open SSLHasher in
/-- `peer_id_from_sha512`, with a hasher. -/
def hashPeerId (digest : Digest) (fails : HashCalls) (data : List UInt8) : Hashing PeerId512 := do
  start fails
  put fails peerIdSeed1
  put fails data
  put fails peerIdSeed2
  let peerId ← finish digest fails .zero
  hashRounds digest fails rehashRounds peerId

/-! ## What is computed -/

/-- The key between the seeds. -/
def seeded (data : List UInt8) : List UInt8 := peerIdSeed1 ++ data ++ peerIdSeed2

/-- The id is hashed in its place. -/
def rehash (digest : Digest) (peerId : PeerId512) : PeerId512 := peerId.write digest peerId.id

/-- The id after some of the rounds. -/
def peerIdAfter (digest : Digest) (data : List UInt8) (k : Nat) : PeerId512 :=
  (rehash digest)^[k] (PeerId512.zero.write digest (seeded data))

/-- The id of a peer with this key. -/
def peerIdOf (digest : Digest) (data : List UInt8) : PeerId512 := peerIdAfter digest data rehashRounds

section Calls

variable {digest : Digest} {fails : HashCalls}

open SSLHasher

/-- The calls up to the `n`th succeed. -/
def Succeed (fails : HashCalls) (k n : Nat) : Prop := ∀ i, k ≤ i → i < k + n → fails i = none

theorem succeed_zero (k : Nat) : Succeed fails k 0 := fun _ le lt => absurd lt (not_lt.mpr le)

theorem succeed_add {k m n : Nat} :
    Succeed fails k (m + n) ↔ Succeed fails k m ∧ Succeed fails (k + m) n := by
  constructor
  · intro all
    exact ⟨fun i le lt => all i le (by omega), fun i le lt => all i (by omega) (by omega)⟩
  · rintro ⟨first, second⟩ i le lt
    by_cases before : i < k + m
    · exact first i le before
    · exact second i (by omega) (by omega)

theorem succeed_one {k : Nat} : Succeed fails k 1 ↔ fails k = none := by
  constructor
  · intro all
    exact all k le_rfl (by omega)
  · intro one i le lt
    rw [show i = k by omega]
    exact one

/-- The code makes `n` calls and returns `v`, with the context as it then is; if one of them
fails, it throws. -/
structure Takes (fails : HashCalls) {α : Type} (x : Hashing α) (ctx : HashContext) (n : Nat)
    (v : α) (after : Option (List UInt8)) : Prop where
  returns : Succeed fails ctx.calls n → x ctx = .ok v ⟨after, ctx.calls + n⟩
  throws : ¬ Succeed fails ctx.calls n → ∃ e left, x ctx = .error e left

variable {α β : Type} {ctx : HashContext} {m n : Nat} {v : α} {after : Option (List UInt8)}

theorem takes_pure (v : α) : Takes fails (pure v) ctx 0 v ctx.data where
  returns _ := rfl
  throws failed := absurd (succeed_zero ctx.calls) failed

theorem takes_call {descr : String} {effect : Option (List UInt8) → Option (α × Option (List UInt8))}
    (does : effect ctx.data = some (v, after)) :
    Takes fails (call fails descr effect) ctx 1 v after where
  returns one := by
    rw [call, succeed_one.mp one, does]
  throws failed := by
    rw [succeed_one] at failed
    obtain ⟨left, fails'⟩ := Option.ne_none_iff_exists'.mp failed
    rw [call, fails']
    exact ⟨_, _, rfl⟩

theorem takes_bind {x : Hashing α} {f : α → Hashing β} {w : β} {after' : Option (List UInt8)}
    (first : Takes fails x ctx m v after)
    (goesOn : Takes fails (f v) ⟨after, ctx.calls + m⟩ n w after') :
    Takes fails (x >>= f) ctx (m + n) w after' where
  returns all := by
    obtain ⟨before, behind⟩ := succeed_add.mp all
    show EStateM.bind x f ctx = _
    rw [EStateM.bind, first.returns before]
    show f v ⟨after, ctx.calls + m⟩ = _
    rw [goesOn.returns behind, Nat.add_assoc]
  throws failed := by
    show ∃ e left, EStateM.bind x f ctx = .error e left
    by_cases before : Succeed fails ctx.calls m
    · obtain ⟨e, left, thrown⟩ := goesOn.throws fun behind => failed (succeed_add.mpr ⟨before, behind⟩)
      rw [EStateM.bind, first.returns before]
      exact ⟨e, left, thrown⟩
    · obtain ⟨e, left, thrown⟩ := first.throws before
      rw [EStateM.bind, thrown]
      exact ⟨e, left, rfl⟩

theorem takes_start : Takes fails (start fails) ctx 1 () (some []) := takes_call rfl

theorem takes_put {k : Nat} {before : List UInt8} (data : List UInt8) :
    Takes fails (put fails data) ⟨some before, k⟩ 1 () (some (before ++ data)) := takes_call rfl

theorem takes_finish {k : Nat} {before : List UInt8} (out : PeerId512) :
    Takes fails (finish digest fails out) ⟨some before, k⟩ 1 (out.write digest before) none :=
  takes_call rfl

/-- Resetting the context does not turn an exception into a return. -/
theorem takes_catch {x : Hashing α} (takes : Takes fails x ctx n v after) :
    Takes fails (tryCatch x fun e => do reset fails; throw e) ctx n v after where
  returns all := by
    show EStateM.tryCatch x _ ctx = _
    rw [EStateM.tryCatch, takes.returns all]
  throws failed := by
    obtain ⟨e, left, thrown⟩ := takes.throws failed
    show ∃ e left, EStateM.tryCatch x (fun e => EStateM.bind (reset fails) fun _ => throw e) ctx =
      .error e left
    rw [EStateM.tryCatch, thrown]
    show ∃ e' left', EStateM.bind (reset fails) (fun _ => throw e) left = .error e' left'
    rw [EStateM.bind]
    cases reset fails left with
    | ok _ left' => exact ⟨e, left', rfl⟩
    | error e' left' => exact ⟨e', left', rfl⟩

/-- **`compute_hash` hashes its own data only**, whatever the context was left with. -/
theorem takes_computeHash (data : List UInt8) (out : PeerId512) :
    Takes fails (computeHash digest fails data out) ctx 3 (out.write digest data) none :=
  takes_catch (takes_bind (m := 1) (n := 2) takes_start
    (takes_bind (m := 1) (n := 1) (takes_put data) (takes_finish out)))

theorem takes_rounds (k : Nat) (peerId : PeerId512) :
    Takes fails (hashRounds digest fails k peerId) ctx (3 * k) ((rehash digest)^[k] peerId)
      (if k = 0 then ctx.data else none) := by
  induction k generalizing ctx peerId with
  | zero => exact takes_pure peerId
  | succ k ih =>
      have later := @ih ⟨none, ctx.calls + 3⟩ (rehash digest peerId)
      rw [ite_self] at later
      rw [if_neg k.succ_ne_zero, Function.iterate_succ_apply, Nat.mul_succ, Nat.add_comm (3 * k)]
      exact takes_bind (takes_computeHash peerId.id peerId) later

theorem takes_hashPeerId (data : List UInt8) :
    Takes fails (hashPeerId digest fails data) ctx (5 + 3 * rehashRounds) (peerIdOf digest data) none := by
  have loop := @takes_rounds digest fails ⟨none, ctx.calls + 5⟩ rehashRounds
    (PeerId512.zero.write digest (seeded data))
  rw [ite_self] at loop
  rw [show 5 + 3 * rehashRounds = 1 + (1 + (1 + (1 + (1 + 3 * rehashRounds)))) by omega]
  rw [hashPeerId]
  refine takes_bind takes_start (takes_bind (takes_put peerIdSeed1) (takes_bind (takes_put data)
    (takes_bind (takes_put peerIdSeed2) (takes_bind (takes_finish .zero) ?_))))
  exact loop

/-- The id is computed if and only if no call fails. -/
theorem hashPeerId_eq (data : List UInt8) (ctx : HashContext) (peerId : PeerId512) :
    (∃ after, hashPeerId digest fails data ctx = .ok peerId after) ↔
      Succeed fails ctx.calls (5 + 3 * rehashRounds) ∧ peerId = peerIdOf digest data := by
  have takes := @takes_hashPeerId digest fails ctx data
  constructor
  · rintro ⟨after, returned⟩
    have all : Succeed fails ctx.calls (5 + 3 * rehashRounds) := by
      by_contra failed
      obtain ⟨e, left, thrown⟩ := takes.throws failed
      rw [thrown] at returned
      cases returned
    rw [takes.returns all] at returned
    cases returned
    exact ⟨all, rfl⟩
  · rintro ⟨all, rfl⟩
    exact ⟨_, takes.returns all⟩

end Calls

/-! ## Two keys with one id -/

section Collision

variable {digest : Digest}

/-- Two different inputs with one digest. -/
def Digest.Collide (digest : Digest) (x y : List UInt8) : Prop :=
  x ≠ y ∧ digest.hash x = digest.hash y

theorem seeded_inj {data data' : List UInt8} (same : seeded data = seeded data') : data = data' := by
  rw [seeded, seeded] at same
  exact List.append_cancel_left (List.append_cancel_right same)

theorem hash_of_write {peerId peerId' : PeerId512} {data data' : List UInt8}
    (same : peerId.write digest data = peerId'.write digest data') :
    digest.hash data = digest.hash data' := by
  have ids := congrArg PeerId512.id same
  have size := (digest.length_hash data).trans (digest.length_hash data').symm
  exact (List.append_inj ids size).1

/-- **Two keys with one id** are one, or two different inputs on the way have one digest: the
keys between the seeds, or the ids after as many rounds. -/
theorem collision_of_id {data data' : List UInt8} (k : Nat)
    (same : peerIdAfter digest data k = peerIdAfter digest data' k) :
    data = data' ∨ digest.Collide (seeded data) (seeded data') ∨
      ∃ j < k, digest.Collide (peerIdAfter digest data j).id (peerIdAfter digest data' j).id := by
  induction k with
  | zero =>
      have digests := hash_of_write same
      by_cases inputs : seeded data = seeded data'
      · exact .inl (seeded_inj inputs)
      · exact .inr (.inl ⟨inputs, digests⟩)
  | succ k ih =>
      rw [peerIdAfter, peerIdAfter, Function.iterate_succ_apply', Function.iterate_succ_apply'] at same
      have digests := hash_of_write same
      by_cases inputs : (peerIdAfter digest data k).id = (peerIdAfter digest data' k).id
      · rcases ih (PeerId512.ext inputs) with one | first | ⟨j, before, collide⟩
        · exact .inl one
        · exact .inr (.inl first)
        · exact .inr (.inr ⟨j, by omega, collide⟩)
      · exact .inr (.inr ⟨k, k.lt_succ_self, inputs, digests⟩)

end Collision

end UdpStuff.Crypto
