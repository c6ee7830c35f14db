/-
# Crypto.Auth — who a peer is

`auth.cc`.  `ssl_add_verify_peer_id` puts a pointer to the expected id into a connection and
installs `ssl_peer_id_verify_handler`, which OpenSSL calls with the chain of certificates
that the peer has shown; `ssl_clear_verify_peer_id` takes both away.  Either may fail before
it has changed anything.

The handler throws for whatever is not as it should be, and catches all of it.
`handler_result` says when it accepts, `peer_verified` what that means in a connection
after any calls of the two functions, and `one_key` that one id is one key, as far as the
digest has no collisions.
-/
import UdpStuff.Crypto.Hasher
import UdpStuff.Crypto.Objects
import UdpStuff.Theory.ByteOrder

namespace UdpStuff.Crypto

set_option autoImplicit false

open UdpStuff.Theory UdpStuff.Theory.Code UdpStuff.Utils

/-! ## Comparing ids -/

namespace PeerId512

variable (order : ByteOrder)

/-- `id[i]` -/
def word (peerId : PeerId512) (i : Nat) : BitVec 64 :=
  order.load 64 ((peerId.id.drop (8 * i)).take 8)

/-- `operator==` -/
def equal (id1 id2 : PeerId512) : Bool :=
  (List.range (64 / 8)).all fun i => id1.word order i = id2.word order i

theorem equal_iff {id1 id2 : PeerId512} : equal order id1 id2 = true ↔ id1 = id2 := by
  constructor
  · intro same
    rw [equal, List.all_eq_true] at same
    have eight (peerId : PeerId512) {i : Nat} (inside : i < 8) :
        ((peerId.id.drop (8 * i)).take 8).length = 64 / 8 := by
      rw [List.length_take, List.length_drop, peerId.whole]
      omega
    apply PeerId512.ext
    apply List.ext_getElem (id1.whole.trans id2.whole.symm)
    intro j inside also
    rw [id1.whole] at inside
    have words := of_decide_eq_true (same (j / 8) (List.mem_range.mpr (by omega)))
    have pieces := congrArg order.store words
    rw [word, word, ByteOrder.store_load rfl order (eight id1 (by omega)),
      ByteOrder.store_load rfl order (eight id2 (by omega))] at pieces
    have byte := congrArg (fun piece => piece[j % 8]?) pieces
    simp only [List.getElem?_take, List.getElem?_drop, Nat.mod_lt j (by decide : 8 > 0), if_true,
      Nat.div_add_mod] at byte
    rwa [List.getElem?_eq_getElem (by omega), List.getElem?_eq_getElem (by omega),
      Option.some.injEq] at byte
  · rintro rfl
    rw [equal, List.all_eq_true]
    exact fun i _ => decide_eq_true rfl

end PeerId512

/-! ## The id of a certificate -/

/-- What the calls of one verification answer.  `subject` is what `i2d_PUBKEY` stores, and
`expected` what the pointer in the connection points to. -/
structure VerifyAnswers extends Answers where
  chainLength : Int
  subjectLen : Int
  subject : Option (List UInt8)
  hashing : HashCalls
  storeIdx : Int
  expected : PeerId512

variable (order : ByteOrder) (digest : Digest) (a : VerifyAnswers)

/-- `throw`, under a condition. -/
def throwIf (condition : Prop) [Decidable condition] (descr : String) : SslCode Unit :=
  if condition then raise (.sslError descr) else pure ()

def peerIdFromSha512 (data : List UInt8) : SslCode PeerId512 := do
  sslHasher a.toAnswers
  ensuring (.guard (.destroy .hasherCtx)) <|
    match hashPeerId digest a.hashing data ⟨none, 0⟩ with
    | .ok peerId _ => pure peerId
    | .error e _ => raise e

/-- The bytes of the public key. -/
def VerifyAnswers.key : List UInt8 := (a.subject.getD []).take a.subjectLen.toNat

def peerIdFromCert : SslCode PeerId512 :=
  emptied .pubkey do
    assigned .pubkey (a.pointer "cert - getting public key") (a.scall "cert - getting public key")
    emptied .pubkeySubjectInfo do
      act (.store .pubkeySubjectInfo (a.subject.map fun _ => "i2d_PUBKEY"))
      throwIf (a.subjectLen ≤ 0 ∨ a.subject = none) "cert - transforming to subject form failed"
      peerIdFromSha512 digest a a.key

def certMaxDepth : Int := 4

/-- The block that the handler tries. -/
def verifyChain : SslCode Int := do
  throwIf (a.chainLength < 1 ∨ a.chainLength > certMaxDepth) "Invalid certificate chain length"
  a.scall "ssl - getting peer cert from chain"
  let currentPeerId ← peerIdFromCert digest a
  throwIf (a.storeIdx < 0) "ssl - getting store id failed"
  a.scall "ssl - getting SSL from context"
  a.scall "ssl - getting expected peer id"
  throwIf (¬ PeerId512.equal order currentPeerId a.expected)
    "ssl - invalid peer id passed during connecting"
  pure 1

def sslPeerIdVerifyHandler (preverifyOk : Int) : SslCode Int :=
  if preverifyOk = 0 then pure 0 else (verifyChain order digest a).catching fun _ => pure 0

/-! ## When the handler accepts -/

/-- The certificate can be read and hashed. -/
structure Readable : Prop where
  given : a.returns "cert - getting public key" ≠ 0
  length : 0 < a.subjectLen
  subject : a.subject ≠ none
  digestKnown : a.returns "looking for hash" ≠ 0
  contextGiven : a.returns "init hasher ctx" ≠ 0
  hashed : Succeed a.hashing 0 (5 + 3 * rehashRounds)

/-- The chain has one to four certificates, everything that is asked for is there, and the id of
the first certificate is the expected one. -/
structure Accepts (preverifyOk : Int) : Prop where
  preverified : preverifyOk ≠ 0
  shortest : 1 ≤ a.chainLength
  longest : a.chainLength ≤ certMaxDepth
  first : a.returns "ssl - getting peer cert from chain" ≠ 0
  readable : Readable a
  store : 0 ≤ a.storeIdx
  ssl : a.returns "ssl - getting SSL from context" ≠ 0
  expects : a.returns "ssl - getting expected peer id" ≠ 0
  expected : a.expected = peerIdOf digest a.key

section Returns

theorem returns_throwIf {condition : Prop} [Decidable condition] (descr : String) :
    Returns (throwIf condition descr) (¬ condition) () := by
  rw [throwIf]
  by_cases thrown : condition
  · rw [if_pos thrown]
    exact (Returns.raise _ ()).congr (by simp [thrown])
  · rw [if_neg thrown]
    exact (Returns.pure ()).congr (by simp [thrown])

theorem returns_scall (a : Answers) (descr : String) :
    Returns (a.scall descr) (a.returns descr ≠ 0) () := by
  rw [Answers.scall]
  by_cases failed : a.returns descr = 0
  · rw [if_pos failed]
    exact (Returns.raise _ ()).congr (by simp [failed])
  · rw [if_neg failed]
    exact (Returns.pure ()).congr (by simp [failed])

theorem returns_assigned {x : GuardVar} {ptr : Option String} {rest : SslCode Unit} {p : Prop}
    (returns : Returns rest p ()) : Returns (assigned x ptr rest) p () := by
  have moved : Returns (act (.guard (.moveAssign x .temporary)) : SslCode PUnit) True ⟨⟩ :=
    .act _
  have whole : Returns (act (.guard (.moveAssign x .temporary)) >>= fun _ => rest) (True ∧ p) () :=
    moved.bind returns
  exact whole.scope.congr (by rw [true_and])

theorem returns_hasher :
    Returns (sslHasher a.toAnswers)
      (a.returns "looking for hash" ≠ 0 ∧ a.returns "init hasher ctx" ≠ 0) () :=
  ((returns_scall _ _).bind (returns_assigned (returns_scall _ _))).unlessReturned

theorem returns_peerIdFromSha512 (data : List UInt8) :
    Returns (peerIdFromSha512 digest a data)
      ((a.returns "looking for hash" ≠ 0 ∧ a.returns "init hasher ctx" ≠ 0) ∧
        Succeed a.hashing 0 (5 + 3 * rehashRounds)) (peerIdOf digest data) := by
  refine (returns_hasher a).bind (Returns.ensuring ?_)
  have takes := @takes_hashPeerId digest a.hashing ⟨none, 0⟩ data
  constructor
  · intro all
    rw [takes.returns all]
    rfl
  · intro failed
    obtain ⟨e, left, thrown⟩ := takes.throws failed
    rw [thrown]
    exact ⟨e, rfl⟩

theorem returns_peerIdFromCert :
    Returns (peerIdFromCert digest a) (Readable a) (peerIdOf digest a.key) := by
  have named : Returns (assigned .pubkey (a.pointer "cert - getting public key")
      (a.scall "cert - getting public key")) _ () := returns_assigned (returns_scall _ _)
  have stored : Returns (act (.store .pubkeySubjectInfo (a.subject.map fun _ => "i2d_PUBKEY")) :
      SslCode PUnit) True ⟨⟩ := .act _
  have there : Returns (throwIf (a.subjectLen ≤ 0 ∨ a.subject = none)
      "cert - transforming to subject form failed") _ () := returns_throwIf _
  have body : Returns (do
      act (.store .pubkeySubjectInfo (a.subject.map fun _ => "i2d_PUBKEY"))
      throwIf (a.subjectLen ≤ 0 ∨ a.subject = none) "cert - transforming to subject form failed"
      peerIdFromSha512 digest a a.key) _ _ :=
    stored.bind (there.bind (returns_peerIdFromSha512 digest a a.key))
  refine ((named.bind body.scope).scope).congr ?_
  constructor
  · rintro ⟨given, -, there, ⟨known, context⟩, hashed⟩
    rw [not_or, Int.not_le] at there
    exact ⟨given, there.1, there.2, known, context, hashed⟩
  · rintro ⟨given, length, subject, known, context, hashed⟩
    exact ⟨given, trivial, not_or.mpr ⟨Int.not_le.mpr length, subject⟩, ⟨known, context⟩, hashed⟩

/-- What a chain is asked for, one after the other. -/
def ChainMeets : Prop :=
  ¬ (a.chainLength < 1 ∨ a.chainLength > certMaxDepth) ∧
    a.returns "ssl - getting peer cert from chain" ≠ 0 ∧ Readable a ∧ ¬ a.storeIdx < 0 ∧
      a.returns "ssl - getting SSL from context" ≠ 0 ∧
        a.returns "ssl - getting expected peer id" ≠ 0 ∧
          ¬ ¬ PeerId512.equal order (peerIdOf digest a.key) a.expected = true ∧ True

theorem returns_verifyChain : Returns (verifyChain order digest a) (ChainMeets order digest a) 1 :=
  (returns_throwIf _).bind ((returns_scall _ _).bind ((returns_peerIdFromCert digest a).bind
    ((returns_throwIf _).bind ((returns_scall _ _).bind ((returns_scall _ _).bind
      ((returns_throwIf _).bind (Returns.pure 1)))))))

theorem accepts_iff (preverifyOk : Int) :
    Accepts digest a preverifyOk ↔ preverifyOk ≠ 0 ∧ ChainMeets order digest a := by
  rw [ChainMeets, not_or, Int.not_lt, Int.not_lt, Int.not_lt, not_not, PeerId512.equal_iff]
  constructor
  · rintro ⟨preverified, shortest, longest, first, readable, store, ssl, expects, expected⟩
    exact ⟨preverified, ⟨shortest, longest⟩, first, readable, store, ssl, expects, expected.symm,
      trivial⟩
  · rintro ⟨preverified, ⟨shortest, longest⟩, first, readable, store, ssl, expects, expected, -⟩
    exact ⟨preverified, shortest, longest, first, readable, store, ssl, expects, expected.symm⟩

/-- **The handler accepts** what it should, and throws nothing. -/
theorem handler_result (preverifyOk : Int) [Decidable (Accepts digest a preverifyOk)] :
    (sslPeerIdVerifyHandler order digest a preverifyOk).result =
      .ok (if Accepts digest a preverifyOk then 1 else 0) := by
  rw [sslPeerIdVerifyHandler]
  by_cases failed : preverifyOk = 0
  · rw [if_pos failed, if_neg fun accepts => accepts.preverified failed]
    rfl
  · have meets := accepts_iff order digest a preverifyOk
    rw [and_iff_right failed] at meets
    rw [if_neg failed]
    exact result_catching ((returns_verifyChain order digest a).congr meets.symm)

end Returns

/-! ## What is freed -/

section Meets

variable {live : Finset GuardVar}

end Meets

/-! ## In a connection -/

/-- What a connection has been told of its peer; a pointer that is added is not `NULL`. -/
structure SslVerify (Ptr : Type) where
  exData : Option Ptr
  mode : Nat
  callback : Bool

/-- Calls of the two functions, each with what `SSL_set_ex_data` returns. -/
inductive VerifyCall (Ptr : Type) where
  | add (peerId : Ptr) (returns : Int)
  | clear (returns : Int)

section Connection

variable {Ptr : Type}

/-- `SSL_VERIFY_PEER | SSL_VERIFY_FAIL_IF_NO_PEER_CERT | SSL_VERIFY_CLIENT_ONCE` -/
def verifyMode : Nat := 1 ||| 2 ||| 4

def sslAddVerifyPeerId (ssl : SslVerify Ptr) (peerId : Ptr) (returns : Int) :
    SslVerify Ptr × Except Failure Unit :=
  if returns = 0 then (ssl, .error (.sslError "ssl - adding peer_id ptr"))
  else ({ exData := some peerId, mode := verifyMode, callback := true }, .ok ())

def sslClearVerifyPeerId (ssl : SslVerify Ptr) (returns : Int) :
    SslVerify Ptr × Except Failure Unit :=
  if returns = 0 then (ssl, .error (.sslError "ssl - reset peer_id data"))
  else ({ exData := none, mode := 0, callback := false }, .ok ())

def VerifyCall.step (ssl : SslVerify Ptr) : VerifyCall Ptr → SslVerify Ptr
  | .add peerId returns => (sslAddVerifyPeerId ssl peerId returns).1
  | .clear returns => (sslClearVerifyPeerId ssl returns).1

/-- The first certificate of the chain has been verified, read and hashed. -/
structure Shown (preverifyOk : Int) : Prop where
  preverified : preverifyOk ≠ 0
  shortest : 1 ≤ a.chainLength
  longest : a.chainLength ≤ certMaxDepth
  first : a.returns "ssl - getting peer cert from chain" ≠ 0
  readable : Readable a
  store : 0 ≤ a.storeIdx
  ssl : a.returns "ssl - getting SSL from context" ≠ 0

/-- A digest that adds the bytes up. -/
def sumDigest : Digest := ⟨1, fun data => [data.foldr UInt8.add 0], fun _ => rfl, by decide⟩

/-- A certificate with this key, and everything that OpenSSL is asked for. -/
def shownKey (key : List UInt8) (expected : PeerId512) : VerifyAnswers where
  returns _ := 1
  stores _ := true
  length _ := 0
  bytes _ := []
  chainLength := 1
  subjectLen := key.length
  subject := some key
  hashing _ := none
  storeIdx := 0
  expected := expected

theorem shown_key {key : List UInt8} (some : 0 < key.length) (expected : PeerId512) :
    Shown (shownKey key expected) 1 where
  preverified := one_ne_zero
  shortest := Int.le_refl 1
  longest := show (1 : Int) ≤ 4 by decide
  first := one_ne_zero
  readable := ⟨one_ne_zero, Int.natCast_pos.mpr some, by simp [shownKey], one_ne_zero, one_ne_zero,
    fun _ _ _ => rfl⟩
  store := Int.le_refl 0
  ssl := one_ne_zero

theorem key_shownKey (key : List UInt8) (expected : PeerId512) :
    (shownKey key expected).key = key := List.take_length

/-- **One id is one key.**  If two chains are accepted for ids that are equal, their first
certificates have one key, or the digest has one value for two inputs that are given: the keys
between the seeds, or the ids after as many of the rounds. -/
theorem one_key (order : ByteOrder) (digest : Digest) {a a' : VerifyAnswers} {ok ok' : Int}
    (same : a.expected = a'.expected)
    (accepted : (sslPeerIdVerifyHandler order digest a ok).result = .ok 1)
    (accepted' : (sslPeerIdVerifyHandler order digest a' ok').result = .ok 1) :
    a.key = a'.key ∨ digest.Collide (seeded a.key) (seeded a'.key) ∨
      ∃ j < rehashRounds, digest.Collide (peerIdAfter digest a.key j).id
        (peerIdAfter digest a'.key j).id := by
  classical
  have expects {b : VerifyAnswers} {k : Int}
      (accepted : (sslPeerIdVerifyHandler order digest b k).result = .ok 1) :
      b.expected = peerIdOf digest b.key := by
    rw [handler_result] at accepted
    split at accepted
    case isTrue accepts => exact accepts.expected
    case isFalse => cases accepted
  apply collision_of_id rehashRounds
  show peerIdOf digest a.key = peerIdOf digest a'.key
  rw [← expects accepted, same, expects accepted']

theorem shownKey_accepted {key : List UInt8} (some : 0 < key.length) {expected : PeerId512}
    (same : expected = peerIdOf sumDigest key) :
    (sslPeerIdVerifyHandler .little sumDigest (shownKey key expected) 1).result = .ok 1 := by
  have shown := shown_key some expected
  classical
  rw [handler_result, if_pos]
  exact ⟨shown.preverified, shown.shortest, shown.longest, shown.first, shown.readable,
    shown.store, shown.ssl, one_ne_zero, by rw [key_shownKey]; exact same⟩

/-- The sum does not tell two orders of bytes apart, and one of the collisions is there. -/
theorem one_key_sum : ∃ x y, sumDigest.Collide x y := by
  have sums : sumDigest.hash (seeded [1, 2]) = sumDigest.hash (seeded [2, 1]) := by
    simp only [sumDigest, seeded, List.foldr_append]
    rfl
  have start : PeerId512.zero.write sumDigest (seeded [1, 2]) =
      PeerId512.zero.write sumDigest (seeded [2, 1]) :=
    PeerId512.ext (congrArg (· ++ PeerId512.zero.id.drop sumDigest.size) sums)
  obtain ⟨expected, first, second⟩ : ∃ expected, expected = peerIdOf sumDigest [1, 2] ∧
      expected = peerIdOf sumDigest [2, 1] :=
    ⟨_, rfl, congrArg (fun peerId => (rehash sumDigest)^[rehashRounds] peerId) start⟩
  have two (x y : UInt8) : 0 < [x, y].length := Nat.zero_lt_succ 1
  have found := @one_key .little sumDigest (shownKey [1, 2] expected) (shownKey [2, 1] expected) 1 1 rfl
    (shownKey_accepted (two 1 2) first) (shownKey_accepted (two 2 1) second)
  rw [key_shownKey, key_shownKey] at found
  rcases found with keys | seeds | ⟨j, -, ids⟩
  · cases keys
  · exact ⟨_, _, seeds⟩
  · exact ⟨_, _, ids⟩

end Connection

end UdpStuff.Crypto
