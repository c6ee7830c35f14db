/-
# Crypto.Objects — what becomes of OpenSSL's objects

The functions of `ssl.cc` and `sgn.cc` that are given objects by OpenSSL put each of them in
a `GuardPointer`: a variable, a temporary that is moved into one, or a member of the object
under construction.  Any call may fail; `scall` throws for a zero or `NULL`, and takes a
negative number for a success.

`Answers` is what the calls of one function return, by the texts of their checks; objects are
named by the text of the call that gave them.  `settled_objects`: whatever the answers, an
object is freed as often as it was given, but for the one that the function returns or
constructs; and the first check that fails, if one does, is the exception.
-/
import Mathlib.Data.Finset.Option
import UdpStuff.Crypto.Ssl
import UdpStuff.Theory.Scopes
import UdpStuff.Utils.Guards

namespace UdpStuff.Crypto

set_option autoImplicit false

open UdpStuff.Theory UdpStuff.Theory.Code UdpStuff.Utils

/-- The guards of these functions, by their names; `returned` is the caller's. -/
inductive GuardVar where
  | ctx
  | ssl
  | pkey
  | key
  | pubkey
  | pubkeySubjectInfo
  | hasherCtx
  | temporary
  | returned
deriving DecidableEq

/-- An operation on guards, or a pointer that OpenSSL stores in one itself. -/
inductive PointerOp where
  | guard (op : GuardOp GuardVar (Option String))
  | store (x : GuardVar) (ptr : Option String)

abbrev Objects := Guards GuardVar (Option String) String

/-- Nothing may be stored over a pointer. -/
def Objects.step (s : Objects) : PointerOp → Option Objects
  | .guard op => GuardPointer.step s op
  | .store x ptr => if x ∈ s.vars.live ∧ s.vars.val x = none then some (s.write x ptr) else none

abbrev SslCode := Code PointerOp Failure

/-- What the calls of a function answer, each by its text: what they return, with zero for
`NULL`, whether they store an object, and the lengths and bytes that they report. -/
structure Answers where
  returns : String → Int
  stores : String → Bool
  length : String → Nat
  bytes : String → List UInt8

namespace Answers

variable (a : Answers)

/-- The object that a call returns. -/
def pointer (descr : String) : Option String := if a.returns descr = 0 then none else some descr

def stored (descr : String) : Option String := if a.stores descr then some descr else none

/-- `scall` -/
def scall (descr : String) : SslCode Unit :=
  if a.returns descr = 0 then raise (.sslError descr) else pure ()

end Answers

/-- `Guard x = call()`, to the end of its block. -/
def declared {α : Type} (x : GuardVar) (ptr : Option String) (block : SslCode α) : SslCode α :=
  scope (.guard (.construct x ptr)) (.guard (.destroy x)) block

/-- A temporary is moved into `x`, and destroyed at the end of the expression. -/
def assigned (x : GuardVar) (ptr : Option String) (rest : SslCode Unit) : SslCode Unit :=
  scope (.guard (.construct .temporary ptr)) (.guard (.destroy .temporary)) do
    act (.guard (.moveAssign x .temporary))
    rest

/-- A default constructed guard, to the end of its block. -/
def emptied {α : Type} (x : GuardVar) (block : SslCode α) : SslCode α :=
  scope (.guard (.default x)) (.guard (.destroy x)) block

/-- A member, in the constructor of its object. -/
def constructed {α : Type} (x : GuardVar) (body : SslCode α) : SslCode α :=
  unlessReturned (.guard (.default x)) (.guard (.destroy x)) body

/-! ## The functions -/

section Functions

variable (a : Answers)

def sslCreateContext : SslCode Unit :=
  declared .ctx (a.pointer "creating ssl context") do
    a.scall "creating ssl context"
    a.scall "ssl ctx - setting minimum protocol version"
    a.scall "ssl ctx - setting cipher list"
    a.scall "ssl ctx - enabling ocsp stapling"
    a.scall "ssl ctx - setting session cache mode"
    a.scall "ssl ctx - setting session id context"
    act (.guard (.moveConstruct .returned .ctx))

def sslCreate : SslCode Unit :=
  emptied .ssl do
    assigned .ssl (a.pointer "initializing ssl connection")
      (a.scall "initializing ssl connection")
    a.scall "ssl connection - attaching socket"
    act (.guard (.moveConstruct .returned .ssl))

/-- The constructors of `SSLSigner` and `SSLVerifier`. -/
def keyedContext (newKey init : String) : SslCode Unit :=
  constructed .ctx <|
    declared .pkey (a.pointer newKey) do
      a.scall newKey
      assigned .ctx (a.pointer "EVP_MD_CTX_create") (pure ())
      a.scall "EVP_MD_CTX_create"
      a.scall init

def sslSigner : SslCode Unit :=
  keyedContext a "EVP_PKEY_new_raw_private_key" "signer - inituializing signing context"

def sslVerifier : SslCode Unit :=
  keyedContext a "EVP_PKEY_new_raw_public_key" "verifier - initializing verification context"

/-- The constructor of `SSLHasher`. -/
def sslHasher : SslCode Unit :=
  constructed .hasherCtx do
    a.scall "looking for hash"
    assigned .hasherCtx (a.pointer "init hasher ctx") (a.scall "init hasher ctx")

/-- The texts of a key generator. -/
structure KeygenTexts where
  init : String
  setting : String
  keygen : String
  pubkeyLen : String
  pubkey : String
  privkeyLen : String
  privkey : String

/-- `resize`, with zeros. -/
def resized (bytes : List UInt8) (n : Nat) : List UInt8 :=
  bytes.take n ++ List.replicate (n - bytes.length) 0

/-- A key is asked for twice: first for its length, then for its bytes. -/
def rawKey (lenText text : String) (out : List UInt8) : SslCode (List UInt8) := do
  a.scall lenText
  let out := resized out (a.length lenText)
  a.scall text
  pure ((a.bytes text).take out.length ++ out.drop (a.bytes text).length)

def generateKey (texts : KeygenTexts) (pubkey privkey : List UInt8) :
    SslCode (List UInt8 × List UInt8) :=
  declared .pkey (a.pointer "EVP_PKEY_CTX_new_id") do
    a.scall "EVP_PKEY_CTX_new_id"
    a.scall texts.init
    a.scall texts.setting
    emptied .key do
      act (.store .key (a.stored texts.keygen))
      a.scall texts.keygen
      let pubkey ← rawKey a texts.pubkeyLen texts.pubkey pubkey
      let privkey ← rawKey a texts.privkeyLen texts.privkey privkey
      pure (pubkey, privkey)

def rsaTexts : KeygenTexts where
  init := "rsa keygen - init"
  setting := "rsa keygen - set bits"
  keygen := "rsa keygen"
  pubkeyLen := "rsa keygen - get pubkey len"
  pubkey := "rsa keygen - get pubkey"
  privkeyLen := "rsa keygen - get privkey len"
  privkey := "rsa keygen - get privkey"

def ecdsaTexts : KeygenTexts where
  init := "ecdsa keygen - init"
  setting := "ecdsa keygen - set curve"
  keygen := "ecdca keygen"
  pubkeyLen := "ecdsa keygen - get pubkey len"
  pubkey := "ecdsa keygen - get pubkey"
  privkeyLen := "ecdsa keygen - get privkey len"
  privkey := "ecdsa keygen - get privkey"

def generateRsaKey (pubkey privkey : List UInt8) : SslCode (List UInt8 × List UInt8) :=
  generateKey a rsaTexts pubkey privkey

def generateEcdsaKey (pubkey privkey : List UInt8) : SslCode (List UInt8 × List UInt8) :=
  generateKey a ecdsaTexts pubkey privkey

end Functions

/-! ## Objects are conserved -/

/-- The object that an operation brings in. -/
def PointerOp.given : PointerOp → Option String
  | .guard op => op.given id
  | .store _ ptr => ptr

/-- How often a run is given an object. -/
def timesGiven (ops : List PointerOp) (r : String) : Nat :=
  (ops.map fun op => Vars.worth op.given r).sum

theorem step_accounted {s s' : Objects} {op : PointerOp} (stepped : s.step op = some s')
    (r : String) : s'.accounted id r = s.accounted id r + Vars.worth op.given r := by
  cases op with
  | guard op => exact GuardPointer.step_accounted stepped r
  | store x ptr =>
      obtain ⟨⟨alive, empty⟩, rfl⟩ := possible_iff.mp stepped
      have written := s.accounted_write id alive ptr r
      rw [empty] at written
      exact written

/-! ## What the operations do -/

/-- The guards that there are, and what is known of what is in them. -/
def At (live : Finset GuardVar) (known : (GuardVar → Option String) → Prop) (s : Objects) : Prop :=
  s.vars.live = live ∧ s.handed = [] ∧ known s.vars.val

section Steps

variable {live : Finset GuardVar} {known known' : (GuardVar → Option String) → Prop}
  {x other : GuardVar} {ptr : Option String}

theorem steps_construct (new : x ∉ live)
    (knows : ∀ val, known val → known' (Function.update val x ptr)) :
    Steps Objects.step (At live known) (.guard (.construct x ptr)) (At (insert x live) known') := by
  rintro s ⟨rfl, handed, before⟩
  exact ⟨_, if_pos new, rfl, handed, knows _ before⟩

theorem steps_default (new : x ∉ live)
    (knows : ∀ val, known val → known' (Function.update val x none)) :
    Steps Objects.step (At live known) (.guard (.default x)) (At (insert x live) known') := by
  rintro s ⟨rfl, handed, before⟩
  exact ⟨_, if_pos new, rfl, handed, knows _ before⟩

theorem steps_destroy (alive : x ∈ live) :
    Steps Objects.step (At live known) (.guard (.destroy x)) (At (live.erase x) known) := by
  rintro s ⟨rfl, handed, before⟩
  exact ⟨_, if_pos alive, rfl, handed, before⟩

theorem steps_moveAssign (alive : x ∈ live) (alive' : other ∈ live)
    (knows : ∀ val, known val →
      known' (Function.update (Function.update val x (val other)) other none)) :
    Steps Objects.step (At live known) (.guard (.moveAssign x other)) (At live known') := by
  rintro s ⟨rfl, handed, before⟩
  exact ⟨_, if_pos ⟨alive, alive'⟩, rfl, handed, knows _ before⟩

theorem steps_moveConstruct (new : x ∉ live) (alive : other ∈ live)
    (knows : ∀ val, known val →
      known' (Function.update (Function.update val x (val other)) other none)) :
    Steps Objects.step (At live known) (.guard (.moveConstruct x other))
      (At (insert x live) known') := by
  rintro s ⟨rfl, handed, before⟩
  refine ⟨_, if_pos ⟨new, alive⟩, rfl, handed, ?_⟩
  have differ : other ≠ x := fun same => new (same ▸ alive)
  show known' (Function.update (Function.update (Function.update s.vars.val x none) x _) other none)
  rw [Function.update_idem, Vars.val_add_of_ne _ _ differ]
  exact knows _ before

theorem steps_store (alive : x ∈ live) (empty : ∀ val, known val → val x = none)
    (knows : ∀ val, known val → known' (Function.update val x ptr)) :
    Steps Objects.step (At live known) (.store x ptr) (At live known') := by
  rintro s ⟨rfl, handed, before⟩
  exact ⟨_, if_pos ⟨alive, empty _ before⟩, rfl, handed, knows _ before⟩

end Steps

/-! ## What the code does -/

/-- The guards that there are after an exception, and after a return. -/
def Exits (thrown returned : Finset GuardVar) (known : (GuardVar → Option String) → Prop)
    {α : Type} : Except Failure α → Objects → Prop
  | .error _ => At thrown fun _ => True
  | .ok _ => At returned known

section Rules

variable {α β : Type} {a : Answers} {live returned thrown between : Finset GuardVar}
  {known known' known'' : (GuardVar → Option String) → Prop} {x : GuardVar} {ptr : Option String}

theorem At.forget {s : Objects} (at' : At live known s) : At live (fun _ => True) s :=
  ⟨at'.1, at'.2.1, trivial⟩

theorem meets_pure (v : α) (knows : ∀ val, known val → known' val) :
    Meets Objects.step (At live known) (pure v : SslCode α) (Exits thrown live known') :=
  .pure v fun _ ⟨alive, handed, before⟩ => ⟨alive, handed, knows _ before⟩

theorem meets_act {op : PointerOp}
    (steps : Steps Objects.step (At live known) op (At returned known')) :
    Meets Objects.step (At live known) (act op : SslCode PUnit) (Exits thrown returned known') :=
  Meets.act steps

theorem meets_seq {c : SslCode α} {f : α → SslCode β}
    (first : Meets Objects.step (At live known) c (Exits thrown between known'))
    (goesOn : ∀ v, Meets Objects.step (At between known') (f v) (Exits thrown returned known'')) :
    Meets Objects.step (At live known) (c >>= f) (Exits thrown returned known'') :=
  first.bind goesOn fun _ _ left => left

theorem meets_scall (descr : String) (knows : a.returns descr ≠ 0 → ∀ val, known val → known' val) :
    Meets Objects.step (At live known) (a.scall descr) (Exits live live known') := by
  rw [Answers.scall]
  by_cases fails : a.returns descr = 0
  · rw [if_pos fails]
    exact .raise _ fun _ at' => at'.forget
  · rw [if_neg fails]
    exact meets_pure () (knows fails)

/-- A check that passes leaves everything as it is. -/
theorem meets_check {descr : String} {f : Unit → SslCode β}
    (goesOn : a.returns descr ≠ 0 →
      Meets Objects.step (At live known) (f ()) (Exits live returned known')) :
    Meets Objects.step (At live known) (a.scall descr >>= f) (Exits live returned known') := by
  rw [Answers.scall]
  by_cases fails : a.returns descr = 0
  · rw [if_pos fails]
    exact .raise _ fun _ at' => at'.forget
  · rw [if_neg fails]
    exact meets_seq (meets_pure () fun _ before => before) fun _ => goesOn fails

/-- After an exception a guard of the block is gone. -/
theorem steps_unwind (new : x ∉ live) :
    Steps Objects.step (At (insert x live) fun _ => True) (.guard (.destroy x))
      (At live fun _ => True) := by
  have destroys := @steps_destroy (insert x live) (fun _ => True) x (Finset.mem_insert_self x live)
  rwa [Finset.erase_insert new] at destroys

theorem meets_scope {enter : PointerOp} {block : SslCode α} (new : x ∉ live)
    (still : x ∈ between) (erased : between.erase x = returned)
    (enters : Steps Objects.step (At live known) enter (At (insert x live) known'))
    (inside : Meets Objects.step (At (insert x live) known') block
      (Exits (insert x live) between known'')) :
    Meets Objects.step (At live known) (block.scope enter (.guard (.destroy x)))
      (Exits live returned known'') := by
  subst erased
  refine Meets.scope enters inside fun r => ?_
  cases r with
  | error e => exact steps_unwind new
  | ok v => exact steps_destroy still

theorem meets_declared (between : Finset GuardVar) (known' : (GuardVar → Option String) → Prop)
    {block : SslCode α} (new : x ∉ live) (still : x ∈ between)
    (erased : between.erase x = returned)
    (knows : ∀ val, known val → known' (Function.update val x ptr))
    (inside : Meets Objects.step (At (insert x live) known') block
      (Exits (insert x live) between known'')) :
    Meets Objects.step (At live known) (declared x ptr block) (Exits live returned known'') :=
  meets_scope new still erased (steps_construct new knows) inside

theorem meets_emptied (between : Finset GuardVar) (known' : (GuardVar → Option String) → Prop)
    {block : SslCode α} (new : x ∉ live) (still : x ∈ between)
    (erased : between.erase x = returned)
    (knows : ∀ val, known val → known' (Function.update val x none))
    (inside : Meets Objects.step (At (insert x live) known') block
      (Exits (insert x live) between known'')) :
    Meets Objects.step (At live known) (emptied x block) (Exits live returned known'') :=
  meets_scope new still erased (steps_default new knows) inside

theorem meets_constructed {body : SslCode α} (new : x ∉ live)
    (inside : Meets Objects.step (At (insert x live) fun _ => True) body
      (Exits (insert x live) returned known)) :
    Meets Objects.step (At live fun _ => True) (constructed x body) (Exits live returned known) :=
  Meets.unlessReturned (steps_default new fun _ _ => trivial) inside (fun _ _ done => done)
    fun _ => steps_unwind new

/-- The pointer of a temporary gets into `x`; the check of the same expression knows of it. -/
theorem meets_assigned {rest : SslCode Unit} (new : .temporary ∉ live) (alive : x ∈ live)
    (inside : Meets Objects.step (At (insert .temporary live) fun val => val x = ptr) rest
      (Exits (insert .temporary live) (insert .temporary live) known')) :
    Meets Objects.step (At live known) (assigned x ptr rest) (Exits live live known') := by
  have differ : x ≠ .temporary := fun same => new (same ▸ alive)
  have there := Finset.mem_insert_self GuardVar.temporary live
  have enters : Steps Objects.step (At live known) (.guard (.construct .temporary ptr))
      (At (insert .temporary live) fun val => val .temporary = ptr) :=
    steps_construct new fun _ _ => Function.update_self _ _ _
  refine meets_scope new there (Finset.erase_insert new) enters
    (meets_seq (meets_act ?_) fun _ => inside)
  refine steps_moveAssign (Finset.mem_insert_of_mem alive) there fun val given => ?_
  rw [Function.update_of_ne differ, Function.update_self, given]

end Rules

/-! ## The functions, one by one -/

section Each

variable (a : Answers)

theorem pointer_of_returns {a : Answers} {descr : String} (passes : a.returns descr ≠ 0) :
    a.pointer descr = some descr := if_neg passes

theorem sslCreateContext_meets :
    Meets Objects.step (At ∅ fun _ => True) (sslCreateContext a)
      (Exits ∅ {.returned} fun val => val .returned = some "creating ssl context") := by
  rw [sslCreateContext]
  refine meets_declared {.returned, .ctx} (fun val => val .ctx = a.pointer "creating ssl context")
    (by decide) (by decide) (by decide) (fun _ _ => Function.update_self _ _ _)
    (meets_check fun given => ?_)
  rw [pointer_of_returns given]
  refine meets_check fun _ => meets_check fun _ => meets_check fun _ => meets_check fun _ =>
    meets_check fun _ => meets_act ?_
  apply steps_moveConstruct (by decide) (by decide)
  intro val there
  rw [Function.update_of_ne (by decide), Function.update_self]
  exact there

theorem sslCreate_meets :
    Meets Objects.step (At ∅ fun _ => True) (sslCreate a)
      (Exits ∅ {.returned} fun val => val .returned = some "initializing ssl connection") := by
  rw [sslCreate]
  refine meets_emptied {.returned, .ssl} (fun _ => True) (by decide) (by decide) (by decide)
    (fun _ _ => trivial) ?_
  have made : Meets Objects.step (At {.ssl} fun _ => True)
      (assigned .ssl (a.pointer "initializing ssl connection")
        (a.scall "initializing ssl connection"))
      (Exits {.ssl} {.ssl} fun val => val .ssl = some "initializing ssl connection") :=
    meets_assigned (by decide) (by decide)
      (meets_scall _ fun given _ there => there.trans (pointer_of_returns given))
  refine meets_seq made fun _ => meets_check fun _ => meets_act ?_
  apply steps_moveConstruct (by decide) (by decide)
  intro val there
  rw [Function.update_of_ne (by decide), Function.update_self]
  exact there

theorem keyedContext_meets (newKey init : String) :
    Meets Objects.step (At ∅ fun _ => True) (keyedContext a newKey init)
      (Exits ∅ {.ctx} fun val => val .ctx = some "EVP_MD_CTX_create") := by
  rw [keyedContext]
  refine meets_constructed (by decide) (meets_declared {.pkey, .ctx} (fun _ => True) (by decide)
    (by decide) (by decide) (fun _ _ => trivial) (meets_check fun _ => ?_))
  refine meets_seq (meets_assigned (by decide) (by decide) (meets_pure () fun _ there => there))
    fun _ => meets_check fun given => ?_
  rw [pointer_of_returns given]
  exact meets_scall _ fun _ _ there => there

theorem sslHasher_meets {live : Finset GuardVar} (new : .hasherCtx ∉ live)
    (free : .temporary ∉ live) :
    Meets Objects.step (At live fun _ => True) (sslHasher a)
      (Exits live (insert .hasherCtx live) fun val => val .hasherCtx = some "init hasher ctx") := by
  refine meets_constructed new (meets_check fun _ => ?_)
  refine meets_assigned (by simp [free]) (Finset.mem_insert_self _ _)
    (meets_scall _ fun given _ there => there.trans (pointer_of_returns given))

theorem rawKey_meets {live : Finset GuardVar} (lenText text : String) (out : List UInt8) :
    Meets Objects.step (At live fun _ => True) (rawKey a lenText text out)
      (Exits live live fun _ => True) :=
  meets_check fun _ => meets_check fun _ => meets_pure _ fun _ there => there

theorem generateKey_meets (texts : KeygenTexts) (pubkey privkey : List UInt8) :
    Meets Objects.step (At ∅ fun _ => True) (generateKey a texts pubkey privkey)
      (Exits ∅ ∅ fun _ => True) := by
  rw [generateKey]
  refine meets_declared {.pkey} (fun _ => True) (by decide) (by decide) (by decide)
    (fun _ _ => trivial) ?_
  refine meets_check fun _ => meets_check fun _ => meets_check fun _ => ?_
  refine meets_emptied {.key, .pkey} (fun val => val .key = none) (by decide) (by decide)
    (by decide) (fun _ _ => Function.update_self _ _ _) ?_
  have stored : Steps Objects.step (At {.key, .pkey} fun val => val .key = none)
      (.store .key (a.stored texts.keygen)) (At {.key, .pkey} fun _ => True) :=
    steps_store (by decide) (fun _ there => there) fun _ _ => trivial
  refine meets_seq (meets_act stored) fun _ => meets_check fun _ => ?_
  exact meets_seq (rawKey_meets a _ _ _) fun _ => meets_seq (rawKey_meets a _ _ _) fun _ =>
    meets_pure _ fun _ there => there

end Each

/-! ## Which exception -/

/-- The exception of the first check that fails. -/
def firstFailure (a : Answers) (checks : List String) : Option Failure :=
  (checks.find? fun descr => a.returns descr = 0).map .sslError

/-- The code makes these checks, in order, up to the first that fails. -/
def Follows (a : Answers) {α : Type} (c : SslCode α) (checks : List String) : Prop :=
  ∀ e, c.result = .error e ↔ firstFailure a checks = some e

section Follows

variable {a : Answers} {α β : Type} {checks later : List String}

theorem firstFailure_append :
    firstFailure a (checks ++ later) = (firstFailure a checks).or (firstFailure a later) := by
  rw [firstFailure, List.find?_append, firstFailure, firstFailure, Option.map_or]

theorem follows_pure (v : α) : Follows a (pure v) [] :=
  fun _ => ⟨(nomatch ·), (nomatch ·)⟩

theorem follows_act (op : PointerOp) : Follows a (act op) [] :=
  fun _ => ⟨(nomatch ·), (nomatch ·)⟩

theorem follows_scall (descr : String) : Follows a (a.scall descr) [descr] := by
  intro e
  rw [Answers.scall, firstFailure, List.find?_singleton]
  by_cases fails : a.returns descr = 0
  · rw [if_pos fails, if_pos (decide_eq_true fails)]
    show Except.error _ = Except.error e ↔ some _ = some e
    rw [Except.error.injEq, Option.some.injEq]
  · rw [if_neg fails, if_neg (by simp [fails])]
    exact @follows_pure a Unit () e

theorem follows_seq {c : SslCode α} {f : α → SslCode β} (first : Follows a c checks)
    (goesOn : ∀ v, Follows a (f v) later) : Follows a (c >>= f) (checks ++ later) := by
  intro e
  rw [firstFailure_append]
  obtain ⟨ops, result⟩ := c
  cases result with
  | error e' =>
      rw [(first e').mp rfl, Option.some_or, Option.some.injEq]
      exact Except.error.injEq e' e ▸ Iff.rfl
  | ok v =>
      have passes : firstFailure a checks = none := by
        cases failed : firstFailure a checks with
        | none => rfl
        | some e' => cases (first e').mpr failed
      rw [passes, Option.none_or]
      exact goesOn v e

theorem follows_check {descr : String} {f : Unit → SslCode β} (goesOn : Follows a (f ()) checks) :
    Follows a (a.scall descr >>= f) (descr :: checks) :=
  follows_seq (follows_scall descr) fun _ => goesOn

/-- The ends of scopes make no checks. -/
theorem follows_scope {enter leave : PointerOp} {body : SslCode α}
    (follows : Follows a body checks) : Follows a (body.scope enter leave) checks := follows

theorem follows_assigned {x : GuardVar} {ptr : Option String} {rest : SslCode Unit}
    (follows : Follows a rest checks) : Follows a (assigned x ptr rest) checks :=
  follows_scope (follows_seq (follows_act (.guard (.moveAssign x .temporary))) fun _ => follows)

theorem follows_constructed {x : GuardVar} {body : SslCode α} (follows : Follows a body checks) :
    Follows a (constructed x body) checks := by
  intro e
  rw [← follows e, constructed, unlessReturned]
  cases body.result <;> rfl

end Follows

/-! ## Settled -/

/-- What is left is what the code keeps, if it returns.  Every object has been freed as often as
it was given, and the one that is kept once less. -/
def SettledObjects {α : Type} (c : SslCode α) (keeps : Option (GuardVar × String)) : Prop :=
  let kept := match c.result with
    | .ok _ => keeps
    | .error _ => none
  ∃ s, run Objects.step (.start none) c.ops = some s ∧ s.handed = [] ∧
    s.vars.live = (kept.map Prod.fst).toFinset ∧
    (∀ k ∈ kept, s.vars.val k.1 = some k.2) ∧
    ∀ r, s.released.count r + Vars.worth (kept.map Prod.snd) r = timesGiven c.ops r

theorem settled_of_meets {α : Type} {c : SslCode α} {keeps : Option (GuardVar × String)}
    (meets : Meets Objects.step (At ∅ fun _ => True) c
      (Exits ∅ (keeps.map Prod.fst).toFinset fun val => ∀ k ∈ keeps, val k.1 = some k.2)) :
    SettledObjects c keeps := by
  obtain ⟨s, ran, exits⟩ := meets (.start none) ⟨rfl, rfl, trivial⟩
  have account (r : String) : s.accounted id r = timesGiven c.ops r := by
    have one (s : Objects) (op : PointerOp) (s' : Objects) (stepped : s.step op = some s') :
        s'.accounted id r = s.accounted id r + Vars.worth op.given r := step_accounted stepped r
    rw [run_count (fun s : Objects => s.accounted id r) one ran]
    exact Nat.zero_add _
  -- what the guards that are left hold
  have settled (kept : Option (GuardVar × String)) (handed : s.handed = [])
      (alive : s.vars.live = (kept.map Prod.fst).toFinset)
      (holds : ∀ k ∈ kept, s.vars.val k.1 = some k.2) (r : String) :
      s.released.count r + Vars.worth (kept.map Prod.snd) r = timesGiven c.ops r := by
    rw [← account r, Guards.accounted, handed, List.count_nil, Vars.holders, alive]
    cases kept with
    | none =>
        rw [Option.map_none, Option.map_none, Option.toFinset_none, Finset.filter_empty,
          Finset.card_empty]
        exact (Nat.zero_add _).symm
    | some k =>
        rw [Option.map_some, Option.map_some, Option.toFinset_some, Finset.filter_singleton,
          holds k rfl, Vars.worth]
        split <;> simp_all [Nat.add_comm]
  rw [SettledObjects]
  cases ended : c.result with
  | error e =>
      rw [ended] at exits
      have nothing : ∀ k ∈ (none : Option (GuardVar × String)), s.vars.val k.1 = some k.2 :=
        fun k member => absurd member (Option.not_mem_none k)
      exact ⟨s, ran, exits.2.1, exits.1, nothing, settled none exits.2.1 exits.1 nothing⟩
  | ok v =>
      rw [ended] at exits
      exact ⟨s, ran, exits.2.1, exits.1, exits.2.2, settled keeps exits.2.1 exits.1 exits.2.2⟩

/-! ## The functions, together -/

/-- Settled, and the first check that fails is what is thrown. -/
structure Settles (a : Answers) {α : Type} (c : SslCode α) (checks : List String)
    (keeps : Option (GuardVar × String)) : Prop where
  objects : SettledObjects c keeps
  follows : Follows a c checks

def KeygenTexts.checks (texts : KeygenTexts) : List String :=
  ["EVP_PKEY_CTX_new_id", texts.init, texts.setting, texts.keygen, texts.pubkeyLen, texts.pubkey,
    texts.privkeyLen, texts.privkey]

section Together

variable (a : Answers)

theorem known_some {x : GuardVar} {r : String} {val : GuardVar → Option String}
    (there : val x = some r) : ∀ k ∈ some (x, r), val k.1 = some k.2 := by
  rintro k same
  cases same
  exact there

/-- What is kept is one guard, with the object that it is known to have. -/
theorem settled_of_keeps {α : Type} {c : SslCode α} {x : GuardVar} {r : String}
    (meets : Meets Objects.step (At ∅ fun _ => True) c (Exits ∅ {x} fun val => val x = some r)) :
    SettledObjects c (some (x, r)) := by
  refine settled_of_meets (meets.mono (fun _ before => before) fun result s exits => ?_)
  cases result with
  | error e => exact exits
  | ok v => exact ⟨exits.1, exits.2.1, known_some exits.2.2⟩

theorem settles_keyedContext (newKey init : String) :
    Settles a (keyedContext a newKey init) [newKey, "EVP_MD_CTX_create", init]
      (some (.ctx, "EVP_MD_CTX_create")) :=
  ⟨settled_of_keeps (keyedContext_meets a newKey init),
    follows_constructed (follows_scope (follows_check (follows_seq
      (follows_assigned (follows_pure ())) fun _ => follows_check (follows_scall init))))⟩

theorem follows_rawKey (lenText text : String) (out : List UInt8) :
    Follows a (rawKey a lenText text out) [lenText, text] :=
  follows_check (follows_check (follows_pure _))

theorem settles_generateKey (texts : KeygenTexts) (pubkey privkey : List UInt8) :
    Settles a (generateKey a texts pubkey privkey) texts.checks none := by
  refine ⟨settled_of_meets ((generateKey_meets a texts pubkey privkey).mono
    (fun _ before => before) fun result s exits => ?_), ?_⟩
  · cases result with
    | error e => exact exits
    | ok v => exact ⟨exits.1, exits.2.1, fun k member => absurd member (Option.not_mem_none k)⟩
  · refine follows_scope (follows_check (follows_check (follows_check (follows_scope ?_))))
    refine follows_seq (follows_act (.store .key (a.stored texts.keygen))) fun _ => ?_
    exact follows_check (follows_seq (follows_rawKey a _ _ _) fun _ =>
      follows_seq (follows_rawKey a _ _ _) fun _ => follows_pure _)

theorem length_resized (bytes : List UInt8) (n : Nat) : (resized bytes n).length = n := by
  rw [resized, List.length_append, List.length_take, List.length_replicate]
  omega

/-- A key that is returned is as long as was reported. -/
theorem length_rawKey {a : Answers} {lenText text : String} {out key : List UInt8}
    (returned : (rawKey a lenText text out).result = .ok key) : key.length = a.length lenText := by
  obtain ⟨-, -, rest⟩ := bind_ok returned
  obtain ⟨-, -, last⟩ := bind_ok rest
  cases last
  rw [List.length_append, List.length_take, List.length_drop, length_resized]
  omega

theorem length_generateKey {a : Answers} {texts : KeygenTexts} {pubkey privkey : List UInt8}
    {keys : List UInt8 × List UInt8}
    (returned : (generateKey a texts pubkey privkey).result = .ok keys) :
    keys.1.length = a.length texts.pubkeyLen ∧ keys.2.length = a.length texts.privkeyLen := by
  obtain ⟨-, -, created⟩ := bind_ok (show (_ >>= _ : SslCode _).result = .ok keys from returned)
  obtain ⟨-, -, initialized⟩ := bind_ok created
  obtain ⟨-, -, set⟩ := bind_ok initialized
  obtain ⟨-, -, stored⟩ := bind_ok (show (_ >>= _ : SslCode _).result = .ok keys from set)
  obtain ⟨-, -, generated⟩ := bind_ok stored
  obtain ⟨first, gotFirst, rest⟩ := bind_ok generated
  obtain ⟨second, gotSecond, last⟩ := bind_ok rest
  cases last
  exact ⟨length_rawKey gotFirst, length_rawKey gotSecond⟩

end Together

/-- **Objects are freed once.**  Whatever OpenSSL answers, each function of `ssl.cc` and `sgn.cc`
frees every object that it is given, once for each time, except for the one that it returns or
keeps as a member; and it throws exactly if one of its checks fails, with the text of the first
that does.  Keys that are returned are as long as OpenSSL says. -/
theorem settled_objects (a : Answers) :
    Settles a (sslCreateContext a)
      ["creating ssl context", "ssl ctx - setting minimum protocol version",
        "ssl ctx - setting cipher list", "ssl ctx - enabling ocsp stapling",
        "ssl ctx - setting session cache mode", "ssl ctx - setting session id context"]
      (some (.returned, "creating ssl context")) ∧
    Settles a (sslCreate a) ["initializing ssl connection", "ssl connection - attaching socket"]
      (some (.returned, "initializing ssl connection")) ∧
    Settles a (sslSigner a)
      ["EVP_PKEY_new_raw_private_key", "EVP_MD_CTX_create",
        "signer - inituializing signing context"] (some (.ctx, "EVP_MD_CTX_create")) ∧
    Settles a (sslVerifier a)
      ["EVP_PKEY_new_raw_public_key", "EVP_MD_CTX_create",
        "verifier - initializing verification context"] (some (.ctx, "EVP_MD_CTX_create")) ∧
    Settles a (sslHasher a) ["looking for hash", "init hasher ctx"]
      (some (.hasherCtx, "init hasher ctx")) ∧
    ∀ pubkey privkey, Settles a (generateRsaKey a pubkey privkey) rsaTexts.checks none ∧
      Settles a (generateEcdsaKey a pubkey privkey) ecdsaTexts.checks none ∧
      ∀ texts keys, (generateKey a texts pubkey privkey).result = .ok keys →
        keys.1.length = a.length texts.pubkeyLen ∧ keys.2.length = a.length texts.privkeyLen := by
  have context : Follows a (sslCreateContext a) _ :=
    follows_scope (follows_check (follows_check (follows_check (follows_check (follows_check
      (follows_check (follows_act (.guard (.moveConstruct .returned .ctx)))))))))
  have connection : Follows a (sslCreate a) _ :=
    follows_scope (follows_seq (follows_assigned (follows_scall "initializing ssl connection"))
      fun _ => follows_check (follows_act (.guard (.moveConstruct .returned .ssl))))
  have hasher : Follows a (sslHasher a) _ :=
    follows_constructed (follows_check (follows_assigned (follows_scall "init hasher ctx")))
  refine ⟨⟨settled_of_keeps (sslCreateContext_meets a), context⟩,
    ⟨settled_of_keeps (sslCreate_meets a), connection⟩, settles_keyedContext a _ _,
    settles_keyedContext a _ _, ⟨settled_of_keeps ?_, hasher⟩, fun pubkey privkey =>
      ⟨settles_generateKey a rsaTexts pubkey privkey,
        settles_generateKey a ecdsaTexts pubkey privkey, fun _ _ => length_generateKey⟩⟩
  exact sslHasher_meets a (by decide) (by decide)

end UdpStuff.Crypto
