/-
# Theory.ByteOrder — machine words as bytes in either order

A machine of either byte order stores a word of whole bytes as a list of them and
loads it back (`load_store`, `store_load`).  `htons` is the change between the
machine's order and that of the network, which is its own inverse (`htons_htons`).
-/
import UdpStuff.Theory.LittleEndian

namespace UdpStuff.Theory

set_option autoImplicit false

inductive ByteOrder where
  | little
  | big

namespace ByteOrder

/-- Bytes from the least significant on, as they stand in memory. -/
def arrange : ByteOrder → List UInt8 → List UInt8
  | .little, bs => bs
  | .big, bs => bs.reverse

def store {w : Nat} (order : ByteOrder) (v : BitVec w) : List UInt8 :=
  order.arrange (leBytes (w / 8) v.toNat)

def load (order : ByteOrder) (w : Nat) (bs : List UInt8) : BitVec w :=
  BitVec.ofNat w (ofLeBytes (order.arrange bs))

@[simp] theorem arrange_arrange (order : ByteOrder) (bs : List UInt8) :
    order.arrange (order.arrange bs) = bs := by
  cases order
  · rfl
  · exact List.reverse_reverse bs

@[simp] theorem length_arrange (order : ByteOrder) (bs : List UInt8) :
    (order.arrange bs).length = bs.length := by
  cases order
  · rfl
  · exact List.length_reverse

@[simp] theorem length_store {w : Nat} (order : ByteOrder) (v : BitVec w) :
    (order.store v).length = w / 8 := by
  simp [store]

theorem two_pow_whole {w : Nat} (whole : w % 8 = 0) : 2 ^ w = 256 ^ (w / 8) := by
  have eight : w = 8 * (w / 8) := by omega
  rw [show 256 = 2 ^ 8 from rfl, ← Nat.pow_mul, ← eight]

theorem load_store {w : Nat} (whole : w % 8 = 0) (order : ByteOrder) (v : BitVec w) :
    order.load w (order.store v) = v := by
  have fits : v.toNat < 256 ^ (w / 8) := by
    rw [← two_pow_whole whole]
    exact v.isLt
  rw [load, store, arrange_arrange, ofLeBytes_leBytes fits, BitVec.ofNat_toNat, BitVec.setWidth_eq]

theorem store_load {w : Nat} (whole : w % 8 = 0) (order : ByteOrder) {bs : List UInt8}
    (length : bs.length = w / 8) : order.store (order.load w bs) = bs := by
  have fits : ofLeBytes (order.arrange bs) < 2 ^ w := by
    rw [two_pow_whole whole, ← length, ← length_arrange order bs]
    exact ofLeBytes_lt _
  rw [store, load, BitVec.toNat_ofNat, Nat.mod_eq_of_lt fits, ← length, ← length_arrange order bs,
    leBytes_ofLeBytes, arrange_arrange]

/-- The 16-bit word whose bytes in memory are those of `v` in network order. -/
def htons (order : ByteOrder) (v : BitVec 16) : BitVec 16 := order.load 16 (store .big v)

theorem htons_htons (order : ByteOrder) (v : BitVec 16) : order.htons (order.htons v) = v := by
  have length : (store .big v).length = 2 := length_store .big v
  cases order with
  | big => rw [htons, htons, load_store rfl, load_store rfl]
  | little =>
      -- a word loaded low byte first and stored high byte first is reversed
      have swapped : store .big (load .little 16 (store .big v)) = store .little v := by
        have bytes : store .little (load .little 16 (store .big v)) = store .big v :=
          store_load rfl .little length
        have turned := congrArg List.reverse bytes
        simpa [store, arrange] using turned
      rw [htons, htons, swapped, load_store rfl]

end ByteOrder

end UdpStuff.Theory
