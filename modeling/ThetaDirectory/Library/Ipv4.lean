import Mathlib.Data.Fin.Basic
import ThetaDirectory.Library.Numerals

/-!
# IPv4 addresses

Addresses and networks, the texts they are written as, and which network an address lies in.
-/

namespace ThetaDirectory.Library

/-- The four octets of an address. -/
structure Ipv4 where
  first : Fin 256
  second : Fin 256
  third : Fin 256
  fourth : Fin 256
  deriving DecidableEq, Repr

namespace Ipv4

def toNat (address : Ipv4) : Nat :=
  ((address.first.val * 256 + address.second.val) * 256 + address.third.val) * 256 +
    address.fourth.val

def text (address : Ipv4) : String :=
  toString address.first.val ++ "." ++ toString address.second.val ++ "." ++
    toString address.third.val ++ "." ++ toString address.fourth.val

/-- An address with a prefix length. -/
structure Network where
  base : Ipv4
  length : Nat
  deriving DecidableEq, Repr

namespace Network

def text (network : Network) : String := network.base.text ++ "/" ++ toString network.length

/-- The address agrees with that of the network in the leading bits. -/
def Contains (network : Network) (address : Ipv4) : Prop :=
  address.toNat >>> (32 - network.length) = network.base.toNat >>> (32 - network.length)

instance (network : Network) (address : Ipv4) : Decidable (network.Contains address) := by
  unfold Contains
  infer_instance

end Network

/-! ## Texts -/

theorem text_inj {left right : Ipv4} : left.text = right.text ↔ left = right := by
  have free := Numerals.notMem_toString (rfl : Char.isDigit '.' = false)
  have fields : left.text = right.text ↔
      ((left.first = right.first ∧ left.second = right.second) ∧ left.third = right.third) ∧
        left.fourth = right.fourth := by
    unfold text
    rw [Delimited.append_mark_inj rfl (free _) (free _), Delimited.append_mark_inj rfl (free _) (free _),
      Delimited.append_mark_inj rfl (free _) (free _)]
    simp only [Numerals.toString_inj, Fin.val_inj]
  rw [fields]
  constructor
  · rintro ⟨⟨⟨first, second⟩, third⟩, fourth⟩
    cases left
    cases right
    congr
  · rintro rfl
    exact ⟨⟨⟨rfl, rfl⟩, rfl⟩, rfl⟩

theorem Network.text_inj {left right : Network} : left.text = right.text ↔ left = right := by
  have free := Numerals.notMem_toString (rfl : Char.isDigit '/' = false)
  unfold Network.text
  rw [Delimited.append_mark_inj rfl (free _) (free _), Ipv4.text_inj, Numerals.toString_inj]
  constructor
  · rintro ⟨base, length⟩
    cases left
    cases right
    congr
  · rintro rfl
    exact ⟨rfl, rfl⟩

/-- A text writes an address of the network that another one writes. -/
def Lies (cidr ip : String) : Prop :=
  ∃ (network : Network) (address : Ipv4),
    network.text = cidr ∧ address.text = ip ∧ network.Contains address

theorem lies_text {network : Network} {address : Ipv4} :
    Lies network.text address.text ↔ network.Contains address := by
  constructor
  · rintro ⟨other, written, sameNetwork, sameAddress, contains⟩
    rwa [Network.text_inj.mp sameNetwork, text_inj.mp sameAddress] at contains
  · exact fun contains => ⟨network, address, rfl, rfl, contains⟩

/-! ## Prefixes -/

variable {network : Network} {address : Ipv4}

theorem contains_24 (length : network.length = 24) :
    network.Contains address ↔ address.first = network.base.first ∧
      address.second = network.base.second ∧ address.third = network.base.third := by
  simp only [Network.Contains, length, toNat, Nat.shiftRight_eq_div_pow, Fin.ext_iff]
  omega

theorem contains_17 (length : network.length = 17) :
    network.Contains address ↔ address.first = network.base.first ∧
      address.second = network.base.second ∧
        address.third.val / 128 = network.base.third.val / 128 := by
  simp only [Network.Contains, length, toNat, Nat.shiftRight_eq_div_pow, Fin.ext_iff]
  omega

end Ipv4

end ThetaDirectory.Library
