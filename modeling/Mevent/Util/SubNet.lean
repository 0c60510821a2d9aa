import Mevent.Util.Base64

/-!
# `GetAddrFromCIDR` and `IsInSubNet`

An `in_addr` is the four bytes of `s_addr` as they lie in memory, the first part of the
address first.
-/

namespace Mevent

open Library

/-- `struct in_addr`. -/
abbrev InAddr := Vector UInt8 4

/-- The last byte that `GetAddrFromCIDR` sets, `256 - (1 << (32 - cidr) % 8)`. -/
def lastOctet (cidr : Nat) : UInt8 := UInt8.ofNat (256 - 1 <<< ((32 - cidr) % 8))

/-- `GetAddrFromCIDR`: what it returns, and the address behind both calls of `memset`. -/
def getAddrFromCIDR (cidr : Int) (addr : InAddr) : Int × InAddr :=
  if cidr < 0 ∨ 32 < cidr then
    (-1, addr)
  else
    let ocets := (cidr.toNat + 7) / 8
    (0, Vector.ofFn fun index =>
      if index.val + 1 < ocets then 255
      else if index.val + 1 = ocets then lastOctet cidr.toNat
      else 0)

/-- `IsInSubNet`. -/
def isInSubNet (addr netaddr netmask : InAddr) : Bool :=
  Vector.zipWith (· &&& ·) addr netmask == Vector.zipWith (· &&& ·) netaddr netmask

/-- The bits of an address, the highest one of the first part first. -/
def addressBits (addr : InAddr) : List Bool := octetStream addr.toList

/-- The mask of a byte of which `count` bits belong to the network. -/
def maskOctet (count : Nat) : UInt8 := UInt8.ofNat (256 - 2 ^ (8 - count))

section Octets

theorem toNat_and_maskOctet (octet : UInt8) {count : Nat} (within : count ≤ 8) :
    (octet &&& maskOctet count).toNat = octet.toNat / 2 ^ (8 - count) * 2 ^ (8 - count) := by
  have all : ∀ count : Fin 9, ∀ octet : Fin 256,
      (UInt8.ofNat octet &&& maskOctet count).toNat =
        octet.val / 2 ^ (8 - count.val) * 2 ^ (8 - count.val) := by decide +kernel
  have one := all ⟨count, Nat.lt_succ_of_le within⟩ ⟨octet.toNat, octet.toNat_lt⟩
  rwa [UInt8.ofNat_toNat] at one

theorem take_bits (width count number : Nat) (within : count ≤ width) :
    (bits width number).take count = bits count (number / 2 ^ (width - count)) := by
  obtain ⟨rest, rfl⟩ := Nat.exists_eq_add_of_le within
  rw [bits_add, Nat.add_sub_cancel_left, List.take_left' (length_bits count _)]

theorem bits_inj {width first second : Nat} (firstSmall : first < 2 ^ width)
    (secondSmall : second < 2 ^ width) (same : bits width first = bits width second) :
    first = second := by
  rw [← ofBits_bits_of_lt firstSmall, ← ofBits_bits_of_lt secondSmall, same]

theorem and_maskOctet_eq_iff (first second : UInt8) {count : Nat} (within : count ≤ 8) :
    first &&& maskOctet count = second &&& maskOctet count ↔
      (bits 8 first.toNat).take count = (bits 8 second.toNat).take count := by
  have small : ∀ octet : UInt8, octet.toNat / 2 ^ (8 - count) < 2 ^ count := by
    intro octet
    rw [Nat.div_lt_iff_lt_mul (Nat.two_pow_pos _), ← Nat.pow_add, Nat.add_sub_cancel' within]
    exact octet.toNat_lt
  rw [← UInt8.toNat_inj, toNat_and_maskOctet _ within, toNat_and_maskOctet _ within,
    take_bits 8 count _ within, take_bits 8 count _ within,
    Nat.mul_left_inj (Nat.two_pow_pos _).ne']
  exact ⟨fun same => by rw [same], fun same => bits_inj (small first) (small second) same⟩

theorem take_octetStream_eq_iff (count : Nat) (first second : UInt8) {rest others : Bytes} :
    (octetStream (first :: rest)).take count = (octetStream (second :: others)).take count ↔
      first &&& maskOctet (min 8 count) = second &&& maskOctet (min 8 count) ∧
        (octetStream rest).take (count - 8) = (octetStream others).take (count - 8) := by
  have cons : ∀ (octet : UInt8) (octets : Bytes), octetStream (octet :: octets) =
      bits 8 octet.toNat ++ octetStream octets := fun _ _ => rfl
  have front : ∀ number, (bits 8 number).take (min 8 count) = (bits 8 number).take count := by
    intro number
    have short : ((bits 8 number).take count).length ≤ 8 := by
      rw [List.length_take, length_bits]
      exact Nat.min_le_right _ _
    rw [← List.take_take, List.take_of_length_le short]
  have lengths : ((bits 8 first.toNat).take count).length =
      ((bits 8 second.toNat).take count).length := by
    rw [List.length_take, List.length_take, length_bits, length_bits]
  rw [and_maskOctet_eq_iff _ _ (Nat.min_le_left 8 count), front, front, cons, cons,
    List.take_append, List.take_append, length_bits, length_bits]
  exact ⟨fun same => List.append_inj same lengths, fun same => by rw [same.1, same.2]⟩

end Octets

section Masks

/-- Each byte of the mask keeps those of its bits that are among the first `cidr`. -/
theorem netmask_get {cidr : Nat} (small : cidr ≤ 32) (addr : InAddr) (index : Fin 4) :
    (getAddrFromCIDR cidr addr).2.get index = maskOctet (min 8 (cidr - 8 * index)) := by
  have valid : ¬ ((cidr : Int) < 0 ∨ 32 < (cidr : Int)) := by omega
  simp only [getAddrFromCIDR, if_neg valid, Vector.get_eq_getElem, Vector.getElem_ofFn,
    Int.toNat_natCast]
  have place := index.isLt
  split
  · rw [Nat.min_eq_left (by omega)]
    rfl
  · split
    · have count : min 8 (cidr - 8 * index.val) = cidr - 8 * index.val := by omega
      have shift : (32 - cidr) % 8 = 8 - (cidr - 8 * index.val) := by omega
      rw [count, lastOctet, maskOctet, shift, Nat.one_shiftLeft]
    · have none : min 8 (cidr - 8 * index.val) = 0 := by omega
      rw [none]
      rfl

theorem isInSubNet_iff (addr netaddr netmask : InAddr) :
    isInSubNet addr netaddr netmask = true ↔
      ∀ index : Fin 4,
        addr.get index &&& netmask.get index = netaddr.get index &&& netmask.get index := by
  rw [isInSubNet, beq_iff_eq]
  constructor
  · intro same index
    have parts := congrArg (fun vector : Vector UInt8 4 => vector.get index) same
    simpa [Vector.get_eq_getElem] using parts
  · intro same
    ext index inside
    have part := same ⟨index, inside⟩
    simpa [Vector.get_eq_getElem] using congrArg UInt8.toNat part

theorem toList_eq (addr : InAddr) : addr.toList = List.ofFn addr.get := by
  obtain ⟨⟨octets⟩, count⟩ := addr
  match octets, count with
  | [_, _, _, _], _ => rfl

/-- `GetAddrFromCIDR` refuses a prefix length outside 0 and 32 and leaves the address as it is;
else an address is in a network, under the mask that it makes, exactly when the first `cidr`
bits of both agree. -/
theorem isInSubNet_getAddrFromCIDR (cidr : Int) (addr netaddr netmask : InAddr) :
    (cidr < 0 ∨ 32 < cidr → getAddrFromCIDR cidr netmask = (-1, netmask)) ∧
      (0 ≤ cidr ∧ cidr ≤ 32 → (getAddrFromCIDR cidr netmask).1 = 0 ∧
        (isInSubNet addr netaddr (getAddrFromCIDR cidr netmask).2 = true ↔
          (addressBits addr).take cidr.toNat = (addressBits netaddr).take cidr.toNat)) := by
  refine ⟨fun invalid => if_pos invalid, fun valid => ?_⟩
  obtain ⟨count, rfl⟩ := Int.eq_ofNat_of_zero_le valid.1
  have small : count ≤ 32 := Int.ofNat_le.mp valid.2
  have accepted : ¬ ((count : Int) < 0 ∨ 32 < (count : Int)) := by omega
  refine ⟨by rw [getAddrFromCIDR, if_neg accepted], ?_⟩
  have masks := netmask_get small netmask
  rw [isInSubNet_iff, Int.toNat_natCast, addressBits, addressBits, toList_eq, toList_eq]
  simp only [List.ofFn_succ, List.ofFn_zero]
  rw [take_octetStream_eq_iff, take_octetStream_eq_iff, take_octetStream_eq_iff,
    take_octetStream_eq_iff, Fin.forall_fin_succ, Fin.forall_fin_succ, Fin.forall_fin_succ,
    Fin.forall_fin_one]
  simp only [masks]
  simp [Nat.sub_sub]

end Masks

end Mevent
