import Buzz.Lib.AddressBlock
import Buzz.Lib.Bytes

/-!
# Private addresses

A webhook must not reach the network of the relay, so the addresses of its host are classified
before a request is sent. The classification is a table of address blocks, written as comparisons of
octets and segments. An IPv6 address that embeds an IPv4 address is classified as that one.
-/

namespace Buzz.Network

/-! ### Addresses -/

abbrev Ipv4Addr := BitVec 32

abbrev Ipv6Addr := BitVec 128

inductive IpAddr where
  | v4 (addr : Ipv4Addr)
  | v6 (addr : Ipv6Addr)

/-- `octets()[i]`, of an IPv4 address. -/
def octet (a : Ipv4Addr) (i : Nat) : UInt8 := UInt8.ofNat (a.toNat / 256 ^ (3 - i))

/-- `segments()[i]`, of an IPv6 address. -/
def segment (a : Ipv6Addr) (i : Nat) : UInt16 := UInt16.ofNat (a.toNat / 65536 ^ (7 - i))

/-- `octets()`, of an IPv6 address. -/
def octets (a : Ipv6Addr) : List UInt8 := bytesBE 16 a.toNat

/-- `Ipv4Addr::new`. -/
def ofOctets (bs : List UInt8) : Ipv4Addr := BitVec.ofNat 32 (ofBytesBE bs)

def isLoopback (a : Ipv4Addr) : Bool := octet a 0 == 127

/-- The private blocks of RFC 1918. -/
def isPrivate (a : Ipv4Addr) : Bool :=
  octet a 0 == 10 || (octet a 0 == 172 && (16 ≤ octet a 1 && octet a 1 ≤ 31)) ||
    (octet a 0 == 192 && octet a 1 == 168)

/-- `169.254.0.0/16`. -/
def isLinkLocal (a : Ipv4Addr) : Bool := octet a 0 == 169 && octet a 1 == 254

def isBroadcast (a : Ipv4Addr) : Bool := a == 0xffffffff

/-- `Ipv6Addr::to_ipv4`: the address embeds an IPv4 address as a compatible or a mapped one. -/
def toIpv4 (a : Ipv6Addr) : Option Ipv4Addr :=
  if segment a 0 == 0 && segment a 1 == 0 && segment a 2 == 0 && segment a 3 == 0 &&
      segment a 4 == 0 && (segment a 5 == 0 || segment a 5 == 0xffff) then
    some (ofOctets ((octets a).drop 12))
  else none

/-! ### The classification -/

def nat64WellKnownPrefix : List UInt8 := [0x00, 0x64, 0xff, 0x9b, 0, 0, 0, 0, 0, 0, 0, 0]

def ipv4TranslatedPrefix : List UInt8 := [0, 0, 0, 0, 0, 0, 0, 0, 0xff, 0xff, 0, 0]

def embeddedIpv4 (a : Ipv6Addr) (pre : List UInt8) : Option Ipv4Addr :=
  if pre.isPrefixOf (octets a) then some (ofOctets ((octets a).drop 12)) else none

/-- `is_private_ip`, of an IPv4 address. -/
def isPrivateV4 (a : Ipv4Addr) : Bool :=
  isLoopback a || isPrivate a || isLinkLocal a || octet a 0 == 0 || isBroadcast a ||
    (octet a 0 == 100 && octet a 1 &&& 0xC0 == 64) ||
    (octet a 0 == 198 && octet a 1 &&& 0xFE == 18)

/-- `is_private_ip`, of an IPv6 address. -/
def isPrivateV6 (a : Ipv6Addr) : Bool :=
  match toIpv4 a with
  | some v4 => isPrivateV4 v4
  | none =>
    match embeddedIpv4 a nat64WellKnownPrefix with
    | some v4 => isPrivateV4 v4
    | none =>
      match embeddedIpv4 a ipv4TranslatedPrefix with
      | some v4 => isPrivateV4 v4
      | none =>
        -- `is_loopback` and `is_unspecified`
        a == 1 || a == 0 ||
          segment a 0 &&& 0xfe00 == 0xfc00 ||
          segment a 0 &&& 0xffc0 == 0xfe80 ||
          segment a 0 &&& 0xff00 == 0xff00 ||
          (segment a 0 == 0x0064 && segment a 1 == 0xff9b && segment a 2 == 1) ||
          (segment a 0 == 0x2001 && segment a 1 == 0) ||
          segment a 0 == 0x2002 ||
          (segment a 0 == 0x2001 && segment a 1 == 0x0db8)

/-- Is the address one that is not to be connected to? -/
def isPrivateIp : IpAddr → Bool
  | .v4 a => isPrivateV4 a
  | .v6 a => isPrivateV6 a

/-! ### The documented blocks -/

def blocksV4 : List (AddressBlock 32) := [
  { base := 0x7f000000, prefixLength := 8 },
  { base := 0x0a000000, prefixLength := 8 },
  { base := 0xac100000, prefixLength := 12 },
  { base := 0xc0a80000, prefixLength := 16 },
  { base := 0xa9fe0000, prefixLength := 16 },
  { base := 0x00000000, prefixLength := 8 },
  { base := 0xffffffff, prefixLength := 32 },
  { base := 0x64400000, prefixLength := 10 },
  { base := 0xc6120000, prefixLength := 15 }]

/-- The IPv6 blocks that are private as a whole. -/
def blocksV6 : List (AddressBlock 128) := [
  { base := 1, prefixLength := 128 },
  { base := 0, prefixLength := 128 },
  { base := 0xfc000000000000000000000000000000, prefixLength := 7 },
  { base := 0xfe800000000000000000000000000000, prefixLength := 10 },
  { base := 0xff000000000000000000000000000000, prefixLength := 8 },
  { base := 0x20010db8000000000000000000000000, prefixLength := 32 },
  { base := 0x0064ff9b000100000000000000000000, prefixLength := 48 },
  { base := 0x20010000000000000000000000000000, prefixLength := 32 },
  { base := 0x20020000000000000000000000000000, prefixLength := 16 }]

/-- `::/96`, the IPv4-compatible addresses. -/
def compatible : AddressBlock 128 := { base := 0, prefixLength := 96 }

/-- `::ffff:0:0/96`, the IPv4-mapped addresses. -/
def mapped : AddressBlock 128 := { base := 0xffff00000000, prefixLength := 96 }

/-- `64:ff9b::/96`, the addresses of NAT64. -/
def nat64 : AddressBlock 128 :=
  { base := 0x0064ff9b000000000000000000000000, prefixLength := 96 }

/-- `::ffff:0:0:0/96`, the IPv4-translated addresses. -/
def translated : AddressBlock 128 := { base := 0xffff000000000000, prefixLength := 96 }

/-- The IPv6 blocks whose addresses embed an IPv4 address. -/
def embeddings : List (AddressBlock 128) := [compatible, mapped, nat64, translated]

/-- The IPv4 address in the last 32 bits. -/
def embedded (a : Ipv6Addr) : Ipv4Addr := a.setWidth 32

/-- The address of a block that embeds an IPv4 address. -/
def embed (b : AddressBlock 128) (a : Ipv4Addr) : Ipv6Addr := b.base + a.setWidth 128

/-- An IPv4 address in one of the blocks. -/
def DocumentedV4 (a : Ipv4Addr) : Prop := ∃ b ∈ blocksV4, b.Contains a

/-- An address in one of the documented blocks. -/
def Documented : IpAddr → Prop
  | .v4 a => DocumentedV4 a
  | .v6 a => (∃ b ∈ blocksV6, b.Contains a) ∨
      ∃ b ∈ embeddings, b.Contains a ∧ DocumentedV4 (embedded a)

/-! ### IPv4 -/

section V4

variable {a : Ipv4Addr}

theorem toNat_octet_zero (a : Ipv4Addr) : (octet a 0).toNat = a.toNat / 16777216 := by
  have hlt := a.isLt
  rw [octet, UInt8.toNat_ofNat']
  omega

theorem toNat_octet_one (a : Ipv4Addr) : (octet a 1).toNat = a.toNat / 65536 % 256 := by
  rw [octet, UInt8.toNat_ofNat']
  rfl

theorem octet_eq_iff {x c : UInt8} : (x == c) = true ↔ x.toNat = c.toNat := by
  rw [beq_iff_eq, UInt8.toNat_inj]

theorem octet_and_eq_iff {x m c : UInt8} (k : Nat) (hm : m.toBitVec = BitVec.allOnes 8 <<< k) :
    (x &&& m == c) = true ↔ x.toNat / 2 ^ k * 2 ^ k = c.toNat := by
  rw [beq_iff_eq, ← UInt8.toBitVec_inj, UInt8.toBitVec_and, hm, and_mask_eq_iff]
  rfl

/-- **The table of IPv4 addresses.** -/
theorem isPrivateV4_iff (a : Ipv4Addr) : isPrivateV4 a = true ↔ DocumentedV4 a := by
  have hlt := a.isLt
  have hzero := toNat_octet_zero a
  have hone := toNat_octet_one a
  have hbroadcast : (a == 0xffffffff) = true ↔ a.toNat = 0xffffffff := by
    simp [← BitVec.toNat_inj]
  have hcgnat : (octet a 1 &&& 0xC0 == 64) = true ↔ (octet a 1).toNat / 64 * 64 = 64 :=
    octet_and_eq_iff 6 rfl
  have hbenchmark : (octet a 1 &&& 0xFE == 18) = true ↔ (octet a 1).toNat / 2 * 2 = 18 :=
    octet_and_eq_iff 1 rfl
  simp only [isPrivateV4, isLoopback, isPrivate, isLinkLocal, isBroadcast, Bool.or_eq_true,
    Bool.and_eq_true, decide_eq_true_eq, octet_eq_iff, UInt8.le_iff_toNat_le, hbroadcast, hcgnat,
    hbenchmark, hzero, hone]
  simp [DocumentedV4, blocksV4, AddressBlock.contains_iff_range, AddressBlock.size]
  omega

end V4

/-! ### IPv6 -/

section V6

variable {a : Ipv6Addr}

theorem segment_eq_iff {x c : UInt16} : (x == c) = true ↔ x.toNat = c.toNat := by
  rw [beq_iff_eq, UInt16.toNat_inj]

theorem segment_and_eq_iff {x m c : UInt16} (k : Nat)
    (hm : m.toBitVec = BitVec.allOnes 16 <<< k) :
    (x &&& m == c) = true ↔ x.toNat / 2 ^ k * 2 ^ k = c.toNat := by
  rw [beq_iff_eq, ← UInt16.toBitVec_inj, UInt16.toBitVec_and, hm, and_mask_eq_iff]
  rfl

theorem toNat_segment (a : Ipv6Addr) (i : Nat) :
    (segment a i).toNat = a.toNat / 65536 ^ (7 - i) % 65536 := by
  rw [segment, UInt16.toNat_ofNat']

theorem toNat_embedded (a : Ipv6Addr) : (embedded a).toNat = a.toNat % 4294967296 := by
  rw [embedded, BitVec.toNat_setWidth]

theorem octets_eq (a : Ipv6Addr) :
    octets a = bytesBE 12 (a.toNat / 256 ^ 4) ++ bytesBE 4 a.toNat :=
  bytesBE_add 12 4 a.toNat

theorem ofOctets_drop (a : Ipv6Addr) : ofOctets ((octets a).drop 12) = embedded a := by
  refine BitVec.eq_of_toNat_eq ?_
  rw [octets_eq, List.drop_left' (length_bytesBE 12 _), ofOctets, BitVec.toNat_ofNat,
    ofBytesBE_bytesBE, toNat_embedded]
  exact Nat.mod_mod _ _

theorem isPrefixOf_octets_iff {pre : List UInt8} (hpre : pre.length = 12) :
    pre.isPrefixOf (octets a) = true ↔ a.toNat / 4294967296 = ofBytesBE pre := by
  have hlt := a.isLt
  have htake : pre <+: octets a ↔ pre = bytesBE 12 (a.toNat / 256 ^ 4) := by
    simp [octets_eq, List.prefix_iff_eq_take, hpre]
  have hvalue : ofBytesBE (bytesBE 12 (a.toNat / 256 ^ 4)) = a.toNat / 4294967296 := by
    rw [ofBytesBE_bytesBE]
    omega
  rw [List.isPrefixOf_iff_prefix, htake]
  constructor
  · intro h
    rw [← hvalue, ← h]
  · intro h
    rw [show 256 ^ 4 = 4294967296 from rfl, h, ← hpre, bytesBE_ofBytesBE]

theorem toIpv4_eq (a : Ipv6Addr) : toIpv4 a =
    if compatible.Contains a ∨ mapped.Contains a then some (embedded a) else none := by
  have hlt := a.isLt
  have hiff : (segment a 0 == 0 && segment a 1 == 0 && segment a 2 == 0 && segment a 3 == 0 &&
      segment a 4 == 0 && (segment a 5 == 0 || segment a 5 == 0xffff)) = true ↔
      compatible.Contains a ∨ mapped.Contains a := by
    simp only [Bool.and_eq_true, Bool.or_eq_true, segment_eq_iff, toNat_segment]
    simp [compatible, mapped, AddressBlock.contains_iff_range, AddressBlock.size]
    omega
  rw [toIpv4, ofOctets_drop]
  simp only [hiff]

theorem embeddedIpv4_nat64 (a : Ipv6Addr) : embeddedIpv4 a nat64WellKnownPrefix =
    if nat64.Contains a then some (embedded a) else none := by
  have hiff : nat64WellKnownPrefix.isPrefixOf (octets a) = true ↔ nat64.Contains a := by
    rw [isPrefixOf_octets_iff rfl, AddressBlock.contains_iff_div]
    rfl
  rw [embeddedIpv4, ofOctets_drop]
  simp only [hiff]

theorem embeddedIpv4_translated (a : Ipv6Addr) : embeddedIpv4 a ipv4TranslatedPrefix =
    if translated.Contains a then some (embedded a) else none := by
  have hiff : ipv4TranslatedPrefix.isPrefixOf (octets a) = true ↔ translated.Contains a := by
    rw [isPrefixOf_octets_iff rfl, AddressBlock.contains_iff_div]
    rfl
  rw [embeddedIpv4, ofOctets_drop]
  simp only [hiff]

theorem isPrivateV6_of_embeds {b : AddressBlock 128} (hb : b ∈ embeddings) (h : b.Contains a) :
    isPrivateV6 a = isPrivateV4 (embedded a) := by
  rw [isPrivateV6, toIpv4_eq, embeddedIpv4_nat64, embeddedIpv4_translated]
  by_cases hipv4 : compatible.Contains a ∨ mapped.Contains a
  · rw [if_pos hipv4]
  by_cases hnat64 : nat64.Contains a
  · rw [if_neg hipv4, if_pos hnat64]
  have htranslated : translated.Contains a := by
    simp only [embeddings, List.mem_cons, List.not_mem_nil, or_false] at hb
    rcases hb with rfl | rfl | rfl | rfl
    · exact absurd (.inl h) hipv4
    · exact absurd (.inr h) hipv4
    · exact absurd h hnat64
    · exact h
  rw [if_neg hipv4, if_neg hnat64, if_pos htranslated]

theorem isPrivateV6_of_not_embeds (h : ∀ b ∈ embeddings, ¬b.Contains a) :
    isPrivateV6 a = true ↔ ∃ b ∈ blocksV6, b.Contains a := by
  have hlt := a.isLt
  simp only [embeddings, List.forall_mem_cons] at h
  have hula : (segment a 0 &&& 0xfe00 == 0xfc00) = true ↔
      (segment a 0).toNat / 512 * 512 = 0xfc00 := segment_and_eq_iff 9 rfl
  have hlinkLocal : (segment a 0 &&& 0xffc0 == 0xfe80) = true ↔
      (segment a 0).toNat / 64 * 64 = 0xfe80 := segment_and_eq_iff 6 rfl
  have hmulticast : (segment a 0 &&& 0xff00 == 0xff00) = true ↔
      (segment a 0).toNat / 256 * 256 = 0xff00 := segment_and_eq_iff 8 rfl
  have hloopback : (a == 1) = true ↔ a.toNat = 1 := by
    simp [← BitVec.toNat_inj]
  have hunspecified : (a == 0) = true ↔ a.toNat = 0 := by
    simp [← BitVec.toNat_inj]
  rw [isPrivateV6, toIpv4_eq, embeddedIpv4_nat64, embeddedIpv4_translated,
    if_neg (not_or.mpr ⟨h.1, h.2.1⟩), if_neg h.2.2.1, if_neg h.2.2.2.1]
  simp only [Bool.or_eq_true, Bool.and_eq_true, segment_eq_iff, hula, hlinkLocal, hmulticast,
    hloopback, hunspecified, toNat_segment]
  simp [blocksV6, AddressBlock.contains_iff_range, AddressBlock.size]
  omega

theorem le_one_of_overlap (hembeds : ∃ b ∈ embeddings, b.Contains a)
    (hblock : ∃ b ∈ blocksV6, b.Contains a) : a.toNat ≤ 1 := by
  simp [embeddings, compatible, mapped, nat64, translated, AddressBlock.contains_iff_range,
    AddressBlock.size] at hembeds
  simp [blocksV6, AddressBlock.contains_iff_range, AddressBlock.size] at hblock
  omega

theorem documentedV4_of_le_one (h : a.toNat ≤ 1) : DocumentedV4 (embedded a) := by
  have hvalue := toNat_embedded a
  simp [DocumentedV4, blocksV4, AddressBlock.contains_iff_range, AddressBlock.size]
  omega

/-- **The table of IPv6 addresses.** -/
theorem isPrivateV6_iff (a : Ipv6Addr) : isPrivateV6 a = true ↔ Documented (.v6 a) := by
  rw [Documented]
  by_cases h : ∃ b ∈ embeddings, b.Contains a
  · obtain ⟨b, hb, hcontains⟩ := h
    rw [isPrivateV6_of_embeds hb hcontains, isPrivateV4_iff]
    constructor
    · intro hdocumented
      exact .inr ⟨b, hb, hcontains, hdocumented⟩
    · rintro (hblock | ⟨-, -, -, hdocumented⟩)
      · exact documentedV4_of_le_one (le_one_of_overlap ⟨b, hb, hcontains⟩ hblock)
      · exact hdocumented
  · have hnot : ∀ b ∈ embeddings, ¬b.Contains a := fun b hb hcontains => h ⟨b, hb, hcontains⟩
    rw [isPrivateV6_of_not_embeds hnot]
    constructor
    · exact .inl
    · rintro (hblock | ⟨b, hb, hcontains, -⟩)
      · exact hblock
      · exact absurd hcontains (hnot b hb)

end V6

/-! ### Both families -/

theorem contains_embed {b : AddressBlock 128} (hb : b ∈ embeddings) (a : Ipv4Addr) :
    b.Contains (embed b a) ∧ embedded (embed b a) = a := by
  have hlt := a.isLt
  have hvalue : (embed b a).toNat = (b.base.toNat + a.toNat) % 2 ^ 128 := by
    simp [embed, BitVec.toNat_add, BitVec.toNat_setWidth]
  rw [← BitVec.toNat_inj, toNat_embedded, AddressBlock.contains_iff_range, hvalue]
  simp only [embeddings, List.mem_cons, List.not_mem_nil, or_false] at hb
  rcases hb with rfl | rfl | rfl | rfl <;>
    simp [compatible, mapped, nat64, translated, AddressBlock.size] <;> omega

/-- **The classification is the documented one**, and an address that embeds an IPv4 address is
classified as that address. -/
theorem isPrivateIp_exact :
    (∀ ip, isPrivateIp ip = true ↔ Documented ip) ∧
      ∀ b ∈ embeddings, ∀ a, isPrivateIp (.v6 (embed b a)) = isPrivateIp (.v4 a) := by
  refine ⟨?_, ?_⟩
  · intro ip
    cases ip with
    | v4 a => exact isPrivateV4_iff a
    | v6 a => exact isPrivateV6_iff a
  · intro b hb a
    obtain ⟨hcontains, hembedded⟩ := contains_embed hb a
    show isPrivateV6 (embed b a) = isPrivateV4 a
    rw [isPrivateV6_of_embeds hb hcontains, hembedded]

end Buzz.Network
