import Buzz.EvmAuth.Address
import Buzz.Lib.Abi
import Buzz.Lib.Checked

/-!
# Calls that ask a contract for a signature

The signature of a smart account is checked by a call of a contract. The arguments of the calls are
encoded by hand, and so is read the wrapper that the signature of an account comes in which is not
deployed yet: a tuple with a suffix. The encoders pad what they have written so far, in which the
selector of four bytes is counted, so that the arguments never are whole words.
-/

namespace Buzz.EvmAuth

def erc6492DetectionSuffix : List UInt8 := (List.replicate 16 [0x64, 0x92]).flatten

/-! ### Encoding -/

/-- `push_word`, of a number of 32 bits. -/
def pushWord (out : List UInt8) (value : Nat) : List UInt8 :=
  out ++ (List.replicate 28 0 ++ bytesBE 4 value)

/-- Zeros are pushed until there are whole words. -/
def pushZeros (out : List UInt8) : List UInt8 :=
  if out.length % 32 = 0 then out else pushZeros (out ++ [0])
termination_by (32 - out.length % 32) % 32
decreasing_by
  rw [List.length_append, List.length_singleton]
  omega

/-- `push_bytes`. The length is cast to 32 bits. -/
def pushBytes (out data : List UInt8) : List UInt8 :=
  pushZeros (pushWord out (data.length % 2 ^ 32) ++ data)

variable (keccak256 : List UInt8 → Word)

def first4 (word : Word) : List UInt8 := word.toList.take 4

def erc1271Selector : List UInt8 := first4 (keccak256 (utf8 "isValidSignature(bytes32,bytes)"))

def isValidSigSelector : List UInt8 :=
  first4 (keccak256 (utf8 "isValidSig(address,bytes32,bytes)"))

def encodeIsValidSignature (hash : Word) (signature : List UInt8) : List UInt8 :=
  pushBytes (pushWord (erc1271Selector keccak256 ++ hash.toList) 0x40) signature

def encodeIsValidSig (signer : EvmAddress) (hash : Word) (signature : List UInt8) : List UInt8 :=
  pushBytes (pushWord (isValidSigSelector keccak256 ++ List.replicate 12 0 ++ signer.bytes.toList ++
    hash.toList) 0x60) signature

/-! ### Decoding -/

def isErc6492Wrapped (signature : List UInt8) : Bool :=
  decide (signature.length > 32) &&
    signature.drop (signature.length - 32) == erc6492DetectionSuffix

/-- The last four bytes of a word, as a number. -/
def lowU32 (word : List UInt8) : Nat := ofBytesBE (word.drop 28)

def takeAt (inner : List UInt8) (cursor n : Nat) : Checked EvmAuthError (List UInt8) :=
  (Checked.add cursor n).bind fun stop =>
    .ofOption (.invalidSignature "truncated ABI data") (getRange inner cursor stop)

/-- The bytes as an array of this length. -/
def tryInto (n : Nat) (bs : List UInt8) : Option (List UInt8) :=
  if bs.length = n then some bs else none

def wordAt (inner : List UInt8) (i : Nat) : Checked EvmAuthError (List UInt8) :=
  (takeAt inner i 32).bind fun bs => .unwrap (tryInto 32 bs)

def offsetOf (inner : List UInt8) (i : Nat) : Checked EvmAuthError Nat :=
  (wordAt inner i).bind fun w => .value (lowU32 w)

/-- `decode_bytes`: the bytes, and where they end. -/
def decodeBytes (payload : List UInt8) (offset : Nat) :
    Checked EvmAuthError (List UInt8 × Nat) :=
  let err := EvmAuthError.invalidSignature "bad ABI bytes field"
  (Checked.add offset 32).bind fun stop =>
  (Checked.ofOption err (getRange payload offset stop)).bind fun lenWord =>
  (Checked.unwrap (getRange lenWord 28 lenWord.length)).bind fun low =>
  (Checked.ofOption (.invalidSignature "bad ABI length") (tryInto 4 low)).bind fun low =>
  (Checked.add offset 32).bind fun dataStart =>
  (Checked.add dataStart (ofBytesBE low)).bind fun dataStop =>
  (Checked.ofOption err (getRange payload dataStart dataStop)).bind fun data =>
    .value (data, dataStop)

def decodeErc6492 (signature : List UInt8) :
    Checked EvmAuthError (EvmAddress × List UInt8 × List UInt8) :=
  if !isErc6492Wrapped signature then
    .error (.invalidSignature "not an ERC-6492 wrapped signature")
  else
    let inner := signature.take (signature.length - 32)
    (takeAt inner 12 20).bind fun factory =>
    (Checked.ofOption (.invalidSignature "bad factory address")
      (if h : factory.length = 20 then some (⟨factory.toArray, h⟩ : Vector UInt8 20)
        else none)).bind fun factory =>
    (offsetOf inner 32).bind fun calldataOff =>
    (offsetOf inner 64).bind fun sigOff =>
    (decodeBytes inner calldataOff).bind fun (calldata, _) =>
    (decodeBytes inner sigOff).bind fun (sig, _) =>
    .value (⟨factory⟩, calldata, sig)

/-! ### What is encoded -/

def addressArgument (a : EvmAddress) : Abi.Argument := .word ⟨a.toWord.toArray, a.length_toWord⟩

theorem pushZeros_eq (out : List UInt8) :
    pushZeros out = out ++ List.replicate (Abi.missing out.length) 0 := by
  fun_induction pushZeros out with
  | case1 out h => simp [Abi.missing, h]
  | case2 out h ih =>
    have hmissing : Abi.missing out.length = Abi.missing (out ++ [0]).length + 1 := by
      rw [List.length_append, List.length_singleton, Abi.missing, Abi.missing]
      omega
    simp [ih, hmissing, List.replicate_succ]

theorem dvd_length_pushBytes (out data : List UInt8) : 32 ∣ (pushBytes out data).length := by
  rw [pushBytes, pushZeros_eq, List.length_append, List.length_replicate]
  exact Abi.dvd_add_missing _

theorem pushWord_eq (out : List UInt8) {value : Nat} (h : value < 2 ^ 32) :
    pushWord out value = out ++ Abi.word value := by
  have hzero : value / 256 ^ 4 = 0 := Nat.div_eq_of_lt h
  have hzeros : bytesBE 28 0 = List.replicate 28 0 := by decide
  rw [pushWord, Abi.word, bytesBE_add 28 4, hzero, hzeros]

theorem lowU32_word (n : Nat) : lowU32 (Abi.word n) = n % 2 ^ 32 := by
  have hlength : (bytesBE 28 (n / 256 ^ 4)).length = 28 := length_bytesBE _ _
  simp [lowU32, Abi.word, bytesBE_add 28 4, ofBytesBE_bytesBE]

theorem pushBytes_eq (out : List UInt8) {data : List UInt8} (h : data.length < 2 ^ 32) :
    pushBytes out data = out ++ (Abi.word data.length ++
      (data ++ List.replicate (Abi.missing (out.length + 32 + data.length)) 0)) := by
  have hlength : (out ++ Abi.word data.length ++ data).length = out.length + 32 + data.length := by
    rw [List.length_append, List.length_append, Abi.length_word]
  rw [pushBytes, Nat.mod_eq_of_lt h, pushWord_eq out h, pushZeros_eq, hlength, List.append_assoc,
    List.append_assoc]

@[simp] theorem length_first4 (word : Word) : (first4 word).length = 4 := by
  simp [first4, Vector.length_toList]

theorem pushBytes_ne_encode {selector : List UInt8} (h : selector.length = 4)
    (out data : List UInt8) (as : List Abi.Argument) :
    pushBytes out data ≠ selector ++ Abi.encode as := by
  intro heq
  have hpushed := dvd_length_pushBytes out data
  have harguments := Abi.dvd_length_encode as
  rw [heq, List.length_append, h] at hpushed
  omega

theorem not_dvd_length_drop_pushBytes (out data : List UInt8) :
    ¬ 32 ∣ ((pushBytes out data).drop 4).length := by
  have hpushed := dvd_length_pushBytes out data
  have hpos : 32 ≤ (pushBytes out data).length := by
    rw [pushBytes, pushZeros_eq, pushWord]
    simp only [List.length_append, List.length_replicate, length_bytesBE]
    omega
  rw [List.length_drop]
  omega

/-! ### Everything is read without a panic -/

variable {inner : List UInt8}

theorem takeAt_ne_panic {cursor n : Nat} (h : cursor + n < 2 ^ 64) :
    takeAt inner cursor n ≠ .panic := by
  rw [takeAt, Checked.add_eq_value h]
  exact Checked.ofOption_ne_panic _ _

theorem takeAt_eq_value_iff {bs : List UInt8} {cursor n : Nat} (h : cursor + n < 2 ^ 64) :
    takeAt inner cursor n = .value bs ↔ getRange inner cursor (cursor + n) = some bs := by
  rw [takeAt, Checked.add_eq_value h]
  exact Checked.ofOption_eq_value_iff

variable {w : List UInt8} {i : Nat}

theorem wordAt_eq_value_iff (h : i + 32 < 2 ^ 64) :
    wordAt inner i = .value w ↔ getRange inner i (i + 32) = some w := by
  rw [wordAt, Checked.bind_eq_value_iff]
  constructor
  · rintro ⟨bs, hbs, hw⟩
    rw [takeAt_eq_value_iff h] at hbs
    have hlength := length_of_getRange hbs
    rw [tryInto, if_pos (by omega)] at hw
    cases hw
    exact hbs
  · intro hw
    have hlength := length_of_getRange hw
    refine ⟨w, (takeAt_eq_value_iff h).mpr hw, ?_⟩
    rw [tryInto, if_pos (by omega)]
    rfl

theorem wordAt_ne_panic (h : i + 32 < 2 ^ 64) : wordAt inner i ≠ .panic := by
  refine Checked.bind_ne_panic (takeAt_ne_panic h) fun bs hbs => ?_
  have hlength := length_of_getRange ((takeAt_eq_value_iff h).mp hbs)
  rw [tryInto, if_pos (by omega)]
  exact nofun

theorem lowU32_lt (h : w.length = 32) : lowU32 w < 2 ^ 32 := by
  have hlt := ofBytesBE_lt (w.drop 28)
  rwa [List.length_drop, h] at hlt

variable {offset : Nat}

theorem offsetOf_lt (h : i + 32 < 2 ^ 64) (ho : offsetOf inner i = .value offset) :
    offset < 2 ^ 32 := by
  obtain ⟨w, hw, ho⟩ := Checked.bind_eq_value_iff.mp ho
  have hlength := length_of_getRange ((wordAt_eq_value_iff h).mp hw)
  cases ho
  exact lowU32_lt (by omega)

theorem offsetOf_ne_panic (h : i + 32 < 2 ^ 64) : offsetOf inner i ≠ .panic :=
  Checked.bind_ne_panic (wordAt_ne_panic h) nofun

theorem getRange_low (h : w.length = 32) : getRange w 28 w.length = some (w.drop 28) := by
  rw [getRange, if_pos (by omega), List.take_length]

variable {payload : List UInt8}

theorem decodeBytes_eq (h : offset < 2 ^ 32) :
    decodeBytes payload offset =
      match getRange payload offset (offset + 32) with
      | none => .error (.invalidSignature "bad ABI bytes field")
      | some w =>
        match getRange payload (offset + 32) (offset + 32 + lowU32 w) with
        | none => .error (.invalidSignature "bad ABI bytes field")
        | some data => .value (data, offset + 32 + lowU32 w) := by
  rw [decodeBytes, Checked.add_eq_value (by omega), Checked.bind]
  cases hw : getRange payload offset (offset + 32) with
  | none => rfl
  | some w =>
    have hlength : w.length = 32 := by
      have hrange := length_of_getRange hw
      omega
    have hlow := lowU32_lt hlength
    have harray : tryInto 4 (w.drop 28) = some (w.drop 28) := by
      rw [tryInto, if_pos (by rw [List.length_drop]; omega)]
    rw [Checked.ofOption, Checked.bind, getRange_low hlength, Checked.unwrap, Checked.bind, harray,
      Checked.ofOption, Checked.bind, Checked.bind, ← lowU32, Checked.add_eq_value (by omega),
      Checked.bind]
    dsimp only
    cases getRange payload (offset + 32) (offset + 32 + lowU32 w) with
    | none => rfl
    | some data => rfl

theorem decodeBytes_ne_panic (h : offset < 2 ^ 32) : decodeBytes payload offset ≠ .panic := by
  rw [decodeBytes_eq h]
  split
  · exact nofun
  · split
    · exact nofun
    · exact nofun

/-- **Every byte string is read without a panic.** -/
theorem decodeErc6492_ne_panic (signature : List UInt8) : decodeErc6492 signature ≠ .panic := by
  rw [decodeErc6492]
  split
  · exact nofun
  · refine Checked.bind_ne_panic (takeAt_ne_panic (by decide)) fun factory _ => ?_
    refine Checked.bind_ne_panic (Checked.ofOption_ne_panic _ _) fun factory _ => ?_
    refine Checked.bind_ne_panic (offsetOf_ne_panic (by decide)) fun calldataOff hcalldata => ?_
    refine Checked.bind_ne_panic (offsetOf_ne_panic (by decide)) fun sigOff hsig => ?_
    have hcalldataOff := offsetOf_lt (by decide) hcalldata
    have hsigOff := offsetOf_lt (by decide) hsig
    refine Checked.bind_ne_panic (decodeBytes_ne_panic hcalldataOff) fun calldata _ => ?_
    exact Checked.bind_ne_panic (decodeBytes_ne_panic hsigOff) nofun

/-! ### A wrapper is read back -/

def wrapperTuple (factory : EvmAddress) (calldata sig : List UInt8) : List UInt8 :=
  Abi.encode [addressArgument factory, .bytes calldata, .bytes sig]

def wrap (factory : EvmAddress) (calldata sig : List UInt8) : List UInt8 :=
  wrapperTuple factory calldata sig ++ erc6492DetectionSuffix

/-- The offset of the signature in a wrapper. -/
def sigOffset (calldata : List UInt8) : Nat :=
  128 + (calldata.length + Abi.missing calldata.length)

theorem wrapperTuple_eq (factory : EvmAddress) (calldata sig : List UInt8) :
    wrapperTuple factory calldata sig =
      factory.toWord ++ (Abi.word 96 ++ (Abi.word (sigOffset calldata) ++
        (Abi.word calldata.length ++ (Abi.padded calldata ++
          (Abi.word sig.length ++ Abi.padded sig))))) := by
  have hoffset : 32 * 3 + 0 + (32 + (calldata.length + Abi.missing calldata.length)) =
      sigOffset calldata := by
    rw [sigOffset]
    omega
  simp [wrapperTuple, Abi.encode, Abi.heads, Abi.Argument.head, Abi.Argument.tail, addressArgument,
    Abi.length_padded, ← hoffset]

theorem offsetOf_append {a c : List UInt8} (ha : a.length = i) (hi : i + 32 < 2 ^ 64)
    (ho : offset < 2 ^ 32) : offsetOf (a ++ (Abi.word offset ++ c)) i = .value offset := by
  have hword : wordAt (a ++ (Abi.word offset ++ c)) i = .value (Abi.word offset) :=
    (wordAt_eq_value_iff hi).mpr (getRange_append ha (by rw [Abi.length_word]))
  rw [offsetOf, hword, Checked.bind, lowU32_word, Nat.mod_eq_of_lt ho]

theorem decodeBytes_append {a data c : List UInt8} (ha : a.length = offset) (ho : offset < 2 ^ 32)
    (hdata : data.length < 2 ^ 32) :
    decodeBytes (a ++ (Abi.word data.length ++ (data ++ c))) offset =
      .value (data, offset + 32 + data.length) := by
  have hword : getRange (a ++ (Abi.word data.length ++ (data ++ c))) offset (offset + 32) =
      some (Abi.word data.length) := getRange_append ha (by rw [Abi.length_word])
  have hbehind : (a ++ Abi.word data.length).length = offset + 32 := by
    rw [List.length_append, Abi.length_word, ha]
  have hbytes : getRange (a ++ (Abi.word data.length ++ (data ++ c))) (offset + 32)
      (offset + 32 + data.length) = some data := by
    rw [← List.append_assoc]
    exact getRange_append hbehind rfl
  rw [decodeBytes_eq ho, hword]
  dsimp only
  rw [lowU32_word, Nat.mod_eq_of_lt hdata, hbytes]

theorem isErc6492Wrapped_append (h : 0 < inner.length) :
    isErc6492Wrapped (inner ++ erc6492DetectionSuffix) = true := by
  have hlength : erc6492DetectionSuffix.length = 32 := by decide
  rw [isErc6492Wrapped, List.length_append, hlength, Nat.add_sub_cancel, List.drop_left,
    Bool.and_eq_true]
  exact ⟨decide_eq_true (by omega), beq_self_eq_true _⟩

theorem isErc6492Wrapped_wrap (factory : EvmAddress) (calldata sig : List UInt8) :
    isErc6492Wrapped (wrap factory calldata sig) = true := by
  refine isErc6492Wrapped_append ?_
  rw [wrapperTuple_eq, List.length_append, EvmAddress.length_toWord]
  omega

section Parts

variable (factory : EvmAddress) {calldata : List UInt8} (sig : List UInt8)

theorem takeAt_factory : takeAt (wrapperTuple factory calldata sig) 12 20 =
    .value factory.bytes.toList := by
  rw [takeAt_eq_value_iff (by decide), wrapperTuple_eq, EvmAddress.toWord, List.append_assoc]
  exact getRange_append List.length_replicate (by rw [Vector.length_toList])

theorem offsetOf_calldata : offsetOf (wrapperTuple factory calldata sig) 32 = .value 96 := by
  rw [wrapperTuple_eq]
  exact offsetOf_append factory.length_toWord (by decide) (by decide)

theorem offsetOf_sig (h : sigOffset calldata < 2 ^ 32) :
    offsetOf (wrapperTuple factory calldata sig) 64 = .value (sigOffset calldata) := by
  rw [wrapperTuple_eq, ← List.append_assoc]
  refine offsetOf_append ?_ (by decide) h
  simp [EvmAddress.length_toWord, Abi.length_word]

theorem decodeBytes_calldata (h : sigOffset calldata < 2 ^ 32) :
    decodeBytes (wrapperTuple factory calldata sig) 96 =
      .value (calldata, 96 + 32 + calldata.length) := by
  rw [wrapperTuple_eq, Abi.padded, List.append_assoc calldata, ← List.append_assoc,
    ← List.append_assoc]
  refine decodeBytes_append ?_ (by decide) ?_
  · simp [EvmAddress.length_toWord, Abi.length_word]
  · rw [sigOffset] at h
    omega

theorem decodeBytes_sig (hcalldata : sigOffset calldata < 2 ^ 32) (hsig : sig.length < 2 ^ 32) :
    decodeBytes (wrapperTuple factory calldata sig) (sigOffset calldata) =
      .value (sig, sigOffset calldata + 32 + sig.length) := by
  have hparts : wrapperTuple factory calldata sig =
      (factory.toWord ++ Abi.word 96 ++ Abi.word (sigOffset calldata) ++
        Abi.word calldata.length ++ Abi.padded calldata) ++ (Abi.word sig.length ++
          (sig ++ List.replicate (Abi.missing sig.length) 0)) := by
    rw [wrapperTuple_eq, Abi.padded, Abi.padded]
    simp only [List.append_assoc]
  rw [hparts]
  refine decodeBytes_append ?_ hcalldata hsig
  simp only [List.length_append, EvmAddress.length_toWord, Abi.length_word, Abi.length_padded,
    sigOffset]

end Parts

/-- **A wrapper is read back**, when its offsets and lengths have 32 bits. -/
theorem decodeErc6492_wrap (factory : EvmAddress) {calldata sig : List UInt8}
    (hcalldata : sigOffset calldata < 2 ^ 32) (hsig : sig.length < 2 ^ 32) :
    decodeErc6492 (wrap factory calldata sig) = .value (factory, calldata, sig) := by
  have hsuffix : erc6492DetectionSuffix.length = 32 := by decide
  have hinner : (wrap factory calldata sig).take ((wrap factory calldata sig).length - 32) =
      wrapperTuple factory calldata sig := by
    simp [wrap, hsuffix]
  have hvector : ∀ h, (⟨factory.bytes.toList.toArray, h⟩ : Vector UInt8 20) = factory.bytes := by
    intro h
    exact Vector.toList_inj.mp rfl
  rw [decodeErc6492, isErc6492Wrapped_wrap]
  dsimp only
  rw [if_neg (by decide), hinner, takeAt_factory, Checked.bind, dif_pos Vector.length_toList,
    hvector, Checked.ofOption, Checked.bind, offsetOf_calldata, Checked.bind,
    offsetOf_sig factory sig hcalldata, Checked.bind, decodeBytes_calldata factory sig hcalldata,
    Checked.bind, decodeBytes_sig factory sig hcalldata hsig, Checked.bind]

/-! ### The calls are not those of Solidity -/

theorem encodeIsValidSignature_eq (hash : Word) {signature : List UInt8}
    (h : signature.length < 2 ^ 32) :
    let words := erc1271Selector keccak256 ++ (hash.toList ++ (Abi.word 64 ++
      (Abi.word signature.length ++ signature)))
    encodeIsValidSignature keccak256 hash signature =
      words ++ List.replicate (Abi.missing (signature.length + 4)) 0 ∧
    erc1271Selector keccak256 ++ Abi.encode [.word hash, .bytes signature] =
      words ++ List.replicate (Abi.missing signature.length) 0 := by
  have hmissing : Abi.missing (4 + (32 + 32) + 32 + signature.length) =
      Abi.missing (signature.length + 4) := by
    rw [Abi.missing, Abi.missing]
    omega
  constructor
  · rw [encodeIsValidSignature, pushWord_eq _ (by decide), pushBytes_eq _ h]
    simp [erc1271Selector, hmissing]
  · simp [Abi.encode, Abi.heads, Abi.Argument.head, Abi.Argument.tail, Abi.padded]

/-- **The calls are never those of Solidity**: their arguments are no whole words. A wrapper is read
back, when its offsets and lengths have 32 bits, and nothing panics. -/
theorem calldata_never_standard (hash : Word) (signer : EvmAddress) (signature : List UInt8)
    (factory : EvmAddress) (calldata sig bs : List UInt8) :
    (encodeIsValidSignature keccak256 hash signature ≠
      erc1271Selector keccak256 ++ Abi.encode [.word hash, .bytes signature]) ∧
    (encodeIsValidSig keccak256 signer hash signature ≠ isValidSigSelector keccak256 ++
      Abi.encode [addressArgument signer, .word hash, .bytes signature]) ∧
    ¬ 32 ∣ ((encodeIsValidSignature keccak256 hash signature).drop 4).length ∧
    ¬ 32 ∣ ((encodeIsValidSig keccak256 signer hash signature).drop 4).length ∧
    (sigOffset calldata < 2 ^ 32 → sig.length < 2 ^ 32 →
      decodeErc6492 (wrap factory calldata sig) = .value (factory, calldata, sig)) ∧
    decodeErc6492 bs ≠ .panic :=
  ⟨pushBytes_ne_encode (length_first4 _) _ _ _, pushBytes_ne_encode (length_first4 _) _ _ _,
    not_dvd_length_drop_pushBytes _ _, not_dvd_length_drop_pushBytes _ _,
    decodeErc6492_wrap factory, decodeErc6492_ne_panic bs⟩

/-- The selector of `isValidSignature` is that of Solidity here. -/
def selectorDigest (_ : List UInt8) : Word :=
  (#v[0x16, 0x26, 0xba, 0x7e] : Vector UInt8 4) ++ (Vector.replicate 28 0 : Vector UInt8 28)

/-- The call for a signature of 65 bytes ends in the middle of a word. -/
theorem calldata_short :
    let hash : Word := Vector.replicate 32 7
    let signature : List UInt8 := List.replicate 65 1
    (encodeIsValidSignature selectorDigest hash signature).length = 192 ∧
    (erc1271Selector selectorDigest ++ Abi.encode [.word hash, .bytes signature]).length = 196 ∧
    encodeIsValidSignature selectorDigest hash signature ≠
      erc1271Selector selectorDigest ++ Abi.encode [.word hash, .bytes signature] := by
  intro hash signature
  have hsignature : signature.length < 2 ^ 32 := by decide
  obtain ⟨hcall, hstandard⟩ := encodeIsValidSignature_eq selectorDigest hash hsignature
  have hcallLength : (encodeIsValidSignature selectorDigest hash signature).length = 192 := by
    rw [hcall]
    decide +kernel
  have hlength : (erc1271Selector selectorDigest ++
      Abi.encode [.word hash, .bytes signature]).length = 196 := by
    rw [hstandard]
    decide +kernel
  refine ⟨hcallLength, hlength, fun h => ?_⟩
  rw [h, hlength] at hcallLength
  exact absurd hcallLength (by decide)

/-- A short wrapper is read back. -/
theorem calldata_never_standard_demo :
    decodeErc6492 (wrap ⟨Vector.replicate 20 1⟩ [2] [3]) =
      .value (⟨Vector.replicate 20 1⟩, [2], [3]) :=
  (calldata_never_standard selectorDigest (Vector.replicate 32 7) ⟨Vector.replicate 20 1⟩ []
    ⟨Vector.replicate 20 1⟩ [2] [3] []).2.2.2.2.1 (by decide) (by decide)

end Buzz.EvmAuth
