import SpanReport.Digest.Sha256
import SpanReport.Proofs.Text.Hex

/-! # The hash of a text

A digest reads every byte of its message: padding adds to the message what fills its last block
(`Sha256.pad_eq`), and the words of the padded message are cut into blocks of sixteen
(`Sha256.blocks_pad`). The hash of a text is the digest of its bytes in base sixteen: 64 digits,
which stand for the number that the words of the digest make up (`isContentHash_contentHash`). No
other string is (`IsContentHash.eq_contentHash`). -/

namespace SpanReport

namespace Sha256

/-! ## Padding -/

@[simp] theorem length_bigEndian (count value : Nat) : (bigEndian count value).length = count := by
  induction count with
  | zero => rfl
  | succ count ih => simp [bigEndian, ih]

/-- **Padding leaves the message in front**, and adds a one bit, fewer zeros than a block has bytes,
and the number of bits. -/
theorem pad_eq (message : List UInt8) :
    ∃ zeros < 64, pad message =
      message ++ 0x80 :: List.replicate zeros 0 ++ bigEndian 8 (8 * message.length) :=
  ⟨(119 - message.length % 64) % 64, Nat.mod_lt _ (by decide), rfl⟩

/-- A padded message consists of whole blocks. -/
theorem length_pad_mod (message : List UInt8) : (pad message).length % 64 = 0 := by
  simp only [pad, List.length_append, List.length_cons, List.length_replicate, length_bigEndian]
  omega

/-! ## Blocks -/

/-- Four bytes make up a word. -/
theorem length_words (bytes : List UInt8) : (words bytes).length = bytes.length / 4 := by
  induction bytes using words.induct with
  | case1 a b c d rest ih =>
      simp only [words, List.length_cons, ih]
      omega
  | case2 bytes hshort =>
      match bytes with
      | [] | [_] | [_, _] | [_, _, _] => simp [words]
      | a :: b :: c :: d :: rest => exact absurd rfl (hshort a b c d rest)

/-- The blocks leave no word out. -/
theorem flatten_blocks (words : List UInt32) : (blocks words).flatten = words := by
  induction words using blocks.induct with
  | case1 => simp [blocks]
  | case2 word later ih =>
      rw [blocks, List.flatten_cons, ih, List.cons_append, List.take_append_drop]

/-- Words that make up whole blocks are cut into blocks of sixteen. -/
theorem length_of_mem_blocks {words block : List UInt32} (h : words.length % 16 = 0)
    (hmem : block ∈ blocks words) : block.length = 16 := by
  induction words using blocks.induct with
  | case1 => simp [blocks] at hmem
  | case2 word later ih =>
      rw [List.length_cons] at h
      rw [blocks] at hmem
      obtain rfl | hlater := List.mem_cons.mp hmem
      · rw [List.length_cons, List.length_take]
        omega
      · refine ih ?_ hlater
        rw [List.length_drop]
        omega

/-- **The blocks of a message** have sixteen words each, and together they are the words of the
padded message. -/
theorem blocks_pad (message : List UInt8) :
    (blocks (words (pad message))).flatten = words (pad message) ∧
      ∀ block ∈ blocks (words (pad message)), block.length = 16 := by
  refine ⟨flatten_blocks _, fun block hmem => length_of_mem_blocks ?_ hmem⟩
  have hpad := length_pad_mod message
  rw [length_words]
  omega

/-- The number that the words of a state make up, the first word being the highest. -/
def State.toNat (state : State) : Nat :=
  state.toList.foldl (fun value word => 2 ^ 32 * value + word.toNat) 0

end Sha256

/-! ## Hashes -/

/-- A hash of a text: the digest of its bytes as a number of 64 digits. -/
structure IsContentHash (text : Text) (hash : String) : Prop where
  /-- There are 64 characters. -/
  length_eq : hash.length = 64
  /-- All of them are digits of base sixteen, with small letters. -/
  mem_hexAlphabet : ∀ c ∈ hash.toList, c ∈ hexAlphabet
  /-- They stand for the digest of the UTF-8 bytes of the text. -/
  hexValue_eq : hexValue hash.toList = (Sha256.digest (String.ofList text).toUTF8.toList).toNat

/-- The digits of words stand for the number that the words make up. -/
theorem hexValueFrom_flatMap (words : List UInt32) (value : Nat) :
    hexValueFrom value (words.flatMap fun word => hexDigits 8 word.toNat) =
      words.foldl (fun value word => 2 ^ 32 * value + word.toNat) value := by
  induction words generalizing value with
  | nil => rfl
  | cons word later ih =>
      have hword : word.toNat % 16 ^ 8 = word.toNat := Nat.mod_eq_of_lt word.toNat_lt_size
      have happend :
          hexValueFrom value ((word :: later).flatMap fun word => hexDigits 8 word.toNat) =
            hexValueFrom (hexValueFrom value (hexDigits 8 word.toNat))
              (later.flatMap fun word => hexDigits 8 word.toNat) := by
        rw [List.flatMap_cons, hexValueFrom, List.foldl_append]
        rfl
      rw [happend, ih, hexValueFrom_eq, hexValue_hexDigits, length_hexDigits, hword,
        List.foldl_cons, Nat.mul_comm value]
      rfl

/-- **What a text is hashed to is its hash.** -/
theorem isContentHash_contentHash (text : Text) : IsContentHash text (contentHash text) where
  length_eq := by
    simp [contentHash, Sha256.State.toList]
  mem_hexAlphabet c hmem := by
    rw [contentHash, String.toList_ofList] at hmem
    obtain ⟨word, -, hc⟩ := List.mem_flatMap.mp hmem
    exact mem_hexAlphabet_of_mem_hexDigits hc
  hexValue_eq := by
    rw [contentHash, String.toList_ofList]
    exact hexValueFrom_flatMap _ 0

/-- **A text has one hash.** -/
theorem IsContentHash.eq_contentHash {text : Text} {hash : String} (h : IsContentHash text hash) :
    hash = contentHash text := by
  have hcontent := isContentHash_contentHash text
  apply String.toList_inj.mp
  apply eq_of_hexValue_eq h.mem_hexAlphabet hcontent.mem_hexAlphabet
  · rw [String.length_toList, String.length_toList, h.length_eq, hcontent.length_eq]
  · rw [h.hexValue_eq, hcontent.hexValue_eq]

example : contentHash "abc".toList =
    "ba7816bf8f01cfea414140de5dae2223b00361a396177a9cb410ff61f20015ad" := by decide +kernel

example : contentHash [] =
    "e3b0c44298fc1c149afbf4c8996fb92427ae41e4649b934ca495991b7852b855" := by decide +kernel

end SpanReport
