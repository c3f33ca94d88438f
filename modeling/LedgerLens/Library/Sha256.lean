import Mathlib.Data.List.Basic

/-!
# SHA-256

The hash function on lists of bytes, in the form in which it is usually printed: 64
hexadecimal digits. Words are natural numbers below `2 ^ 32`.
-/

namespace Sha256

/-- The modulus of word addition. -/
def wordSize : ℕ := 0x100000000

/-- Rotation of a word to the right by `n` places. -/
def rotr (x n : ℕ) : ℕ := (x >>> n) ||| (x <<< (32 - n) % wordSize)

/-- The round constants. -/
def roundConstants : List ℕ :=
  [0x428a2f98, 0x71374491, 0xb5c0fbcf, 0xe9b5dba5, 0x3956c25b, 0x59f111f1, 0x923f82a4, 0xab1c5ed5,
   0xd807aa98, 0x12835b01, 0x243185be, 0x550c7dc3, 0x72be5d74, 0x80deb1fe, 0x9bdc06a7, 0xc19bf174,
   0xe49b69c1, 0xefbe4786, 0x0fc19dc6, 0x240ca1cc, 0x2de92c6f, 0x4a7484aa, 0x5cb0a9dc, 0x76f988da,
   0x983e5152, 0xa831c66d, 0xb00327c8, 0xbf597fc7, 0xc6e00bf3, 0xd5a79147, 0x06ca6351, 0x14292967,
   0x27b70a85, 0x2e1b2138, 0x4d2c6dfc, 0x53380d13, 0x650a7354, 0x766a0abb, 0x81c2c92e, 0x92722c85,
   0xa2bfe8a1, 0xa81a664b, 0xc24b8b70, 0xc76c51a3, 0xd192e819, 0xd6990624, 0xf40e3585, 0x106aa070,
   0x19a4c116, 0x1e376c08, 0x2748774c, 0x34b0bcb5, 0x391c0cb3, 0x4ed8aa4a, 0x5b9cca4f, 0x682e6ff3,
   0x748f82ee, 0x78a5636f, 0x84c87814, 0x8cc70208, 0x90befffa, 0xa4506ceb, 0xbef9a3f7, 0xc67178f2]

/-- The initial hash value. -/
def initialHash : List ℕ :=
  [0x6a09e667, 0xbb67ae85, 0x3c6ef372, 0xa54ff53a, 0x510e527f, 0x9b05688c, 0x1f83d9ab, 0x5be0cd19]

/-- A number in `n` bytes, the most significant first. -/
def bigEndian : ℕ → ℕ → List ℕ
  | 0, _ => []
  | n + 1, x => bigEndian n (x / 256) ++ [x % 256]

/-- The message with its padding: a one bit, zeros and the length in bits. -/
def pad (message : List ℕ) : List ℕ :=
  message ++ 0x80 :: List.replicate ((119 - message.length % 64) % 64) 0 ++
    bigEndian 8 (8 * message.length)

/-- The words that bytes spell. -/
def words : List ℕ → List ℕ
  | a :: b :: c :: d :: rest => (a <<< 24 ||| b <<< 16 ||| c <<< 8 ||| d) :: words rest
  | _ => []

/-- The next `n` words of the message schedule, given the last sixteen, newest first. -/
def schedule : ℕ → List ℕ → List ℕ
  | 0, _ => []
  | n + 1, last =>
    let w15 := last.getD 14 0
    let w2 := last.getD 1 0
    let s0 := rotr w15 7 ^^^ rotr w15 18 ^^^ (w15 >>> 3)
    let s1 := rotr w2 17 ^^^ rotr w2 19 ^^^ (w2 >>> 10)
    let w := (last.getD 15 0 + s0 + last.getD 6 0 + s1) % wordSize
    w :: schedule n (w :: last.take 15)

/-- One round on the eight working variables. -/
def round (v : List ℕ) (kw : ℕ × ℕ) : List ℕ :=
  match v with
  | [a, b, c, d, e, f, g, h] =>
    let s1 := rotr e 6 ^^^ rotr e 11 ^^^ rotr e 25
    let ch := (e &&& f) ^^^ ((wordSize - 1 - e) &&& g)
    let t1 := h + s1 + ch + kw.1 + kw.2
    let s0 := rotr a 2 ^^^ rotr a 13 ^^^ rotr a 22
    let maj := (a &&& b) ^^^ (a &&& c) ^^^ (b &&& c)
    [(t1 + s0 + maj) % wordSize, a, b, c, (d + t1) % wordSize, e, f, g]
  | _ => v

/-- The compression of one block of sixteen words. -/
def compress (hash block : List ℕ) : List ℕ :=
  let v := (roundConstants.zip (block ++ schedule 48 block.reverse)).foldl round hash
  List.zipWith (fun x y => (x + y) % wordSize) hash v

/-- The blocks of a padded message, the first number of them. -/
def compressAll : ℕ → List ℕ → List ℕ → List ℕ
  | 0, hash, _ => hash
  | n + 1, hash, message => compressAll n (compress hash (message.take 16)) (message.drop 16)

/-- A hexadecimal digit. -/
def hexDigit (n : ℕ) : Char := "0123456789abcdef".toList.getD n '0'

/-- The eight hexadecimal digits of a word. -/
def hexWord (w : ℕ) : List Char :=
  (bigEndian 4 w).flatMap fun byte => [hexDigit (byte / 16), hexDigit (byte % 16)]

/-- The eight words of the hash of a message. -/
def hashWords (message : List UInt8) : List ℕ :=
  let blocks := words (pad (message.map UInt8.toNat))
  compressAll (blocks.length / 16) initialHash blocks

/-- `hashlib.sha256(message).digest()`. -/
def digest (message : List UInt8) : List UInt8 :=
  (hashWords message).flatMap fun w => (bigEndian 4 w).map UInt8.ofNat

/-- `hashlib.sha256(message).hexdigest()`. -/
def hexdigest (message : List UInt8) : String :=
  String.ofList ((hashWords message).flatMap hexWord)

/-- `hmac.new(key, message, hashlib.sha256).hexdigest()`. -/
def hmacHexdigest (key message : List UInt8) : String :=
  let short := if 64 < key.length then digest key else key
  let block := short ++ List.replicate (64 - short.length) 0
  hexdigest (block.map (· ^^^ 0x5c) ++ digest (block.map (· ^^^ 0x36) ++ message))

/-- The hash of a string is that of its encoding in UTF-8. -/
def hexdigestString (s : String) : String := hexdigest s.toUTF8.data.toList

/-- The encoding in UTF-8 of a text determines it. -/
theorem utf8_inj {s t : String} (h : s.toUTF8.data.toList = t.toUTF8.data.toList) : s = t :=
  String.toByteArray_inj.mp (ByteArray.ext (Array.toList_inj.mp h))

/-- The published hash of the message `abc`. -/
example : hexdigestString "abc" =
    "ba7816bf8f01cfea414140de5dae2223b00361a396177a9cb410ff61f20015ad" := by
  decide +kernel

@[simp] theorem length_bigEndian (n x : ℕ) : (bigEndian n x).length = n := by
  induction n generalizing x with
  | zero => rfl
  | succ n ih => simp [bigEndian, ih]

@[simp] theorem length_round (v : List ℕ) (kw : ℕ × ℕ) : (round v kw).length = v.length := by
  unfold round
  split <;> simp

/-- The rounds keep the eight working variables. -/
theorem length_foldl_round (kws : List (ℕ × ℕ)) (v : List ℕ) :
    (kws.foldl round v).length = v.length := by
  induction kws generalizing v with
  | nil => rfl
  | cons kw kws ih => rw [List.foldl_cons, ih, length_round]

@[simp] theorem length_compress (hash block : List ℕ) :
    (compress hash block).length = hash.length := by
  simp [compress, length_foldl_round]

@[simp] theorem length_compressAll (n : ℕ) (hash message : List ℕ) :
    (compressAll n hash message).length = hash.length := by
  induction n generalizing hash message with
  | zero => rfl
  | succ n ih => rw [compressAll, ih, length_compress]

/-- A digit is one of the sixteen. -/
theorem hexDigit_mem (n : ℕ) : hexDigit n ∈ "0123456789abcdef".toList := by
  unfold hexDigit
  rw [List.getD_eq_getElem?_getD]
  cases h : "0123456789abcdef".toList[n]? with
  | none => decide
  | some c => exact List.mem_of_getElem? h

/-- A hash has 32 bytes. -/
theorem length_digest (message : List UInt8) : (digest message).length = 32 := by
  simp [digest, hashWords, List.length_flatMap, initialHash]

/-- The hexadecimal form of a hash has 64 characters. -/
theorem length_hexdigest (message : List UInt8) : (hexdigest message).length = 64 := by
  have hword (w : ℕ) : (hexWord w).length = 8 := by simp [hexWord, List.length_flatMap]
  simp [hexdigest, hashWords, List.length_flatMap, hword, initialHash]

/-- The hexadecimal form of a hash has lowercase digits only. -/
theorem mem_hexdigest {message : List UInt8} {c : Char} (h : c ∈ (hexdigest message).toList) :
    c ∈ "0123456789abcdef".toList := by
  simp only [hexdigest, String.toList_ofList, List.mem_flatMap, hexWord] at h
  obtain ⟨w, -, byte, -, hc⟩ := h
  have hdigit : c = hexDigit (byte / 16) ∨ c = hexDigit (byte % 16) := by simpa using hc
  cases hdigit with
  | inl heq => exact heq ▸ hexDigit_mem _
  | inr heq => exact heq ▸ hexDigit_mem _

end Sha256
