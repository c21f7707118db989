import Mathlib.Data.List.Basic
import CohortSwitch.Python

/-!
# Stable buckets

A subject is placed in one of ten thousand buckets by hashing the tuple
`(namespace, project, environment, flag key, subject key, salt)`. Each part
is fed to BLAKE2b behind its length as four big-endian bytes, and the first
eight bytes of the digest are reduced modulo the number of buckets.

The lengths make the stream of bytes determine the tuple: without them
`("a", "bc")` and `("ab", "c")` would be fed alike, and two flags could share
their buckets by accident of their names. Four bytes bound the length of a
part, so a part of four gigabytes has no stream and raises; `FitsHash` is that
bound, and `exists_stableBucket` says that nothing else can go wrong.

## The two hash functions

BLAKE2b is written out here as the standard library computes it: no key, no
salt, a digest size and a personalization text in the parameter block.
SHA-256, which hides the secrets of keys and tokens, is written out after it.
Both are executable, so a bucket or a stored hash can be checked against one
that the service computed. Nothing below relies on more than that they are
functions, except where a theorem names a property it asks for.
-/

namespace CohortSwitch

namespace Blake2b

/-- The initialization vector. -/
def iv : Vector UInt64 8 :=
  #v[0x6a09e667f3bcc908, 0xbb67ae8584caa73b, 0x3c6ef372fe94f82b, 0xa54ff53a5f1d36f1,
    0x510e527fade682d1, 0x9b05688c2b3e6c1f, 0x1f83d9abfb41bd6b, 0x5be0cd19137e2179]

/-- The message schedule of the ten distinct rounds. -/
def sigma : Vector (Vector (Fin 16) 16) 10 :=
  #v[#v[0, 1, 2, 3, 4, 5, 6, 7, 8, 9, 10, 11, 12, 13, 14, 15],
    #v[14, 10, 4, 8, 9, 15, 13, 6, 1, 12, 0, 2, 11, 7, 5, 3],
    #v[11, 8, 12, 0, 5, 2, 15, 13, 10, 14, 3, 6, 7, 1, 9, 4],
    #v[7, 9, 3, 1, 13, 12, 11, 14, 2, 6, 5, 10, 4, 0, 15, 8],
    #v[9, 0, 5, 7, 2, 4, 10, 15, 14, 1, 11, 12, 6, 8, 3, 13],
    #v[2, 12, 6, 10, 0, 11, 8, 3, 4, 13, 7, 5, 15, 14, 1, 9],
    #v[12, 5, 1, 15, 14, 13, 4, 10, 0, 7, 6, 3, 9, 2, 8, 11],
    #v[13, 11, 7, 14, 12, 1, 3, 9, 5, 0, 15, 4, 8, 6, 2, 10],
    #v[6, 15, 14, 9, 11, 3, 0, 8, 12, 2, 13, 7, 1, 4, 10, 5],
    #v[10, 2, 8, 4, 7, 6, 1, 5, 15, 11, 9, 14, 3, 12, 13, 0]]

/-- The word that eight little-endian bytes write. -/
def wordOfBytes (bytes : List UInt8) : UInt64 :=
  bytes.foldr (fun byte word => (word <<< 8) ||| byte.toUInt64) 0

/-- The `i`-th little-endian word of a byte string, padded with zeros. -/
def wordAt (bytes : List UInt8) (i : ℕ) : UInt64 :=
  wordOfBytes ((bytes.drop (8 * i)).take 8)

def bytesOfWord (word : UInt64) : List UInt8 :=
  (List.range 8).map (fun i => (word >>> (8 * i).toUInt64).toUInt8)

def rotateRight (word : UInt64) (n : UInt64) : UInt64 :=
  (word >>> n) ||| (word <<< (64 - n))

/-- The mixing function on four lanes and two message words. -/
def mix (v : Vector UInt64 16) (a b c d : Fin 16) (x y : UInt64) : Vector UInt64 16 :=
  let v := v.set a (v[a] + v[b] + x)
  let v := v.set d (rotateRight (v[d] ^^^ v[a]) 32)
  let v := v.set c (v[c] + v[d])
  let v := v.set b (rotateRight (v[b] ^^^ v[c]) 24)
  let v := v.set a (v[a] + v[b] + y)
  let v := v.set d (rotateRight (v[d] ^^^ v[a]) 16)
  let v := v.set c (v[c] + v[d])
  v.set b (rotateRight (v[b] ^^^ v[c]) 63)

/-- One round: the columns, then the diagonals. -/
def round (m : Fin 16 → UInt64) (v : Vector UInt64 16) (r : ℕ) : Vector UInt64 16 :=
  let s := sigma.get ⟨r % 10, Nat.mod_lt _ (by decide)⟩
  let v := mix v 0 4 8 12 (m s[0]) (m s[1])
  let v := mix v 1 5 9 13 (m s[2]) (m s[3])
  let v := mix v 2 6 10 14 (m s[4]) (m s[5])
  let v := mix v 3 7 11 15 (m s[6]) (m s[7])
  let v := mix v 0 5 10 15 (m s[8]) (m s[9])
  let v := mix v 1 6 11 12 (m s[10]) (m s[11])
  let v := mix v 2 7 8 13 (m s[12]) (m s[13])
  mix v 3 4 9 14 (m s[14]) (m s[15])

/-- The compression of one block after `counter` bytes. -/
def compress (h : Vector UInt64 8) (block : List UInt8) (counter : ℕ) (last : Bool) :
    Vector UInt64 8 :=
  let v := h ++ iv
  let v := v.set 12 (v[12] ^^^ counter.toUInt64)
  let v := v.set 13 (v[13] ^^^ (counter / 2 ^ 64).toUInt64)
  let v := if last then v.set 14 (~~~ v[14]) else v
  let v := (List.range 12).foldl (round (fun i => wordAt block i)) v
  Vector.ofFn (fun i : Fin 8 => h[i] ^^^ v[(i : ℕ)] ^^^ v[(i : ℕ) + 8])

/-- The blocks of 128 bytes, the last one marked; `counter` bytes were fed before. The last
argument bounds the number of blocks. -/
def absorb (h : Vector UInt64 8) (counter : ℕ) (data : List UInt8) : ℕ → Vector UInt64 8
  | 0 => h
  | fuel + 1 =>
    if data.length ≤ 128 then compress h data (counter + data.length) true
    else absorb (compress h (data.take 128) (counter + 128) false) (counter + 128)
      (data.drop 128) fuel

/-- The parameter block of an unkeyed hash. -/
def parameters (digestSize : ℕ) (person : List UInt8) : List UInt8 :=
  [digestSize.toUInt8, 0, 1, 1] ++ List.replicate 44 0 ++ person
    ++ List.replicate (16 - person.length) 0

/-- `hashlib.blake2b(digest_size=…, person=…)` fed with `data`. -/
def digest (digestSize : ℕ) (person data : List UInt8) : List UInt8 :=
  let h := Vector.ofFn (fun i : Fin 8 => iv[i] ^^^ wordAt (parameters digestSize person) i)
  ((absorb h 0 data (data.length / 128 + 1)).toList.flatMap bytesOfWord).take digestSize

end Blake2b

/-! ## The bucket of a subject -/

/-- The namespace every tuple starts with. -/
def DEFAULT_EVALUATION_NAMESPACE : String := "fv9"

/-- How many buckets there are; boundaries and percentages count in these. -/
def BUCKET_COUNT : ℕ := 10000

/-- `text.encode("utf-8")`. -/
def encodeUtf8 (text : String) : List UInt8 := text.toUTF8.data.toList

/-- `value.to_bytes(4, "big")`, which raises where four bytes are not enough. -/
def toBytesBig4 (value : ℕ) : Except PyError (List UInt8) :=
  if value < 2 ^ 32 then
    .ok [(value / 2 ^ 24).toUInt8, (value / 2 ^ 16).toUInt8, (value / 2 ^ 8).toUInt8,
      value.toUInt8]
  else .error (.overflowError "int too big to convert")

/-- `int.from_bytes(bytes, "big")`. -/
def fromBytesBig (bytes : List UInt8) : ℕ :=
  bytes.foldl (fun n byte => 256 * n + byte.toNat) 0

/-- The bytes one part of the tuple feeds to the hash: its length in four bytes, then the part.
-/
def lengthPrefixed (part : String) : Except PyError (List UInt8) := do
  let encoded := encodeUtf8 part
  let length ← toBytesBig4 encoded.length
  pure (length ++ encoded)

/-- The bytes a tuple of parts feeds to the hash, part after part. -/
def hashInput (parts : List String) : Except PyError (List UInt8) := do
  let chunks ← parts.mapM lengthPrefixed
  pure chunks.flatten

/-- **The bucket of a subject.** The namespace comes first, so another deployment of the same
code can place the same subjects elsewhere. -/
def stableBucket (projectId environmentId flagKey subjectKey salt : String) :
    Except PyError ℕ := do
  let input ← hashInput
    [DEFAULT_EVALUATION_NAMESPACE, projectId, environmentId, flagKey, subjectKey, salt]
  let digest := Blake2b.digest 16 (encodeUtf8 "cohort-switch") input
  pure (fromBytesBig (digest.take 8) % BUCKET_COUNT)

/-- A text that fits the four-byte length of the hash input. The bound is on its bytes, not on
its characters. -/
def FitsHash (part : String) : Prop := (encodeUtf8 part).length < 2 ^ 32

instance (part : String) : Decidable (FitsHash part) :=
  inferInstanceAs (Decidable ((encodeUtf8 part).length < 2 ^ 32))

/-- A text that fits feeds its bytes behind their length. -/
theorem exists_lengthPrefixed {part : String} (h : FitsHash part) :
    ∃ bytes, lengthPrefixed part = .ok bytes := by
  have hlen : ∃ length, toBytesBig4 (encodeUtf8 part).length = .ok length := by
    unfold toBytesBig4
    exact ⟨_, if_pos h⟩
  obtain ⟨length, hl⟩ := hlen
  exact ⟨length ++ encodeUtf8 part, bind_eq_ok.mpr ⟨length, hl, rfl⟩⟩

/-- A tuple of texts that fit has a hash input. -/
theorem exists_hashInput {parts : List String} (h : ∀ part ∈ parts, FitsHash part) :
    ∃ bytes, hashInput parts = .ok bytes := by
  suffices hchunks : ∃ chunks, parts.mapM lengthPrefixed = .ok chunks by
    obtain ⟨chunks, hc⟩ := hchunks
    exact ⟨chunks.flatten, bind_eq_ok.mpr ⟨chunks, hc, rfl⟩⟩
  induction parts with
  | nil => exact ⟨[], rfl⟩
  | cons part parts ih =>
    obtain ⟨bytes, hb⟩ := exists_lengthPrefixed (h part List.mem_cons_self)
    obtain ⟨chunks, hc⟩ := ih (fun p hp => h p (List.mem_cons_of_mem _ hp))
    refine ⟨bytes :: chunks, ?_⟩
    rw [List.mapM_cons]
    exact bind_eq_ok.mpr ⟨bytes, hb, bind_eq_ok.mpr ⟨chunks, hc, rfl⟩⟩

/-- A bucket is below the number of buckets. -/
theorem stableBucket_lt {projectId environmentId flagKey subjectKey salt : String} {bucket : ℕ}
    (h : stableBucket projectId environmentId flagKey subjectKey salt = .ok bucket) :
    bucket < BUCKET_COUNT := by
  obtain ⟨input, -, h⟩ := bind_eq_ok.mp h
  rw [← pure_eq_ok.mp h]
  exact Nat.mod_lt _ (by decide)

/-- **Texts that fit have a bucket.** The bucket is the digest modulo the number of buckets, and
a digest always exists. -/
theorem exists_stableBucket {projectId environmentId flagKey subjectKey salt : String}
    (hp : FitsHash projectId) (he : FitsHash environmentId) (hf : FitsHash flagKey)
    (hs : FitsHash subjectKey) (hsalt : FitsHash salt) :
    ∃ bucket, stableBucket projectId environmentId flagKey subjectKey salt = .ok bucket := by
  have hns : FitsHash DEFAULT_EVALUATION_NAMESPACE := by decide
  have hall : ∀ part ∈ [DEFAULT_EVALUATION_NAMESPACE, projectId, environmentId, flagKey,
      subjectKey, salt], FitsHash part := by
    simp only [List.forall_mem_cons]
    exact ⟨hns, hp, he, hf, hs, hsalt, fun _ h => absurd h List.not_mem_nil⟩
  obtain ⟨input, hi⟩ := exists_hashInput hall
  exact ⟨_, bind_eq_ok.mpr ⟨input, hi, rfl⟩⟩

/-! ## The hash of a secret -/

namespace Sha256

/-- The fractional parts of the square roots of the first eight primes. -/
def iv : List UInt32 :=
  [0x6a09e667, 0xbb67ae85, 0x3c6ef372, 0xa54ff53a, 0x510e527f, 0x9b05688c, 0x1f83d9ab,
    0x5be0cd19]

/-- The fractional parts of the cube roots of the first sixty-four primes. -/
def roundConstants : List UInt32 :=
  [0x428a2f98, 0x71374491, 0xb5c0fbcf, 0xe9b5dba5, 0x3956c25b, 0x59f111f1, 0x923f82a4,
    0xab1c5ed5, 0xd807aa98, 0x12835b01, 0x243185be, 0x550c7dc3, 0x72be5d74, 0x80deb1fe,
    0x9bdc06a7, 0xc19bf174, 0xe49b69c1, 0xefbe4786, 0x0fc19dc6, 0x240ca1cc, 0x2de92c6f,
    0x4a7484aa, 0x5cb0a9dc, 0x76f988da, 0x983e5152, 0xa831c66d, 0xb00327c8, 0xbf597fc7,
    0xc6e00bf3, 0xd5a79147, 0x06ca6351, 0x14292967, 0x27b70a85, 0x2e1b2138, 0x4d2c6dfc,
    0x53380d13, 0x650a7354, 0x766a0abb, 0x81c2c92e, 0x92722c85, 0xa2bfe8a1, 0xa81a664b,
    0xc24b8b70, 0xc76c51a3, 0xd192e819, 0xd6990624, 0xf40e3585, 0x106aa070, 0x19a4c116,
    0x1e376c08, 0x2748774c, 0x34b0bcb5, 0x391c0cb3, 0x4ed8aa4a, 0x5b9cca4f, 0x682e6ff3,
    0x748f82ee, 0x78a5636f, 0x84c87814, 0x8cc70208, 0x90befffa, 0xa4506ceb, 0xbef9a3f7,
    0xc67178f2]

def rotateRight (word n : UInt32) : UInt32 := (word >>> n) ||| (word <<< (32 - n))

/-- The word that big-endian bytes write. -/
def wordOfBytes (bytes : List UInt8) : UInt32 :=
  bytes.foldl (fun word byte => (word <<< 8) ||| byte.toUInt32) 0

/-- The sixteen words of a block and the `fuel` words after them. -/
def schedule : ℕ → List UInt32 → List UInt32
  | 0, w => w
  | fuel + 1, w =>
    let at_ (back : ℕ) := w.getD (w.length - back) 0
    let s₀ := rotateRight (at_ 15) 7 ^^^ rotateRight (at_ 15) 18 ^^^ (at_ 15 >>> 3)
    let s₁ := rotateRight (at_ 2) 17 ^^^ rotateRight (at_ 2) 19 ^^^ (at_ 2 >>> 10)
    schedule fuel (w ++ [at_ 16 + s₀ + at_ 7 + s₁])

/-- One round. -/
def round (state : List UInt32) (kw : UInt32 × UInt32) : List UInt32 :=
  match state with
  | [a, b, c, d, e, f, g, h] =>
    let s₁ := rotateRight e 6 ^^^ rotateRight e 11 ^^^ rotateRight e 25
    let t₁ := h + s₁ + ((e &&& f) ^^^ (~~~ e &&& g)) + kw.1 + kw.2
    let s₀ := rotateRight a 2 ^^^ rotateRight a 13 ^^^ rotateRight a 22
    let t₂ := s₀ + ((a &&& b) ^^^ (a &&& c) ^^^ (b &&& c))
    [t₁ + t₂, a, b, c, d + t₁, e, f, g]
  | _ => state

/-- The compression of one block. -/
def compress (state : List UInt32) (block : List UInt8) : List UInt32 :=
  let words := (List.range 16).map (fun i => wordOfBytes ((block.drop (4 * i)).take 4))
  let mixed := (roundConstants.zip (schedule 48 words)).foldl round state
  List.zipWith (fun x y => x + y) state mixed

/-- The message with its padding and its length in bits. -/
def padded (data : List UInt8) : List UInt8 :=
  data ++ 0x80 :: List.replicate ((119 - data.length % 64) % 64) 0
    ++ (List.range 8).map (fun i => (8 * data.length / 256 ^ (7 - i)).toUInt8)

def absorb (state : List UInt32) (data : List UInt8) : ℕ → List UInt32
  | 0 => state
  | fuel + 1 => absorb (compress state (data.take 64)) (data.drop 64) fuel

/-- `hashlib.sha256(…).hexdigest()`. -/
def hexdigest (data : List UInt8) : String :=
  let message := padded data
  let words := absorb iv message (message.length / 64)
  String.ofList (words.flatMap (fun word =>
    let digits := Nat.toDigits 16 word.toNat
    List.replicate (8 - digits.length) '0' ++ digits))

end Sha256

/-- `hash_secret`, the form in which a secret is stored. -/
def hashSecret (secret : String) : String :=
  Sha256.hexdigest secret.toUTF8.toList

end CohortSwitch
