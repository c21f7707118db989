import CohortSwitch.Hashing

/-!
# The hash input is unambiguous

The parts of the tuple that `stable_bucket` hashes are fed to BLAKE2b one after the other, each
behind its length. Concatenation alone would forget where a part ends: `ab` and `c` would be
hashed as `a` and `bc`. The four bytes of the length tell it: a stream that starts with a part
starts with no other one, and what comes after it is determined too
(`lengthPrefixed_append_inj`). So a stream determines its parts, however many they are
(`hashInput_injective`), and two tuples that differ in any part are hashed differently
(`hashTuple_unambiguous`).

The length is written in four bytes and counts bytes, not characters, so a text whose encoding
is longer than these can say cannot be written at all, and `to_bytes` raises. For every
other text each step can be undone: the big-endian bytes are read back as a number, and the
bytes of UTF-8 as a text.
-/

namespace CohortSwitch

/-! ## The tuple -/

/-- **What `stable_bucket` hashes**, its namespace included. -/
structure HashTuple where
  /-- `namespace`, which separates the hashes of one purpose from all others. -/
  evaluationNamespace : String
  /-- `project_id`. -/
  projectId : String
  /-- `environment_id`. -/
  environmentId : String
  /-- `flag_key`. -/
  flagKey : String
  /-- `subject_key`. -/
  subjectKey : String
  /-- `salt`. -/
  salt : String
deriving DecidableEq

namespace HashTuple

/-- The parts in the order in which they are hashed. -/
def parts (t : HashTuple) : List String :=
  [t.evaluationNamespace, t.projectId, t.environmentId, t.flagKey, t.subjectKey, t.salt]

/-- `stable_bucket`, where the namespace is given as well. -/
def stableBucket (t : HashTuple) : Except PyError ℕ := do
  let input ← hashInput t.parts
  let digest := Blake2b.digest 16 (encodeUtf8 "cohort-switch") input
  pure (fromBytesBig (digest.take 8) % BUCKET_COUNT)

/-- Every part fits the four bytes of its length. -/
def Fits (t : HashTuple) : Prop := ∀ part ∈ t.parts, FitsHash part

instance (t : HashTuple) : Decidable t.Fits :=
  inferInstanceAs (Decidable (∀ part ∈ t.parts, FitsHash part))

end HashTuple

/-- The bucket of a subject is the one in the default namespace. -/
theorem stableBucket_eq (projectId environmentId flagKey subjectKey salt : String) :
    stableBucket projectId environmentId flagKey subjectKey salt
      = HashTuple.stableBucket ⟨DEFAULT_EVALUATION_NAMESPACE, projectId, environmentId, flagKey,
        subjectKey, salt⟩ :=
  rfl

/-! ## One part -/

/-- Four big-endian bytes are read back. -/
theorem fromBytesBig_toBytesBig4 {value : ℕ} {bytes : List UInt8}
    (h : toBytesBig4 value = .ok bytes) : bytes.length = 4 ∧ fromBytesBig bytes = value := by
  unfold toBytesBig4 at h
  split at h
  · cases h
    refine ⟨rfl, ?_⟩
    simp only [fromBytesBig, List.foldl_cons, List.foldl_nil, Nat.toUInt8, UInt8.toNat_ofNat']
    omega
  · cases h

/-- A text is determined by its bytes. -/
theorem encodeUtf8_injective : Function.Injective encodeUtf8 := by
  intro text text' h
  unfold encodeUtf8 at h
  exact String.toByteArray_inj.mp (ByteArray.ext (Array.toList_inj.mp h))

/-- A part is its length and its bytes. -/
theorem lengthPrefixed_eq_ok {part : String} {bytes : List UInt8}
    (h : lengthPrefixed part = .ok bytes) :
    ∃ length, toBytesBig4 (encodeUtf8 part).length = .ok length
      ∧ bytes = length ++ encodeUtf8 part := by
  obtain ⟨length, hlength, h⟩ := bind_eq_ok.mp h
  exact ⟨length, hlength, (pure_eq_ok.mp h).symm⟩

/-- **A part is determined by a stream that starts with it**, and so is what follows. -/
theorem lengthPrefixed_append_inj {part part' : String} {bytes bytes' rest rest' : List UInt8}
    (h : lengthPrefixed part = .ok bytes) (h' : lengthPrefixed part' = .ok bytes')
    (hsame : bytes ++ rest = bytes' ++ rest') : part = part' ∧ rest = rest' := by
  obtain ⟨length, hlength, rfl⟩ := lengthPrefixed_eq_ok h
  obtain ⟨length', hlength', rfl⟩ := lengthPrefixed_eq_ok h'
  obtain ⟨hfour, hvalue⟩ := fromBytesBig_toBytesBig4 hlength
  obtain ⟨hfour', hvalue'⟩ := fromBytesBig_toBytesBig4 hlength'
  rw [List.append_assoc, List.append_assoc] at hsame
  obtain ⟨hlengths, hsame⟩ := List.append_inj hsame (hfour.trans hfour'.symm)
  -- the two texts are as long as each other, so they end at the same place
  have hcount : (encodeUtf8 part).length = (encodeUtf8 part').length := by
    rw [← hvalue, ← hvalue', hlengths]
  obtain ⟨htexts, hrest⟩ := List.append_inj hsame hcount
  exact ⟨encodeUtf8_injective htexts, hrest⟩

/-- No part is written as nothing. -/
theorem ne_nil_of_lengthPrefixed {part : String} {bytes : List UInt8}
    (h : lengthPrefixed part = .ok bytes) : bytes ≠ [] := by
  obtain ⟨length, hlength, rfl⟩ := lengthPrefixed_eq_ok h
  intro hnil
  have hfour := (fromBytesBig_toBytesBig4 hlength).1
  rw [(List.append_eq_nil_iff.mp hnil).1] at hfour
  cases hfour

/-! ## The whole stream -/

/-- The first part, and the rest. -/
theorem hashInput_cons_eq_ok {part : String} {parts : List String} {input : List UInt8} :
    hashInput (part :: parts) = .ok input ↔ ∃ bytes rest, lengthPrefixed part = .ok bytes
      ∧ hashInput parts = .ok rest ∧ bytes ++ rest = input := by
  unfold hashInput
  rw [List.mapM_cons]
  constructor
  · intro h
    obtain ⟨chunks, hchunks, h⟩ := bind_eq_ok.mp h
    obtain ⟨bytes, hbytes, hchunks⟩ := bind_eq_ok.mp hchunks
    obtain ⟨others, hothers, hchunks⟩ := bind_eq_ok.mp hchunks
    obtain rfl := pure_eq_ok.mp hchunks
    exact ⟨bytes, others.flatten, hbytes, bind_eq_ok.mpr ⟨others, hothers, rfl⟩, pure_eq_ok.mp h⟩
  · rintro ⟨bytes, rest, hbytes, h, rfl⟩
    obtain ⟨others, hothers, h⟩ := bind_eq_ok.mp h
    obtain rfl := pure_eq_ok.mp h
    exact bind_eq_ok.mpr ⟨bytes :: others, bind_eq_ok.mpr ⟨bytes, hbytes,
      bind_eq_ok.mpr ⟨others, hothers, rfl⟩⟩, rfl⟩

/-- **A stream determines its parts.** -/
theorem hashInput_injective {parts parts' : List String} {input : List UInt8}
    (h : hashInput parts = .ok input) (h' : hashInput parts' = .ok input) : parts = parts' := by
  induction parts generalizing parts' input with
  | nil =>
    cases h
    cases parts' with
    | nil => rfl
    | cons part parts' =>
      obtain ⟨bytes, rest, hbytes, -, hnil⟩ := hashInput_cons_eq_ok.mp h'
      exact absurd (List.append_eq_nil_iff.mp hnil).1 (ne_nil_of_lengthPrefixed hbytes)
  | cons part parts ih =>
    obtain ⟨bytes, rest, hbytes, hrest, rfl⟩ := hashInput_cons_eq_ok.mp h
    cases parts' with
    | nil =>
      have hnil : [] = bytes ++ rest := Except.ok.inj h'
      exact absurd (List.append_eq_nil_iff.mp hnil.symm).1 (ne_nil_of_lengthPrefixed hbytes)
    | cons part' parts' =>
      obtain ⟨bytes', rest', hbytes', hrest', hsame⟩ := hashInput_cons_eq_ok.mp h'
      obtain ⟨rfl, rfl⟩ := lengthPrefixed_append_inj hbytes' hbytes hsame
      rw [ih hrest hrest']

/-- **The hash input is unambiguous.** Tuples of texts that fit their lengths are equal where
their streams are, and each has a bucket. -/
theorem hashTuple_unambiguous {t t' : HashTuple} (h : t.Fits) (h' : t'.Fits) :
    (∃ input, hashInput t.parts = .ok input) ∧ (∃ input, hashInput t'.parts = .ok input)
      ∧ (hashInput t.parts = hashInput t'.parts → t = t')
      ∧ (∃ bucket, t.stableBucket = .ok bucket) ∧ ∃ bucket, t'.stableBucket = .ok bucket := by
  obtain ⟨input, hinput⟩ := exists_hashInput h
  obtain ⟨input', hinput'⟩ := exists_hashInput h'
  refine ⟨⟨input, hinput⟩, ⟨input', hinput'⟩, fun hsame => ?_, ⟨_, bind_eq_ok.mpr ⟨input, hinput,
    rfl⟩⟩, ⟨_, bind_eq_ok.mpr ⟨input', hinput', rfl⟩⟩⟩
  rw [hinput] at hsame
  have hparts := hashInput_injective hinput hsame.symm
  cases t
  cases t'
  unfold HashTuple.parts at hparts
  simpa using hparts

/-- Two tuples whose texts are the same when they are joined. -/
theorem hashTuple_unambiguous_sample :
    hashInput (HashTuple.mk "fv9" "p" "e" "ab" "c" "s").parts
      ≠ hashInput (HashTuple.mk "fv9" "p" "e" "a" "bc" "s").parts := by
  intro hsame
  have heq := (@hashTuple_unambiguous ⟨"fv9", "p", "e", "ab", "c", "s"⟩
    ⟨"fv9", "p", "e", "a", "bc", "s"⟩ (by decide) (by decide)).2.2.1 hsame
  exact absurd heq (by decide)

end CohortSwitch
