import CohortSwitch.Attribution
import CohortSwitch.Barriers

/-!
# Revoked keys

Whoever presents an API key is looked up by its hash among the keys that are not
revoked, in the first statement of the request and nowhere later. A revocation
that was answered is committed, no write undoes it, and the hash of a key is no
other key's: so from then on a request with the key is answered only if it had
been authenticated before (`revocation_final`).

The answer to a revocation does not tell whether this request has revoked the key or an
earlier one had. Either way it knows the key as revoked (`enters_revocation`): it has
read so, or has written it. That is a fact about a row of the kind `Journals` is made for,
with nothing entered, and the rest is a barrier (`Barriers`).
-/

namespace CohortSwitch

/-! ## What a revocation learns -/

/-- What a row of a key says for good. -/
inductive KeyFact where
  | stored (id : UUID)
  | revoked (id : UUID)

/-- What the rows of the keys say. -/
def Database.HoldsKey (db : Database) : KeyFact → Prop
  | .stored id => ∃ row ∈ db.apiKeys, row.id = id
  | .revoked id => ∃ row ∈ db.apiKeys, row.id = id ∧ row.revokedAt.isSome = true

/-- All of it. -/
def Database.keyFacts (db : Database) : Set KeyFact := {fact | db.HoldsKey fact}

/-- The fact a write adds where its key is stored. -/
def UsageWrite.keyFact (known : Set KeyFact) : UsageWrite → Set KeyFact
  | .service (.apiKey row) =>
    {fact | fact = .stored row.id ∨ fact = .revoked row.id ∧ row.revokedAt.isSome = true}
  | .setRevokedAt keyId _ => {fact | fact = .revoked keyId ∧ .stored keyId ∈ known}
  | _ => ∅

/-- Something of a list with one item more. -/
theorem exists_mem_append_singleton {α : Type} {p : α → Prop} {rows : List α} {row : α} :
    (∃ item ∈ rows ++ [row], p item) ↔ (∃ item ∈ rows, p item) ∨ p row := by
  simp [or_and_right, exists_or]

/-- **A write revokes its key and no write undoes it.** -/
theorem keyFacts_apply (s : UsageDatabase) (w : UsageWrite) :
    (s.apply w).db.keyFacts = s.db.keyFacts ∪ w.keyFact s.db.keyFacts := by
  cases w with
  | setLastUsedAt keyId lastUsedAt => exact (Set.union_empty _).symm
  | service write =>
    cases write with
    | apiKey row =>
      ext fact
      cases fact with
      | stored id =>
        show (∃ key ∈ s.db.apiKeys ++ [row], key.id = id) ↔ (∃ key ∈ s.db.apiKeys, key.id = id)
          ∨ (KeyFact.stored id = .stored row.id ∨ KeyFact.stored id = .revoked row.id ∧ _)
        rw [exists_mem_append_singleton]
        simp [eq_comm (a := id)]
      | revoked id =>
        show (∃ key ∈ s.db.apiKeys ++ [row], key.id = id ∧ key.revokedAt.isSome = true)
          ↔ (∃ key ∈ s.db.apiKeys, key.id = id ∧ key.revokedAt.isSome = true)
          ∨ (KeyFact.revoked id = .stored row.id ∨ KeyFact.revoked id = .revoked row.id ∧ _)
        rw [exists_mem_append_singleton]
        simp [eq_comm (a := id)]
    | _ => exact (Set.union_empty _).symm
  | setRevokedAt keyId revokedAt =>
    have hmap : ∀ p : APIKeyRow → Prop,
        (∃ row ∈ (s.apply (.setRevokedAt keyId revokedAt)).db.apiKeys, p row) ↔
          ∃ row ∈ s.db.apiKeys,
            p (if row.id = keyId then { row with revokedAt := some revokedAt } else row) := by
      intro p
      show (∃ row ∈ List.map _ s.db.apiKeys, p row) ↔ _
      simp
    ext fact
    cases fact with
    | stored id =>
      show (∃ row ∈ _, _) ↔ (∃ row ∈ s.db.apiKeys, row.id = id)
        ∨ (KeyFact.stored id = .revoked keyId ∧ _)
      rw [hmap]
      have hid : ∀ row : APIKeyRow, (if row.id = keyId then
          { row with revokedAt := some revokedAt } else row).id = row.id := by
        intro row
        split <;> rfl
      simp only [hid]
      simp
    | revoked id =>
      show (∃ row ∈ _, _) ↔ (∃ row ∈ s.db.apiKeys, row.id = id ∧ row.revokedAt.isSome = true)
        ∨ (KeyFact.revoked id = .revoked keyId ∧ ∃ row ∈ s.db.apiKeys, row.id = keyId)
      rw [hmap]
      constructor
      · rintro ⟨row, hrow, h⟩
        by_cases hkey : row.id = keyId
        · rw [if_pos hkey] at h
          exact .inr ⟨congrArg _ (h.1.symm.trans hkey), row, hrow, hkey⟩
        · rw [if_neg hkey] at h
          exact .inl ⟨row, hrow, h⟩
      · rintro (⟨row, hrow, hid, hrevoked⟩ | ⟨heq, row, hrow, hkey⟩)
        · refine ⟨row, hrow, ?_⟩
          split
          · exact ⟨hid, rfl⟩
          · exact ⟨hid, hrevoked⟩
        · cases heq
          refine ⟨row, hrow, ?_⟩
          rw [if_pos hkey]
          exact ⟨hkey, rfl⟩

/-- Facts stay. -/
theorem keyFacts_stay (s : UsageDatabase) (w : UsageWrite) :
    s.db.keyFacts ⊆ (s.apply w).db.keyFacts := by
  rw [keyFacts_apply]
  exact Set.subset_union_left

/-- And a write adds the same where more is known. -/
theorem keyFacts_mono (s s' : UsageDatabase) (w : UsageWrite)
    (h : s.db.keyFacts ⊆ s'.db.keyFacts) : (s.apply w).db.keyFacts ⊆ (s'.apply w).db.keyFacts := by
  rw [keyFacts_apply, keyFacts_apply]
  refine Set.union_subset_union h (fun fact hfact => ?_)
  cases w with
  | setRevokedAt keyId revokedAt => exact ⟨hfact.1, h hfact.2⟩
  | setLastUsedAt keyId lastUsedAt => exact hfact
  | service write =>
    cases write with
    | apiKey row => exact hfact
    | _ => exact hfact

/-- A journal of nothing, for what the keys say. -/
def keyJournal : usageService.Journal Empty KeyFact where
  entries := fun _ => []
  entry := fun _ => none
  facts := fun s => s.db.keyFacts
  append := fun _ _ => rfl
  stays := keyFacts_stay
  mono := keyFacts_mono

/-- What a statement on the tables learns of the keys. -/
def learnsKeys (v : View Database Row Choice) (writes : List Write) : Set KeyFact :=
  (service.view writes v.state).keyFacts

/-- The key a call revokes. -/
def Call.revoked? : Call → Option UUID
  | .revokeApiKey _ keyId => some keyId
  | _ => none

/-- The call of a request. -/
def UsageRequest.call : UsageRequest → Call
  | .keyed _ _ call _ | .other _ call _ => call

/-- Whoever calls, it is the same key. -/
theorem Call.revoked?_by (principal : Principal) (call : Call) :
    (call.by principal).revoked? = call.revoked? := by
  cases call <;> rfl

section Revocation

variable {known : Set KeyFact}

/-- A key that was read as revoked is known as such. -/
theorem enters_revokedKey (principal : Principal) (keyId : UUID) :
    (revokeApiKey principal keyId).Enters (fun _ => (none : Option Empty)) learnsKeys known
      (fun known' entries key => entries = [] ∧ key.id = keyId ∧ .stored keyId ∈ known'
        ∧ (key.revokedAt.isSome = true → .revoked keyId ∈ known')) := by
  refine Prog.enters_after_learning (M := fun known' found => ∀ key ∈ found, key.id = keyId
    ∧ KeyFact.stored keyId ∈ known' ∧ (key.revokedAt.isSome = true → .revoked keyId ∈ known'))
    (fun v _ => ⟨rfl, fun key hkey => ?_⟩) (fun known₁ found _ hfound => ?_)
  · obtain ⟨hmem, hid⟩ := mem_and_of_find? hkey
    have hstored : v.state.HoldsKey (.stored keyId) := ⟨key, hmem, hid⟩
    have hrevoked : key.revokedAt.isSome = true → v.state.HoldsKey (.revoked keyId) :=
      fun h => ⟨key, hmem, hid, h⟩
    exact ⟨hid, .inr hstored, fun h => .inr (hrevoked h)⟩
  · cases found with
    | none => exact trivial
    | some key =>
      obtain ⟨hid, hstored, hrevoked⟩ := hfound key rfl
      refine Prog.enters_after (reads_authorizeOrganization _ _ _) (fun known₂ _ hknown₂ => ?_)
      exact ⟨rfl, hid, hknown₂ hstored, fun h => hknown₂ (hrevoked h)⟩

/-- **A revocation that ends knows its key as revoked.** -/
theorem enters_revocation (requestId : Option String) {call : Call} {keyId : UUID}
    (hrevokes : call.revoked? = some keyId) :
    (call.work requestId).Enters keyJournal.entry keyJournal.learns known
      (fun known' _ _ => .revoked keyId ∈ known') := by
  cases call with
  | revokeApiKey principal keyId' =>
    cases hrevokes
    have htables : (onTables (revokeApiKey principal keyId)).Enters keyJournal.entry
        keyJournal.learns known (fun known' entries key => entries = [] ∧ key.id = keyId
          ∧ .stored keyId ∈ known' ∧ (key.revokedAt.isSome = true → .revoked keyId ∈ known')) := by
      unfold onTables
      refine (enters_revokedKey principal keyId).embed (fun w => rfl) (fun v writes => ?_)
      show (usageService.view _ v.state).db.keyFacts = _
      rw [view_service]
      rfl
    refine Prog.enters_after_learning htables (fun known₁ key _ hkey => ?_)
    obtain ⟨hid, hstored, hrevoked⟩ := hkey
    refine Prog.enters_after (Prog.reads_read _) (fun known₂ chosen hknown₂ => ?_)
    split
    · rename_i time htime
      exact hknown₂ (hrevoked (by rw [htime]; rfl))
    · -- the key is still stored when its column is set
      intro v hv
      have hkey : KeyFact.stored key.id ∈ v.state.db.keyFacts := hid ▸ hv (hknown₂ hstored)
      have hset : KeyFact.revoked keyId ∈
          (v.state.apply (.setRevokedAt key.id chosen.now)).db.keyFacts := by
        rw [keyFacts_apply]
        exact .inr ⟨congrArg _ hid.symm, hkey⟩
      refine .inr ?_
      show KeyFact.revoked keyId ∈ (usageService.view [_, .service _] v.state).db.keyFacts
      exact keyFacts_stay _ (.service _) hset
  | _ => cases hrevokes

/-- And so it is at the end of the request. -/
theorem enters_revoked (request : UsageRequest) :
    request.program.Enters keyJournal.entry keyJournal.learns ∅
      (fun known _ _ => ∀ keyId ∈ request.call.revoked?, .revoked keyId ∈ known) := by
  cases hrevokes : request.call.revoked? with
  | none =>
    exact Prog.enters_of_forall _
      (fun _ _ _ keyId hkey => absurd hkey (Option.not_mem_none keyId))
  | some keyId =>
    have honly : ∀ known' : Set KeyFact, .revoked keyId ∈ known' →
        ∀ other ∈ some keyId, .revoked other ∈ known' :=
      fun known' h other hother => Option.some.inj hother ▸ h
    cases request with
    | other requestId call keyless =>
      exact (enters_revocation requestId hrevokes).bind (fun known' entries _ h => honly known' h)
    | keyed raw requestId call asks =>
      refine (Prog.enters_of_forall (P := fun _ _ _ => True) (getPrincipal raw)
        (fun _ _ _ => trivial)).bind (fun known₁ entries found _ => ?_)
      have hby : (call.by found.1).revoked? = some keyId :=
        (Call.revoked?_by _ _).trans hrevokes
      refine (enters_revocation requestId hby).bind (fun known₂ _ _ h v _ => ?_)
      exact honly _ (.inl h)

end Revocation

/-! ## What is shut out -/

/-- The key of a hash is revoked, and no other has the hash. -/
def UsageDatabase.HashRevoked (keyHash : String) (s : UsageDatabase) : Prop :=
  (s.db.apiKeys.map APIKeyRow.keyHash).Nodup
    ∧ ∃ key ∈ s.db.apiKeys, key.keyHash = keyHash ∧ key.revokedAt.isSome = true

/-- The request comes with the key of a hash. -/
def UsageRequest.ComesWith (keyHash : String) : UsageRequest → Prop
  | .keyed raw _ _ _ => hashSecret raw = keyHash
  | .other _ _ _ => False

/-- **A request with a revoked key fails.** -/
theorem failsWhere_revoked {keyHash : String} {request : UsageRequest}
    (h : request.ComesWith keyHash) :
    request.program.FailsWhere (UsageDatabase.HashRevoked keyHash) := by
  cases request with
  | other requestId call keyless => exact h.elim
  | keyed raw requestId call asks =>
    refine Prog.FailsWhere.bind ?_ _
    unfold getPrincipal
    split
    · exact trivial
    rintro v ⟨hnodup, key, hkey, hhash, hrevoked⟩
    have hnone : v.state.db.apiKeys.find? (fun row =>
        row.keyHash = hashSecret raw ∧ row.revokedAt = none) = none := by
      refine List.find?_eq_none.mpr (fun row hrow hfound => ?_)
      obtain ⟨hsame, hlive⟩ := of_decide_eq_true hfound
      have heq := List.inj_on_of_nodup_map hnodup hrow hkey (hsame.trans (h.trans hhash.symm))
      rw [← heq, hlive] at hrevoked
      cases hrevoked
    refine ⟨.apiError 401 "invalid_api_key" "API key is invalid or revoked." [], ?_⟩
    show Prog.bind _ (Prog.ret (Option.map _ (v.state.db.apiKeys.find? _))) = _
    rw [hnone]
    rfl

/-! ## Every run -/

/-- **The world since a key was revoked.** -/
structure SinceRevoked (keyId : UUID) (keyHash : String) (w : UsageWorld) : Prop where
  /-- What holds of every reachable world. -/
  good : w.Good keysStay (fun s _ => s.Stored) UsageEnds
  /-- The key is stored, with its hash, as revoked. -/
  revoked : ∃ key ∈ w.committed.db.apiKeys, key.id = keyId ∧ key.keyHash = keyHash
    ∧ key.revokedAt.isSome = true

section Run

variable {keyId : UUID} {keyHash : String} {w w' : UsageWorld}

/-- A write leaves a revoked key revoked. -/
theorem revoked_apply {s : UsageDatabase} (h : ∃ key ∈ s.db.apiKeys, key.id = keyId
    ∧ key.keyHash = keyHash ∧ key.revokedAt.isSome = true) (write : UsageWrite) :
    ∃ key ∈ (s.apply write).db.apiKeys, key.id = keyId ∧ key.keyHash = keyHash
      ∧ key.revokedAt.isSome = true := by
  obtain ⟨key, hkey, hid, hhash, hrevoked⟩ := h
  cases write with
  | setLastUsedAt other lastUsedAt => exact ⟨key, hkey, hid, hhash, hrevoked⟩
  | service write =>
    cases write with
    | apiKey row => exact ⟨key, List.mem_append_left _ hkey, hid, hhash, hrevoked⟩
    | _ => exact ⟨key, hkey, hid, hhash, hrevoked⟩
  | setRevokedAt other revokedAt =>
    refine ⟨_, List.mem_map.mpr ⟨key, hkey, rfl⟩, ?_⟩
    split
    · exact ⟨hid, hhash, rfl⟩
    · exact ⟨hid, hhash, hrevoked⟩

/-- Some writes do. -/
theorem revoked_view {s : UsageDatabase} (h : ∃ key ∈ s.db.apiKeys, key.id = keyId
    ∧ key.keyHash = keyHash ∧ key.revokedAt.isSome = true) (writes : List UsageWrite) :
    ∃ key ∈ (usageService.view writes s).db.apiKeys, key.id = keyId ∧ key.keyHash = keyHash
      ∧ key.revokedAt.isSome = true := by
  induction writes generalizing s with
  | nil => exact h
  | cons write writes ih => exact ih (revoked_apply h write)

/-- **A step keeps it.** -/
theorem SinceRevoked.step {action : Action Choice UsageRequest} (h : SinceRevoked keyId keyHash w)
    (hstep : usageService.step w action = some w') : SinceRevoked keyId keyHash w' := by
  refine ⟨(respects_usage.step h.good (fun _ _ _ _ => trivial) hstep).1, ?_⟩
  cases action with
  | start request =>
    cases hstep
    exact h.revoked
  | abort id =>
    cases hstep
    exact h.revoked
  | advance id choice =>
    obtain ⟨tx, locks, writes, next, view, -, -, -, -, rfl⟩ := usageService.advance_eq_some hstep
    exact h.revoked
  | commit id =>
    obtain ⟨tx, result, -, -, -, rfl⟩ := usageService.commit_eq_some hstep
    exact revoked_view h.revoked tx.writes

/-- **A run keeps it.** -/
theorem SinceRevoked.run {actions : List (Action Choice UsageRequest)}
    (h : SinceRevoked keyId keyHash w) (hrun : usageService.run w actions = some w') :
    SinceRevoked keyId keyHash w' :=
  System.run_keeps (fun _ _ _ hw _ hstep => hw.step hstep) h
    (System.meets_of_forall (fun _ _ => trivial) w actions) hrun

/-- **A revocation is final.** Once it is answered its key is revoked and stays so, in
every run that goes on from there; and a request with the key is answered only if it
had begun before. -/
theorem revocation_final {actions later : List (Action Choice UsageRequest)}
    (hrun : usageService.run usageInitial actions = some w)
    (hlater : usageService.run w later = some w') {done : UsageRequest × UsageAnswer}
    (hdone : done ∈ w.log) (hrevokes : done.1.call.revoked? = some keyId) :
    ∃ key ∈ w.committed.db.apiKeys, key.id = keyId
      ∧ (∃ row ∈ w'.committed.db.apiKeys, row.id = keyId ∧ row.keyHash = key.keyHash
        ∧ row.revokedAt.isSome = true)
      ∧ usageService.Meets
        (AnswersBegun usageService (UsageRequest.ComesWith key.keyHash) w) w later := by
  have hlive : ∀ tx ∈ usageInitial.live, keyJournal.Enters (fun request known _ _ =>
      ∀ keyId ∈ request.call.revoked?, .revoked keyId ∈ known) usageInitial tx :=
    fun tx htx => absurd htx List.not_mem_nil
  have hpersists : System.Journal.Persists (fun (request : UsageRequest) known (_ : List Empty)
      (_ : UsageAnswer) => ∀ keyId ∈ request.call.revoked?, KeyFact.revoked keyId ∈ known) :=
    fun _ _ _ _ _ hknown h keyId hkey => hknown (h keyId hkey)
  obtain ⟨-, new, groups, hgoes⟩ :=
    System.Journal.goes_of_run hpersists enters_revoked hlive hrun
  have hnew : done ∈ new := by
    have hlog : w.log = [] ++ new := hgoes.log
    rwa [hlog] at hdone
  obtain ⟨group, -, hsaid⟩ := exists_of_forall₂ hgoes.said hnew
  obtain ⟨key, hkey, hid, hrevoked⟩ := hsaid keyId hrevokes
  have hgood := (respects_usage.run_good good_usageInitial
    (usageService.commitsMeet_of_forall (fun _ _ _ => trivial) _ _) hrun).1
  have hsince : SinceRevoked keyId key.keyHash w := ⟨hgood, key, hkey, hid, rfl, hrevoked⟩
  refine ⟨key, hkey, hid, (hsince.run hlater).revoked, ?_⟩
  refine System.answers_begun (K := UsageDatabase.HashRevoked key.keyHash)
    (fun request h => failsWhere_revoked h) (fun _ _ _ hv hstep => SinceRevoked.step hv hstep)
    (fun v hv => ?_) hsince later
  obtain ⟨row, hrow, -, hhash, hset⟩ := hv.revoked
  exact ⟨hv.good.invariant.consistent.keys.apiKeyHashes, row, hrow, hhash, hset⟩

end Run

/-- The sample tenant with an SDK key of its environment, which is revoked. -/
def keyRevoked : List (Action Choice UsageRequest) :=
  (sampleTenant ++ alone 3 60 6 (.createKey sampleUser none (sampleKey ⟨10⟩) .sdk)).map asSampleUser
    ++ sampleRevocation 4 70 4

theorem asks_export :
    (Call.read (.exportConfiguration sampleUser ⟨20⟩ ⟨30⟩ none)).principal?.isSome = true :=
  rfl

/-- An export with the key. -/
def exportRefused : List (Action Choice UsageRequest) :=
  [.start (.keyed "cs_sdk_live_secret" none
    (.read (.exportConfiguration sampleUser ⟨20⟩ ⟨30⟩ none)) asks_export),
    .advance 5 (sampleChoice 80)]

theorem revocation_final_sample : ∃ w w' key, usageService.run usageInitial keyRevoked = some w
    ∧ usageService.run w exportRefused = some w' ∧ key ∈ w.committed.db.apiKeys ∧ key.id = ⟨60⟩
    ∧ (∃ row ∈ w'.committed.db.apiKeys, row.id = ⟨60⟩ ∧ row.keyHash = key.keyHash
      ∧ row.revokedAt.isSome = true)
    ∧ usageService.Meets
      (AnswersBegun usageService (UsageRequest.ComesWith key.keyHash) w) w exportRefused := by
  have hfacts : (usageService.run usageInitial keyRevoked).any (fun w =>
      w.log.any (fun done => done.1.call.revoked? = some ⟨60⟩)
        && (usageService.run w exportRefused).isSome) = true := by
    decide +kernel
  obtain ⟨w, hrun, hfacts⟩ := (Option.any_eq_true _ _).mp hfacts
  obtain ⟨hlog, hlater⟩ := Bool.and_eq_true_iff.mp hfacts
  obtain ⟨done, hdone, hrevokes⟩ := List.any_eq_true.mp hlog
  obtain ⟨w', hlater⟩ := Option.isSome_iff_exists.mp hlater
  obtain ⟨key, hkey, hid, hrow, hmeets⟩ :=
    revocation_final hrun hlater hdone (of_decide_eq_true hrevokes)
  exact ⟨w, w', key, hrun, hlater, hkey, hid, hrow, hmeets⟩

end CohortSwitch
