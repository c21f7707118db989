import CohortSwitch.Chains
import CohortSwitch.TokenEffects

/-!
# Families of refresh tokens

Every exchange of a refresh token links the row to its replacement. In every
state the server reaches these links form disjoint chains without a cycle,
each within one user, and only the last token of a chain can be active. So a
user has no more active tokens than the user has started families, by
registering and by signing in (`refreshFamilies`).

The invariant behind it (`TokenInvariant`) ties the tables to the log of what was
answered: a token has a replacement exactly when one refresh was answered for it. The
row lock a refresh holds makes the commit see the row it read, so two refreshes of one
token cannot both find it unlinked.

## One exchange

An exchange changes one row and adds one. `ExchangeRows` says where every row of the
state after it comes from, once, and the parts of the invariant are read off that: the
chain is extended by a link from its end to something new (`ExchangeRows.chains`), the
user is the same, and one active token goes as another one comes
(`countP_exchange`).

The bound on active tokens is a count on both sides, of rows and of answers. An effect
changes each of them by at most one, and only a registration or a login raises the first.
-/

namespace CohortSwitch

/-! ## Updating one row -/

section UpdateToken

variable {id : UUID} {f : RefreshTokenRow → RefreshTokenRow} {rows : List RefreshTokenRow}

/-- An update of a row that is not there changes nothing. -/
theorem updateToken_of_not_mem (h : id ∉ rows.map RefreshTokenRow.id) :
    updateToken id f rows = rows := by
  have hid : ∀ row ∈ rows, (if row.id = id then f row else row) = row := by
    intro row hr
    exact if_neg (fun heq => h (List.mem_map.mpr ⟨row, hr, heq⟩))
  exact (List.map_congr_left hid).trans (List.map_id rows)

/-- A row after the update. -/
theorem mem_updateToken {row : RefreshTokenRow} (h : row ∈ updateToken id f rows) :
    ∃ old ∈ rows, (old.id = id ∧ row = f old) ∨ (old.id ≠ id ∧ row = old) := by
  obtain ⟨old, hold, heq⟩ := List.mem_map.mp h
  by_cases hid : old.id = id
  · rw [if_pos hid] at heq
    exact ⟨old, hold, Or.inl ⟨hid, heq.symm⟩⟩
  · rw [if_neg hid] at heq
    exact ⟨old, hold, Or.inr ⟨hid, heq.symm⟩⟩

/-- **An update that takes a property away** takes one row out of the count. -/
theorem countP_updateToken {p : RefreshTokenRow → Bool} {t : RefreshTokenRow}
    (hids : (rows.map RefreshTokenRow.id).Nodup) (ht : t ∈ rows) (hid : t.id = id)
    (hp : p t = true) (hf : p (f t) = false) :
    (updateToken id f rows).countP p + 1 = rows.countP p := by
  induction rows with
  | nil => cases ht
  | cons row rest ih =>
    obtain ⟨hnot, hrest⟩ := List.nodup_cons.mp hids
    rcases List.mem_cons.mp ht with rfl | ht
    · have hsame : updateToken id f rest = rest := updateToken_of_not_mem (hid ▸ hnot)
      show ((if t.id = id then f t else t) :: updateToken id f rest).countP p + 1 = _
      rw [if_pos hid, hsame, List.countP_cons_of_neg (by simp [hf]), List.countP_cons_of_pos hp]
    · have hne : row.id ≠ id := by
        rintro rfl
        exact hnot (List.mem_map.mpr ⟨t, ht, hid⟩)
      show ((if row.id = id then f row else row) :: updateToken id f rest).countP p + 1 = _
      rw [if_neg hne, List.countP_cons, List.countP_cons, ← ih hrest ht]
      omega

end UpdateToken

/-! ## The invariant -/

/-- A token was exchanged for another one. -/
def AuthDatabase.Link (s : AuthDatabase) (i j : UUID) : Prop :=
  ∃ t ∈ s.refreshTokens, t.id = i ∧ t.replacedById = some j

/-- An active token of a user: one that is not revoked. -/
def RefreshTokenRow.isActiveOf (userId : UUID) (t : RefreshTokenRow) : Bool :=
  t.userId = userId ∧ t.revokedAt = none

/-- **The tokens of a state and the answers that led to it.** The links from a token to its
replacement form chains within one user, a token is replaced exactly if one refresh was answered
for it, and no more tokens are active than were started by signing in. -/
structure TokenInvariant [Credentials] (s : AuthDatabase) (log : List AuthEntry) : Prop where
  /-- The constraints hold. -/
  consistent : s.Consistent
  /-- The links form disjoint chains. -/
  chains : Chains s.Link
  /-- A replacement is one of the same user. -/
  sameUser : ∀ t ∈ s.refreshTokens, ∀ t' ∈ s.refreshTokens, t.replacedById = some t'.id →
    t.userId = t'.userId
  /-- Who is replaced was active and had time left. -/
  replaced : ∀ t ∈ s.refreshTokens, t.replacedById.isSome = true →
    ∃ now, t.revokedAt = some now ∧ now < t.expiresAt
  /-- A token is replaced exactly when one refresh was answered for it. -/
  exchanged : ∀ t ∈ s.refreshTokens,
    log.countP (fun entry => entry.exchanged? = some t.tokenHash)
      = if t.replacedById.isSome then 1 else 0
  /-- An answer was given for a token that is stored. -/
  known : ∀ entry ∈ log, ∀ hash, entry.exchanged? = some hash →
    ∃ t ∈ s.refreshTokens, t.tokenHash = hash
  /-- No more are active than were started. -/
  bounded : ∀ user ∈ s.users, s.refreshTokens.countP (RefreshTokenRow.isActiveOf user.id)
    ≤ log.countP (fun entry => entry.signedIn? = some user.email)

section Commit

variable [Credentials] {s : AuthDatabase} {log : List AuthEntry} {entry : AuthEntry}

omit [Credentials] in
/-- What an entry adds to a count of the log. -/
theorem countP_append_entry (p : AuthEntry → Bool) :
    (log ++ [entry]).countP p = log.countP p + if p entry = true then 1 else 0 := by
  rw [List.countP_append, List.countP_singleton]

/-- A token inserted with a new user or by a login. -/
theorem tokenInvariant_insert (h : TokenInvariant s log) {users : List UserRow}
    {token : RefreshTokenRow} (hfresh : token.Fresh)
    (hs' : (AuthDatabase.mk users (s.refreshTokens ++ [token])).Consistent)
    (hexchanged : entry.exchanged? = none)
    (hbounded : ∀ user ∈ users,
      s.refreshTokens.countP (RefreshTokenRow.isActiveOf user.id)
          + (if token.userId = user.id then 1 else 0)
        ≤ log.countP (fun entry => entry.signedIn? = some user.email)
          + if entry.signedIn? = some user.email then 1 else 0) :
    TokenInvariant ⟨users, s.refreshTokens ++ [token]⟩ (log ++ [entry]) := by
  obtain ⟨hrevoked, hreplaced⟩ := hfresh
  have hhashes := hs'.tokenHashes
  rw [List.map_append, List.nodup_append] at hhashes
  have hnew : ∀ t ∈ s.refreshTokens, t.tokenHash ≠ token.tokenHash := fun t ht =>
    hhashes.2.2 _ (List.mem_map_of_mem ht) _ (List.mem_singleton.mpr rfl)
  have hcount : ∀ hash, (log ++ [entry]).countP (fun entry => entry.exchanged? = some hash)
      = log.countP (fun entry => entry.exchanged? = some hash) := by
    intro hash
    rw [countP_append_entry, if_neg (by simp [hexchanged])]
    rfl
  refine ⟨hs', h.chains.congr (fun i j => ?_), ?_, ?_, ?_, ?_, ?_⟩
  · -- the new token has no replacement
    constructor
    · rintro ⟨t, ht, hid, hj⟩
      rcases List.mem_append.mp ht with ht | ht
      · exact ⟨t, ht, hid, hj⟩
      · rw [List.mem_singleton.mp ht, hreplaced] at hj
        cases hj
    · rintro ⟨t, ht, hid, hj⟩
      exact ⟨t, List.mem_append_left _ ht, hid, hj⟩
  · intro t ht t' ht' hlink
    rcases List.mem_append.mp ht with ht | ht
    · -- a replacement is a token that was there
      obtain ⟨t₀, ht₀, hid⟩ := List.mem_map.mp
        (h.consistent.tokenReplacements t ht t'.id
          (by rw [hlink]; exact List.mem_singleton.mpr rfl))
      rw [← hs'.token_eq (List.mem_append_left _ ht₀) ht' hid]
      exact h.sameUser t ht t₀ ht₀ (hlink.trans (congrArg some hid.symm))
    · rw [List.mem_singleton.mp ht, hreplaced] at hlink
      cases hlink
  · intro t ht hr
    rcases List.mem_append.mp ht with ht | ht
    · exact h.replaced t ht hr
    · rw [List.mem_singleton.mp ht, hreplaced] at hr
      cases hr
  · intro t ht
    rw [hcount]
    rcases List.mem_append.mp ht with ht | ht
    · exact h.exchanged t ht
    · rw [List.mem_singleton.mp ht, hreplaced, if_neg (by simp), List.countP_eq_zero]
      intro e he hexch
      obtain ⟨t', ht', hhash⟩ := h.known e he _ (of_decide_eq_true hexch)
      exact hnew t' ht' hhash
  · intro e he hash hexch
    rcases List.mem_append.mp he with he | he
    · obtain ⟨t, ht, hhash⟩ := h.known e he hash hexch
      exact ⟨t, List.mem_append_left _ ht, hhash⟩
    · rw [List.mem_singleton.mp he, hexchanged] at hexch
      cases hexch
  · intro user hu
    rw [countP_append_entry, List.countP_append, List.countP_singleton]
    have hactive : (RefreshTokenRow.isActiveOf user.id token = true)
        = (token.userId = user.id) := by
      simp [RefreshTokenRow.isActiveOf, hrevoked]
    simp only [hactive, decide_eq_true_eq]
    exact hbounded user hu

/-- A count of the log only grows. -/
theorem bounded_append (h : TokenInvariant s log) {tokens : List RefreshTokenRow} {user : UserRow}
    (hu : user ∈ s.users)
    (hle : tokens.countP (RefreshTokenRow.isActiveOf user.id)
      ≤ s.refreshTokens.countP (RefreshTokenRow.isActiveOf user.id)) :
    tokens.countP (RefreshTokenRow.isActiveOf user.id)
      ≤ (log ++ [entry]).countP (fun entry => entry.signedIn? = some user.email) := by
  rw [countP_append_entry]
  exact (hle.trans (h.bounded user hu)).trans (Nat.le_add_right _ _)

/-- Some tokens are revoked. -/
theorem tokenInvariant_revoke (h : TokenInvariant s log) {now : Instant} {ids : List UUID}
    (hfits : ∀ id ∈ ids, ∃ t ∈ s.refreshTokens, t.id = id ∧ t.revokedAt = none)
    (hs' : (s.revoke now ids).Consistent) (hexchanged : entry.exchanged? = none) :
    TokenInvariant (s.revoke now ids) (log ++ [entry]) := by
  -- a row of the new state is one of the old, perhaps revoked now
  have hrow : ∀ t' ∈ (s.revoke now ids).refreshTokens, ∃ t ∈ s.refreshTokens, t'.id = t.id
      ∧ t'.userId = t.userId ∧ t'.tokenHash = t.tokenHash ∧ t'.expiresAt = t.expiresAt
      ∧ t'.replacedById = t.replacedById ∧ (t'.revokedAt = none → t.revokedAt = none)
      ∧ (t.revokedAt.isSome = true → t'.revokedAt = t.revokedAt) := by
    intro t' ht'
    obtain ⟨t, ht, rfl⟩ := List.mem_map.mp ht'
    refine ⟨t, ht, ?_⟩
    by_cases hin : t.id ∈ ids
    · rw [if_pos hin]
      obtain ⟨t₀, ht₀, hid, hnone⟩ := hfits _ hin
      rw [h.consistent.token_eq ht₀ ht hid] at hnone
      refine ⟨rfl, rfl, rfl, rfl, rfl, fun hn => (by cases hn), fun hr => ?_⟩
      rw [hnone] at hr
      cases hr
    · rw [if_neg hin]
      exact ⟨rfl, rfl, rfl, rfl, rfl, fun hn => hn, fun _ => rfl⟩
  have hback : ∀ t ∈ s.refreshTokens, ∃ t' ∈ (s.revoke now ids).refreshTokens, t'.id = t.id
      ∧ t'.tokenHash = t.tokenHash ∧ t'.replacedById = t.replacedById := by
    intro t ht
    refine ⟨_, List.mem_map_of_mem ht, ?_⟩
    by_cases hin : t.id ∈ ids
    · rw [if_pos hin]
      exact ⟨rfl, rfl, rfl⟩
    · rw [if_neg hin]
      exact ⟨rfl, rfl, rfl⟩
  refine ⟨hs', h.chains.congr (fun i j => ?_), ?_, ?_, ?_, ?_, ?_⟩
  · constructor
    · rintro ⟨t', ht', hid', hj⟩
      obtain ⟨t, ht, hid, -, -, -, hreplaced, -⟩ := hrow t' ht'
      exact ⟨t, ht, hid.symm.trans hid', hreplaced.symm.trans hj⟩
    · rintro ⟨t, ht, hid', hj⟩
      obtain ⟨t', ht', hid, -, hreplaced⟩ := hback t ht
      exact ⟨t', ht', hid.trans hid', hreplaced.trans hj⟩
  · intro t ht t' ht' hlink
    obtain ⟨u, hu, -, huser, -, -, hreplaced, -⟩ := hrow t ht
    obtain ⟨u', hu', hid', huser', -⟩ := hrow t' ht'
    rw [huser, huser']
    exact h.sameUser u hu u' hu' (hreplaced.symm.trans (hlink.trans (congrArg some hid')))
  · intro t ht hr
    obtain ⟨u, hu, -, -, -, hexpires, hreplaced, -, hkept⟩ := hrow t ht
    obtain ⟨at_, hat, hlt⟩ := h.replaced u hu (hreplaced ▸ hr)
    exact ⟨at_, (hkept (by rw [hat]; rfl)).trans hat, hexpires ▸ hlt⟩
  · intro t ht
    obtain ⟨u, hu, -, -, hhash, -, hreplaced, -⟩ := hrow t ht
    rw [countP_append_entry, if_neg (by simp [hexchanged]), hhash, hreplaced]
    exact h.exchanged u hu
  · intro e he hash hexch
    rcases List.mem_append.mp he with he | he
    · obtain ⟨t, ht, hhash⟩ := h.known e he hash hexch
      obtain ⟨t', ht', -, hhash', -⟩ := hback t ht
      exact ⟨t', ht', hhash'.trans hhash⟩
    · rw [List.mem_singleton.mp he, hexchanged] at hexch
      cases hexch
  · intro user hu
    refine bounded_append h hu ?_
    show (s.refreshTokens.map _).countP _ ≤ _
    rw [List.countP_map]
    refine List.countP_mono_left (fun t _ hactive => ?_)
    by_cases hin : t.id ∈ ids
    · simp [RefreshTokenRow.isActiveOf, hin] at hactive
    · simpa [hin] using hactive

end Commit

/-! ## The exchange of a token -/

section Exchange

variable [Credentials] {s : AuthDatabase} {log : List AuthEntry} {entry : AuthEntry}
  {token replacement : RefreshTokenRow} {now : Instant}

/-- The row of a token after its exchange. -/
def RefreshTokenRow.replacedBy (token : RefreshTokenRow) (now : Instant) (id : UUID) :
    RefreshTokenRow :=
  { token with revokedAt := some now, replacedById := some id }

/-- The state after an exchange. -/
def AuthDatabase.exchange (s : AuthDatabase) (token : RefreshTokenRow) (now : Instant)
    (replacement : RefreshTokenRow) : AuthDatabase :=
  { s with
    refreshTokens := updateToken token.id (fun row => row.replacedBy now replacement.id)
      s.refreshTokens ++ [replacement] }

/-- **The rows before and after an exchange.** -/
structure ExchangeRows (s : AuthDatabase) (token : RefreshTokenRow) (now : Instant)
    (replacement : RefreshTokenRow) : Prop where
  /-- The token was there, and had no successor. -/
  mem : token ∈ s.refreshTokens
  unlinked : token.replacedById = none
  /-- It is there with a successor afterwards, -/
  moved : token.replacedBy now replacement.id ∈ (s.exchange token now replacement).refreshTokens
  /-- the others are as they were, -/
  others : ∀ t ∈ s.refreshTokens, t.id ≠ token.id →
    t ∈ (s.exchange token now replacement).refreshTokens
  /-- and the successor is there. -/
  added : replacement ∈ (s.exchange token now replacement).refreshTokens
  /-- These are all. -/
  rows : ∀ t ∈ (s.exchange token now replacement).refreshTokens, t = replacement
    ∨ t = token.replacedBy now replacement.id ∨ (t ∈ s.refreshTokens ∧ t.id ≠ token.id)
  /-- The successor is new, by its id and by its hash. -/
  newId : ∀ t ∈ s.refreshTokens, t.id ≠ replacement.id
  newHash : ∀ t ∈ s.refreshTokens, t.tokenHash ≠ replacement.tokenHash

/-- The rows of an exchange that the constraints allow. -/
theorem exchangeRows (h : TokenInvariant s log) (ht : token ∈ s.refreshTokens)
    (hnone : token.revokedAt = none)
    (hs' : (s.exchange token now replacement).Consistent) :
    ExchangeRows s token now replacement := by
  -- the update keeps a column that it does not set, so the new value of it is new
  have hnew : ∀ {β : Type} (column : RefreshTokenRow → β),
      (∀ row, column (RefreshTokenRow.replacedBy row now replacement.id) = column row) →
      ((s.exchange token now replacement).refreshTokens.map column).Nodup →
      ∀ t ∈ s.refreshTokens, column t ≠ column replacement := by
    intro β column hcolumn hnd t hmem
    rw [show (s.exchange token now replacement).refreshTokens = updateToken token.id
      (fun row => row.replacedBy now replacement.id) s.refreshTokens ++ [replacement] from rfl,
      List.map_append, List.nodup_append] at hnd
    have hkept := hnd.2.2 _ (List.mem_map_of_mem (List.mem_map_of_mem hmem)) _
      (List.mem_singleton.mpr rfl)
    rwa [apply_ite column, hcolumn, ite_self] at hkept
  refine ⟨ht, ?_, List.mem_append_left _ (List.mem_map.mpr ⟨token, ht, if_pos rfl⟩),
    fun t hmem hid => List.mem_append_left _ (List.mem_map.mpr ⟨t, hmem, if_neg hid⟩),
    List.mem_append_right _ (List.mem_singleton.mpr rfl), ?_,
    hnew RefreshTokenRow.id (fun _ => rfl) hs'.tokenIds,
    hnew RefreshTokenRow.tokenHash (fun _ => rfl) hs'.tokenHashes⟩
  · by_contra hr
    obtain ⟨at_, hat, -⟩ := h.replaced token ht (Option.isSome_iff_ne_none.mpr hr)
    rw [hnone] at hat
    cases hat
  · intro t' ht'
    rcases List.mem_append.mp ht' with ht' | ht'
    · obtain ⟨t, hmem, ⟨hid, rfl⟩ | ⟨hid, rfl⟩⟩ := mem_updateToken ht'
      · rw [h.consistent.token_eq hmem ht hid]
        exact Or.inr (Or.inl rfl)
      · exact Or.inr (Or.inr ⟨hmem, hid⟩)
    · exact Or.inl (List.mem_singleton.mp ht')

/-- The token a link leads to is a row. -/
theorem TokenInvariant.exists_replacement (h : TokenInvariant s log) {t : RefreshTokenRow}
    (ht : t ∈ s.refreshTokens) {j : UUID} (hj : t.replacedById = some j) :
    ∃ t' ∈ s.refreshTokens, t'.id = j := by
  have hmem := h.consistent.tokenReplacements t ht j (by rw [hj]; exact List.mem_singleton.mpr rfl)
  exact List.mem_map.mp hmem

/-- **An exchange extends a chain.** -/
theorem ExchangeRows.chains (r : ExchangeRows s token now replacement)
    (h : TokenInvariant s log) (hfresh : replacement.Fresh) :
    Chains (s.exchange token now replacement).Link := by
  have hend : ∀ j, ¬ s.Link token.id j := by
    rintro j ⟨t, ht, hid, hj⟩
    rw [h.consistent.token_eq ht r.mem hid, r.unlinked] at hj
    cases hj
  have hin : ∀ i, ¬ s.Link i replacement.id := by
    rintro i ⟨t, ht, -, hj⟩
    obtain ⟨t', ht', hid⟩ := h.exists_replacement ht hj
    exact r.newId t' ht' hid
  have hout : ∀ j, ¬ s.Link replacement.id j := by
    rintro j ⟨t, ht, hid, -⟩
    exact r.newId t ht hid
  refine (h.chains.extend hend hin hout (r.newId token r.mem)).congr (fun i j => ⟨?_, ?_⟩)
  · rintro ⟨t, ht, hid, hj⟩
    rcases r.rows t ht with rfl | rfl | ⟨hmem, -⟩
    · rw [hfresh.2] at hj
      cases hj
    · exact Or.inr ⟨hid.symm, (Option.some.inj hj).symm⟩
    · exact Or.inl ⟨t, hmem, hid, hj⟩
  · rintro (⟨t, ht, hid, hj⟩ | ⟨rfl, rfl⟩)
    · refine ⟨t, r.others t ht (fun heq => ?_), hid, hj⟩
      exact hend j ⟨t, ht, heq, hj⟩
    · exact ⟨_, r.moved, rfl, rfl⟩

/-- The replacement belongs to the user of the token. -/
theorem ExchangeRows.sameUser (r : ExchangeRows s token now replacement)
    (h : TokenInvariant s log) (hfresh : replacement.Fresh)
    (huser : replacement.userId = token.userId)
    (hs' : (s.exchange token now replacement).Consistent) :
    ∀ t ∈ (s.exchange token now replacement).refreshTokens,
      ∀ t' ∈ (s.exchange token now replacement).refreshTokens,
      t.replacedById = some t'.id → t.userId = t'.userId := by
  intro t ht t' ht' hlink
  rcases r.rows t ht with rfl | rfl | ⟨hmem, -⟩
  · rw [hfresh.2] at hlink
    cases hlink
  · rw [← hs'.token_eq r.added ht' (Option.some.inj hlink), huser]
    rfl
  · obtain ⟨t₀, hmem₀, hid₀⟩ := h.exists_replacement hmem hlink
    have hsame := h.sameUser t hmem t₀ hmem₀ (hlink.trans (congrArg some hid₀.symm))
    rcases r.rows t' ht' with rfl | rfl | ⟨hmem', -⟩
    · exact absurd hid₀ (r.newId t₀ hmem₀)
    · rw [hsame, h.consistent.token_eq hmem₀ r.mem hid₀]
      rfl
    · rw [hsame, h.consistent.token_eq hmem₀ hmem' hid₀]

/-- Only the token that was exchanged is answered once more. -/
theorem ExchangeRows.exchanged (r : ExchangeRows s token now replacement)
    (h : TokenInvariant s log) (hfresh : replacement.Fresh)
    (hexchanged : entry.exchanged? = some token.tokenHash) :
    ∀ t ∈ (s.exchange token now replacement).refreshTokens,
      (log ++ [entry]).countP (fun entry => entry.exchanged? = some t.tokenHash)
        = if t.replacedById.isSome then 1 else 0 := by
  intro t ht
  rw [countP_append_entry, hexchanged]
  rcases r.rows t ht with rfl | rfl | ⟨hmem, hid⟩
  · -- nobody was answered for the new token
    rw [if_neg (by simpa using r.newHash token r.mem), hfresh.2, if_neg (by simp), Nat.add_zero,
      List.countP_eq_zero]
    intro e he hexch
    obtain ⟨t₀, hmem₀, hhash₀⟩ := h.known e he _ (of_decide_eq_true hexch)
    exact r.newHash t₀ hmem₀ hhash₀
  · have hnever := h.exchanged token r.mem
    rw [r.unlinked, if_neg (by simp)] at hnever
    show log.countP (fun entry => entry.exchanged? = some token.tokenHash)
      + (if decide (some token.tokenHash = some token.tokenHash) = true then 1 else 0) = 1
    rw [hnever, if_pos (by simp)]
  · have hhash : t.tokenHash ≠ token.tokenHash := fun heq =>
      hid (congrArg _ (List.inj_on_of_nodup_map h.consistent.tokenHashes hmem r.mem heq))
    rw [if_neg (by simpa using hhash.symm)]
    exact h.exchanged t hmem

/-- An exchange takes one active token and gives one. -/
theorem countP_exchange (h : TokenInvariant s log) (ht : token ∈ s.refreshTokens)
    (hnone : token.revokedAt = none) (huser : replacement.userId = token.userId) (user : UserRow) :
    (s.exchange token now replacement).refreshTokens.countP (RefreshTokenRow.isActiveOf user.id)
      ≤ s.refreshTokens.countP (RefreshTokenRow.isActiveOf user.id) := by
  show (updateToken token.id _ s.refreshTokens ++ [replacement]).countP _ ≤ _
  rw [List.countP_append, List.countP_singleton]
  by_cases hown : token.userId = user.id
  · have hactive : RefreshTokenRow.isActiveOf user.id token = true := by
      simp [RefreshTokenRow.isActiveOf, hown, hnone]
    have hgone : RefreshTokenRow.isActiveOf user.id (token.replacedBy now replacement.id)
        = false := by
      simp [RefreshTokenRow.isActiveOf, RefreshTokenRow.replacedBy]
    rw [← countP_updateToken (f := fun row => row.replacedBy now replacement.id)
      h.consistent.tokenIds ht rfl hactive hgone]
    exact Nat.add_le_add_left (by split <;> omega) _
  · rw [if_neg (by simp [RefreshTokenRow.isActiveOf, huser, hown]), Nat.add_zero]
    unfold updateToken
    rw [List.countP_map]
    refine List.countP_mono_left (fun t _ hactive => ?_)
    by_cases hid : t.id = token.id
    · simp [RefreshTokenRow.isActiveOf, RefreshTokenRow.replacedBy, hid] at hactive
    · simpa [hid] using hactive

/-- A token is exchanged. -/
theorem tokenInvariant_exchange (h : TokenInvariant s log) (ht : token ∈ s.refreshTokens)
    (hnone : token.revokedAt = none) (hnow : now < token.expiresAt)
    (huser : replacement.userId = token.userId) (hfresh : replacement.Fresh)
    (hs' : (s.exchange token now replacement).Consistent)
    (hexchanged : entry.exchanged? = some token.tokenHash) :
    TokenInvariant (s.exchange token now replacement) (log ++ [entry]) := by
  have r := exchangeRows h ht hnone hs'
  refine ⟨hs', r.chains h hfresh, r.sameUser h hfresh huser hs', ?_,
    r.exchanged h hfresh hexchanged, ?_,
    fun user hu => bounded_append h hu (countP_exchange h ht hnone huser user)⟩
  · intro t ht' hr
    rcases r.rows t ht' with rfl | rfl | ⟨hmem, -⟩
    · rw [hfresh.2] at hr
      cases hr
    · exact ⟨now, rfl, hnow⟩
    · exact h.replaced t hmem hr
  · intro e he hash hexch
    rcases List.mem_append.mp he with he | he
    · obtain ⟨t, hmem, heq⟩ := h.known e he hash hexch
      by_cases hid : t.id = token.id
      · rw [h.consistent.token_eq hmem ht hid] at heq
        exact ⟨_, r.moved, heq⟩
      · exact ⟨t, r.others t hmem hid, heq⟩
    · rw [List.mem_singleton.mp he, hexchanged] at hexch
      exact ⟨_, r.moved, Option.some.inj hexch⟩

end Exchange

/-! ## Every commit -/

section Service

variable [Credentials] {settings : AuthSettings} {s : AuthDatabase} {log : List AuthEntry}
  {locks : List AuthRow} {entry : AuthEntry}

/-- What an exchange commits, where the constraints allow it. -/
theorem view_exchange {token replacement : RefreshTokenRow} {now : Instant}
    (ht : token ∈ s.refreshTokens)
    (hs' : ((authService settings).view (AuthEffect.exchange token now replacement).writes
      s).Consistent) :
    (authService settings).view (AuthEffect.exchange token now replacement).writes s
      = s.exchange token now replacement := by
  have hview : (authService settings).view (AuthEffect.exchange token now replacement).writes s
      = { s with
          refreshTokens := updateToken token.id (fun row => row.replacedBy now replacement.id)
            (s.refreshTokens ++ [replacement]) } := rfl
  rw [hview] at hs' ⊢
  have hne : replacement.id ≠ token.id := by
    have hids := hs'.tokenIds
    rw [show updateToken token.id (fun row => row.replacedBy now replacement.id)
        (s.refreshTokens ++ [replacement]) = updateToken token.id
          (fun row => row.replacedBy now replacement.id) s.refreshTokens
        ++ updateToken token.id (fun row => row.replacedBy now replacement.id) [replacement]
      from List.map_append, List.map_append, List.nodup_append] at hids
    have hmoved : token.replacedBy now replacement.id ∈ updateToken token.id
        (fun row => row.replacedBy now replacement.id) s.refreshTokens :=
      List.mem_map.mpr ⟨token, ht, if_pos rfl⟩
    intro heq
    refine hids.2.2 _ (List.mem_map_of_mem hmoved) _ (List.mem_map_of_mem
      (List.mem_map_of_mem (List.mem_singleton.mpr rfl))) ?_
    rw [if_pos heq]
    exact heq.symm
  unfold AuthDatabase.exchange
  rw [show updateToken token.id (fun row => row.replacedBy now replacement.id)
      (s.refreshTokens ++ [replacement]) = updateToken token.id
        (fun row => row.replacedBy now replacement.id) s.refreshTokens
      ++ updateToken token.id (fun row => row.replacedBy now replacement.id) [replacement]
    from List.map_append]
  congr 2
  exact congrArg (fun row => [row]) (if_neg hne)

/-- What a revocation commits. -/
theorem view_revoke (now : Instant) (ids : List UUID) :
    (authService settings).view (AuthEffect.revoke now ids).writes s = s.revoke now ids :=
  foldl_revoke now ids s

/-- **Every effect keeps the invariant.** -/
theorem tokenInvariant_commit (h : TokenInvariant s log) {effect : AuthEffect}
    (hfits : effect.Fits s locks) (hanswers : effect.Answers entry)
    (hs' : ((authService settings).view effect.writes s).Consistent) :
    TokenInvariant ((authService settings).view effect.writes s) (log ++ [entry]) := by
  cases effect with
  | register user token =>
    obtain ⟨huser, hfresh⟩ := hfits
    refine tokenInvariant_insert h hfresh hs' hanswers.exchanged (fun u hu => ?_)
    have hids := hs'.userIds
    rw [show ((authService settings).view (AuthEffect.register user token).writes s).users
      = s.users ++ [user] from rfl, List.map_append, List.nodup_append] at hids
    have hnew : ∀ u ∈ s.users, u.id ≠ user.id := fun u hu =>
      hids.2.2 _ (List.mem_map_of_mem hu) _ (List.mem_singleton.mpr rfl)
    rcases List.mem_append.mp hu with hu | hu
    · rw [if_neg (fun heq => hnew u hu (heq.symm.trans huser)), Nat.add_zero]
      exact (h.bounded u hu).trans (Nat.le_add_right _ _)
    · -- no token belongs to a user who was not there
      obtain rfl := List.mem_singleton.mp hu
      have hnone : s.refreshTokens.countP (RefreshTokenRow.isActiveOf u.id) = 0 := by
        rw [List.countP_eq_zero]
        intro t ht hactive
        obtain ⟨u', hu', hid⟩ := List.mem_map.mp (h.consistent.tokenUsers t ht)
        exact hnew u' hu' (hid.trans (of_decide_eq_true hactive).1)
      rw [hnone, if_pos huser, if_pos hanswers.signedIn]
      omega
  | login user token =>
    obtain ⟨hknown, huser, hfresh⟩ := hfits
    refine tokenInvariant_insert h hfresh hs' hanswers.exchanged (fun u hu => ?_)
    by_cases hid : token.userId = u.id
    · obtain rfl : user = u := List.inj_on_of_nodup_map h.consistent.userIds hknown hu
        (huser.symm.trans hid)
      rw [if_pos hid, if_pos hanswers.signedIn]
      exact Nat.add_le_add_right (h.bounded user hknown) 1
    · rw [if_neg hid, Nat.add_zero]
      exact (h.bounded u hu).trans (Nat.le_add_right _ _)
  | exchange token now replacement =>
    obtain ⟨ht, -, hnone, hnow, huser, hfresh⟩ := hfits
    have hview := view_exchange ht hs'
    rw [hview] at hs' ⊢
    exact tokenInvariant_exchange h ht hnone hnow huser hfresh hs' hanswers.exchanged
  | revoke now ids =>
    rw [view_revoke] at hs' ⊢
    exact tokenInvariant_revoke h (fun id hid => (hfits id hid).2) hs' hanswers.exchanged

/-- **Every effect is one the others rely on.** -/
theorem evolves_commit (h : s.Consistent) {effect : AuthEffect} (hfits : effect.Fits s locks)
    (hs' : ((authService settings).view effect.writes s).Consistent) {locks' : List AuthRow}
    (hfree : ∀ row ∈ locks, row ∉ locks') :
    s.Evolves locks' ((authService settings).view effect.writes s) := by
  cases effect with
  | register user token =>
    exact ⟨fun _ hu => List.mem_append_left _ hu,
      fun t ht => ⟨t, List.mem_append_left _ ht, .refl t, fun _ => rfl⟩⟩
  | login user token =>
    exact ⟨fun _ hu => hu, fun t ht => ⟨t, List.mem_append_left _ ht, .refl t, fun _ => rfl⟩⟩
  | exchange token now replacement =>
    obtain ⟨ht, hlock, hnone, -⟩ := hfits
    rw [view_exchange ht hs']
    refine ⟨fun _ hu => hu, fun t hmem => ?_⟩
    by_cases hid : t.id = token.id
    · obtain rfl := h.token_eq hmem ht hid
      exact ⟨t.replacedBy now replacement.id,
        List.mem_append_left _ (List.mem_map.mpr ⟨t, ht, if_pos rfl⟩),
        ⟨rfl, rfl, rfl, rfl, fun _ => rfl⟩, fun hl => absurd hl (hfree _ hlock)⟩
    · exact ⟨t, List.mem_append_left _ (List.mem_map.mpr ⟨t, hmem, if_neg hid⟩), .refl t,
        fun _ => rfl⟩
  | revoke now ids =>
    rw [view_revoke]
    refine ⟨fun _ hu => hu, fun t ht => ⟨_, List.mem_map_of_mem ht, ?_⟩⟩
    by_cases hin : t.id ∈ ids
    · rw [if_pos hin]
      exact ⟨⟨rfl, rfl, rfl, rfl, fun _ => rfl⟩, fun hl => absurd hl (hfree _ (hfits _ hin).1)⟩
    · rw [if_neg hin]
      exact ⟨.refl t, fun _ => rfl⟩

/-- **The server keeps its invariant.** -/
theorem auth_respects (settings : AuthSettings) :
    (authService settings).Respects authDiscipline TokenInvariant AuthCommits
      (fun _ _ _ => True) where
  apply := rfl
  committed := fun _ _ h => h.consistent
  start := fun request _ _ => request.ensures settings
  commit := by
    rintro request writes locks s s' result log ⟨effect, rfl, hfits, hanswers⟩ hrely hinv hok -
    have hs' := of_decide_eq_true hok
    have hfits' := hfits.evolve hrely
    exact ⟨tokenInvariant_commit hinv hfits' hanswers hs',
      fun locks' hfree => evolves_commit hinv.consistent hfits' hs' hfree⟩

/-- Nothing is in the empty tables. -/
theorem tokenInvariant_initial : TokenInvariant ⟨[], []⟩ [] where
  consistent := by decide
  chains := .of_none (fun _ _ h => by
    obtain ⟨t, ht, -⟩ := h
    cases ht)
  sameUser := fun _ h => absurd h List.not_mem_nil
  replaced := fun _ h => absurd h List.not_mem_nil
  exchanged := fun _ h => absurd h List.not_mem_nil
  known := fun _ h => absurd h List.not_mem_nil
  bounded := fun _ h => absurd h List.not_mem_nil

/-- The server is in good order in every state it reaches. -/
theorem auth_good_of_run {actions : List (Action AuthChoice AuthRequest)} {w : AuthWorld}
    (hrun : (authService settings).run authInitial actions = some w) :
    w.Good authDiscipline TokenInvariant AuthCommits :=
  ((auth_respects settings).run_good (World.good_init tokenInvariant_initial)
    ((authService settings).commitsMeet_of_forall (fun _ _ _ => trivial) _ _) hrun).1

/-- The effect of a request that commits. -/
theorem effect_of_commit {w w₁ : AuthWorld}
    (hgood : w.Good authDiscipline TokenInvariant AuthCommits)
    {id : ℕ} (hstep : (authService settings).step w (.commit id) = some w₁) :
    ∃ (effect : AuthEffect) (locks : List AuthRow) (entry : AuthEntry),
      effect.Fits w.committed locks ∧ effect.Answers entry
      ∧ w₁.committed = (authService settings).view effect.writes w.committed
      ∧ w₁.log = w.log ++ [entry] ∧ w₁.committed.Consistent := by
  obtain ⟨tx, result, htx, hprog, hok, rfl⟩ := (authService settings).commit_eq_some hstep
  obtain ⟨s, hrely, effect, hwrites, hfits, hanswers⟩ := hgood.of_running htx hprog
  rw [← hwrites] at hok
  refine ⟨effect, tx.locks, (tx.request, result), hfits.evolve hrely, hanswers, ?_, rfl, ?_⟩
  · show (authService settings).view tx.writes w.committed = _
    rw [hwrites]
  · show ((authService settings).view tx.writes w.committed).Consistent
    rw [← hwrites]
    exact of_decide_eq_true hok

end Service

/-! ## Every reachable state -/

section Families

open Relation

variable [Credentials]

/-- **The families of refresh tokens** in a state of the server. -/
structure RefreshFamilies (w : AuthWorld) : Prop where
  /-- No token is exchanged twice. -/
  exchangedOnce : ∀ t ∈ w.committed.refreshTokens,
    w.log.countP (fun entry : AuthEntry => entry.exchanged? = some t.tokenHash) ≤ 1
  /-- A token has one successor and one predecessor at most, and never itself. -/
  chains : Chains w.committed.Link
  /-- Two tokens that lead to a common one lead one to the other. -/
  disjoint : ∀ i j k, ReflTransGen w.committed.Link i k → ReflTransGen w.committed.Link j k →
    ReflTransGen w.committed.Link i j ∨ ReflTransGen w.committed.Link j i
  /-- A family belongs to one user. -/
  oneUser : ∀ t ∈ w.committed.refreshTokens, ∀ t' ∈ w.committed.refreshTokens,
    ReflTransGen w.committed.Link t.id t'.id → t.userId = t'.userId
  /-- Only the last of a family can be active. -/
  lastActive : ∀ t ∈ w.committed.refreshTokens, t.replacedById.isSome = true →
    t.revokedAt.isSome = true
  /-- A token that was exchanged had not expired at the time. -/
  unexpired : ∀ entry ∈ w.log, ∀ hash, AuthEntry.exchanged? entry = some hash →
    ∃ t ∈ w.committed.refreshTokens, t.tokenHash = hash ∧ t.replacedById.isSome = true
      ∧ ∃ now, t.revokedAt = some now ∧ now < t.expiresAt
  /-- A user has no more active tokens than registrations and logins. -/
  bounded : ∀ user ∈ w.committed.users,
    w.committed.refreshTokens.countP (RefreshTokenRow.isActiveOf user.id)
      ≤ w.log.countP (fun entry : AuthEntry => entry.signedIn? = some user.email)

/-- A commit that answers an exchange found the token active and not expired,
and revokes it in favor of the new one. -/
def ExchangesActive (s s₁ : AuthDatabase) (hash : String) : Prop :=
  ∃ t ∈ s.refreshTokens, t.tokenHash = hash ∧ t.revokedAt = none ∧ t.replacedById = none
    ∧ ∃ now, now < t.expiresAt ∧ ∃ replacement ∈ s₁.refreshTokens,
      (∀ old ∈ s.refreshTokens, old.id ≠ replacement.id)
      ∧ t.replacedBy now replacement.id ∈ s₁.refreshTokens

variable {s : AuthDatabase} {log : List AuthEntry}

/-- A whole chain belongs to one user. -/
theorem TokenInvariant.oneUser (h : TokenInvariant s log) {t : RefreshTokenRow}
    (ht : t ∈ s.refreshTokens) {j : UUID} (hlink : ReflTransGen s.Link t.id j) :
    ∀ t' ∈ s.refreshTokens, t'.id = j → t.userId = t'.userId := by
  induction hlink with
  | refl =>
    intro t' ht' hid
    rw [h.consistent.token_eq ht' ht hid]
  | tail _ hlast ih =>
    intro t' ht' hid
    obtain ⟨t₀, ht₀, hid₀, hj⟩ := hlast
    exact (ih t₀ ht₀ hid₀).trans (h.sameUser t₀ ht₀ t' ht' (hj.trans (congrArg some hid.symm)))

/-- What the invariant says of families. -/
theorem TokenInvariant.families {w : AuthWorld} (h : TokenInvariant w.committed w.log) :
    RefreshFamilies w where
  exchangedOnce := by
    intro t ht
    rw [h.exchanged t ht]
    split <;> omega
  chains := h.chains
  disjoint := fun _ _ _ => h.chains.comparable
  oneUser := fun _ ht t' ht' hlink => h.oneUser ht hlink t' ht' rfl
  lastActive := by
    intro t ht hr
    obtain ⟨now, hnow, -⟩ := h.replaced t ht hr
    rw [hnow]
    rfl
  unexpired := by
    intro entry he hash hexch
    obtain ⟨t, ht, rfl⟩ := h.known entry he hash hexch
    -- the token was answered for, so it has a replacement
    have hcount := h.exchanged t ht
    have hpos : 0 < w.log.countP (fun entry : AuthEntry => entry.exchanged? = some t.tokenHash) :=
      List.countP_pos_iff.mpr ⟨entry, he, decide_eq_true hexch⟩
    have hr : t.replacedById.isSome = true := by
      by_contra hr
      rw [if_neg hr] at hcount
      omega
    exact ⟨t, ht, rfl, hr, h.replaced t ht hr⟩
  bounded := h.bounded

/-- **Refresh tokens form families.** In every state the server reaches, under
every interleaving of registrations, logins, refreshes and logouts; what is
revoked stays so in every later state; and an exchange finds its token active
and not expired. -/
theorem refreshFamilies (settings : AuthSettings)
    {actions actions' : List (Action AuthChoice AuthRequest)} {w w' : AuthWorld}
    (hrun : (authService settings).run authInitial actions = some w)
    (hrun' : (authService settings).run w actions' = some w') :
    RefreshFamilies w
      ∧ (∀ t ∈ w.committed.refreshTokens, t.revokedAt.isSome = true →
        ∀ t' ∈ w'.committed.refreshTokens, t'.id = t.id → t'.revokedAt.isSome = true)
      ∧ ∀ id w₁ entry hash, (authService settings).step w (.commit id) = some w₁ →
        w₁.log = w.log ++ [entry] → AuthEntry.exchanged? entry = some hash →
        ExchangesActive w.committed w₁.committed hash := by
  have hgood := auth_good_of_run hrun
  obtain ⟨hgood', hevolves⟩ := (auth_respects settings).run_good hgood
    ((authService settings).commitsMeet_of_forall (fun _ _ _ => trivial) _ _) hrun'
  refine ⟨hgood.invariant.families, ?_, ?_⟩
  · intro t ht hr t' ht' hid
    obtain ⟨t₁, ht₁, hlater, -⟩ := hevolves.tokens t ht
    rw [← hgood'.invariant.consistent.token_eq ht₁ ht' (hlater.id.trans hid.symm)]
    exact hlater.revoked hr
  · intro id w₁ entry hash hstep hlog hexch
    obtain ⟨effect, locks, entry', hfits, hanswers, hcommitted, hlog', hs'⟩ :=
      effect_of_commit hgood hstep
    obtain rfl : entry' = entry :=
      List.singleton_inj.mp (List.append_cancel_left (hlog'.symm.trans hlog))
    have heffect := hanswers.exchanged.symm.trans hexch
    cases effect with
    | exchange token now replacement =>
      obtain ⟨ht, -, hnone, hnow, -⟩ := hfits
      rw [hcommitted] at hs' ⊢
      have hview := view_exchange ht hs'
      rw [hview] at hs' ⊢
      have r := exchangeRows hgood.invariant ht hnone hs'
      exact ⟨token, ht, Option.some.inj heffect, hnone, r.unlinked, now, hnow, replacement,
        r.added, r.newId, r.moved⟩
    | _ => cases heffect

end Families

/-! ## A user who refreshes -/

/-- A refresh token of the sample runs. -/
def sampleSecret (n : ℕ) : String := "refresh-token-0123456789abcdef-" ++ toString n

/-- Some statements of a transaction, with the id and the token `n`. -/
def authAdvances (id n statements : ℕ) : List (Action AuthChoice AuthRequest) :=
  List.replicate statements (.advance id ⟨[], ⟨n⟩, sampleSecret n, "salt", 0⟩)

/-- The settings of the sample runs. -/
def sampleAuthSettings : AuthSettings := ⟨"secret", "HS256", 900, 2592000⟩

/-- The first token is long enough. -/
theorem sampleSecret_one : 32 ≤ (sampleSecret 1).length := by decide

/-- The refresh of a token. -/
def sampleRefresh (n : ℕ) (h : 32 ≤ (sampleSecret n).length) : AuthRequest :=
  .refresh ⟨sampleSecret n, h⟩

/-- A user with the token `1`. -/
def sampleRegistration : List (Action AuthChoice AuthRequest) :=
  .start (.register ⟨"ada@example.com", "a long password", by decide⟩) :: authAdvances 0 1 6
    ++ [.commit 0]

/-- The token `1` exchanged for the token `2`. -/
def sampleExchange : List (Action AuthChoice AuthRequest) :=
  .start (sampleRefresh 1 sampleSecret_one) :: authAdvances 1 2 7 ++ [.commit 1]

theorem refreshFamilies_exchange : ∃ w w',
    (@authService .plain sampleAuthSettings).run authInitial sampleRegistration = some w
    ∧ (@authService .plain sampleAuthSettings).run w sampleExchange = some w'
    ∧ w'.committed.refreshTokens.map (fun t => (t.id, t.revokedAt.isSome, t.replacedById))
      = [(⟨1⟩, true, some ⟨2⟩), (⟨2⟩, false, none)]
    ∧ @RefreshFamilies Credentials.plain w
      ∧ (∀ t ∈ w.committed.refreshTokens, t.revokedAt.isSome = true →
        ∀ t' ∈ w'.committed.refreshTokens, t'.id = t.id → t'.revokedAt.isSome = true)
      ∧ ∀ id w₁ entry hash,
        (@authService .plain sampleAuthSettings).step w (.commit id) = some w₁ →
        w₁.log = w.log ++ [entry] → AuthEntry.exchanged? entry = some hash →
        ExchangesActive w.committed w₁.committed hash := by
  have htokens : ((@authService .plain sampleAuthSettings).run authInitial
      (sampleRegistration ++ sampleExchange)).map (fun w' =>
        w'.committed.refreshTokens.map (fun t => (t.id, t.revokedAt.isSome, t.replacedById)))
      = some [(⟨1⟩, true, some ⟨2⟩), (⟨2⟩, false, none)] := by
    decide +kernel
  obtain ⟨w', hrun, htokens⟩ := Option.map_eq_some_iff.mp htokens
  rw [System.run_append] at hrun
  obtain ⟨w, hrun, hrun'⟩ := Option.bind_eq_some_iff.mp hrun
  exact ⟨w, w', hrun, hrun', htokens, @refreshFamilies .plain _ _ _ _ _ hrun hrun'⟩

end CohortSwitch
