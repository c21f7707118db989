import CohortSwitch.Auth

/-!
# What the requests of a user commit

Every request of signing in ends in one of four effects on the tables
(`AuthEffect`): a new user with a token, a new token of a user, a token
exchanged for a new one, or some tokens revoked. What an effect needs of the
state it commits to (`AuthEffect.Fits`) is read under row locks, and
`AuthDatabase.Evolves` is what the commits of others leave of it: users and
tokens stay, a revoked token stays revoked, and a locked row does not change.
`AuthRequest.ensures` follows the four programs to their effects.

## The revoking `UPDATE`

An `UPDATE` over several rows is several statements here, and `Revoking` is what holds
between two of them: some rows are revoked already, some are still to be looked at, and
together they cover the rows that were active when it started (`Covers`). Each row is
locked first, and then its predicate is looked at again: it may have been revoked by
whoever held the lock. Rows that were inserted in the meantime are in no list, so the
cover speaks of the rows of an earlier moment.

## Answers

An entry of the log says what a request was answered, and two things are read off it:
which token it exchanged, and whom it signed in. `AuthEffect.Answers` ties both to the
effect, so that counting answers is counting effects.
-/

namespace CohortSwitch

/-! ## What others may do -/

/-- A row of a token, later on. -/
structure RefreshTokenRow.Later (t t' : RefreshTokenRow) : Prop where
  id : t'.id = t.id
  userId : t'.userId = t.userId
  tokenHash : t'.tokenHash = t.tokenHash
  expiresAt : t'.expiresAt = t.expiresAt
  revoked : t.revokedAt.isSome = true → t'.revokedAt.isSome = true

/-- **What the commits of others may do** to a state while some rows are
locked. -/
structure AuthDatabase.Evolves (locks : List AuthRow) (s s' : AuthDatabase) : Prop where
  users : s.users ⊆ s'.users
  tokens : ∀ t ∈ s.refreshTokens, ∃ t' ∈ s'.refreshTokens,
    t.Later t' ∧ (.refreshToken t.id ∈ locks → t' = t)

/-- A row as it is. -/
theorem RefreshTokenRow.Later.refl (t : RefreshTokenRow) : t.Later t :=
  ⟨rfl, rfl, rfl, rfl, fun h => h⟩

/-- Nothing happened. -/
theorem AuthDatabase.Evolves.refl (locks : List AuthRow) (s : AuthDatabase) :
    s.Evolves locks s :=
  ⟨fun _ h => h, fun t ht => ⟨t, ht, .refl t, fun _ => rfl⟩⟩

/-- One commit after another. -/
theorem AuthDatabase.Evolves.trans {locks : List AuthRow} {s s' s'' : AuthDatabase}
    (h : s.Evolves locks s') (h' : s'.Evolves locks s'') : s.Evolves locks s'' where
  users := fun _ hu => h'.users (h.users hu)
  tokens := by
    intro t ht
    obtain ⟨t₁, ht₁, hlater₁, hlock₁⟩ := h.tokens t ht
    obtain ⟨t₂, ht₂, hlater₂, hlock₂⟩ := h'.tokens t₁ ht₁
    refine ⟨t₂, ht₂, ⟨hlater₂.id.trans hlater₁.id, hlater₂.userId.trans hlater₁.userId,
      hlater₂.tokenHash.trans hlater₁.tokenHash, hlater₂.expiresAt.trans hlater₁.expiresAt,
      fun hr => hlater₂.revoked (hlater₁.revoked hr)⟩, fun hl => ?_⟩
    rw [hlock₂ (hlater₁.id ▸ hl), hlock₁ hl]

/-- **What the transactions of signing in rely on.** -/
def authDiscipline : Discipline AuthDatabase AuthWrite AuthRow where
  apply := AuthDatabase.apply
  invariant := AuthDatabase.Consistent
  rely := AuthDatabase.Evolves
  rely_refl := AuthDatabase.Evolves.refl
  rely_trans := fun _ _ _ _ h h' => h.trans h'

section Rows

variable {s s' : AuthDatabase} {locks : List AuthRow} {t t' : RefreshTokenRow}

/-- Tokens are told apart by their ids. -/
theorem AuthDatabase.Consistent.token_eq (hs : s.Consistent) (ht : t ∈ s.refreshTokens)
    (ht' : t' ∈ s.refreshTokens) (hid : t.id = t'.id) : t = t' :=
  List.inj_on_of_nodup_map hs.tokenIds ht ht' hid

/-- A locked row stays. -/
theorem AuthDatabase.Evolves.locked (h : s.Evolves locks s') (ht : t ∈ s.refreshTokens)
    (hlock : .refreshToken t.id ∈ locks) : t ∈ s'.refreshTokens := by
  obtain ⟨t', ht', -, heq⟩ := h.tokens t ht
  exact heq hlock ▸ ht'

end Rows

/-! ## Effects -/

/-- A token as it is issued. -/
def RefreshTokenRow.Fresh (t : RefreshTokenRow) : Prop := t.revokedAt = none ∧ t.replacedById = none

/-- **What a request does to the tables.** As with the effects of the service, the requests come
down to a few kinds, and the statements about runs are case distinctions on these. -/
inductive AuthEffect where
  | register (user : UserRow) (token : RefreshTokenRow)
  | login (user : UserRow) (token : RefreshTokenRow)
  | exchange (token : RefreshTokenRow) (now : Instant) (replacement : RefreshTokenRow)
  | revoke (now : Instant) (ids : List UUID)

/-- Its writes. -/
def AuthEffect.writes : AuthEffect → List AuthWrite
  | .register user token => [.insertUser user, .insertToken token]
  | .login _ token => [.insertToken token]
  | .exchange token now replacement =>
    [.insertToken replacement, .replace token.id now replacement.id]
  | .revoke now ids => ids.map (fun id => .revoke id now)

/-- **What an effect needs** of the state it is committed to, and of the rows
that are locked. -/
def AuthEffect.Fits (s : AuthDatabase) (locks : List AuthRow) : AuthEffect → Prop
  | .register user token => token.userId = user.id ∧ token.Fresh
  | .login user token => user ∈ s.users ∧ token.userId = user.id ∧ token.Fresh
  | .exchange token now replacement => token ∈ s.refreshTokens
    ∧ .refreshToken token.id ∈ locks ∧ token.revokedAt = none ∧ now < token.expiresAt
    ∧ replacement.userId = token.userId ∧ replacement.Fresh
  | .revoke _ ids => ∀ id ∈ ids, .refreshToken id ∈ locks
    ∧ ∃ t ∈ s.refreshTokens, t.id = id ∧ t.revokedAt = none

/-- The rows of a user are covered, as far as they were there at an earlier moment: each of
them is revoked or about to be, and no others are. -/
structure Covers (s : AuthDatabase) (userId : UUID) (earlier ids : List UUID) : Prop where
  known : ∀ id ∈ earlier, id ∈ s.refreshTokens.map RefreshTokenRow.id
  within : ids ⊆ earlier
  revoked : ∀ t ∈ s.refreshTokens, t.userId = userId → t.id ∈ earlier →
    t.revokedAt.isSome = true ∨ t.id ∈ ids

section Stability

variable {s s' : AuthDatabase} {locks : List AuthRow}

/-- What an effect needs stays. -/
theorem AuthEffect.Fits.evolve {effect : AuthEffect} (h : effect.Fits s locks)
    (hs : s.Evolves locks s') : effect.Fits s' locks := by
  cases effect with
  | register user token => exact h
  | login user token => exact ⟨hs.users h.1, h.2⟩
  | exchange token now replacement => exact ⟨hs.locked h.1 h.2.1, h.2⟩
  | revoke now ids =>
    intro id hid
    obtain ⟨hlock, t, ht, heq, hnone⟩ := h id hid
    exact ⟨hlock, t, hs.locked ht (heq ▸ hlock), heq, hnone⟩

/-- The cover stays: a row that was there is the row of a later state. -/
theorem Covers.evolve {userId : UUID} {earlier ids : List UUID}
    (h : Covers s userId earlier ids) (hs' : s'.Consistent) (hs : s.Evolves locks s') :
    Covers s' userId earlier ids where
  known := by
    intro id hid
    obtain ⟨t, ht, rfl⟩ := List.mem_map.mp (h.known id hid)
    obtain ⟨t', ht', hlater, -⟩ := hs.tokens t ht
    exact hlater.id ▸ List.mem_map_of_mem ht'
  within := h.within
  revoked := by
    intro t' ht' huser hearlier
    obtain ⟨t, ht, hid⟩ := List.mem_map.mp (h.known _ hearlier)
    obtain ⟨t₁, ht₁, hlater, -⟩ := hs.tokens t ht
    obtain rfl : t₁ = t' := hs'.token_eq ht₁ ht' (hlater.id.trans hid)
    rcases h.revoked t ht (hlater.userId.symm.trans huser) (hid ▸ hearlier) with hr | hr
    · exact Or.inl (hlater.revoked hr)
    · exact Or.inr (hid ▸ hr)

end Stability

/-! ## Entries of the log -/

/-- A request with what it was answered. -/
abbrev AuthEntry := AuthRequest × AuthOutcome

/-- The hash of the token an entry exchanged, where it did. -/
def AuthEntry.exchanged? : AuthEntry → Option String
  | (.refresh payload, ⟨.ok (some _)⟩) => some (hashSecret payload.refreshToken)
  | _ => none

/-- The email of the user an entry signed in, where it did. -/
def AuthEntry.signedIn? [Credentials] : AuthEntry → Option String
  | (.register payload, ⟨.ok (some _)⟩) => some (Credentials.normalize payload.email)
  | (.login payload, ⟨.ok (some _)⟩) => some (Credentials.normalize payload.email)
  | _ => none

/-- **What an effect is answered with.** -/
structure AuthEffect.Answers [Credentials] (effect : AuthEffect) (entry : AuthEntry) : Prop where
  exchanged : entry.exchanged? = match effect with
    | .exchange token _ _ => some token.tokenHash
    | _ => none
  signedIn : entry.signedIn? = match effect with
    | .register user _ | .login user _ => some user.email
    | _ => none

/-- **The postcondition of a request**: it wrote an effect that fits, and its answer is that of
the effect. -/
def AuthCommits [Credentials] (request : AuthRequest) (writes : List AuthWrite)
    (locks : List AuthRow) (s : AuthDatabase) (outcome : AuthOutcome) : Prop :=
  ∃ effect : AuthEffect, effect.writes = writes ∧ effect.Fits s locks
    ∧ effect.Answers (request, outcome)

/-! ## The statements -/

section Statements

variable {writes : List AuthWrite} {locks : List AuthRow} {s : AuthDatabase}

theorem ensures_flushAuth {pending : List AuthWrite}
    {post : List AuthWrite → List AuthRow → AuthDatabase → Unit → Prop}
    (h : ∀ s', s.Evolves locks s' → s'.Consistent →
      post (writes ++ pending) (locks ++ pending.flatMap AuthWrite.locks) s' ()) :
    (flushAuth pending).Ensures authDiscipline post writes locks s :=
  fun s' hrely hinv _ _ _ => h s' hrely hinv

/-- A token selected for update is a committed row, and locked. -/
theorem ensures_selectTokenForUpdate (rawToken : String) :
    (selectTokenForUpdate rawToken).Ensures authDiscipline
      (fun writes locks s found => writes = [] ∧ ∀ t, found = some t →
        t ∈ s.refreshTokens ∧ t.tokenHash = hashSecret rawToken
          ∧ locks = [.refreshToken t.id]) [] [] s := by
  intro s' _ _ locked choice _
  refine ⟨rfl, fun t ht => ?_⟩
  have hfind : s'.refreshTokens.find? (fun row => row.tokenHash = hashSecret rawToken) = some t :=
    ht
  refine ⟨List.mem_of_find?_eq_some hfind, by simpa using List.find?_some hfind, ?_⟩
  show [] ++ ((s'.refreshTokens.find? (fun row =>
    row.tokenHash = hashSecret rawToken)).toList.map (fun row => AuthRow.refreshToken row.id)) = _
  rw [hfind]
  rfl

/-- Some tokens revoked. -/
def AuthDatabase.revoke (s : AuthDatabase) (now : Instant) (ids : List UUID) : AuthDatabase :=
  { s with
    refreshTokens := s.refreshTokens.map (fun row =>
      if row.id ∈ ids then { row with revokedAt := some now } else row) }

/-- Revoking one after the other is revoking them all. -/
theorem foldl_revoke (now : Instant) (ids : List UUID) (s : AuthDatabase) :
    (ids.map (fun id => AuthWrite.revoke id now)).foldl AuthDatabase.apply s
      = s.revoke now ids := by
  induction ids generalizing s with
  | nil =>
    unfold AuthDatabase.revoke
    simp
  | cons id rest ih =>
    rw [List.map_cons, List.foldl_cons, ih]
    unfold AuthDatabase.revoke AuthDatabase.apply updateToken
    simp only [List.map_map]
    congr 1
    refine List.map_congr_left (fun row _ => ?_)
    by_cases hid : row.id = id <;> by_cases hmem : row.id ∈ rest <;> simp_all

/-- The revoking `UPDATE` on its way: some rows are revoked, some are to be
looked at. -/
structure Revoking (userId : UUID) (now : Instant) (earlier todo : List UUID)
    (writes : List AuthWrite) (locks : List AuthRow) (s : AuthDatabase) (ids : List UUID) :
    Prop where
  writes_eq : (AuthEffect.revoke now ids).writes = writes
  fits : (AuthEffect.revoke now ids).Fits s locks
  covers : Covers s userId earlier (ids ++ todo)

/-- One row of the revoking `UPDATE`. -/
theorem ensures_revokeFound {userId : UUID} {now : Instant} {earlier todo ids : List UUID}
    {id : UUID} (h : Revoking userId now earlier (id :: todo) writes locks s ids) :
    (revokeFound userId now id).Ensures authDiscipline
      (fun writes locks s _ => ∃ ids, Revoking userId now earlier todo writes locks s ids)
      writes locks s := by
  intro s' hrely hinv locked choice _
  have hview : writes.foldl authDiscipline.apply s' = s'.revoke now ids := by
    rw [← h.writes_eq]
    exact foldl_revoke now ids s'
  rw [hview]
  -- the rows that match are committed rows that are not revoked
  have hmatch : ∀ row, row ∈ (s'.revoke now ids).refreshTokens.filter (fun row =>
      row.id = id ∧ row.userId = userId ∧ row.revokedAt = none) →
      row ∈ s'.refreshTokens ∧ row.id = id ∧ row.revokedAt = none := by
    intro row hrow
    obtain ⟨hmem, hp⟩ := List.mem_filter.mp hrow
    obtain ⟨hid, -, hnone⟩ := of_decide_eq_true hp
    obtain ⟨old, hold, heq⟩ := List.mem_map.mp hmem
    by_cases hin : old.id ∈ ids
    · rw [if_pos hin] at heq
      rw [← heq] at hnone
      cases hnone
    · rw [if_neg hin] at heq
      exact ⟨heq ▸ hold, hid, hnone⟩
  have hcovers := h.covers.evolve hinv hrely
  refine ⟨ids ++ ((s'.revoke now ids).refreshTokens.filter (fun row =>
    row.id = id ∧ row.userId = userId ∧ row.revokedAt = none)).map RefreshTokenRow.id,
    ?_, ?_, ?_⟩
  · rw [← h.writes_eq]
    show List.map _ (ids ++ _) = _ ++ List.map _ _
    rw [List.map_append, List.map_map]
    rfl
  · intro i hi
    rcases List.mem_append.mp hi with hi | hi
    · obtain ⟨hlock, hrow⟩ := h.fits.evolve hrely i hi
      exact ⟨List.mem_append_left _ hlock, hrow⟩
    · obtain ⟨row, hrow, rfl⟩ := List.mem_map.mp hi
      obtain ⟨hmem, hid, hnone⟩ := hmatch row hrow
      exact ⟨List.mem_append_right _ (hid ▸ List.mem_singleton.mpr rfl), row, hmem, rfl, hnone⟩
  · refine ⟨hcovers.known, fun i hi => ?_, fun t ht huser hearlier => ?_⟩
    · rcases List.mem_append.mp hi with hi | hi
      · rcases List.mem_append.mp hi with hi | hi
        · exact hcovers.within (List.mem_append_left _ hi)
        · obtain ⟨row, hrow, rfl⟩ := List.mem_map.mp hi
          rw [(hmatch row hrow).2.1]
          exact hcovers.within (List.mem_append_right _ List.mem_cons_self)
      · exact hcovers.within (List.mem_append_right _ (List.mem_cons_of_mem _ hi))
    rcases hcovers.revoked t ht huser hearlier with hr | hr
    · exact Or.inl hr
    · rcases List.mem_append.mp hr with hr | hr
      · exact Or.inr (List.mem_append_left _ (List.mem_append_left _ hr))
      rcases List.mem_cons.mp hr with hid | hr
      · by_cases hnone : t.revokedAt = none
        · refine Or.inr (List.mem_append_left _ ?_)
          by_cases hin : t.id ∈ ids
          · exact List.mem_append_left _ hin
          · refine List.mem_append_right _ (List.mem_map_of_mem (List.mem_filter.mpr ⟨?_, ?_⟩))
            · exact List.mem_map.mpr ⟨t, ht, if_neg hin⟩
            · exact decide_eq_true ⟨hid, huser, hnone⟩
        · exact Or.inl (Option.isSome_iff_ne_none.mpr hnone)
      · exact Or.inr (List.mem_append_right _ hr)

/-- **The revoking `UPDATE` to its end.** -/
theorem ensures_revokeEach {userId : UUID} {now : Instant} {earlier todo ids : List UUID}
    (h : Revoking userId now earlier todo writes locks s ids) :
    (revokeEach userId now todo).Ensures authDiscipline
      (fun writes locks s _ => ∃ ids, Revoking userId now earlier [] writes locks s ids)
      writes locks s := by
  induction todo generalizing writes locks s ids with
  | nil => exact ⟨ids, h⟩
  | cons id rest ih =>
    refine (ensures_revokeFound h).bind ?_
    rintro writes' locks' s' _ ⟨ids', h'⟩
    exact ih h'

/-- The revoking `UPDATE` when it starts: the active rows of the user are to be looked at. -/
theorem revoking_start {userId : UUID} {rows : List RefreshTokenRow}
    (hrows : rows.Perm (s.refreshTokens.filter (fun row =>
      row.userId = userId ∧ row.revokedAt = none))) (now : Instant) (locks : List AuthRow) :
    Revoking userId now (s.refreshTokens.map RefreshTokenRow.id) (rows.map RefreshTokenRow.id) []
      locks s [] := by
  refine ⟨rfl, fun _ h => absurd h List.not_mem_nil, fun _ h => h, ?_, ?_⟩
  · rw [List.nil_append]
    refine List.map_subset _ (fun row hrow => ?_)
    exact List.mem_of_mem_filter (hrows.mem_iff.mp hrow)
  · intro t ht huser _
    by_cases hnone : t.revokedAt = none
    · refine Or.inr (List.mem_map_of_mem (hrows.mem_iff.mpr (List.mem_filter.mpr ⟨ht, ?_⟩)))
      exact decide_eq_true ⟨huser, hnone⟩
    · exact Or.inl (Option.isSome_iff_ne_none.mpr hnone)

/-- **The revoking `UPDATE`** covers the rows that were there when it started. -/
theorem ensures_revokeAll (userId : UUID) (now : Instant) :
    (revokeAll userId now).Ensures authDiscipline
      (fun writes locks s _ => ∃ earlier ids, Revoking userId now earlier [] writes locks s ids)
      [] locks s := by
  unfold revokeAll
  refine Prog.Ensures.bind (M := fun writes locks s rows => ∃ earlier,
    Revoking userId now earlier (rows.map RefreshTokenRow.id) writes locks s [])
    (Prog.ensures_read (fun s' _ _ _ _ => ⟨_, revoking_start (arrange_perm _ _) now _⟩)) ?_
  rintro writes' locks' s' rows ⟨earlier, h⟩
  exact (ensures_revokeEach h).mono (fun _ _ _ _ h' => ⟨earlier, h'⟩)

end Statements

/-! ## The requests -/

section Requests

variable [Credentials] {settings : AuthSettings} {s : AuthDatabase}

/-- What `issue_tokens` gives: a fresh row of the user, and the pair for it. -/
def Issued (user : UserRow) (issued : TokenPair × RefreshTokenRow) : Prop :=
  issued.2.userId = user.id ∧ issued.2.Fresh

theorem reads_issueTokens (settings : AuthSettings) (user : UserRow) :
    (issueTokens settings user).Reads :=
  (Prog.reads_read _).bind (fun _ => (Prog.reads_attempt _).bind (fun _ =>
    (Prog.reads_read _).bind (fun _ => (Prog.reads_attempt _).bind (fun _ => trivial))))

/-- What is issued has the hash of the text that is returned. -/
theorem yields_issueTokens (settings : AuthSettings) (user : UserRow) :
    (issueTokens settings user).Yields (Issued user) := by
  refine (Prog.yields_true _).bind (fun _ _ => (Prog.yields_true _).bind (fun _ _ =>
    (Prog.yields_true _).bind (fun _ _ => (Prog.yields_true _).bind (fun _ _ => ?_))))
  exact ⟨rfl, rfl, rfl⟩

/-- A registration inserts a user with the normalized email. -/
theorem ensures_registerUser (email password : String) :
    (registerUser email password).Ensures authDiscipline
      (fun writes locks _ user => writes = [.insertUser user] ∧ locks = []
        ∧ user.email = Credentials.normalize email) [] [] s := by
  unfold registerUser
  refine ((Prog.reads_read _).ensures (Prog.yields_true _)).bind ?_
  rintro _ _ s₁ existing ⟨rfl, rfl, -, -⟩
  refine ((Prog.reads_attempt _).ensures (Prog.yields_true _)).bind ?_
  rintro _ _ s₂ _ ⟨rfl, rfl, -, -⟩
  refine ((Prog.reads_read _).ensures (Prog.yields_true _)).bind ?_
  rintro _ _ s₃ chosen ⟨rfl, rfl, -, -⟩
  refine (ensures_flushAuth (fun _ _ _ => ?_)).bind (fun _ _ _ _ h => h)
  exact ⟨rfl, rfl, rfl⟩

/-- A user who authenticates is a committed row with the normalized email. -/
theorem ensures_authenticateUser (email password : String) :
    (authenticateUser email password).Ensures authDiscipline
      (fun writes locks s user => writes = [] ∧ locks = [] ∧ user ∈ s.users
        ∧ user.email = Credentials.normalize email) [] [] s := by
  unfold authenticateUser
  refine Prog.Ensures.bind (M := fun writes locks s found => writes = [] ∧ locks = []
    ∧ ∀ user, found = some user → user ∈ s.users ∧ user.email = Credentials.normalize email)
    (Prog.ensures_read (fun s' _ _ _ _ => ⟨rfl, rfl, fun user hu => ?_⟩)) ?_
  · exact ⟨List.mem_of_find?_eq_some hu, by simpa using List.find?_some hu⟩
  · rintro _ _ s' found ⟨rfl, rfl, hfound⟩
    cases found with
    | none => exact trivial
    | some user =>
      dsimp only
      split
      · exact trivial
      · exact ⟨rfl, rfl, hfound user rfl⟩

/-- A registration is a new user with a token. -/
theorem ensures_register (payload : RegisterRequest) :
    (register settings payload).Ensures authDiscipline (AuthCommits (.register payload)) [] []
      s := by
  unfold register
  refine (ensures_registerUser _ _).bind ?_
  rintro _ _ s₁ user ⟨rfl, rfl, hemail⟩
  refine ((reads_issueTokens settings user).ensures (yields_issueTokens settings user)).bind ?_
  rintro _ _ s₂ ⟨tokens, row⟩ ⟨rfl, rfl, -, huser, hfresh⟩
  refine (ensures_flushAuth (fun s₃ _ _ => ?_)).bind (fun _ _ _ _ h => h)
  exact ⟨.register user row, rfl, ⟨huser, hfresh⟩, rfl, congrArg some hemail.symm⟩

/-- A login is a new token of a user. -/
theorem ensures_login (payload : LoginRequest) :
    (login settings payload).Ensures authDiscipline (AuthCommits (.login payload)) [] [] s := by
  unfold login
  refine (ensures_authenticateUser _ _).bind ?_
  rintro _ _ s₁ user ⟨rfl, rfl, hknown, hemail⟩
  refine ((reads_issueTokens settings user).ensures (yields_issueTokens settings user)).bind ?_
  rintro _ _ s₂ ⟨tokens, row⟩ ⟨rfl, rfl, hrely, huser, hfresh⟩
  refine (ensures_flushAuth (fun s₃ hrely' _ => ?_)).bind (fun _ _ _ _ h => h)
  exact ⟨.login user row, rfl, ⟨hrely'.users (hrely.users hknown), huser, hfresh⟩, rfl,
    congrArg some hemail.symm⟩

/-- A token that is neither revoked nor expired is exchanged. -/
theorem ensures_exchangeToken {payload : RefreshRequest} {token : RefreshTokenRow}
    {now : Instant} {locks : List AuthRow} (ht : token ∈ s.refreshTokens)
    (hlock : .refreshToken token.id ∈ locks)
    (hhash : token.tokenHash = hashSecret payload.refreshToken) (hnone : token.revokedAt = none)
    (hnow : now < token.expiresAt) :
    (exchangeToken settings token now).Ensures authDiscipline
      (fun writes locks s outcome => AuthCommits (.refresh payload) writes locks s outcome
        ∧ ∃ pair, outcome.response = .ok pair) [] locks s := by
  unfold exchangeToken
  refine Prog.Ensures.bind (M := fun writes locks' s found => writes = [] ∧ locks' = locks
    ∧ token ∈ s.refreshTokens ∧ ∀ user : UserRow, found = some user → user.id = token.userId)
    (Prog.ensures_read (fun s' hrely _ _ _ => ⟨rfl, rfl, hrely.locked ht hlock, ?_⟩)) ?_
  · intro user hu
    simpa using List.find?_some hu
  rintro _ locks s₁ found ⟨rfl, rfl, ht₁, hfound⟩
  cases found with
  | none => exact trivial
  | some user =>
    dsimp only
    split
    · exact trivial
    refine ((Prog.reads_read _).ensures (Prog.yields_true _)).bind ?_
    rintro _ locks s₂ chosen ⟨rfl, rfl, hrely₂, -⟩
    refine ((Prog.reads_attempt _).ensures (Prog.yields_true _)).bind ?_
    rintro _ locks s₃ expiresAt ⟨rfl, rfl, hrely₃, -⟩
    -- the row of the token is locked, so it is as it was found
    have ht₃ := hrely₃.locked (hrely₂.locked ht₁ hlock) hlock
    refine Prog.Ensures.bind (M := fun writes locks' s _ => writes
      = [.insertToken ⟨chosen.id, user.id, hashSecret chosen.secret, expiresAt, none, none⟩]
      ∧ locks' = locks ∧ token ∈ s.refreshTokens)
      (ensures_flushAuth (fun s₄ hrely₄ _ => ⟨rfl, List.append_nil _, hrely₄.locked ht₃ hlock⟩)) ?_
    rintro _ locks s₄ _ ⟨rfl, rfl, ht₄⟩
    refine ((Prog.reads_read _).ensures (Prog.yields_true _)).bind ?_
    rintro _ locks s₅ issued ⟨rfl, rfl, hrely₅, -⟩
    refine ((Prog.reads_attempt _).ensures (Prog.yields_true _)).bind ?_
    rintro _ locks s₆ accessToken ⟨rfl, rfl, hrely₆, -⟩
    have ht₆ := hrely₆.locked (hrely₅.locked ht₄ hlock) hlock
    refine (ensures_flushAuth (fun s₇ hrely₇ _ => ?_)).bind (fun _ _ _ _ h => h)
    refine ⟨⟨.exchange token now
      ⟨chosen.id, user.id, hashSecret chosen.secret, expiresAt, none, none⟩, rfl,
      ⟨hrely₇.locked ht₆ hlock, List.mem_append_left _ hlock, hnone, hnow, hfound user rfl, rfl,
        rfl⟩, ?_⟩, _, rfl⟩
    exact ⟨congrArg some hhash.symm, rfl⟩

/-- The refresh of a token, with the errors that are committed. -/
theorem ensures_rotateRefreshToken (payload : RefreshRequest) :
    (rotateRefreshToken settings payload.refreshToken).Ensures authDiscipline
      (fun writes locks s outcome => (∃ error, outcome.response = .error error
          ∧ error.code ∉ ["refresh_token_reused", "refresh_token_expired"])
        ∨ AuthCommits (.refresh payload) writes locks s outcome) [] [] s := by
  unfold rotateRefreshToken
  refine (ensures_selectTokenForUpdate _).bind ?_
  rintro _ locks s₁ found ⟨rfl, hfound⟩
  cases found with
  | none => exact Or.inl ⟨_, rfl, by decide⟩
  | some token =>
    obtain ⟨ht, hhash, rfl⟩ := hfound token rfl
    have hlock : AuthRow.refreshToken token.id ∈ [AuthRow.refreshToken token.id] :=
      List.mem_singleton.mpr rfl
    refine ((Prog.reads_read _).ensures (Prog.yields_true _)).bind ?_
    rintro _ _ s₂ chosen ⟨rfl, rfl, hrely₂, -⟩
    have ht₂ := hrely₂.locked ht hlock
    split
    · -- the token was revoked: the user's tokens are revoked, and that is committed
      refine (ensures_revokeAll token.userId chosen.now).bind ?_
      rintro writes locks s₃ _ ⟨earlier, ids, hwrites, hfits, -⟩
      exact Or.inr ⟨.revoke chosen.now ids, hwrites, hfits, rfl, rfl⟩
    · rename_i hrevoked
      have hnone : token.revokedAt = none := by simpa using hrevoked
      split
      · refine (ensures_flushAuth (fun s₃ hrely₃ _ => ?_)).bind (fun _ _ _ _ h => h)
        refine Or.inr ⟨.revoke chosen.now [token.id], rfl, ?_, rfl, rfl⟩
        intro id hid
        obtain rfl := List.mem_singleton.mp hid
        exact ⟨List.mem_append_left _ hlock, token, hrely₃.locked ht₂ hlock, rfl, hnone⟩
      · rename_i hexpired
        refine (ensures_exchangeToken ht₂ hlock hhash hnone (lt_of_not_ge hexpired)).mono ?_
        exact fun _ _ _ _ h => Or.inr h.1

/-- A refresh is an exchange, or a revocation that is committed with its error. -/
theorem ensures_refresh (payload : RefreshRequest) :
    (refresh settings payload).Ensures authDiscipline (AuthCommits (.refresh payload)) [] []
      s := by
  unfold refresh
  refine (ensures_rotateRefreshToken payload).bind ?_
  rintro writes locks s₁ outcome h
  split
  · rename_i error herror
    split
    · rename_i hcode
      rcases h with ⟨error', herror', hcode'⟩ | h
      · rw [herror] at herror'
        cases herror'
        exact absurd hcode hcode'
      · exact h
    · exact trivial
  · rename_i pair hpair
    rcases h with ⟨error, herror, -⟩ | h
    · rw [hpair] at herror
      cases herror
    · exact h

/-- A logout is the revocation of one token. -/
theorem ensures_logout (payload : RefreshRequest) :
    (logout payload).Ensures authDiscipline (AuthCommits (.logout payload)) [] [] s := by
  unfold logout
  refine Prog.Ensures.bind (M := fun writes locks s _ => ∃ now ids,
    (AuthEffect.revoke now ids).writes = writes ∧ (AuthEffect.revoke now ids).Fits s locks) ?_ ?_
  · unfold revokeRefreshToken
    refine (ensures_selectTokenForUpdate _).bind ?_
    rintro _ locks s₁ found ⟨rfl, hfound⟩
    cases found with
    | none => exact ⟨0, [], rfl, fun _ h => absurd h List.not_mem_nil⟩
    | some token =>
      obtain ⟨ht, -, rfl⟩ := hfound token rfl
      have hlock : AuthRow.refreshToken token.id ∈ [AuthRow.refreshToken token.id] :=
        List.mem_singleton.mpr rfl
      dsimp only
      split
      · rename_i hnone
        refine ((Prog.reads_read _).ensures (Prog.yields_true _)).bind ?_
        rintro _ _ s₂ chosen ⟨rfl, rfl, hrely₂, -⟩
        refine ensures_flushAuth (fun s₃ hrely₃ _ => ⟨chosen.now, [token.id], rfl, ?_⟩)
        intro id hid
        obtain rfl := List.mem_singleton.mp hid
        exact ⟨List.mem_append_left _ hlock, token, hrely₃.locked (hrely₂.locked ht hlock) hlock,
          rfl, hnone⟩
      · exact ⟨0, [], rfl, fun _ h => absurd h List.not_mem_nil⟩
  · rintro writes locks s₁ _ ⟨now, ids, hwrites, hfits⟩
    exact ⟨.revoke now ids, hwrites, hfits, rfl, rfl⟩

/-- **Every request ensures its postcondition.** -/
theorem AuthRequest.ensures (settings : AuthSettings) (request : AuthRequest) :
    (request.program settings).Ensures authDiscipline (AuthCommits request) [] [] s := by
  cases request with
  | register payload => exact ensures_register payload
  | login payload => exact ensures_login payload
  | refresh payload => exact ensures_refresh payload
  | logout payload => exact ensures_logout payload

end Requests

end CohortSwitch
