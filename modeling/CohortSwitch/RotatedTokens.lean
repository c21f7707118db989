import CohortSwitch.Runs
import CohortSwitch.TokenReuse

/-!
# Which tokens revoke a family

A token that was exchanged for a replacement and is presented again has been
copied, and the user's other tokens are revoked. `rotate_refresh_token` looks at
`revoked_at` for that, which a logout, an expiry and the revocation of a family
set as well: whoever presents a token that ended in one of these ways revokes
the tokens of the user's other devices, although nothing was reused
(`logout_revokes_others`).

`only_rotated_revokes_iff` says so for every run: a refresh leaves the other
tokens alone as the law asks exactly if the token it presents is active, or was
exchanged.

The law and the condition are about the state in which the refresh commits, and the
refresh has read its token before that. What it read is still so (`Presents`): a revoked
token is never made active again, and the row of an active one is locked from the read to
the commit. So a commit is judged on the state it finds, and a run commit by commit.
-/

namespace CohortSwitch

/-! ## The token that is presented -/

/-- The statements touch no token but one. -/
def TouchesOnly (id : UUID) (writes : List AuthWrite) : Prop :=
  ∀ write ∈ writes, ∀ row ∈ write.locks, row = .refreshToken id

/-- **What a refresh finds.** Its token is revoked, and taken for reused; or it is
active, and nothing happens to any other. -/
def Presents (payload : RefreshRequest) (writes : List AuthWrite) (locks : List AuthRow)
    (s : AuthDatabase) (outcome : AuthOutcome) : Prop :=
  ∃ t ∈ s.refreshTokens, t.tokenHash = hashSecret payload.refreshToken
    ∧ (t.revokedAt.isSome = true ∧ outcome.response = .error refreshTokenReused
      ∨ t.revokedAt = none ∧ .refreshToken t.id ∈ locks
        ∧ outcome.response ≠ .error refreshTokenReused ∧ TouchesOnly t.id writes)

section Presented

variable {s s' : AuthDatabase} {locks : List AuthRow} {writes : List AuthWrite}
  {payload : RefreshRequest} {outcome : AuthOutcome}

/-- What a refresh found stays: a revoked token stays revoked, and the row of an active
one is locked. -/
theorem Presents.evolve (h : Presents payload writes locks s outcome)
    (hs : s.Evolves locks s') : Presents payload writes locks s' outcome := by
  obtain ⟨t, ht, hhash, ⟨hrevoked, hreused⟩ | ⟨hnone, hlock, hrest⟩⟩ := h
  · obtain ⟨t', ht', hlater, -⟩ := hs.tokens t ht
    exact ⟨t', ht', hlater.tokenHash.trans hhash, Or.inl ⟨hlater.revoked hrevoked, hreused⟩⟩
  · exact ⟨t, hs.locked ht hlock, hhash, Or.inr ⟨hnone, hlock, hrest⟩⟩

/-- A statement leaves the tokens it does not touch. -/
theorem mem_apply_of_locks {t : RefreshTokenRow} {write : AuthWrite}
    (ht : t ∈ s.refreshTokens) (hlocks : .refreshToken t.id ∉ write.locks) :
    t ∈ (s.apply write).refreshTokens := by
  cases write with
  | insertUser row => exact ht
  | insertToken row => exact List.mem_append_left _ ht
  | revoke id at_ =>
    refine List.mem_map.mpr ⟨t, ht, if_neg (fun hid => hlocks ?_)⟩
    exact List.mem_singleton.mpr (congrArg _ hid)
  | replace id at_ replacedById =>
    refine List.mem_map.mpr ⟨t, ht, if_neg (fun hid => hlocks ?_)⟩
    exact List.mem_singleton.mpr (congrArg _ hid)

/-- Statements that touch one token leave the others. -/
theorem TouchesOnly.mem {id : UUID} (h : TouchesOnly id writes) {t : RefreshTokenRow}
    (ht : t ∈ s.refreshTokens) (hne : t.id ≠ id) :
    t ∈ (writes.foldl AuthDatabase.apply s).refreshTokens := by
  induction writes generalizing s with
  | nil => exact ht
  | cons write rest ih =>
    refine ih (fun other hother => h other (List.mem_cons_of_mem _ hother))
      (mem_apply_of_locks ht (fun hmem => hne ?_))
    exact AuthRow.refreshToken.inj (h write List.mem_cons_self _ hmem)

/-- What is flushed is written. -/
theorem writes_flushAuth {P : AuthWrite → Prop} {pending : List AuthWrite}
    (h : ∀ write ∈ pending, P write) :
    (flushAuth pending).Writes AuthWrite.locks P (fun _ => True) := by
  refine fun v => ⟨h, fun row hrow => ?_, trivial⟩
  obtain ⟨write, hwrite, hlock⟩ := List.mem_flatMap.mp hrow
  exact ⟨write, h write hwrite, hlock⟩

/-- What is done to an active token whose row is locked. -/
theorem presents_of_writes {token : RefreshTokenRow} {m : AuthTx AuthOutcome}
    (ht : token ∈ s.refreshTokens) (hhash : token.tokenHash = hashSecret payload.refreshToken)
    (hnone : token.revokedAt = none)
    (hm : m.Writes AuthWrite.locks (fun write => ∀ row ∈ write.locks, row = .refreshToken token.id)
      (fun outcome => outcome.response ≠ .error refreshTokenReused)) :
    m.Ensures authDiscipline (Presents payload) [] [.refreshToken token.id] s := by
  have hwrites := (hm.ensures (fun write hw => absurd hw List.not_mem_nil) :
    m.Ensures authDiscipline _ [] [.refreshToken token.id] s)
  refine (hwrites.frame_locked [.refreshToken token.id] (K := fun s => token ∈ s.refreshTokens)
    (fun locks s s' hheld hrely ht => ?_) (List.Subset.refl _) ht).mono ?_
  · exact AuthDatabase.Evolves.locked hrely ht (hheld (List.mem_singleton_self _))
  · rintro writes locks s' outcome ⟨⟨htouches, hanswer⟩, hheld, ht⟩
    exact ⟨token, ht, hhash, Or.inr ⟨hnone, hheld (List.mem_singleton_self _), hanswer, htouches⟩⟩

section Refresh

variable [Credentials] {settings : AuthSettings}

/-- An exchange touches the token it exchanges, and is not answered as a reuse. -/
theorem writes_exchangeToken (token : RefreshTokenRow) (now : Instant) :
    (exchangeToken settings token now).Writes AuthWrite.locks
      (fun write => ∀ row ∈ write.locks, row = .refreshToken token.id)
      (fun outcome => outcome.response ≠ .error refreshTokenReused) := by
  unfold exchangeToken
  refine (Prog.reads_read _).writes.bind (fun found _ => ?_)
  cases found with
  | none => exact trivial
  | some user =>
    dsimp only
    split
    · exact trivial
    refine (Prog.reads_read _).writes.bind (fun chosen _ => ?_)
    refine (Prog.reads_attempt _).writes.bind (fun expiresAt _ => ?_)
    refine (writes_flushAuth ?_).bind (fun _ _ => ?_)
    · intro write hwrite row hrow
      rw [List.mem_singleton.mp hwrite] at hrow
      exact absurd hrow List.not_mem_nil
    refine (Prog.reads_read _).writes.bind (fun issued _ => ?_)
    refine (Prog.reads_attempt _).writes.bind (fun accessToken _ => ?_)
    refine (writes_flushAuth ?_).bind (fun _ _ => ?_)
    · intro write hwrite row hrow
      rw [List.mem_singleton.mp hwrite] at hrow
      exact List.mem_singleton.mp hrow
    · exact fun heq => by cases heq

/-- **What a refresh that commits found.** -/
theorem presents_rotateRefreshToken (payload : RefreshRequest) :
    (rotateRefreshToken settings payload.refreshToken).Ensures authDiscipline
      (fun writes locks s outcome => (∃ error, outcome.response = .error error
          ∧ error.code ∉ ["refresh_token_reused", "refresh_token_expired"])
        ∨ Presents payload writes locks s outcome) [] [] s := by
  unfold rotateRefreshToken
  refine (ensures_selectTokenForUpdate _).bind ?_
  rintro _ locks s₁ found ⟨rfl, hfound⟩
  cases found with
  | none => exact Or.inl ⟨_, rfl, by decide⟩
  | some token =>
    obtain ⟨ht, hhash, rfl⟩ := hfound token rfl
    refine ((Prog.reads_read _).ensures (Prog.yields_true _)).bind ?_
    rintro _ _ s₂ chosen ⟨rfl, rfl, hrely₂, -⟩
    have ht₂ := hrely₂.locked ht (List.mem_singleton_self _)
    split
    · rename_i hrevoked
      -- a revoked token stays revoked while the rows of its user are
      refine ((ensures_revokeAll token.userId chosen.now).frame (K := fun s =>
        ∃ t ∈ s.refreshTokens, t.tokenHash = hashSecret payload.refreshToken
          ∧ t.revokedAt.isSome = true) ?_ ⟨token, ht₂, hhash, hrevoked⟩).bind ?_
      · rintro _ _ _ hrely ⟨t, ht, hhash, hrevoked⟩
        obtain ⟨t', ht', hlater, -⟩ := hrely.tokens t ht
        exact ⟨t', ht', hlater.tokenHash.trans hhash, hlater.revoked hrevoked⟩
      · rintro writes locks s₃ found ⟨-, t, ht, hhash, hrevoked⟩
        exact Or.inr ⟨t, ht, hhash, Or.inl ⟨hrevoked, rfl⟩⟩
    · rename_i hactive
      have hnone : token.revokedAt = none := by simpa using hactive
      refine (presents_of_writes ht₂ hhash hnone ?_).mono (fun _ _ _ _ h => Or.inr h)
      split
      · refine (writes_flushAuth ?_).bind (fun _ _ => ?_)
        · intro write hwrite row hrow
          rw [List.mem_singleton.mp hwrite] at hrow
          exact List.mem_singleton.mp hrow
        · exact fun heq => absurd (Except.error.inj heq) (by simp
            [refreshTokenExpired, refreshTokenReused])
      · exact writes_exchangeToken token chosen.now

/-- The endpoint adds no statement of its own. -/
theorem presents_refresh (payload : RefreshRequest) :
    (refresh settings payload).Ensures authDiscipline (Presents payload) [] [] s := by
  unfold refresh
  refine (presents_rotateRefreshToken payload).bind ?_
  rintro writes locks s₁ outcome h
  split
  · rename_i error herror
    split
    · rename_i hcode
      rcases h with ⟨error', herror', hcode'⟩ | h
      · rw [herror] at herror'
        cases herror'
        exact absurd hcode hcode'
      · exact h
    · exact trivial
  · rename_i pair hpair
    rcases h with ⟨error, herror, -⟩ | h
    · rw [hpair] at herror
      cases herror
    · exact h

/-- What the answer to a refresh tells of its token. -/
def RefreshFinds (request : AuthRequest) (writes : List AuthWrite) (locks : List AuthRow)
    (s : AuthDatabase) (outcome : AuthOutcome) : Prop :=
  ∀ payload, request = .refresh payload → Presents payload writes locks s outcome

/-- Every transaction respects what its refresh has found. -/
theorem respects_presents (settings : AuthSettings) :
    (authService settings).Respects authDiscipline TokenInvariant
      (fun request writes locks s outcome => AuthCommits request writes locks s outcome
        ∧ RefreshFinds request writes locks s outcome) (fun _ _ _ => True) := by
  refine (auth_respects settings).also (fun request s _ => ?_)
  cases request with
  | refresh payload =>
    refine (presents_refresh payload).mono (fun writes locks s outcome h payload' heq => ?_)
    cases heq
    exact h
  | register payload => exact Prog.ensures_true.mono (fun _ _ _ _ _ _ heq => by cases heq)
  | login payload => exact Prog.ensures_true.mono (fun _ _ _ _ _ _ heq => by cases heq)
  | logout payload => exact Prog.ensures_true.mono (fun _ _ _ _ _ _ heq => by cases heq)

end Refresh

end Presented

/-! ## Every refresh of a run -/

/-- A token that is presented ended, if it did, by an exchange. -/
def EndedByRotation (s : AuthDatabase) (payload : RefreshRequest) : Prop :=
  ∀ t ∈ s.refreshTokens, t.tokenHash = hashSecret payload.refreshToken →
    t.revokedAt.isSome = true → t.replacedById.isSome = true

/-- **Only a rotated token revokes.** A refresh is answered as a reuse only if its token
was exchanged, and one whose token was not leaves the other active tokens of the user
as they are. -/
def OnlyRotatedRevokes (s s₁ : AuthDatabase) (payload : RefreshRequest)
    (outcome : AuthOutcome) : Prop :=
  ∀ t ∈ s.refreshTokens, t.tokenHash = hashSecret payload.refreshToken →
    (outcome.response = .error refreshTokenReused → t.replacedById.isSome = true)
    ∧ (t.replacedById = none → ∀ other ∈ s.refreshTokens, other.id ≠ t.id →
      other.userId = t.userId → other.revokedAt = none → other ∈ s₁.refreshTokens)

/-- **At each refresh that commits** something holds of the states before and after it. -/
def AtRefresh [Credentials] (settings : AuthSettings)
    (P : AuthDatabase → AuthDatabase → RefreshRequest → AuthOutcome → Prop) (w : AuthWorld)
    (action : Action AuthChoice AuthRequest) : Prop :=
  ∀ id w₁ payload outcome, action = .commit id →
    (authService settings).step w action = some w₁ →
    w₁.log = w.log ++ [(.refresh payload, outcome)] → P w.committed w₁.committed payload outcome

section Refreshes

variable [Credentials] {settings : AuthSettings} {w w₁ : AuthWorld}

/-- **One refresh** that commits revokes as it should, exactly if its token is active or
was exchanged. -/
theorem onlyRotatedRevokes_iff (hgood : w.Good authDiscipline TokenInvariant
      (fun request writes locks s outcome => AuthCommits request writes locks s outcome
        ∧ RefreshFinds request writes locks s outcome)) {id : ℕ}
    (hstep : (authService settings).step w (.commit id) = some w₁) {payload : RefreshRequest}
    {outcome : AuthOutcome} (hlog : w₁.log = w.log ++ [(.refresh payload, outcome)]) :
    OnlyRotatedRevokes w.committed w₁.committed payload outcome
      ↔ EndedByRotation w.committed payload := by
  obtain ⟨tx, result, htx, hprog, hok, rfl⟩ := (authService settings).commit_eq_some hstep
  obtain ⟨s, hrely, -, hfinds⟩ := hgood.of_running htx hprog
  obtain ⟨hrequest, rfl⟩ := Prod.mk.inj (List.singleton_inj.mp (List.append_cancel_left hlog))
  obtain ⟨t, ht, hhash, hcases⟩ := (hfinds payload hrequest).evolve hrely
  -- a hash is of one token
  have hunique : ∀ t' ∈ w.committed.refreshTokens,
      t'.tokenHash = hashSecret payload.refreshToken → t' = t := fun t' ht' hhash' =>
    List.inj_on_of_nodup_map hgood.invariant.consistent.tokenHashes ht' ht
      (hhash'.trans hhash.symm)
  rcases hcases with ⟨hrevoked, hreused⟩ | ⟨hnone, -, hanswer, htouches⟩
  · constructor
    · intro h t' ht' hhash' _
      exact (h t' ht' hhash').1 hreused
    · intro h t' ht' hhash'
      have hreplaced := h t' ht' hhash' (hunique t' ht' hhash' ▸ hrevoked)
      refine ⟨fun _ => hreplaced, fun hnot => ?_⟩
      rw [hnot] at hreplaced
      cases hreplaced
  · refine iff_of_true (fun t' ht' hhash' => ⟨fun h => absurd h hanswer, ?_⟩) ?_
    · intro _ other hother hne _ _
      rw [hunique t' ht' hhash'] at hne
      exact htouches.mem hother hne
    · intro t' ht' hhash' hrevoked
      rw [hunique t' ht' hhash', hnone] at hrevoked
      cases hrevoked

/-- **Only a rotated token revokes a family**, in every run: each refresh revokes as it
should exactly if each presents a token that is active or was exchanged. -/
theorem only_rotated_revokes_iff (settings : AuthSettings)
    (actions : List (Action AuthChoice AuthRequest)) :
    (authService settings).Meets (AtRefresh settings OnlyRotatedRevokes) authInitial actions
      ↔ (authService settings).Meets
        (AtRefresh settings (fun s _ payload _ => EndedByRotation s payload)) authInitial
        actions := by
  have hgood : (authInitial : AuthWorld).Good authDiscipline TokenInvariant
      (fun request writes locks s outcome => AuthCommits request writes locks s outcome
        ∧ RefreshFinds request writes locks s outcome) := World.good_init tokenInvariant_initial
  refine System.meets_congr (fun w w' action hw _ hstep =>
    ((respects_presents settings).step hw (fun _ _ _ _ => trivial) hstep).1)
    (fun w action hw => ?_) hgood
  constructor
  · rintro h id w₁ payload outcome rfl hstep hlog
    exact (onlyRotatedRevokes_iff hw hstep hlog).mp (h id w₁ payload outcome rfl hstep hlog)
  · rintro h id w₁ payload outcome rfl hstep hlog
    exact (onlyRotatedRevokes_iff hw hstep hlog).mpr (h id w₁ payload outcome rfl hstep hlog)

end Refreshes

/-! ## A device that signed out -/

/-- The second sign-in of a user, with the token `2`, and the sign-out of the first. -/
def sampleLogout : List (Action AuthChoice AuthRequest) :=
  .start (.login ⟨"ada@example.com", "a long password"⟩) :: authAdvances 1 2 4 ++ [.commit 1]
    ++ .start (.logout ⟨sampleSecret 1, sampleSecret_one⟩) :: authAdvances 2 3 3 ++ [.commit 2]

/-- The token of the first sign-in is presented again. -/
def presentsSignedOut : List (Action AuthChoice AuthRequest) :=
  sampleRegistration ++ sampleLogout
    ++ .start (sampleRefresh 1 sampleSecret_one) :: authAdvances 3 4 4

/-- **A token that was signed out revokes the user's other device**: it was never
exchanged, is answered as reused, and no active token is left. -/
theorem logout_revokes_others :
    ¬ (@authService .plain sampleAuthSettings).Meets
      (@AtRefresh .plain sampleAuthSettings OnlyRotatedRevokes) authInitial
      (presentsSignedOut ++ [.commit 3])
    ∧ ∃ w w₁, (@authService .plain sampleAuthSettings).run authInitial presentsSignedOut = some w
      ∧ (@authService .plain sampleAuthSettings).step w (.commit 3) = some w₁
      ∧ (∃ t ∈ w.committed.refreshTokens, t.revokedAt.isNone = true)
      ∧ ∀ t ∈ w₁.committed.refreshTokens, t.revokedAt.isSome = true := by
  have hfacts : ((@authService .plain sampleAuthSettings).run authInitial presentsSignedOut).any
      (fun w => ((@authService .plain sampleAuthSettings).step w (.commit 3)).any (fun w₁ =>
        w₁.log.getLast?.any isReuseOfFirst
        && w.committed.refreshTokens.any (fun t =>
          t.tokenHash == hashSecret (sampleSecret 1) && t.replacedById.isNone)
        && w.committed.refreshTokens.any (fun t => t.revokedAt.isNone)
        && w₁.committed.refreshTokens.all (fun t => t.revokedAt.isSome))) = true := by
    decide +kernel
  obtain ⟨w, hrun, hfacts⟩ := (Option.any_eq_true _ _).mp hfacts
  obtain ⟨w₁, hstep, hfacts⟩ := (Option.any_eq_true _ _).mp hfacts
  simp only [Bool.and_eq_true] at hfacts
  obtain ⟨⟨⟨hlast, hpresented⟩, hactive⟩, hall⟩ := hfacts
  refine ⟨fun h => ?_, w, w₁, hrun, hstep, List.any_eq_true.mp hactive, List.all_eq_true.mp hall⟩
  obtain ⟨t, ht, hfacts⟩ := List.any_eq_true.mp hpresented
  obtain ⟨hhash, hreplaced⟩ := Bool.and_eq_true_iff.mp hfacts
  obtain ⟨tx, result, -, -, -, hw₁⟩ := System.commit_eq_some _ hstep
  have hlog : w₁.log = w.log ++ [(tx.request, result)] := by rw [hw₁]
  rw [hlog, List.getLast?_concat] at hlast
  obtain ⟨payload, outcome, hentry, htoken, hreused⟩ := exists_of_isReuseOfFirst hlast
  rw [← htoken] at hhash
  have hrotated := ((h.at hrun) 3 w₁ payload outcome rfl hstep (hentry ▸ hlog) t ht
    (beq_iff_eq.mp hhash)).1 hreused
  rw [Option.isNone_iff_eq_none.mp hreplaced] at hrotated
  cases hrotated

end CohortSwitch
