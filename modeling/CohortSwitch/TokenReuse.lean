import CohortSwitch.Runs
import CohortSwitch.TokenFamilies

/-!
# Presenting a revoked token

A revoked token that is presented revokes the active tokens of its user, in
one `UPDATE` that considers the rows committed when it starts. It takes no lock
on the user. So an exchange, or a sign-in, that commits while the `UPDATE` is on
its way brings in a row that is never looked at: where the `UPDATE` comes to the
token that was exchanged, it waits for its row, finds it revoked, and is done
(`reuse_leaves_descendant`).

`reuse_revokes` follows the request. Its run divides at the start of the
`UPDATE` (`StartsRevoking`), and from there on what the `UPDATE` has found and
not yet revoked is covered (`Covers`). If no transaction that commits in between
issues a token to the user, none is active after the request has committed; and
in any case those that are were issued in between.

## Following one request

The condition is about what others commit between two moments of one transaction, so
the transaction has to be followed through the run. `CohortSwitch.Followed` divides the
run at the statement that starts the `UPDATE`: a refresh that is answered as a reuse has
come by it (`comesBy_refresh`), and no other request is answered so. From that statement
on the assertion is `Revokes`, with the ids that were there when it started; it is kept
by the statements of the request, and the commits of others do not undo it.

What a commit issues is read off its writes (`AuthWrite.issuedTo?`): an exchange or a
sign-in inserts a token of a user, and nothing else does.
-/

namespace CohortSwitch

/-! ## The start of the `UPDATE` -/

/-- What is left of a refresh that has found its token revoked. -/
def revokeAndAnswer (userId : UUID) (now : Instant) : AuthTx AuthOutcome := do
  revokeAll userId now
  pure ⟨.error refreshTokenReused⟩

/-- **A refresh is about to revoke** the tokens of the user whose token it was presented. -/
def StartsRevoking (w : AuthWorld) (id : ℕ) (payload : RefreshRequest) (userId : UUID) : Prop :=
  ∃ tx now, w.running? id = some tx ∧ tx.request = .refresh payload
    ∧ tx.prog = revokeAndAnswer userId now ∧ tx.writes = []
    ∧ ∃ t ∈ w.committed.refreshTokens, t.tokenHash = hashSecret payload.refreshToken
      ∧ t.userId = userId

/-- The user a write issues a token to. -/
def AuthWrite.issuedTo? : AuthWrite → Option UUID
  | .insertToken row => some row.userId
  | _ => none

/-- **A commit issues no token to a user**: it is no exchange and no sign-in of the user. -/
def IssuesNone (userId : UUID) (_ : AuthRequest) (writes : List AuthWrite) (_ : AuthDatabase) :
    Prop :=
  ∀ w ∈ writes, w.issuedTo? ≠ some userId

instance (userId : UUID) (request : AuthRequest) (writes : List AuthWrite) (s : AuthDatabase) :
    Decidable (IssuesNone userId request writes s) :=
  inferInstanceAs (Decidable (∀ w ∈ writes, _))

section Issued

variable {userId : UUID} {ids : List UUID} {s : AuthDatabase}

/-- A write that issues none adds none. -/
theorem ids_apply {w : AuthWrite} (hnone : w.issuedTo? ≠ some userId)
    (h : ∀ t ∈ s.refreshTokens, t.userId = userId → t.id ∈ ids) :
    ∀ t ∈ (s.apply w).refreshTokens, t.userId = userId → t.id ∈ ids := by
  have hupdate : ∀ (id : UUID) (f : RefreshTokenRow → RefreshTokenRow),
      (∀ row, (f row).id = row.id ∧ (f row).userId = row.userId) →
      ∀ t ∈ updateToken id f s.refreshTokens, t.userId = userId → t.id ∈ ids := by
    intro id f hkept t ht huser
    obtain ⟨old, hold, ⟨-, rfl⟩ | ⟨-, rfl⟩⟩ := mem_updateToken ht
    · rw [(hkept old).2] at huser
      rw [(hkept old).1]
      exact h old hold huser
    · exact h t hold huser
  cases w with
  | insertUser row => exact h
  | insertToken row =>
    intro t ht huser
    rcases List.mem_append.mp ht with ht | ht
    · exact h t ht huser
    · rw [List.mem_singleton.mp ht] at huser
      exact absurd (congrArg some huser) hnone
  | revoke id at_ => exact hupdate id _ (fun _ => ⟨rfl, rfl⟩)
  | replace id at_ replacedById => exact hupdate id _ (fun _ => ⟨rfl, rfl⟩)

theorem ids_writes {writes : List AuthWrite} (hnone : ∀ w ∈ writes, w.issuedTo? ≠ some userId)
    (h : ∀ t ∈ s.refreshTokens, t.userId = userId → t.id ∈ ids) :
    ∀ t ∈ (writes.foldl AuthDatabase.apply s).refreshTokens, t.userId = userId → t.id ∈ ids := by
  induction writes generalizing s with
  | nil => exact h
  | cons w writes ih =>
    obtain ⟨hfirst, hrest⟩ := List.forall_mem_cons.mp hnone
    exact ih hrest (ids_apply hfirst h)

end Issued

/-! ## What is left active -/

section Reuse

variable [Credentials] {settings : AuthSettings} {s : AuthDatabase} {writes : List AuthWrite}
  {locks : List AuthRow}

/-- **The tokens of a user after a run** whose commits issue the user none are those before. -/
theorem ids_of_run {userId : UUID} {ids : List UUID}
    {actions : List (Action AuthChoice AuthRequest)} {w w' : AuthWorld}
    (h : ∀ t ∈ w.committed.refreshTokens, t.userId = userId → t.id ∈ ids)
    (hmeets : (authService settings).CommitsMeet (IssuesNone userId) w actions)
    (hrun : (authService settings).run w actions = some w') :
    ∀ t ∈ w'.committed.refreshTokens, t.userId = userId → t.id ∈ ids := by
  induction actions generalizing w with
  | nil =>
    cases hrun
    exact h
  | cons action rest ih =>
    obtain ⟨w₁, hstep, hrest⟩ := Option.bind_eq_some_iff.mp hrun
    refine ih ?_ (hmeets.2 w₁ hstep) hrest
    cases action with
    | start request =>
      cases hstep
      exact h
    | abort id =>
      cases hstep
      exact h
    | advance id choice =>
      obtain ⟨tx, locks, writes, next, view, -, -, -, -, rfl⟩ :=
        (authService settings).advance_eq_some hstep
      exact h
    | commit id =>
      obtain ⟨tx, result, htx, -, -, rfl⟩ := (authService settings).commit_eq_some hstep
      exact ids_writes (hmeets.1 id tx rfl htx) h

/-- The point of a refresh that is answered `refresh_token_reused`. -/
def RevokingPoint (request : AuthRequest) (prog : AuthTx AuthOutcome) (writes : List AuthWrite)
    (_ : List AuthRow) (s : AuthDatabase) : Prop :=
  ∃ payload userId now, request = .refresh payload ∧ prog = revokeAndAnswer userId now
    ∧ writes = [] ∧ ∃ t ∈ s.refreshTokens, t.tokenHash = hashSecret payload.refreshToken
      ∧ t.userId = userId

/-- An exchange is not answered as a reuse. -/
theorem yields_exchangeToken (token : RefreshTokenRow) (now : Instant) :
    (exchangeToken settings token now).Yields
      (fun outcome => outcome.response ≠ .error refreshTokenReused) := by
  refine (Prog.yields_true _).bind (fun found _ => ?_)
  cases found with
  | none => exact trivial
  | some user =>
    dsimp only
    split
    · exact trivial
    refine (Prog.yields_true _).bind (fun _ _ => (Prog.yields_true _).bind (fun _ _ =>
      (Prog.yields_true _).bind (fun _ _ => (Prog.yields_true _).bind (fun _ _ =>
        (Prog.yields_true _).bind (fun _ _ => (Prog.yields_true _).bind (fun _ _ => ?_))))))
    exact fun h => nomatch h

omit [Credentials] in
/-- The two errors that are committed are different. -/
theorem expired_ne_reused : (.error refreshTokenExpired : Except PyError (Option TokenPair))
    ≠ .error refreshTokenReused := by
  simp [refreshTokenExpired, refreshTokenReused]

/-- **A refresh comes by the start of the `UPDATE`** before it is answered as a reuse. -/
theorem comesBy_refresh (payload : RefreshRequest) :
    (refresh settings payload).ComesBy authDiscipline (RevokingPoint (.refresh payload))
      (fun outcome => outcome.response = .error refreshTokenReused) [] [] s := by
  unfold refresh rotateRefreshToken
  rw [Prog.bind_assoc]
  refine (ensures_selectTokenForUpdate _).comesBy ?_
  rintro _ locks s₁ found ⟨rfl, hfound⟩
  cases found with
  | none => exact trivial
  | some token =>
    obtain ⟨ht, hhash, rfl⟩ := hfound token rfl
    dsimp only
    rw [Prog.bind_assoc]
    refine ((Prog.reads_read _).ensures (Prog.yields_true _)).comesBy ?_
    rintro _ _ s₂ chosen ⟨rfl, rfl, hrely₂, -⟩
    have ht₂ := hrely₂.locked ht (List.mem_singleton.mpr rfl)
    split
    · rw [Prog.bind_assoc]
      exact .inl ⟨payload, token.userId, chosen.now, rfl, rfl, rfl, token, ht₂, hhash, rfl⟩
    -- what is answered otherwise is another error, or tokens
    refine Prog.Yields.comesBy (Prog.Yields.bind (P := fun outcome =>
      outcome.response ≠ .error refreshTokenReused) ?_ (fun outcome houtcome => ?_))
    · split
      · exact (Prog.yields_true _).bind (fun _ _ => expired_ne_reused)
      · exact yields_exchangeToken token chosen.now
    · split
      · split
        · exact houtcome
        · exact trivial
      · exact houtcome

/-- No other request is answered as a reuse. -/
theorem AuthRequest.comesBy (settings : AuthSettings) (request : AuthRequest) :
    (request.program settings).ComesBy authDiscipline (RevokingPoint request)
      (fun outcome => outcome.response = .error refreshTokenReused) [] [] s := by
  have hother : ∀ response : Option TokenPair,
      (⟨.ok response⟩ : AuthOutcome).response ≠ .error refreshTokenReused := fun _ h => nomatch h
  cases request with
  | refresh payload => exact comesBy_refresh payload
  | register payload =>
    refine Prog.Yields.comesBy ?_
    exact (Prog.yields_true _).bind (fun user _ => (Prog.yields_true _).bind (fun _ _ =>
      (Prog.yields_true _).bind (fun _ _ => hother _)))
  | login payload =>
    refine Prog.Yields.comesBy ?_
    exact (Prog.yields_true _).bind (fun user _ => (Prog.yields_true _).bind (fun _ _ =>
      (Prog.yields_true _).bind (fun _ _ => hother _)))
  | logout payload =>
    refine Prog.Yields.comesBy ?_
    exact (Prog.yields_true _).bind (fun _ _ => hother _)

/-- What the `UPDATE` has to give, with the rows that were there when it started. -/
def Revokes (userId : UUID) (earlier : List UUID) (writes : List AuthWrite) (_ : List AuthRow)
    (s : AuthDatabase) (_ : AuthOutcome) : Prop :=
  ∃ now ids, (AuthEffect.revoke now ids).writes = writes ∧ Covers s userId earlier ids

omit [Credentials] in
/-- The program after the first statement of the `UPDATE`. -/
theorem revokeAndAnswer_eq (userId : UUID) (now : Instant) : revokeAndAnswer userId now
    = .statement (fun _ => []) (fun _ => []) (fun v => revokeEach userId now
        ((arrange v.choice.order (v.state.refreshTokens.filter (fun row =>
          row.userId = userId ∧ row.revokedAt = none))).map RefreshTokenRow.id)
      >>= fun _ => pure ⟨.error refreshTokenReused⟩) :=
  rfl

/-- **When the `UPDATE` has started** it is to cover the rows that were committed then. -/
theorem holds_of_starts {w₀ w₁ : AuthWorld} {id : ℕ} {payload : RefreshRequest} {userId : UUID}
    {choice : AuthChoice} (hstarts : StartsRevoking w₀ id payload userId)
    (hstep : (authService settings).step w₀ (.advance id choice) = some w₁) :
    w₁.Holds authDiscipline (fun _ prog writes locks s => prog.Ensures authDiscipline
      (Revokes userId (w₀.committed.refreshTokens.map RefreshTokenRow.id)) writes locks s) id := by
  obtain ⟨tx, now, htx, -, hprog, hwrites, -⟩ := hstarts
  obtain ⟨tx', locks, writes, next, view, htx', hprog', rfl, -, rfl⟩ :=
    (authService settings).advance_eq_some hstep
  cases Option.some.inj (htx.symm.trans htx')
  rw [hprog, revokeAndAnswer_eq] at hprog'
  obtain ⟨rfl, rfl, rfl⟩ := Prog.statement.inj hprog'
  intro other hother hid
  rcases World.mem_update hother with rfl | ⟨-, hne⟩
  · refine ⟨w₀.committed, authDiscipline.rely_refl _ _, ?_⟩
    show (revokeEach userId now _ >>= _).Ensures _ _ (tx.writes ++ []) (tx.locks ++ []) _
    rw [hwrites, List.append_nil, List.append_nil]
    refine (ensures_revokeEach (revoking_start (arrange_perm _ _) now _)).bind ?_
    rintro writes locks s _ ⟨ids, hrevoking⟩
    have hcovers := hrevoking.covers
    rw [List.append_nil] at hcovers
    exact ⟨now, ids, hrevoking.writes_eq, hcovers⟩
  · exact absurd (hid.trans (World.mem_of_running? htx).2.symm) hne

omit [Credentials] in
/-- **What is left active** by a revocation that covers the rows of an earlier moment: the rows
that came later. -/
theorem active_revoke_iff {now : Instant} {userId : UUID} {earlier ids : List UUID}
    (h : Covers s userId earlier ids) (t : RefreshTokenRow) :
    (t ∈ (s.revoke now ids).refreshTokens ∧ t.isActiveOf userId = true)
      ↔ t ∈ s.refreshTokens ∧ t.isActiveOf userId = true ∧ t.id ∉ earlier := by
  unfold RefreshTokenRow.isActiveOf
  constructor
  · rintro ⟨ht, hactive⟩
    obtain ⟨huser, hnone⟩ := of_decide_eq_true hactive
    obtain ⟨old, hold, rfl⟩ := List.mem_map.mp ht
    by_cases hin : old.id ∈ ids
    · rw [if_pos hin] at hnone
      cases hnone
    · rw [if_neg hin] at huser hnone hactive ⊢
      refine ⟨hold, hactive, fun hearlier => ?_⟩
      rcases h.revoked old hold huser hearlier with hrevoked | hmem
      · rw [hnone] at hrevoked
        cases hrevoked
      · exact hin hmem
  · -- a row the `UPDATE` did not find is the same after it
    rintro ⟨ht, hactive, hlate⟩
    have hin : t.id ∉ ids := fun hmem => hlate (h.within hmem)
    exact ⟨List.mem_map.mpr ⟨t, ht, if_neg hin⟩, hactive⟩

/-- **What a reused token leaves behind.** The run divides at the start of the revoking
`UPDATE`. If no transaction issues a token to the user between that and the commit of the
request, every token of the user is revoked then. In any case the tokens of the user that are
active after the commit are those active before it that were not there when the `UPDATE`
started. -/
theorem reuse_revokes (settings : AuthSettings)
    {actions : List (Action AuthChoice AuthRequest)} {w w' : AuthWorld}
    (hrun : (authService settings).run authInitial actions = some w) {id : ℕ}
    (hstep : (authService settings).step w (.commit id) = some w') {payload : RefreshRequest}
    {outcome : AuthOutcome} (hlog : w'.log = w.log ++ [(.refresh payload, outcome)])
    (hreused : outcome.response = .error refreshTokenReused) :
    ∃ userId before choice during w₀ w₁, actions = before ++ .advance id choice :: during
      ∧ (authService settings).run authInitial before = some w₀
      ∧ StartsRevoking w₀ id payload userId
      ∧ (authService settings).step w₀ (.advance id choice) = some w₁
      ∧ (authService settings).run w₁ during = some w
      ∧ ((authService settings).CommitsMeet (IssuesNone userId) w₁ during →
        ∀ t ∈ w'.committed.refreshTokens, t.userId = userId → t.revokedAt.isSome = true)
      ∧ ∀ t, (t ∈ w'.committed.refreshTokens ∧ t.isActiveOf userId = true)
        ↔ t ∈ w.committed.refreshTokens ∧ t.isActiveOf userId = true
          ∧ t.id ∉ w₀.committed.refreshTokens.map RefreshTokenRow.id := by
  have hmeets : ∀ v actions, (authService settings).CommitsMeet (fun _ _ _ => True) v actions :=
    (authService settings).commitsMeet_of_forall (fun _ _ _ => trivial)
  have hnone : ∀ tx ∈ authInitial.live, tx.id < authInitial.next :=
    fun _ h => absurd h List.not_mem_nil
  obtain ⟨tx, result, htx, hprog, -, rfl⟩ := (authService settings).commit_eq_some hstep
  obtain ⟨hrequest, rfl⟩ := Prod.mk.inj (List.singleton_inj.mp (List.append_cancel_left hlog))
  obtain ⟨hmem, rfl⟩ := World.mem_of_running? htx
  -- the run divides at the start of the `UPDATE`
  obtain ⟨before, choice, during, w₀, w₁, rfl, hbefore, ⟨hstarted, tx₀, s, htx₀, hsame, hrely,
    payload', userId, now, hpayload, hprog₀, hwrites₀, t, ht, hhash, huser⟩, hduring⟩ :=
    (auth_respects settings).exists_point (fun request s _ => request.comesBy settings)
      (World.good_init tokenInvariant_initial) hnone (fun _ h => absurd h List.not_mem_nil)
      (hmeets _ _) hrun hmem hprog hreused
  rw [hsame, hrequest] at hpayload
  cases hpayload
  have hgood₀ := auth_good_of_run hbefore
  have hstarts : StartsRevoking w₀ tx.id payload userId := by
    obtain ⟨t', ht', hlater, -⟩ := hrely.tokens t ht
    exact ⟨tx₀, now, htx₀, hsame.trans hrequest, hprog₀, hwrites₀, t', ht',
      hlater.tokenHash.trans hhash, hlater.userId.trans huser⟩
  -- from there on the `UPDATE` covers the rows that were there
  have hids₀ := System.ids_of_run hnone hbefore
  have hnext : tx.id < w₁.next := by
    have hid := hids₀ tx₀ (World.mem_of_running? htx₀).1
    rw [(World.mem_of_running? htx₀).2] at hid
    exact hid.trans_le (System.next_of_step hstarted)
  obtain ⟨s', hrely', hensures⟩ := (auth_respects settings).holds_of_run
    (authDiscipline.keeps_ensures _)
    ((auth_respects settings).step hgood₀ (fun _ _ _ _ => trivial) hstarted).1 hnext
    (holds_of_starts hstarts hstarted) (hmeets _ _) hduring tx hmem rfl
  rw [hprog] at hensures
  obtain ⟨now', ids, hwrites, hcovers⟩ := hensures
  have hgood := auth_good_of_run hrun
  have hview : (authService settings).view (AuthEffect.revoke now' ids).writes w.committed
      = w.committed.revoke now' ids := view_revoke now' ids
  have hactive : ∀ t, (t ∈ (w.committed.revoke now' ids).refreshTokens
      ∧ t.isActiveOf userId = true) ↔ t ∈ w.committed.refreshTokens
        ∧ t.isActiveOf userId = true ∧ t.id ∉ w₀.committed.refreshTokens.map RefreshTokenRow.id :=
    fun t => active_revoke_iff (hcovers.evolve hgood.invariant.consistent hrely') t
  rw [← hview, hwrites] at hactive
  refine ⟨userId, before, choice, during, w₀, w₁, rfl, hbefore, hstarts, hstarted, hduring,
    fun hissues t ht huser => ?_, hactive⟩
  by_contra hnot
  have hopen : t.revokedAt = none := by simpa using hnot
  obtain ⟨hold, -, hlate⟩ := (hactive t).mp ⟨ht, decide_eq_true ⟨huser, hopen⟩⟩
  refine hlate (ids_of_run (fun t ht _ => ?_) hissues hduring t hold huser)
  obtain ⟨_, _, _, _, _, -, -, -, -, rfl⟩ := (authService settings).advance_eq_some hstarted
  exact List.mem_map_of_mem ht

end Reuse

/-! ## A session that is revoked -/

/-- The entry of a refresh of the token `1` that was answered
`refresh_token_reused`. -/
def isReuseOfFirst : AuthEntry → Bool
  | (.refresh payload, ⟨.error (.apiError status code message details)⟩) =>
    payload.refreshToken == sampleSecret 1 && status == 401 && code == "refresh_token_reused"
      && message == "Refresh token reuse was detected." && details.isEmpty
  | _ => false

/-- Such an entry is one of a refresh of the first token. -/
theorem exists_of_isReuseOfFirst {entry : AuthEntry} (h : isReuseOfFirst entry = true) :
    ∃ payload outcome, entry = (.refresh payload, outcome)
      ∧ payload.refreshToken = sampleSecret 1 ∧ outcome.response = .error refreshTokenReused := by
  unfold isReuseOfFirst at h
  split at h
  · simp only [Bool.and_eq_true, beq_iff_eq, List.isEmpty_iff] at h
    obtain ⟨⟨⟨⟨htoken, rfl⟩, rfl⟩, rfl⟩, rfl⟩ := h
    exact ⟨_, _, rfl, htoken, rfl⟩
  · cases h

/-- The token `1` exchanged for `2`, a second sign-in with the token `3`, the sign-out of `2`
on its way, and the token `1` presented again. -/
def beforeReuse : List (Action AuthChoice AuthRequest) :=
  sampleRegistration ++ sampleExchange
  ++ .start (.login ⟨"ada@example.com", "a long password"⟩) :: authAdvances 2 3 4 ++ [.commit 2]
  ++ .start (.logout ⟨sampleSecret 2, by decide⟩) :: authAdvances 3 4 3
  ++ [.start (sampleRefresh 1 sampleSecret_one)]

/-- The revoking `UPDATE` starts, waits for the sign-out, and comes to the tokens `2` and `3`. -/
def duringReuse : List (Action AuthChoice AuthRequest) :=
  authAdvances 4 5 3 ++ .commit 3 :: authAdvances 4 5 2

/-- A run that splits somewhere after a list without an action splits in what comes after it. -/
theorem exists_append_of_not_mem {α : Type*} {xs ys before after : List α} {a : α}
    (h : xs ++ ys = before ++ a :: after) (ha : a ∉ xs) :
    ∃ between, before = xs ++ between ∧ ys = between ++ a :: after := by
  rcases List.append_eq_append_iff.mp h with ⟨between, rfl, hys⟩ | ⟨between, rfl, hafter⟩
  · exact ⟨between, rfl, hys⟩
  · cases between with
    | nil => exact ⟨[], by simp, by simpa using hafter.symm⟩
    | cons b between =>
      rw [List.cons_append] at hafter
      cases (List.cons.inj hafter).1
      exact absurd (List.mem_append_right _ List.mem_cons_self) ha

/-- The transaction that makes a statement. -/
def advanced? : Action AuthChoice AuthRequest → Option ℕ
  | .advance id _ => some id
  | _ => none

/-- The refresh that is presented last makes no statement in the first part. -/
theorem advance_not_mem_beforeReuse (choice : AuthChoice) :
    .advance 4 choice ∉ beforeReuse := by
  have hnone : 4 ∉ beforeReuse.filterMap advanced? := by decide
  exact fun h => hnone (List.mem_filterMap.mpr ⟨_, h, rfl⟩)

theorem reuse_revokes_sample : ∃ w w' payload outcome,
    (@authService .plain sampleAuthSettings).run authInitial (beforeReuse ++ duringReuse) = some w
    ∧ (@authService .plain sampleAuthSettings).step w (.commit 4) = some w'
    ∧ w'.log = w.log ++ [(.refresh payload, outcome)]
    ∧ outcome.response = .error refreshTokenReused
    ∧ (∃ t ∈ w.committed.refreshTokens, t.revokedAt = none)
    ∧ ∃ userId before choice during w₀ w₁,
      beforeReuse ++ duringReuse = before ++ .advance 4 choice :: during
      ∧ (@authService .plain sampleAuthSettings).run authInitial before = some w₀
      ∧ StartsRevoking w₀ 4 payload userId
      ∧ (@authService .plain sampleAuthSettings).step w₀ (.advance 4 choice) = some w₁
      ∧ (@authService .plain sampleAuthSettings).CommitsMeet (IssuesNone userId) w₁ during
      ∧ ∀ t ∈ w'.committed.refreshTokens, t.userId = userId → t.revokedAt.isSome = true := by
  have hfacts : ((@authService .plain sampleAuthSettings).run authInitial beforeReuse).any
      (fun u => (@authService .plain sampleAuthSettings).checkCommits
          (fun _ writes _ => decide (∀ w ∈ writes, w.issuedTo? = none)) u duringReuse
        && ((@authService .plain sampleAuthSettings).run u duringReuse).any (fun w =>
          w.committed.refreshTokens.any (fun t => decide (t.revokedAt = none))
          && ((@authService .plain sampleAuthSettings).step w (.commit 4)).any (fun w' =>
            w'.log.getLast?.any isReuseOfFirst))) = true := by
    decide +kernel
  obtain ⟨u, hbefore, hfacts⟩ := (Option.any_eq_true _ _).mp hfacts
  obtain ⟨hcheck, hfacts⟩ := Bool.and_eq_true_iff.mp hfacts
  obtain ⟨w, hduring, hfacts⟩ := (Option.any_eq_true _ _).mp hfacts
  obtain ⟨hactive, hfacts⟩ := Bool.and_eq_true_iff.mp hfacts
  obtain ⟨w', hstep, hlast⟩ := (Option.any_eq_true _ _).mp hfacts
  obtain ⟨t, ht, hopen⟩ := List.any_eq_true.mp hactive
  obtain ⟨tx, result, -, -, -, hw'⟩ := System.commit_eq_some _ hstep
  have hlog : w'.log = w.log ++ [(tx.request, result)] := by rw [hw']
  rw [hlog, List.getLast?_concat] at hlast
  obtain ⟨payload, outcome, hentry, -, hreused⟩ := exists_of_isReuseOfFirst hlast
  rw [hentry] at hlog
  have hrun : (@authService .plain sampleAuthSettings).run authInitial
      (beforeReuse ++ duringReuse) = some w := by
    rw [System.run_append, hbefore]
    exact hduring
  obtain ⟨userId, before, choice, during, w₀, w₁, hsplit, hw₀, hstarts, hw₁, hrest, hrevoked, -⟩ :=
    @reuse_revokes .plain _ _ _ _ hrun _ hstep _ _ hlog hreused
  refine ⟨w, w', payload, outcome, hrun, hstep, hlog, hreused, ⟨t, ht, of_decide_eq_true hopen⟩,
    userId, before, choice, during, w₀, w₁, hsplit, hw₀, hstarts, hw₁, ?_⟩
  -- the `UPDATE` starts in the second part, where only the sign-out commits
  obtain ⟨between, rfl, hbetween⟩ :=
    exists_append_of_not_mem hsplit (advance_not_mem_beforeReuse choice)
  have hmeets := System.commitsMeet_of_check (@authService .plain sampleAuthSettings) hcheck
  rw [hbetween] at hmeets
  rw [System.run_append, hbefore] at hw₀
  have hlater := (System.CommitsMeet.later hmeets hw₀).2 w₁ hw₁
  have hissues : (@authService .plain sampleAuthSettings).CommitsMeet (IssuesNone userId) w₁
      during := by
    refine System.CommitsMeet.mono (fun _ writes _ hnone write hwrite => ?_) hlater
    rw [hnone write hwrite]
    exact Option.some_ne_none userId |>.symm
  exact ⟨hissues, hrevoked hissues⟩

/-! ## A descendant that stays active -/

/-- The token `2` is being exchanged for `3` when the token `1` is presented
again: the `UPDATE` has started when the exchange commits. -/
def racingRefreshes : List (Action AuthChoice AuthRequest) :=
  sampleRegistration ++ sampleExchange
  ++ .start (sampleRefresh 2 (by decide)) :: authAdvances 2 3 7
  ++ .start (sampleRefresh 1 sampleSecret_one) :: authAdvances 3 4 3
  ++ .commit 2 :: authAdvances 3 4 1

/-- The run up to the commit of the refresh that finds its token reused. -/
theorem exists_racingRefreshes : ∃ w w₁ payload outcome,
    (@authService .plain sampleAuthSettings).run authInitial racingRefreshes = some w
    ∧ (@authService .plain sampleAuthSettings).step w (.commit 3) = some w₁
    ∧ w₁.log = w.log ++ [(.refresh payload, outcome)]
    ∧ outcome.response = .error refreshTokenReused
    ∧ ∃ presented ∈ w₁.committed.refreshTokens,
      presented.tokenHash = hashSecret payload.refreshToken
      ∧ ∃ t ∈ w₁.committed.refreshTokens, t.userId = presented.userId ∧ t.revokedAt = none
        ∧ t.id ∈ w.committed.refreshTokens.map RefreshTokenRow.id := by
  have hfacts : ((@authService .plain sampleAuthSettings).run authInitial racingRefreshes).any
      (fun w => ((@authService .plain sampleAuthSettings).step w (.commit 3)).any (fun w₁ =>
        w₁.log.getLast?.any isReuseOfFirst
        && w₁.committed.refreshTokens.any (fun presented =>
          presented.tokenHash == hashSecret (sampleSecret 1)
          && w₁.committed.refreshTokens.any (fun t => decide (t.userId = presented.userId
            ∧ t.revokedAt = none
            ∧ t.id ∈ w.committed.refreshTokens.map RefreshTokenRow.id))))) = true := by
    decide +kernel
  obtain ⟨w, hrun, hfacts⟩ := (Option.any_eq_true _ _).mp hfacts
  obtain ⟨w₁, hstep, hfacts⟩ := (Option.any_eq_true _ _).mp hfacts
  obtain ⟨hlast, hrows⟩ := Bool.and_eq_true_iff.mp hfacts
  obtain ⟨tx, result, -, -, -, hw₁⟩ := System.commit_eq_some _ hstep
  have hlog : w₁.log = w.log ++ [(tx.request, result)] := by rw [hw₁]
  rw [hlog, List.getLast?_concat] at hlast
  obtain ⟨payload, outcome, hentry, htoken, hreused⟩ := exists_of_isReuseOfFirst hlast
  obtain ⟨presented, hpresented, hrest⟩ := List.any_eq_true.mp hrows
  obtain ⟨hhash, hactive⟩ := Bool.and_eq_true_iff.mp hrest
  obtain ⟨t, ht, hfacts⟩ := List.any_eq_true.mp hactive
  obtain ⟨huser, hnone, hold⟩ := of_decide_eq_true hfacts
  refine ⟨w, w₁, payload, outcome, hrun, hstep, hentry ▸ hlog, hreused, presented, hpresented, ?_,
    t, ht, huser, hnone, hold⟩
  rw [htoken]
  exact beq_iff_eq.mp hhash

/-- **A stolen session that survives**: the request was answered
`refresh_token_reused` and has committed, and the replacement that was inserted
meanwhile is still active. -/
theorem reuse_leaves_descendant : ∃ w w₁ payload outcome,
    (@authService .plain sampleAuthSettings).run authInitial racingRefreshes = some w
    ∧ (@authService .plain sampleAuthSettings).step w (.commit 3) = some w₁
    ∧ w₁.log = w.log ++ [(.refresh payload, outcome)]
    ∧ outcome.response = .error refreshTokenReused
    ∧ ∃ presented ∈ w₁.committed.refreshTokens,
      presented.tokenHash = hashSecret payload.refreshToken
      ∧ ∃ t ∈ w₁.committed.refreshTokens, t.userId = presented.userId ∧ t.revokedAt = none
        ∧ t.id ∈ w.committed.refreshTokens.map RefreshTokenRow.id :=
  exists_racingRefreshes

end CohortSwitch
