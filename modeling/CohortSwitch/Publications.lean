import CohortSwitch.Staleness

/-!
# What writers have published

A writer that publishes a note has deleted the entry of its label before. This needs no
assumption on what works: a writer that fails to delete goes on without publishing the
note, and one that crashes publishes nothing more. So whoever has heard of a note and
starts to load after that is served from what was committed since the commit the note is
about, as long as no entry is set after the deletion for a commit its reading came before
(`CacheAside.fresh_after_publication`).

A writer goes through its notes in order, and for each of them deletes and then publishes.
`Commit.Notes` says where it is: which notes are to do, and whether the entry of the first
is deleted. So a note is only published in the state in which its entry was
(`PublishStep`), and that it was stays true when more is done
(`Commit.HasPublished`).

The list of what was published belongs to the world and to no writer, since others read it.
`CacheWorld.Publishes` gives every note in it a commit that published it, and that commit an
entry in the log of the server.
-/

namespace CohortSwitch

namespace CacheAside

variable {σ W R χ ε q ρ Q L K V N : Type}

/-! ## Notes -/

/-- The notes of a commit that are not done with are its own, and `deleted` says that the
entry of the first one is deleted. -/
structure Commit.Notes (cache : CacheAside σ W R χ ε ρ Q L K V N) (c : Commit σ ρ L N) :
    Prop where
  /-- What is to do are notes of its own. -/
  todo : ∀ note ∈ c.todo, note ∈ cache.notes c.result
  /-- The entry of the first one is deleted, if it says so. -/
  deleted : c.deleted = true → ∀ note ∈ c.todo.head?, cache.label note ∈ c.dropped

/-- **A commit that has published a note**: the note is its own, it is done with it, and it
has deleted the entry. -/
structure Commit.HasPublished (cache : CacheAside σ W R χ ε ρ Q L K V N) (note : N)
    (c : Commit σ ρ L N) : Prop where
  /-- The note is one of its result. -/
  own : note ∈ cache.notes c.result
  /-- It is done with it. -/
  returned : note ∈ c.returned
  /-- And it has deleted the entry. -/
  dropped : cache.label note ∈ c.dropped

/-- **Whatever is published** some commit has published, and every commit is in the log. -/
structure CacheWorld.Publishes (cache : CacheAside σ W R χ ε ρ Q L K V N)
    (w : CacheWorld σ W R χ ε q ρ Q L K V N) : Prop where
  /-- Every commit goes through notes of its own. -/
  notes : ∀ c ∈ w.commits, c.Notes cache
  /-- Every commit is in the log. -/
  logged : ∀ c ∈ w.commits, ∃ request, (request, c.result) ∈ w.server.log
  /-- Every note that was published some commit has published. -/
  published : ∀ note ∈ w.published, ∃ c ∈ w.commits, c.HasPublished cache note

section Steps

variable [DecidableEq R] [DecidableEq K] {sys : System σ W R χ ε q ρ} {d : Discipline σ W R}
  {invariant : σ → List (q × ρ) → Prop} {post : q → List W → List R → σ → ρ → Prop}
  {Tells : σ → N → Prop} {cache : CacheAside σ W R χ ε ρ Q L K V N}
  {w w' : CacheWorld σ W R χ ε q ρ Q L K V N} {action : CacheAction χ q Q K}

/-- **How a writer goes on with its notes**: what it has published it has still published,
and it publishes at most one note more. -/
structure PublishStep (cache : CacheAside σ W R χ ε ρ Q L K V N)
    (published published' : List N) (c c' : Commit σ ρ L N) : Prop where
  /-- It is the same commit. -/
  result : c'.result = c.result
  /-- It still goes through its own notes. -/
  notes : c'.Notes cache
  /-- What it has published it has published. -/
  kept : ∀ note, c.HasPublished cache note → c'.HasPublished cache note
  /-- At most one note is published. -/
  more : published' = published
    ∨ ∃ note, c'.HasPublished cache note ∧ published' = published ++ [note]

omit [DecidableEq R] in
/-- Each step of a writer is such a step. -/
theorem publishStep_of_noteStep {i : ℕ} {c : Commit σ ρ L N} (hc : c.Notes cache)
    (h : cache.noteStep w i c action = some w') : ∃ c', w'.server = w.server
      ∧ w'.commits = w.commits.set i c' ∧ PublishStep cache w.published w'.published c c' := by
  obtain ⟨time, state, result, todo, deleted, dropped, returned⟩ := c
  cases action with
  | delete j =>
    cases todo with
    | nil => cases h
    | cons note rest =>
      cases deleted with
      | true => cases h
      | false =>
        cases h
        refine ⟨_, rfl, rfl, rfl, ⟨hc.todo, fun _ n hn => ?_⟩, fun n hn => ?_, Or.inl rfl⟩
        · cases hn
          exact List.mem_append_right _ (List.mem_singleton.mpr rfl)
        · exact ⟨hn.own, hn.returned, List.mem_append_left _ hn.dropped⟩
  | publish j =>
    cases todo with
    | nil => cases h
    | cons note rest =>
      cases deleted with
      | false => cases h
      | true =>
        cases h
        -- it publishes only what it has deleted the entry of
        have hnote := hc.todo note List.mem_cons_self
        refine ⟨_, rfl, rfl, rfl, ⟨fun n hn => hc.todo n (List.mem_cons_of_mem _ hn), fun hd => ?_⟩,
          fun n hn => ?_, Or.inr ⟨note, ?_, rfl⟩⟩
        · cases hd
        · exact ⟨hn.own, List.mem_append_left _ hn.returned, hn.dropped⟩
        · exact ⟨hnote, List.mem_append_right _ (List.mem_singleton.mpr rfl),
            hc.deleted rfl note rfl⟩
  | noteFails j =>
    cases todo with
    | nil => cases h
    | cons note rest =>
      cases h
      refine ⟨_, rfl, rfl, rfl, ⟨fun n hn => hc.todo n (List.mem_cons_of_mem _ hn), fun hd => ?_⟩,
        fun n hn => ?_, Or.inl rfl⟩
      · cases hd
      · exact ⟨hn.own, List.mem_append_left _ hn.returned, hn.dropped⟩
  | crash j =>
    cases h
    exact ⟨_, rfl, rfl, rfl, ⟨fun n hn => absurd hn List.not_mem_nil, fun _ n hn => by cases hn⟩,
      fun n hn => ⟨hn.own, hn.returned, hn.dropped⟩, Or.inl rfl⟩
  | _ => cases h

/-- What commits is logged, and the log stays. -/
theorem logged_of_committing {server server' : World σ W R χ ε q ρ} {served : Action χ q}
    (h : sys.step server served = some server') :
    (∀ entry ∈ server.log, entry ∈ server'.log)
      ∧ ∀ result ∈ committing server served, ∃ request, (request, result) ∈ server'.log := by
  cases served with
  | start request =>
    cases h
    exact ⟨fun _ he => he, fun _ hr => by cases hr⟩
  | abort id =>
    cases h
    exact ⟨fun _ he => he, fun _ hr => by cases hr⟩
  | advance id choice =>
    obtain ⟨tx, locks, writes, next, view, -, -, -, -, rfl⟩ := sys.advance_eq_some h
    exact ⟨fun _ he => he, fun _ hr => by cases hr⟩
  | commit id =>
    obtain ⟨tx, result, htx, hprog, -, rfl⟩ := sys.commit_eq_some h
    refine ⟨fun _ he => List.mem_append_left _ he, fun result' hr => ?_⟩
    have hresult : committing server (.commit id : Action χ q) = some result := by
      show (server.running? id).bind _ = some result
      rw [htx, Option.bind_some, hprog]
    cases hresult.symm.trans hr
    exact ⟨tx.request, List.mem_append_right _ (List.mem_singleton.mpr rfl)⟩

/-- **A step keeps it**, and what was published stays. -/
theorem CacheWorld.Publishes.step (hw : w.Publishes cache)
    (h : cache.step sys w action = some w') :
    w'.Publishes cache ∧ w.published <+: w'.published := by
  -- a writer that goes on is replaced in the list of commits, and the others stay
  have honCommit : ∀ i, w.commits[i]?.bind (fun c => cache.noteStep w i c action) = some w' →
      w'.Publishes cache ∧ w.published <+: w'.published := by
    intro i h
    obtain ⟨c, hc, h⟩ := Option.bind_eq_some_iff.mp h
    have hmem := List.mem_of_getElem? hc
    obtain ⟨c', hserver, hcommits, hstep⟩ := publishStep_of_noteStep (hw.notes c hmem) h
    have hset : c' ∈ w.commits.set i c' := by
      rw [List.mem_iff_getElem?]
      exact ⟨i, List.getElem?_set_self (List.getElem?_eq_some_iff.mp hc).1⟩
    -- a note that was published is one of the same commit, or of the one that goes on
    have hkept : ∀ note, (∃ d ∈ w.commits, d.HasPublished cache note) →
        ∃ d ∈ w'.commits, d.HasPublished cache note := by
      rintro note ⟨d, hd, hnote⟩
      rw [hcommits]
      obtain ⟨j, hj⟩ := List.mem_iff_getElem?.mp hd
      by_cases hij : i = j
      · subst hij
        cases hc.symm.trans hj
        exact ⟨c', hset, hstep.kept note hnote⟩
      · exact ⟨d, List.mem_of_getElem? ((List.getElem?_set_ne hij).trans hj), hnote⟩
    refine ⟨⟨fun d hd => ?_, fun d hd => ?_, fun note hnote => ?_⟩, ?_⟩
    · rw [hcommits] at hd
      rcases List.mem_or_eq_of_mem_set hd with hd | rfl
      · exact hw.notes d hd
      · exact hstep.notes
    · rw [hcommits] at hd
      rw [hserver]
      rcases List.mem_or_eq_of_mem_set hd with hd | rfl
      · exact hw.logged d hd
      · rw [hstep.result]
        exact hw.logged c hmem
    · rcases hstep.more with hsame | ⟨new, hnew, hmore⟩
      · rw [hsame] at hnote
        exact hkept note (hw.published note hnote)
      · rw [hmore] at hnote
        rcases List.mem_append.mp hnote with hold | hlast
        · exact hkept note (hw.published note hold)
        · rw [List.mem_singleton.mp hlast, hcommits]
          exact ⟨c', hset, hnew⟩
    · rcases hstep.more with hsame | ⟨new, -, hmore⟩
      · exact hsame ▸ List.prefix_refl _
      · exact ⟨[new], hmore.symm⟩
  -- whatever is neither a writer nor the server leaves all of it as it is
  have hstays : ∀ {u : CacheWorld σ W R χ ε q ρ Q L K V N}, u.server = w.server →
      u.commits = w.commits → u.published = w.published →
      u.Publishes cache ∧ w.published <+: u.published := by
    intro u hserver hcommits hpublished
    refine ⟨⟨?_, ?_, ?_⟩, hpublished ▸ List.prefix_refl _⟩
    · rw [hcommits]
      exact hw.notes
    · rw [hcommits, hserver]
      exact hw.logged
    · rw [hcommits, hpublished]
      exact hw.published
  have honLoad : ∀ id, action.load? = some id →
      w.loads[id]?.bind (fun load => cache.loadStep w id load action) = some w' →
      w'.Publishes cache ∧ w.published <+: w'.published := by
    intro id hid h
    obtain ⟨load, hload, h⟩ := Option.bind_eq_some_iff.mp h
    obtain ⟨phase, entries, rfl, -⟩ := loadStep_eq_some hid h
    exact hstays rfl rfl rfl
  cases action with
  | delete i => exact honCommit i h
  | publish i => exact honCommit i h
  | noteFails i => exact honCommit i h
  | crash i => exact honCommit i h
  | serve served =>
    obtain ⟨server, hserver, rfl⟩ := Option.map_eq_some_iff.mp h
    -- a commit that is new has published nothing yet, and is in the log
    obtain ⟨hlog, hresult⟩ := logged_of_committing hserver
    refine ⟨⟨fun c hc => ?_, fun c hc => ?_, fun note hnote => ?_⟩, List.prefix_refl _⟩
    · rcases List.mem_append.mp hc with hc | hc
      · exact hw.notes c hc
      · obtain ⟨result, -, rfl⟩ := Option.map_eq_some_iff.mp (Option.mem_toList.mp hc)
        exact ⟨fun _ hn => hn, fun hd => by cases hd⟩
    · rcases List.mem_append.mp hc with hc | hc
      · obtain ⟨request, hentry⟩ := hw.logged c hc
        exact ⟨request, hlog _ hentry⟩
      · obtain ⟨result, hmem, rfl⟩ := Option.map_eq_some_iff.mp (Option.mem_toList.mp hc)
        exact hresult result hmem
    · obtain ⟨c, hc, hpublished⟩ := hw.published note hnote
      exact ⟨c, List.mem_append_left _ hc, hpublished⟩
  | tick =>
    cases h
    exact hstays rfl rfl rfl
  | load request =>
    cases h
    exact hstays rfl rfl rfl
  | evict key =>
    cases h
    exact hstays rfl rfl rfl
  | get id => exact honLoad id rfl h
  | getFails id => exact honLoad id rfl h
  | statement id choice => exact honLoad id rfl h
  | set id => exact honLoad id rfl h
  | setFails id => exact honLoad id rfl h

omit [DecidableEq R] [DecidableEq K] in
/-- Nothing is published at first. -/
theorem CacheWorld.publishes_start (server : World σ W R χ ε q ρ) :
    (CacheWorld.start server : CacheWorld σ W R χ ε q ρ Q L K V N).Publishes cache where
  notes := fun _ hc => absurd hc List.not_mem_nil
  logged := fun _ hc => absurd hc List.not_mem_nil
  published := fun _ hnote => absurd hnote List.not_mem_nil

/-- **A run keeps it.** -/
theorem CacheWorld.Publishes.run {actions : List (CacheAction χ q Q K)} (hw : w.Publishes cache)
    (hrun : cache.run sys w actions = some w') :
    w'.Publishes cache ∧ w.published <+: w'.published := by
  induction actions generalizing w with
  | nil =>
    cases hrun
    exact ⟨hw, List.prefix_refl _⟩
  | cons action rest ih =>
    obtain ⟨w₁, hstep, hrest⟩ := Option.bind_eq_some_iff.mp hrun
    obtain ⟨hw₁, hprefix⟩ := hw.step hstep
    obtain ⟨hw', hprefix'⟩ := ih hw₁ hrest
    exact ⟨hw', hprefix.trans hprefix'⟩

/-- **What a writer notes is true of what its commit left**, whether it is published or
not. -/
theorem tells_of_run (hsound : Sound cache sys d invariant post Tells)
    {server : World σ W R χ ε q ρ} (hserver : server.Good d invariant post)
    {actions : List (CacheAction χ q Q K)} (hrun : cache.run sys (.start server) actions = some w) :
    ∀ c ∈ w.commits, ∀ note ∈ cache.notes c.result, Tells c.state note := by
  refine (run_keeps (P := fun u => u.Good cache d invariant post Tells False
    ∧ ∀ c ∈ u.commits, ∀ note ∈ cache.notes c.result, Tells c.state note)
    (fun u u' action hu _ h => ?_) ⟨CacheWorld.good_start hserver,
      fun _ hc => absurd hc List.not_mem_nil⟩ (cache.meets_true sys _ actions) hrun).2
  obtain ⟨hgood, htells⟩ := hu
  have hgood' := h.good hsound hgood (fun ha => ha.elim)
  refine ⟨hgood', fun c hc => ?_⟩
  cases h with
  | serve served server hserver =>
    rcases List.mem_append.mp hc with hold | hnew
    · exact htells c hold
    · -- nothing of a new commit is done yet
      obtain ⟨result, -, rfl⟩ := Option.map_eq_some_iff.mp (Option.mem_toList.mp hnew)
      exact fun note hnote => hgood'.notes _ hc note (Or.inl hnote)
  | onCommit _ i c₀ c' hc₀ entries published hnote =>
    rcases List.mem_or_eq_of_mem_set hc with hold | rfl
    · exact htells c hold
    · rw [hnote.result, hnote.state]
      exact htells c₀ (List.mem_of_getElem? hc₀)
  | _ => exact htells c hc

/-! ## Loads after a publication -/

/-- No entry is older than a commit for which it was deleted. -/
def Purged (w : CacheWorld σ W R χ ε q ρ Q L K V N) : Prop :=
  ∀ key e, w.entries key = some e → ∀ i c, w.commits[i]? = some c →
    e.source.label ∈ c.dropped → i < e.source.reading.commits

/-- A step that sets no such entry keeps it so. -/
theorem Step.purged (hpurged : Purged w) (hfresh : StoresFresh w action)
    (h : Step cache sys w action w')
    (hkeys : ∀ key e, w'.entries key = some e → cache.cacheKey e.source.label = key) :
    Purged w' := by
  intro key e he i c' hc' hl
  rcases h.entry he with hold | ⟨id, load, found, todo, rfl, hload, hstoring, -, hcommits⟩
  · rcases h.dropped hc' hl with ⟨c, hc, hl⟩ | hnone
    · exact hpurged key e hold i c hc hl
    · rw [hkeys key e he, he] at hnone
      cases hnone
  · rw [hcommits] at hc'
    by_contra hi
    refine hfresh load hload e.source (by rw [hstoring]; rfl) c' ?_ hl
    refine List.mem_of_getElem? (i := i - e.source.reading.commits) ?_
    rw [List.getElem?_drop, Nat.add_sub_cancel' (not_lt.mp hi)]
    exact hc'

/-- **Fresh after the publication.** Any step on the cache may fail, writers may crash and
reads may be torn. If no entry is set after the deletion for a commit its reading came
before, whoever starts to load after a note was published is served from what was committed
since the commit the note is about. -/
theorem fresh_after_publication (hsound : Sound cache sys d invariant post Tells)
    {server : World σ W R χ ε q ρ} (hserver : server.Good d invariant post)
    {actions actions' : List (CacheAction χ q Q K)}
    (hmeets : cache.Meets sys StoresFresh (.start server) actions)
    (hmeets' : cache.Meets sys StoresFresh w actions')
    (hrun : cache.run sys (.start server) actions = some w)
    (hrun' : cache.run sys w actions' = some w') {note : N} (hnote : note ∈ w.published) :
    ∃ c ∈ w.commits, Tells c.state note ∧ ∀ id load result, w.loads.length ≤ id →
      w'.loads[id]? = some load → load.phase.result? = some result →
      ServedBetween cache d invariant False c.state w'.server.committed load.request
        (cache.label note) result := by
  have hkeeps : ∀ u u' action, (u.Good cache d invariant post Tells False ∧ Purged u) →
      StoresFresh u action → Step cache sys u action u' →
      u'.Good cache d invariant post Tells False ∧ Purged u' := by
    intro u u' action hu hfresh h
    have hgood' := h.good hsound hu.1 (fun ha => ha.elim)
    exact ⟨hgood', h.purged hu.2 hfresh (fun key e he => (hgood'.entries key e he).1)⟩
  obtain ⟨hgood, hpurged⟩ := run_keeps hkeeps
    ⟨CacheWorld.good_start hserver, fun _ _ he => (by cases he)⟩ hmeets hrun
  have hpublishes := ((CacheWorld.publishes_start server).run hrun).1
  obtain ⟨c, hc, hpublished⟩ := hpublishes.published note hnote
  refine ⟨c, hc, hgood.notes c hc note (Or.inr hpublished.returned), ?_⟩
  intro id load result hlater hload hresult
  obtain ⟨n, hc⟩ := List.mem_iff_getElem?.mp hc
  have hend := run_keeps
    (P := fun u => (u.Good cache d invariant post Tells False ∧ Purged u)
      ∧ Since n c (cache.label note) w.loads.length u)
    (fun u u' action hu hfresh h => ?_) ⟨⟨hgood, hpurged⟩, since_now hc _⟩ hmeets' hrun'
  · exact hend.2.served hend.1.1 hlater hload hresult
  · obtain ⟨hgoods, hsince⟩ := hu
    refine ⟨hkeeps u u' action hgoods hfresh h, h.since hsound hgoods.1 (fun e he => ?_) hsince⟩
    -- an entry of the label that is left was read after the commit
    obtain ⟨c', hc', -, -, hkept⟩ := hsince.commit
    have he := (entry?_eq_some he).1
    have hlabel := cache.cacheKey_injective (hgoods.1.entries _ e he).1
    exact hgoods.2 _ e he n c' hc' (hlabel ▸ hkept _ hpublished.dropped)

end Steps

end CacheAside

end CohortSwitch
