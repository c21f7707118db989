import CohortSwitch.Evaluation
import CohortSwitch.TableWrites

/-!
# The scopes of keys

Evaluation and streaming trust the ids stored on a key, so a tenant is isolated
from another one only if every stored key is scoped inside its own organization
(`Database.KeyScoped`). For an SDK key `create_api_key` looks the project and
the environment up and compares their parents; for a management key it stores
the ids it was sent. If whoever creates a management key sends ids of the
organization, every key is scoped and serves nothing of another organization
(`keys_confined`); otherwise it need not be (`management_key_crosses`).

The invariant is about the rows of keys, and rows of keys come from one endpoint. What
its transaction ensures depends on the kind: the scope of an SDK key was looked up by the
transaction itself (`Request.LookedUp`), that of a management key is what was sent
(`Request.NamesScope`). Rows are never moved to another parent, so a scope that was in
order stays so, and the discipline needed here is only that tables grow (`growth`).

From the invariant to what is served it is one step: whatever a load returns belongs to
the ids of the key, and the project of these is one of the organization.
-/

namespace CohortSwitch

/-! ## Scopes -/

/-- **A scope inside an organization**: the project is one of the organization,
and the environment one of the project. -/
structure Database.InScope (s : Database) (organizationId : UUID)
    (projectId environmentId : Option UUID) : Prop where
  project : ∀ id ∈ projectId, ∃ row ∈ s.projects, row.id = id
    ∧ row.organizationId = organizationId
  environment : ∀ id ∈ environmentId, ∃ row ∈ s.environments, row.id = id
    ∧ projectId = some row.projectId

instance (s : Database) (organizationId : UUID) (projectId environmentId : Option UUID) :
    Decidable (s.InScope organizationId projectId environmentId) :=
  decidable_of_iff
    ((∀ id ∈ projectId, ∃ row ∈ s.projects, row.id = id ∧ row.organizationId = organizationId)
      ∧ ∀ id ∈ environmentId, ∃ row ∈ s.environments, row.id = id
        ∧ projectId = some row.projectId)
    ⟨fun ⟨a, b⟩ => ⟨a, b⟩, fun ⟨a, b⟩ => ⟨a, b⟩⟩

/-- A stored key is scoped inside its own organization. -/
def Database.KeyScoped (s : Database) (key : APIKeyRow) : Prop :=
  s.InScope key.organizationId key.projectId key.environmentId

instance (s : Database) (key : APIKeyRow) : Decidable (s.KeyScoped key) :=
  inferInstanceAs (Decidable (s.InScope _ _ _))

/-- A scope stays one as the tables grow. -/
theorem Database.InScope.grow {s s' : Database} {organizationId : UUID}
    {projectId environmentId : Option UUID} (h : s.InScope organizationId projectId environmentId)
    (hs : s.Grows s') : s'.InScope organizationId projectId environmentId where
  project := by
    intro id hid
    obtain ⟨row, hrow, hrest⟩ := h.project id hid
    exact ⟨row, hs.projects.subset hrow, hrest⟩
  environment := by
    intro id hid
    obtain ⟨row, hrow, hrowId, hproject⟩ := h.environment id hid
    obtain ⟨row', hrow', heq⟩ :=
      List.mem_map.mp (hs.environments.subset (List.mem_map_of_mem hrow))
    exact ⟨row', hrow', (congrArg EnvironmentRow.Identity.id heq).trans hrowId,
      hproject.trans (congrArg some (congrArg EnvironmentRow.Identity.projectId heq).symm)⟩

/-- The ids sent for a management key are those of a scope inside its
organization. Nothing is asked of other requests. -/
def Request.NamesScope (s : Database) : Request → Prop
  | .createKey _ _ payload .management =>
    s.InScope payload.organizationId payload.projectId payload.environmentId
  | _ => True

instance (s : Database) (request : Request) : Decidable (request.NamesScope s) := by
  unfold Request.NamesScope
  split <;> infer_instance

/-! ## Creating keys -/

/-- Rows stay what they are: that is all the creation of a key relies on. -/
def growth : Discipline Database Write Row where
  apply := Database.apply
  invariant := fun _ => True
  rely := fun _ s s' => s.Grows s'
  rely_refl := fun _ => Database.Grows.refl
  rely_trans := fun _ _ _ _ h h' => h.trans h'

/-- The scope of an SDK key was looked up. -/
def Request.LookedUp (s : Database) : Request → Prop
  | .createKey _ _ payload .sdk =>
    s.InScope payload.organizationId payload.projectId payload.environmentId
  | _ => True

/-- **The branch for SDK keys** finds the project in the organization and the
environment in the project. -/
theorem ensures_keyScopes_sdk (payload : APIKeyCreate) (s : Database) :
    (keyScopes payload .sdk).Ensures growth (fun _ _ s' _ =>
      s'.InScope payload.organizationId payload.projectId payload.environmentId) [] [] s := by
  unfold keyScopes
  cases hp : payload.projectId with
  | none => exact trivial
  | some projectId =>
    cases he : payload.environmentId with
    | none => exact trivial
    | some environmentId =>
      refine Prog.Ensures.bind (M := fun writes _ s' project => writes = []
        ∧ ∀ row ∈ project, row ∈ s'.projects ∧ row.id = projectId)
        (Prog.ensures_read (fun _ _ _ _ _ => ⟨rfl, fun _ hfound => mem_and_of_find? hfound⟩)) ?_
      rintro _ locks₁ s₁ project ⟨rfl, hproject⟩
      refine Prog.Ensures.bind (M := fun _ _ s' environment => s₁.Grows s'
        ∧ ∀ row ∈ environment, row ∈ s'.environments ∧ row.id = environmentId)
        (Prog.ensures_read (fun _ hgrows _ _ _ =>
          ⟨hgrows, fun _ hfound => mem_and_of_find? hfound⟩))
        (fun _ _ s₂ environment henvironment => ?_)
      obtain ⟨hgrows, henvironment⟩ := henvironment
      cases project with
      | none => exact trivial
      | some project =>
        cases environment with
        | none => exact trivial
        | some environment =>
          obtain ⟨hpmem, hpid⟩ := hproject project rfl
          obtain ⟨hemem, heid⟩ := henvironment environment rfl
          dsimp only
          split
          · exact trivial
          rename_i hparents
          -- the parents were checked, and rows that were found stay
          rw [not_or, not_not, not_not] at hparents
          refine ⟨fun id hid => ?_, fun id hid => ?_⟩
          · cases hid
            exact ⟨project, hgrows.projects.subset hpmem, hpid, hparents.1⟩
          · cases hid
            exact ⟨environment, hemem, heid, by rw [hparents.2, hpid]⟩

/-- Every request has looked up what it should. -/
theorem ensures_lookedUp (request : Request) (s : Database) :
    request.program.Ensures growth (fun _ _ s' _ => request.LookedUp s') [] [] s := by
  cases request with
  | createKey principal requestId payload kind =>
    cases kind with
    | management => exact Prog.ensures_true
    | sdk =>
      refine ((reads_authorizeOrganization _ _ _).ensures (Prog.yields_true _)).bind ?_
      rintro _ _ s₁ membership ⟨rfl, rfl, -, -⟩
      unfold createApiKey
      rw [Prog.bind_assoc]
      refine (ensures_keyScopes_sdk payload s₁).bind (fun writes locks s₂ found hscope => ?_)
      -- nothing that comes later takes the project or the environment away
      have hstable : ∀ locks t t', growth.rely locks t t' →
          t.InScope payload.organizationId payload.projectId payload.environmentId →
          t'.InScope payload.organizationId payload.projectId payload.environmentId :=
        fun _ _ _ hs h => h.grow hs
      exact (Prog.ensures_true.frame hstable hscope).mono (fun _ _ _ _ h => h.2)
  | _ => exact Prog.ensures_true

/-! ## Every stored key -/

/-- Every stored key is scoped inside its own organization. -/
def KeysScoped (s : Database) (_ : List (Request × Outcome)) : Prop :=
  ∀ key ∈ s.apiKeys, s.KeyScoped key

/-- **What a transaction that creates keys gives**: it wrote what it may, and the
scope of an SDK key was looked up. -/
def CreatesKeys (request : Request) (writes : List Write) (_ : List Row) (s : Database)
    (_ : Outcome) : Prop :=
  (∀ w ∈ writes, request.mayWrite w = true) ∧ request.LookedUp s

/-- A key that is written is scoped, where the ids that were sent are. -/
theorem inScope_of_mayWrite {request : Request} {s : Database} {key : APIKeyRow}
    (hmay : request.mayWrite (.apiKey key) = true) (hlooked : request.LookedUp s)
    (hnames : request.NamesScope s) : s.KeyScoped key := by
  cases request with
  | createKey principal requestId payload kind =>
    obtain ⟨horganization, hproject, henvironment, -⟩ := of_decide_eq_true hmay
    unfold Database.KeyScoped
    rw [horganization, hproject, henvironment]
    cases kind with
    | sdk => exact hlooked
    | management => exact hnames
  | _ => exact absurd hmay Bool.false_ne_true

/-- **Every stored key stays scoped**, as long as the ids that are sent are. -/
theorem respects_keys : service.Respects growth KeysScoped CreatesKeys
    (fun request _ s => request.NamesScope s) where
  apply := rfl
  committed := fun _ _ _ => trivial
  start := fun request s _ =>
    (((request.writes.ensures (fun _ hw => absurd hw List.not_mem_nil)).and
      (ensures_lookedUp request s)).mono (fun _ _ _ _ h => ⟨h.1.1, h.2⟩))
  commit := by
    intro request writes locks s s' result log hpost hrely hinv _ hcondition
    have hgrows := grows_view writes s'
    refine ⟨fun key hkey => ?_, fun _ _ => hgrows⟩
    rw [view_apiKeys] at hkey
    rcases List.mem_append.mp hkey with hkey | hkey
    · exact (hinv key hkey).grow hgrows
    · obtain ⟨w, hw, hkeyed⟩ := List.mem_filterMap.mp hkey
      cases w with
      | apiKey row =>
        cases hkeyed
        have hlooked : request.LookedUp s' := by
          cases request with
          | createKey principal requestId payload kind =>
            cases kind with
            | sdk => exact Database.InScope.grow hpost.2 hrely
            | management => exact trivial
          | _ => exact trivial
        exact (inScope_of_mayWrite (hpost.1 _ hw) hlooked hcondition).grow hgrows
      | _ => cases hkeyed

/-! ## What a key is served -/

/-- A load that one of the endpoints makes for a key. -/
def LoadRequest.IsFor (request : LoadRequest) (key : APIKeyRow) : Prop :=
  (∃ payload, evaluate (.ofKey key) payload = .ok request)
    ∨ ∃ payload, evaluateBatch (.ofKey key) payload = .ok request

/-- A project belongs to an organization. -/
def Database.Owns (s : Database) (organizationId projectId : UUID) : Prop :=
  ∃ row ∈ s.projects, row.id = projectId ∧ row.organizationId = organizationId

/-- A load for a key has the ids of the key. -/
theorem LoadRequest.IsFor.ids {request : LoadRequest} {key : APIKeyRow} (h : request.IsFor key) :
    key.projectId = some request.ids.1 ∧ key.environmentId = some request.ids.2 := by
  rcases h with ⟨payload, h⟩ | ⟨payload, h⟩
  · exact ids_of_evaluate h
  · exact ids_of_evaluateBatch h

/-- **Tenant isolation of keys.** In every run in which whoever creates a
management key sends ids of a scope inside its organization, every stored key is
scoped inside its own organization. So `evaluate` and `evaluateBatch` serve it
configurations of a project of its organization only, and `streamConfig` events
of such a project only. -/
theorem keys_confined {cacheTtlSeconds : ℕ} {actions : List CachedAction} {w : CachedService}
    (hscopes : service.CommitsMeet (fun request _ s => request.NamesScope s) initial
      (actions.filterMap CacheAside.CacheAction.served?))
    (hrun : (configCache cacheTtlSeconds).run service (.start initial) actions = some w)
    {key : APIKeyRow} (hkey : key ∈ w.server.committed.apiKeys) :
    w.server.committed.KeyScoped key
      ∧ (∀ load ∈ w.loads, load.request.IsFor key →
        ∀ found, load.phase.result? = some (.ok found) → ∀ item ∈ found,
          ∃ projectId, w.server.committed.Owns key.organizationId projectId
            ∧ item.2.projectId = projectId.str)
      ∧ ∀ channel, streamConfig (.ofKey key) = .ok channel →
        ∀ note ∈ w.published, note.channel = channel →
          w.server.committed.Owns key.organizationId note.projectId := by
  have hserver := CacheAside.server_of_run hrun
  have hgood : initial.Good growth KeysScoped CreatesKeys :=
    World.good_init (fun _ hkey => absurd hkey List.not_mem_nil)
  have hscoped := (respects_keys.run_good hgood hscopes hserver).1.invariant key hkey
  refine ⟨hscoped, fun load hload hfor found hresult item hitem => ?_,
    fun channel hchannel note _ hnote => ?_⟩
  · obtain ⟨row, hrow, hid, horganization⟩ := hscoped.project _ hfor.ids.1
    have hof := scope_of_result hrun hload hresult hitem
    exact ⟨load.request.ids.1, ⟨row, hrow, hid, horganization⟩, hof.1⟩
  · obtain ⟨ids, hids, hchannel⟩ := bind_eq_ok.mp hchannel
    cases hchannel
    obtain ⟨hproject, -⟩ := eventsChannel_injective hnote
    obtain ⟨row, hrow, hid, horganization⟩ := hscoped.project _ (keyScope_eq_ok hids).1
    exact ⟨row, hrow, hid.trans hproject.symm, horganization⟩

/-! ## A key of another organization -/

/-- The name of the sample keys is in order. -/
theorem robot_length : 1 ≤ "robot".length ∧ "robot".length ≤ 200 := by decide

/-- A key with the ids of the sample environment. -/
def sampleKey (organizationId : UUID) : APIKeyCreate :=
  ⟨"robot", organizationId, some ⟨20⟩, some ⟨30⟩, ["evaluate", "flags:read"],
    robot_length, by decide⟩

/-- The sample flag, a management key of its organization, and a load with it. -/
def ownKey : List CachedAction :=
  served (sampleFlag
    ++ alone 4 60 4 (.createKey sampleUser none (sampleKey ⟨10⟩) .management)) ++ sampleMiss 0
  ++ [.set 0]

/-- Another user founds the organization `11` and creates a management key of it
with the ids of the sample environment. -/
def foreignKey : List CachedAction :=
  served (sampleFlag
    ++ alone 4 11 3 (.createOrganization (.ofUser ⟨2⟩) none
      ⟨"Other", "other", by decide, by decide⟩)
    ++ alone 5 60 4 (.createKey (.ofUser ⟨2⟩) none (sampleKey ⟨11⟩) .management)) ++ sampleMiss 0
  ++ [.set 0]

/-- The key of an organization that is scoped to the sample environment and may
evaluate. -/
def APIKeyRow.isSample (key : APIKeyRow) (organizationId : UUID) : Prop :=
  key.organizationId = organizationId ∧ key.projectId = some ⟨20⟩ ∧ key.environmentId = some ⟨30⟩
    ∧ key.kind = "MANAGEMENT" ∧ "evaluate" ∈ key.scopes

instance (key : APIKeyRow) (organizationId : UUID) : Decidable (key.isSample organizationId) :=
  inferInstanceAs (Decidable (_ ∧ _))

/-- The endpoint makes this load. -/
theorem isFor_of_scope {key : APIKeyRow} (hkind : key.kind = "SDK" ∨ key.kind = "MANAGEMENT")
    (hproject : key.projectId = some ⟨20⟩) (henvironment : key.environmentId = some ⟨30⟩)
    (hscope : "evaluate" ∈ key.scopes) :
    (LoadRequest.configuration ⟨20⟩ ⟨30⟩ "banner").IsFor key := by
  refine .inl ⟨⟨"banner", "user", ⟨[], List.nodup_nil⟩, by decide⟩, ?_⟩
  have hallowed : requireApiScope (.ofKey key) "evaluate" = .ok () :=
    if_neg (fun hnot => hnot.elim (fun hkinds => hkinds hkind) (fun hmem => hmem hscope))
  have hids : keyScope (.ofKey key) "evaluate" = .ok (⟨20⟩, ⟨30⟩) := by
    unfold keyScope
    have hp : (Principal.ofKey key).projectId = some ⟨20⟩ := hproject
    have he : (Principal.ofKey key).environmentId = some ⟨30⟩ := henvironment
    rw [hallowed, hp, he]
    rfl
  unfold evaluate
  rw [hids]
  rfl

/-- And for the sample key. -/
theorem isFor_of_isSample {key : APIKeyRow} {organizationId : UUID}
    (h : key.isSample organizationId) :
    (LoadRequest.configuration ⟨20⟩ ⟨30⟩ "banner").IsFor key := by
  obtain ⟨-, hproject, henvironment, hkind, hscope⟩ := h
  exact isFor_of_scope (Or.inr hkind) hproject henvironment hscope

theorem keys_confined_own : ∃ w key load found, (configCache 60).run service (.start initial) ownKey
      = some w
    ∧ key ∈ w.server.committed.apiKeys ∧ load ∈ w.loads ∧ load.request.IsFor key
    ∧ load.phase.result? = some (.ok found)
    ∧ w.server.committed.KeyScoped key
    ∧ ∀ item ∈ found, ∃ projectId, w.server.committed.Owns key.organizationId projectId
      ∧ item.2.projectId = projectId.str := by
  have hscopes : service.checkCommits (fun request _ s => decide (request.NamesScope s)) initial
      (ownKey.filterMap CacheAside.CacheAction.served?) = true := by
    decide +kernel
  have hfacts : ((configCache 60).run service (.start initial) ownKey).any (fun w =>
      w.server.committed.apiKeys.any (fun key => decide (key.isSample ⟨10⟩))
        && decide (sampleVersions w 0 = some [1])) = true := by
    decide +kernel
  obtain ⟨w, hrun, hfacts⟩ := (Option.any_eq_true _ _).mp hfacts
  obtain ⟨hkey, hversions⟩ := Bool.and_eq_true_iff.mp hfacts
  obtain ⟨key, hkey, hsample⟩ := List.any_eq_true.mp hkey
  obtain ⟨load, found, hload, hrequest, hresult, -⟩ :=
    exists_of_sampleVersions (of_decide_eq_true hversions)
  have hfor : load.request.IsFor key := by
    rw [hrequest]
    exact isFor_of_isSample (of_decide_eq_true hsample)
  obtain ⟨hscoped, hloads, -⟩ :=
    keys_confined (service.commitsMeet_of_check hscopes) hrun hkey
  have hmem := List.mem_of_getElem? hload
  exact ⟨w, key, load, found, hrun, hkey, hmem, hfor, hresult, hscoped,
    hloads load hmem hfor found hresult⟩

/-- **A management key need not be scoped inside its organization**: a stranger
evaluates the flags of the sample tenant with a key of the stranger's own. -/
theorem management_key_crosses : ∃ w key load found item,
    (configCache 60).run service (.start initial) foreignKey = some w
    ∧ key ∈ w.server.committed.apiKeys ∧ load ∈ w.loads ∧ load.request.IsFor key
    ∧ load.phase.result? = some (.ok found) ∧ item ∈ found
    ∧ ¬ w.server.committed.KeyScoped key
    ∧ ¬ ∃ projectId, w.server.committed.Owns key.organizationId projectId
      ∧ item.2.projectId = projectId.str := by
  have hfacts : ((configCache 60).run service (.start initial) foreignKey).any (fun w =>
      w.server.committed.apiKeys.any (fun key => decide (key.isSample ⟨11⟩)
        && decide (¬ w.server.committed.KeyScoped key)
        && decide (∀ row ∈ w.server.committed.projects, row.organizationId ≠ ⟨11⟩))
      && decide (sampleVersions w 0 = some [1])) = true := by
    decide +kernel
  obtain ⟨w, hrun, hfacts⟩ := (Option.any_eq_true _ _).mp hfacts
  obtain ⟨hkey, hversions⟩ := Bool.and_eq_true_iff.mp hfacts
  obtain ⟨key, hkey, hfacts⟩ := List.any_eq_true.mp hkey
  simp only [Bool.and_eq_true, decide_eq_true_eq] at hfacts
  obtain ⟨⟨hsample, hunscoped⟩, hforeign⟩ := hfacts
  obtain ⟨load, found, hload, hrequest, hresult, hmap⟩ :=
    exists_of_sampleVersions (of_decide_eq_true hversions)
  obtain ⟨item, rfl, -⟩ := List.map_eq_singleton_iff.mp hmap
  refine ⟨w, key, load, [item], item, hrun, hkey, List.mem_of_getElem? hload, ?_, hresult,
    List.mem_singleton.mpr rfl, hunscoped, ?_⟩
  · rw [hrequest]
    exact isFor_of_isSample hsample
  · rintro ⟨projectId, ⟨row, hrow, -, horganization⟩, -⟩
    exact hforeign row hrow (horganization.trans hsample.1)

end CohortSwitch
