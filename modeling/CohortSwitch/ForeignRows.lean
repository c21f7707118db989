import CohortSwitch.BatchLoading
import CohortSwitch.ManagementReads

/-!
# What a user can tell of another organization

The endpoints that read flags look a row up before they check who asks. Where the row
is not there they raise the error of that row, and where it belongs to an
organization the user is no member of, `membership_for` raises the error of the
organization.

`Database.without` is a state without all that one organization owns. For a user who
is no member of it, an endpoint answers as it does there, except that it raises the
error of the organization where the request names something it owns
(`ManagementRead.answersAs`). So two states that are the same without what the
organization owns are told apart by a request exactly where it names something of
theirs in one of them and not in the other (`foreign_indistinguishable_iff`).

## One state instead of two

The claim compares two states, but every lemma here compares a state with itself
without the organization. That relation has a simple shape: the rows of the organization are
filtered out of every table, and since references stay within an organization, what is
left still belongs together. A query for something that stays finds the same rows
(`resultIn_loadCollections_without`), and one for something of the organization finds
nothing there. The comparison of two states is then two comparisons with what they have in
common.

An endpoint on one flag differs from the others in that it reads the flag first.
`answersAs_flag` treats it once for both endpoints of this kind, up to what each of them does
with the flag.
-/

namespace CohortSwitch

/-! ## What an organization owns -/

namespace Database

variable (db : Database) (organizationId : UUID)

/-- The project is one of the organization. -/
def ownsProject (projectId : UUID) : Bool :=
  (db.projects.find? (fun row => row.id = projectId)).any
    (fun row => row.organizationId = organizationId)

/-- The environment is one of its projects. -/
def ownsEnvironment (environmentId : UUID) : Bool :=
  (db.environments.find? (fun row => row.id = environmentId)).any
    (fun row => db.ownsProject organizationId row.projectId)

/-- The flag is, too. -/
def ownsFlag (flagId : UUID) : Bool :=
  (db.flags.find? (fun row => row.id = flagId)).any
    (fun row => db.ownsProject organizationId row.projectId)

/-- The configuration is one of its flags. -/
def ownsConfig (configId : UUID) : Bool :=
  (db.configs.find? (fun row => row.id = configId)).any
    (fun row => db.ownsFlag organizationId row.flagId)

/-- The rule is one of its configurations. -/
def ownsRule (ruleId : UUID) : Bool :=
  (db.children.rules.find? (fun row => row.id = ruleId)).any
    (fun row => db.ownsConfig organizationId row.configId)

/-- A rollout or a stage belongs to a configuration or to a rule. -/
def ownsParent : Parent → Bool
  | .config id => db.ownsConfig organizationId id
  | .rule id => db.ownsRule organizationId id

/-- **A state without what an organization owns.** The organization itself stays, and so do its
members. What is gone are its projects with all that belongs to them, its keys and its events.
-/
def without : Database where
  organizations := db.organizations
  memberships := db.memberships
  projects := db.projects.filter (fun row => row.organizationId ≠ organizationId)
  environments := db.environments.filter (fun row => !db.ownsProject organizationId row.projectId)
  flags := db.flags.filter (fun row => !db.ownsProject organizationId row.projectId)
  configs := db.configs.filter (fun row => !db.ownsFlag organizationId row.flagId)
  children := {
    variations :=
      db.children.variations.filter (fun row => !db.ownsConfig organizationId row.configId)
    rules := db.children.rules.filter (fun row => !db.ownsConfig organizationId row.configId)
    conditions :=
      db.children.conditions.filter (fun row => !db.ownsRule organizationId row.ruleId)
    rollouts := db.children.rollouts.filter (fun row => !db.ownsParent organizationId row.parent)
    progressiveStages := db.children.progressiveStages.filter
      (fun row => !db.ownsParent organizationId row.parent) }
  versions := db.versions.filter (fun row => !db.ownsConfig organizationId row.configId)
  changes := db.changes.filter (fun row => !db.ownsConfig organizationId row.configId)
  audits := db.audits.filter (fun row => row.organizationId ≠ organizationId)
  apiKeys := db.apiKeys.filter (fun row => row.organizationId ≠ organizationId)

end Database

/-! ## Rows that stay -/

section Rows

variable {α : Type}

/-- The row that is found stays the one that is found. -/
theorem find?_filter_eq {p q : α → Bool} {xs : List α}
    (h : ∀ a, xs.find? q = some a → p a = true) : (xs.filter p).find? q = xs.find? q := by
  induction xs with
  | nil => rfl
  | cons x xs ih =>
    by_cases hq : q x = true
    · have hp : p x = true := h x (List.find?_cons_of_pos hq)
      rw [List.filter_cons_of_pos hp, List.find?_cons_of_pos hq, List.find?_cons_of_pos hq]
    · rw [List.find?_cons_of_neg hq] at h ⊢
      rw [← ih h, List.filter_cons]
      split
      · rw [List.find?_cons_of_neg hq]
      · rfl

/-- A row that goes was the only one with its key. -/
theorem find?_filter_eq_none {κ : Type} [DecidableEq κ] {f : α → κ} {p : α → Bool} {xs : List α}
    (hnodup : (xs.map f).Nodup) {a : α} {k : κ} (ha : xs.find? (fun x => f x = k) = some a)
    (hp : p a = false) : (xs.filter p).find? (fun x => f x = k) = none := by
  obtain ⟨hmem, hkey⟩ := mem_and_of_find? ha
  refine List.find?_eq_none.mpr (fun b hb hb' => ?_)
  obtain ⟨hbmem, hbp⟩ := List.mem_filter.mp hb
  have hsame : b = a :=
    List.inj_on_of_nodup_map hnodup hbmem hmem ((of_decide_eq_true hb').trans hkey.symm)
  rw [hsame, hp] at hbp
  cases hbp

end Rows

/-! ## Authorization -/

/-- What `membership_for` raises for a user who is no member. -/
def organizationNotFound : PyError :=
  .apiError 404 "organization_not_found" "Organization was not found." []

/-- A user who is no member of an organization. -/
def Database.Outsider (db : Database) (organizationId userId : UUID) : Prop :=
  ∀ row ∈ db.memberships, row.organizationId = organizationId → row.userId ≠ userId

/-- What every statement of a request sees: one state. -/
def Database.seen (db : Database) (choice : Choice) : View Database Row Choice :=
  ⟨db, [], choice⟩

section Authorization

variable {s : Database} {B userId : UUID} (choice : Choice)

theorem resultIn_select_bind {α β : Type} (query : Database → α) (k : α → Tx β) (db : Database) :
    (select query >>= k).resultIn (db.seen choice) = (k (query db)).resultIn (db.seen choice) :=
  rfl

/-- A user comes with no management key. -/
theorem kind_ofUser (userId : UUID) : (Principal.ofUser userId).kind ≠ "MANAGEMENT" := by
  show "USER" ≠ "MANAGEMENT"
  decide

/-- A user is confined to no project -/
theorem not_any_projectId_ofUser (userId : UUID) (p : UUID → Bool) :
    ¬ (Principal.ofUser userId).projectId.any p = true := Bool.false_ne_true

/-- and to no environment. -/
theorem not_any_environmentId_ofUser (userId : UUID) (p : UUID → Bool) :
    ¬ (Principal.ofUser userId).environmentId.any p = true := Bool.false_ne_true

/-- The organization is not found where the user is no member of it. -/
theorem resultIn_authorizeOrganization_outsider (hout : s.Outsider B userId)
    (permission : Permission) :
    (authorizeOrganization (.ofUser userId) B permission).resultIn (s.seen choice)
      = .error organizationNotFound := by
  have hnone : s.memberships.find? (fun row => row.organizationId = B ∧ row.userId = userId)
      = none := by
    refine List.find?_eq_none.mpr (fun row hrow h => ?_)
    exact hout row hrow (of_decide_eq_true h).1 (of_decide_eq_true h).2
  unfold authorizeOrganization membershipFor
  rw [if_neg (kind_ofUser userId), Prog.resultIn_bind]
  have huser : (Principal.ofUser userId).userId = some userId := rfl
  rw [huser]
  dsimp only
  rw [resultIn_select_bind, hnone]
  rfl

/-- Authorizing an organization reads its memberships only. -/
theorem resultIn_authorizeOrganization_congr {s' : Database} (h : s'.memberships = s.memberships)
    (principal : Principal) (organizationId : UUID) (permission : Permission) :
    (authorizeOrganization principal organizationId permission).resultIn (s'.seen choice)
      = (authorizeOrganization principal organizationId permission).resultIn (s.seen choice) := by
  have hmembership : (membershipFor principal organizationId).resultIn (s'.seen choice)
      = (membershipFor principal organizationId).resultIn (s.seen choice) := by
    unfold membershipFor
    split
    · split
      · rfl
      · rfl
    · split
      · rfl
      · rw [resultIn_select_bind, resultIn_select_bind, h]
        split
        · rfl
        · rfl
  unfold authorizeOrganization
  rw [Prog.resultIn_bind, Prog.resultIn_bind, hmembership]
  refine congrArg _ (funext (fun membership => ?_))
  split
  · split
    · rfl
    · rfl
  · rw [Prog.resultIn_bind, Prog.resultIn_bind, Prog.resultIn_attempt, Prog.resultIn_attempt]
    rfl

/-- **A project is authorized as without the organization**, unless it is one of
its. -/
theorem resultIn_authorizeProject (hout : s.Outsider B userId) (projectId : UUID)
    (permission : Permission) :
    (authorizeProject (.ofUser userId) projectId permission).resultIn (s.seen choice)
      = if s.ownsProject B projectId then .error organizationNotFound
        else (authorizeProject (.ofUser userId) projectId permission).resultIn
          ((s.without B).seen choice) := by
  unfold authorizeProject
  rw [resultIn_select_bind, resultIn_select_bind]
  cases hfound : s.projects.find? (fun row => row.id = projectId) with
  | none =>
    have hkept : (s.without B).projects.find? (fun row => row.id = projectId) = none :=
      (find?_filter_eq (fun a ha => by rw [hfound] at ha; cases ha)).trans hfound
    rw [hkept, Database.ownsProject, hfound]
    rfl
  | some project =>
    have howns : s.ownsProject B projectId = decide (project.organizationId = B) := by
      rw [Database.ownsProject, hfound]
      rfl
    rw [howns]
    by_cases hB : project.organizationId = B
    · rw [decide_eq_true hB, if_pos rfl]
      dsimp only
      rw [if_neg (not_any_projectId_ofUser userId _),
        Prog.resultIn_bind, hB, resultIn_authorizeOrganization_outsider choice hout]
      rfl
    · have hkept : (s.without B).projects.find? (fun row => row.id = projectId) = some project := by
        refine (find?_filter_eq (fun a ha => ?_)).trans hfound
        rw [hfound] at ha
        cases ha
        exact decide_eq_true hB
      rw [decide_eq_false hB, if_neg Bool.false_ne_true, hkept]
      dsimp only
      rw [if_neg (not_any_projectId_ofUser userId _),
        Prog.resultIn_bind, Prog.resultIn_bind]
      have hsame : s.memberships = (s.without B).memberships := rfl
      exact congrArg (· >>= _) (resultIn_authorizeOrganization_congr choice hsame _ _ _)

/-- A project of the organization is not there without it. -/
theorem resultIn_authorizeProject_without (hs : s.Keys) {projectId : UUID}
    (howns : s.ownsProject B projectId = true) (principal : Principal)
    (permission : Permission) :
    (authorizeProject principal projectId permission).resultIn ((s.without B).seen choice)
      = .error (.apiError 404 "project_not_found" "Project was not found." []) := by
  obtain ⟨project, hfound, hB⟩ := (Option.any_eq_true _ _).mp howns
  have hgone : (s.without B).projects.find? (fun row => row.id = projectId) = none :=
    find?_filter_eq_none hs.projectIds hfound (by simpa using hB)
  unfold authorizeProject
  rw [resultIn_select_bind, hgone]
  rfl

/-- **An environment is authorized as without the organization**, unless it is one of
its. -/
theorem resultIn_authorizeEnvironment (hout : s.Outsider B userId) (environmentId : UUID)
    (permission : Permission) :
    (authorizeEnvironment (.ofUser userId) environmentId permission).resultIn (s.seen choice)
      = if s.ownsEnvironment B environmentId then .error organizationNotFound
        else (authorizeEnvironment (.ofUser userId) environmentId permission).resultIn
          ((s.without B).seen choice) := by
  unfold authorizeEnvironment
  rw [resultIn_select_bind, resultIn_select_bind]
  cases hfound : s.environments.find? (fun row => row.id = environmentId) with
  | none =>
    have hkept : (s.without B).environments.find? (fun row => row.id = environmentId) = none :=
      (find?_filter_eq (fun a ha => by rw [hfound] at ha; cases ha)).trans hfound
    rw [hkept, Database.ownsEnvironment, hfound]
    rfl
  | some environment =>
    have howns : s.ownsEnvironment B environmentId = s.ownsProject B environment.projectId := by
      rw [Database.ownsEnvironment, hfound]
      rfl
    rw [howns]
    dsimp only
    rw [if_neg (not_any_environmentId_ofUser userId _),
      Prog.resultIn_bind, resultIn_authorizeProject choice hout]
    cases hB : s.ownsProject B environment.projectId with
    | true => rfl
    | false =>
      have hkept : (s.without B).environments.find? (fun row => row.id = environmentId)
          = some environment := by
        refine (find?_filter_eq (fun a ha => ?_)).trans hfound
        rw [hfound] at ha
        cases ha
        rw [hB]
        rfl
      rw [if_neg Bool.false_ne_true, if_neg Bool.false_ne_true, hkept]
      dsimp only
      rw [if_neg (not_any_environmentId_ofUser userId _),
        Prog.resultIn_bind]
      rfl

/-- An environment of the organization is not there without it. -/
theorem resultIn_authorizeEnvironment_without (hs : s.Keys) {environmentId : UUID}
    (howns : s.ownsEnvironment B environmentId = true) (principal : Principal)
    (permission : Permission) :
    (authorizeEnvironment principal environmentId permission).resultIn
        ((s.without B).seen choice)
      = .error (.apiError 404 "environment_not_found" "Environment was not found." []) := by
  obtain ⟨environment, hfound, hB⟩ := (Option.any_eq_true _ _).mp howns
  have hgone : (s.without B).environments.find? (fun row => row.id = environmentId) = none :=
    find?_filter_eq_none hs.environmentIds hfound (by simpa using hB)
  unfold authorizeEnvironment
  rw [resultIn_select_bind, hgone]
  rfl

end Authorization

/-! ## Reads of what stays -/

section Reads

variable {s : Database} {B : UUID} {choice : Choice}

/-- Rows of a query that stay. -/
theorem filter_kept {α : Type} {owned q : α → Bool} (xs : List α)
    (h : ∀ x ∈ xs, q x = true → owned x = false) :
    (xs.filter (fun x => !owned x)).filter q = xs.filter q :=
  filter_filter_of_imp xs (fun x hx hq => by rw [h x hx hq]; rfl)

/-- A query that gives the same rows, and a rest that does the same with them. -/
theorem resultIn_selectAll_congr {s' : Database} {α β : Type} {query : Database → List α}
    {k : List α → Tx β} (hquery : query s' = query s)
    (hk : ∀ rows, rows.Perm (query s) →
      (k rows).resultIn (s'.seen choice) = (k rows).resultIn (s.seen choice)) :
    (selectAll query >>= k).resultIn (s'.seen choice)
      = (selectAll query >>= k).resultIn (s.seen choice) := by
  show (k (arrange choice.order (query s'))).resultIn _
    = (k (arrange choice.order (query s))).resultIn _
  rw [hquery]
  exact hk _ (arrange_perm _ _)

/-- A configuration is the organization's if its flag is. -/
theorem ownsConfig_eq (hs : s.Keys) {row : FlagConfigRow} (hrow : row ∈ s.configs) :
    s.ownsConfig B row.id = s.ownsFlag B row.flagId := by
  rw [Database.ownsConfig, find?_eq_some_of_mem hs.configIds hrow rfl]
  rfl

/-- A rule, if its configuration is. -/
theorem ownsRule_eq (hs : s.Keys) {row : TargetingRuleRow} (hrow : row ∈ s.children.rules) :
    s.ownsRule B row.id = s.ownsConfig B row.configId := by
  rw [Database.ownsRule, find?_eq_some_of_mem hs.ruleIds hrow rfl]
  rfl

/-- No rule of a configuration that stays is gone. -/
theorem ownsRule_of_mem (hs : s.Keys) {q : TargetingRuleRow → Bool}
    (hq : ∀ row, q row = true → s.ownsConfig B row.configId = false)
    {rules : List TargetingRuleRow} (hrules : rules.Perm (s.children.rules.filter q)) {id : UUID}
    (hid : id ∈ rules.map TargetingRuleRow.id) : s.ownsRule B id = false := by
  obtain ⟨rule, hrule, rfl⟩ := List.mem_map.mp hid
  obtain ⟨hmem, hkeep⟩ := List.mem_filter.mp (hrules.subset hrule)
  rw [ownsRule_eq hs hmem]
  exact hq rule hkeep

theorem ownsParent_of_isRuleOf {ids : List UUID} (h : ∀ id ∈ ids, s.ownsRule B id = false)
    {parent : Parent} (hparent : parent.isRuleOf ids = true) : s.ownsParent B parent = false := by
  cases parent with
  | config id => cases hparent
  | rule id => exact h id (of_decide_eq_true hparent)

/-- **A configuration that stays keeps its children.** -/
theorem resultIn_loadCollections_without (hs : s.Keys) {row : FlagConfigRow}
    (hrow : s.ownsConfig B row.id = false) (flag : FeatureFlagRow)
    (environment : EnvironmentRow) :
    (loadCollections row flag environment).resultIn ((s.without B).seen choice)
      = (loadCollections row flag environment).resultIn (s.seen choice) := by
  have hconfig : ∀ id : UUID, decide (id = row.id) = true → s.ownsConfig B id = false :=
    fun id h => (of_decide_eq_true h).symm ▸ hrow
  have hparent : ∀ parent : Parent, decide (parent = .config row.id) = true →
      s.ownsParent B parent = false := fun parent h => (of_decide_eq_true h).symm ▸ hrow
  refine resultIn_selectAll_congr (filter_kept _ (fun item _ => hconfig item.configId))
    (fun variations _ => ?_)
  refine resultIn_selectAll_congr (filter_kept _ (fun item _ => hparent item.parent))
    (fun rollouts _ => ?_)
  refine resultIn_selectAll_congr (filter_kept _ (fun item _ => hparent item.parent))
    (fun stages _ => ?_)
  refine resultIn_selectAll_congr (filter_kept _ (fun item _ => hconfig item.configId))
    (fun rules hrules => ?_)
  have hrule : ∀ id ∈ rules.map TargetingRuleRow.id, s.ownsRule B id = false :=
    fun id hid => ownsRule_of_mem hs (fun item => hconfig item.configId) hrules hid
  refine resultIn_selectAll_congr (filter_kept _ (fun item _ h => hrule _ (of_decide_eq_true h)))
    (fun conditions _ => ?_)
  refine resultIn_selectAll_congr (filter_kept _ (fun item _ => ownsParent_of_isRuleOf hrule))
    (fun ruleRollouts _ => ?_)
  refine resultIn_selectAll_congr (filter_kept _ (fun item _ => ownsParent_of_isRuleOf hrule))
    (fun ruleStages _ => rfl)

/-- **Many configurations that stay keep their children.** -/
theorem resultIn_loadAllCollections_without (hs : s.Keys)
    {items : List (FlagConfigRow × FeatureFlagRow × EnvironmentRow)}
    (hitems : ∀ item ∈ items, s.ownsConfig B item.1.id = false) :
    (loadAllCollections items).resultIn ((s.without B).seen choice)
      = (loadAllCollections items).resultIn (s.seen choice) := by
  have hconfig : ∀ id : UUID, decide (id ∈ items.map (fun item => item.1.id)) = true →
      s.ownsConfig B id = false := by
    intro id h
    obtain ⟨item, hitem, rfl⟩ := List.mem_map.mp (of_decide_eq_true h)
    exact hitems item hitem
  have hparent : ∀ parent : Parent,
      parent.isConfigOf (items.map (fun item => item.1.id)) = true →
      s.ownsParent B parent = false := by
    intro parent h
    cases parent with
    | config id => exact hconfig id h
    | rule id => cases h
  refine resultIn_selectAll_congr (filter_kept _ (fun item _ => hconfig item.configId))
    (fun variations _ => ?_)
  refine resultIn_selectAll_congr (filter_kept _ (fun item _ => hparent item.parent))
    (fun rollouts _ => ?_)
  refine resultIn_selectAll_congr (filter_kept _ (fun item _ => hparent item.parent))
    (fun stages _ => ?_)
  refine resultIn_selectAll_congr (filter_kept _ (fun item _ => hconfig item.configId))
    (fun rules hrules => ?_)
  have hrule : ∀ id ∈ rules.map TargetingRuleRow.id, s.ownsRule B id = false :=
    fun id hid => ownsRule_of_mem hs (fun item => hconfig item.configId) hrules hid
  refine resultIn_selectAll_congr (filter_kept _ (fun item _ h => hrule _ (of_decide_eq_true h)))
    (fun conditions _ => ?_)
  refine resultIn_selectAll_congr (filter_kept _ (fun item _ => ownsParent_of_isRuleOf hrule))
    (fun ruleRollouts _ => ?_)
  refine resultIn_selectAll_congr (filter_kept _ (fun item _ => ownsParent_of_isRuleOf hrule))
    (fun ruleStages _ => rfl)

/-- The rows that a configuration is joined with stay with it. -/
theorem joined_without (hshares : s.SharesProjects) {row : FlagConfigRow} (hrow : row ∈ s.configs)
    (howns : s.ownsFlag B row.flagId = false) : (s.without B).joined row = s.joined row := by
  unfold Database.joined
  cases hflag : s.flags.find? (fun flag => flag.id = row.flagId) with
  | none =>
    have hkept : (s.without B).flags.find? (fun flag => flag.id = row.flagId) = none :=
      (find?_filter_eq (fun a ha => by rw [hflag] at ha; cases ha)).trans hflag
    rw [hkept]
    rfl
  | some flag =>
    have hproject : s.ownsProject B flag.projectId = false := by
      rw [Database.ownsFlag, hflag] at howns
      exact howns
    have hkept : (s.without B).flags.find? (fun flag => flag.id = row.flagId) = some flag := by
      refine (find?_filter_eq (fun a ha => ?_)).trans hflag
      rw [hflag] at ha
      cases ha
      rw [hproject]
      rfl
    have hflagMem := mem_and_of_find? hflag
    have henvironment : (s.without B).environments.find?
        (fun environment => environment.id = row.environmentId)
          = s.environments.find? (fun environment => environment.id = row.environmentId) := by
      refine find?_filter_eq (fun environment he => ?_)
      obtain ⟨hmem, hid⟩ := mem_and_of_find? he
      rw [← hshares row hrow flag hflagMem.1 hflagMem.2 environment hmem hid, hproject]
      rfl
    rw [hkept, henvironment]

/-- **A flag that stays is found with its configuration.** -/
theorem configOfFlag_without (hshares : s.SharesProjects) {flagId : UUID}
    (howns : s.ownsFlag B flagId = false) (environmentId : UUID) :
    (s.without B).configOfFlag flagId environmentId = s.configOfFlag flagId environmentId := by
  have hkept : (s.without B).configs.find? (fun row => row.flagId = flagId
      ∧ row.environmentId = environmentId) = s.configs.find? (fun row => row.flagId = flagId
      ∧ row.environmentId = environmentId) := by
    refine find?_filter_eq (fun row hrow => ?_)
    rw [(mem_and_of_find? hrow).2.1, howns]
    rfl
  unfold Database.configOfFlag
  rw [hkept]
  cases hfound : s.configs.find? (fun row => row.flagId = flagId
      ∧ row.environmentId = environmentId) with
  | none => rfl
  | some row =>
    obtain ⟨hmem, hflag, -⟩ := mem_and_of_find? hfound
    exact joined_without hshares hmem (hflag.symm ▸ howns)

/-- **The configurations of a project that stays.** -/
theorem configsOfEnvironment_without (hshares : s.SharesProjects) {projectId : UUID}
    (howns : s.ownsProject B projectId = false) (environmentId : UUID) :
    (s.without B).configsOfEnvironment projectId environmentId
      = s.configsOfEnvironment projectId environmentId := by
  show ((s.configs.filter (fun row => !s.ownsFlag B row.flagId)).filterMap
    (s.without B).joined).filter _ = (s.configs.filterMap s.joined).filter _
  rw [List.filter_filterMap, List.filter_filterMap, List.filterMap_filter]
  refine List.filterMap_congr (fun row hrow => ?_)
  cases hflag : s.ownsFlag B row.flagId with
  | false =>
    rw [Bool.not_false, if_pos rfl]
    exact congrArg (Option.filter _) (joined_without hshares hrow hflag)
  | true =>
    -- a flag of the organization is none of the project
    rw [Bool.not_true, if_neg Bool.false_ne_true]
    cases hjoined : s.joined row with
    | none => rfl
    | some item =>
      obtain ⟨row', flag, environment⟩ := item
      obtain ⟨rfl, hfound, -⟩ := joined_eq_some.mp hjoined
      rw [Database.ownsFlag, hfound] at hflag
      have hne : flag.projectId ≠ projectId := by
        intro heq
        have hsame : s.ownsProject B flag.projectId = true := hflag
        rw [heq, howns] at hsame
        cases hsame
      exact (Option.filter_some_neg (by simp [hne])).symm

end Reads

/-! ## What the endpoints find -/

/-- A flag has a configuration in an environment, and it is not archived. -/
def Database.shows (db : Database) (flagId environmentId : UUID) : Bool :=
  (db.configOfFlag flagId environmentId).any (fun item => item.2.1.archivedAt.isNone)

/-- A user is a member of the organization of a project, with a role that reads
flags. -/
def Database.mayRead (db : Database) (userId projectId : UUID) : Bool :=
  (db.projects.find? (fun row => row.id = projectId)).any (fun project =>
    (db.memberships.find? (fun row => row.organizationId = project.organizationId
      ∧ row.userId = userId)).any (fun membership =>
        (requireRolePermission membership.role .flagRead).isOk))

section Endpoints

variable {s : Database} {B userId : UUID} {choice : Choice}

/-- A flag that stays is got as without the organization. -/
theorem resultIn_getConfig_without (hs : s.Keys) (hshares : s.SharesProjects) {flagId : UUID}
    (howns : s.ownsFlag B flagId = false) (environmentId : UUID) :
    (getConfigByFlagEnvironment flagId environmentId).resultIn ((s.without B).seen choice)
      = (getConfigByFlagEnvironment flagId environmentId).resultIn (s.seen choice) := by
  unfold getConfigByFlagEnvironment
  rw [resultIn_select_bind, resultIn_select_bind, configOfFlag_without hshares howns]
  cases hfound : s.configOfFlag flagId environmentId with
  | none => rfl
  | some item =>
    obtain ⟨row, flag, environment⟩ := item
    obtain ⟨⟨hmem, hflag, -⟩, -⟩ := configOfFlag_eq_some hfound
    dsimp only
    rw [Prog.resultIn_bind, Prog.resultIn_bind, resultIn_loadCollections_without hs
      ((ownsConfig_eq hs hmem).trans (hflag.symm ▸ howns))]
    refine congrArg _ (funext (fun config => ?_))
    split
    · rfl
    · rfl

/-- What is loaded of a flag is what the main SELECT found. -/
theorem configOfFlag_of_getConfig {flagId environmentId : UUID} {config : LoadedConfig}
    (h : (getConfigByFlagEnvironment flagId environmentId).resultIn (s.seen choice)
      = .ok config) :
    ∃ environment, s.configOfFlag flagId environmentId
      = some (config.row, config.flag, environment) := by
  unfold getConfigByFlagEnvironment at h
  rw [resultIn_select_bind] at h
  cases hfound : s.configOfFlag flagId environmentId with
  | none =>
    rw [hfound] at h
    cases h
  | some item =>
    rw [hfound] at h
    obtain ⟨row, flag, environment⟩ := item
    obtain ⟨loaded, hload, hrow, hflag⟩ : ∃ loaded, (loadCollections row flag environment).resultIn
        (s.seen choice) = .ok loaded ∧ loaded.row = row ∧ loaded.flag = flag := ⟨_, rfl, rfl, rfl⟩
    dsimp only at h
    rw [Prog.resultIn_bind, hload] at h
    change Prog.resultIn (s.seen choice)
      (if loaded.flag.archivedAt.isSome = true then .raise flagNotFound else pure loaded) = _ at h
    split at h
    · cases h
    · cases h
      exact ⟨environment, by rw [hrow, hflag]⟩

/-- **A flag of the organization**: the endpoints on one flag say that it is not found,
or that its organization is not. -/
theorem resultIn_getConfig_owned {β : Type} (hs : s.Keys) (hout : s.Outsider B userId)
    {flagId : UUID} (howns : s.ownsFlag B flagId = true) (environmentId : UUID)
    (k : LoadedConfig → ProjectRow × MembershipRow → Tx β) :
    (getConfigByFlagEnvironment flagId environmentId >>= fun config =>
        authorizeProject (.ofUser userId) config.flag.projectId .flagRead >>= k config).resultIn
        (s.seen choice)
      = .error (if s.shows flagId environmentId then organizationNotFound else flagNotFound) := by
  unfold getConfigByFlagEnvironment Database.shows
  rw [Prog.resultIn_bind, resultIn_select_bind]
  cases hfound : s.configOfFlag flagId environmentId with
  | none => rfl
  | some item =>
    obtain ⟨row, flag, environment⟩ := item
    obtain ⟨⟨-, hrowFlag, -⟩, ⟨hflag, hid⟩, -⟩ := configOfFlag_eq_some hfound
    have hproject : s.ownsProject B flag.projectId = true := by
      rw [Database.ownsFlag, find?_eq_some_of_mem hs.flagIds hflag (hid.trans hrowFlag)] at howns
      exact howns
    obtain ⟨config, hload, hsame⟩ : ∃ config, (loadCollections row flag environment).resultIn
        (s.seen choice) = .ok config ∧ config.flag = flag := ⟨_, rfl, rfl⟩
    dsimp only
    rw [Prog.resultIn_bind, hload]
    show (Prog.resultIn (s.seen choice)
      (if config.flag.archivedAt.isSome = true then .raise flagNotFound else pure config)
      >>= _) = _
    rw [hsame]
    cases harchived : flag.archivedAt with
    | some time =>
      rw [Option.any_some, harchived]
      rfl
    | none =>
      rw [Option.any_some, harchived]
      show Prog.resultIn (s.seen choice) (authorizeProject (.ofUser userId) config.flag.projectId
        .flagRead >>= k config) = _
      rw [hsame, Prog.resultIn_bind, resultIn_authorizeProject choice hout, hproject]
      rfl

/-- Without the organization its flags are not found. -/
theorem resultIn_getConfig_gone {flagId : UUID} (howns : s.ownsFlag B flagId = true)
    (environmentId : UUID) :
    (getConfigByFlagEnvironment flagId environmentId).resultIn ((s.without B).seen choice)
      = .error flagNotFound := by
  have hgone : (s.without B).configs.find? (fun row => row.flagId = flagId
      ∧ row.environmentId = environmentId) = none := by
    refine List.find?_eq_none.mpr (fun row hrow h => ?_)
    have hkept := (List.mem_filter.mp hrow).2
    rw [(of_decide_eq_true h).1, howns] at hkept
    cases hkept
  unfold getConfigByFlagEnvironment Database.configOfFlag
  rw [resultIn_select_bind, hgone]
  rfl

/-- A configuration that is listed for a project that stays is one that stays. -/
theorem ownsConfig_of_listed (hs : s.Keys) {projectId environmentId : UUID}
    (howns : s.ownsProject B projectId = false)
    {item : FlagConfigRow × FeatureFlagRow × EnvironmentRow}
    (hitem : item ∈ s.configsOfEnvironment projectId environmentId) :
    s.ownsConfig B item.1.id = false := by
  obtain ⟨hmem, hselected⟩ := List.mem_filter.mp hitem
  obtain ⟨row, hrow, hjoined⟩ := List.mem_filterMap.mp hmem
  obtain ⟨row', flag, environment⟩ := item
  obtain ⟨rfl, hflag, -⟩ := joined_eq_some.mp hjoined
  rw [ownsConfig_eq hs hrow, Database.ownsFlag, hflag]
  show s.ownsProject B flag.projectId = false
  rw [(of_decide_eq_true hselected).1]
  exact howns

/-- The configurations of a project that stays are listed as without it. -/
theorem resultIn_getAll_without (hs : s.Keys) (hshares : s.SharesProjects) {projectId : UUID}
    (howns : s.ownsProject B projectId = false) (environmentId : UUID) :
    (getAllEnvironmentConfigs projectId environmentId).resultIn ((s.without B).seen choice)
      = (getAllEnvironmentConfigs projectId environmentId).resultIn (s.seen choice) := by
  refine resultIn_selectAll_congr (configsOfEnvironment_without hshares howns environmentId)
    (fun items hitems => ?_)
  rw [Prog.resultIn_bind, Prog.resultIn_bind, resultIn_loadAllCollections_without hs
    (fun item hitem => ownsConfig_of_listed hs howns (hitems.subset hitem))]
  refine congrArg _ (funext (fun configs => ?_))
  rw [Prog.resultIn_attempt, Prog.resultIn_attempt]

/-- The flags of what is listed are those of the rows that are listed. -/
theorem flagId_of_getAll {projectId environmentId : UUID} {configs : List FlagConfiguration}
    (h : (getAllEnvironmentConfigs projectId environmentId).resultIn (s.seen choice)
      = .ok configs) {c : FlagConfiguration} (hc : c ∈ configs) :
    ∃ item ∈ s.configsOfEnvironment projectId environmentId, c.flagId = item.1.flagId.str := by
  unfold getAllEnvironmentConfigs at h
  rw [Prog.resultIn_bind] at h
  change ((loadAllCollections (arrange choice.order
    (s.configsOfEnvironment projectId environmentId)) >>= fun configs =>
      Prog.attempt (configs.mapM compileConfiguration)).resultIn (s.seen choice)) = _ at h
  obtain ⟨loaded, hloaded, hrows⟩ : ∃ loaded, (loadAllCollections (arrange choice.order
      (s.configsOfEnvironment projectId environmentId))).resultIn (s.seen choice) = .ok loaded
      ∧ List.Forall₂ LoadedConfig.IsFor loaded
        (arrange choice.order (s.configsOfEnvironment projectId environmentId)) :=
    ⟨_, rfl, List.forall₂_map_left_iff.mpr
      (List.forall₂_same.mpr (fun _ _ => ⟨rfl, rfl, rfl⟩))⟩
  rw [Prog.resultIn_bind, hloaded] at h
  change Prog.resultIn (s.seen choice) (Prog.attempt (loaded.mapM compileConfiguration)) = _ at h
  rw [Prog.resultIn_attempt] at h
  obtain ⟨config, hconfig, hcompile⟩ :=
    (PermBy.of_forall₂ (mapM_eq_ok.mp h)).exists_left hc
  obtain ⟨item, hitem, hfor⟩ := (PermBy.of_forall₂ hrows).exists_right hconfig
  refine ⟨item, (arrange_perm _ _).subset hitem, ?_⟩
  rw [(describes_of_compile hcompile).flagId, hfor.1]

/-- The flags that are selected for what is listed stay. -/
theorem flags_without (hs : s.Keys) {projectId environmentId : UUID}
    (howns : s.ownsProject B projectId = false) {configs : List FlagConfiguration}
    (h : (getAllEnvironmentConfigs projectId environmentId).resultIn (s.seen choice)
      = .ok configs) :
    (s.without B).flags.filter (fun row => row.id.str ∈ configs.map (fun c => c.flagId))
      = s.flags.filter (fun row => row.id.str ∈ configs.map (fun c => c.flagId)) := by
  refine filter_kept _ (fun flag hflag hlisted => ?_)
  obtain ⟨c, hc, hid⟩ := List.mem_map.mp (of_decide_eq_true hlisted)
  obtain ⟨item, hitem, hflagId⟩ := flagId_of_getAll h hc
  have hsame : flag.id = item.1.flagId := UUID.str_injective (hid.symm.trans hflagId)
  obtain ⟨hmem, hselected⟩ := List.mem_filter.mp hitem
  obtain ⟨row, hrow, hjoined⟩ := List.mem_filterMap.mp hmem
  obtain ⟨row', flag', environment⟩ := item
  obtain ⟨rfl, hflag', -⟩ := joined_eq_some.mp hjoined
  have hfound := find?_eq_some_of_mem hs.flagIds hflag hsame
  rw [hflag'] at hfound
  cases hfound
  rw [(of_decide_eq_true hselected).1]
  exact howns

variable (userId choice) in
/-- Whether a user gets past the project. -/
theorem isOk_authorizeProject (db : Database) (projectId : UUID) :
    ((authorizeProject (.ofUser userId) projectId .flagRead).resultIn (db.seen choice)).isOk
      = db.mayRead userId projectId := by
  unfold authorizeProject Database.mayRead
  rw [resultIn_select_bind]
  cases db.projects.find? (fun row => row.id = projectId) with
  | none => rfl
  | some project =>
    dsimp only
    rw [if_neg (not_any_projectId_ofUser userId _), Prog.resultIn_bind, Option.any_some]
    unfold authorizeOrganization membershipFor
    rw [if_neg (kind_ofUser userId), Prog.resultIn_bind]
    have huser : (Principal.ofUser userId).userId = some userId := rfl
    rw [huser, resultIn_select_bind]
    cases db.memberships.find? (fun row => row.organizationId = project.organizationId
        ∧ row.userId = userId) with
    | none => rfl
    | some membership =>
      dsimp only
      rw [Option.any_some]
      show Except.isOk (Prog.resultIn (db.seen choice)
        (if (Principal.ofUser userId).kind = "MANAGEMENT" then _ else _) >>= _) = _
      rw [if_neg (kind_ofUser userId), Prog.resultIn_bind, Prog.resultIn_attempt]
      cases requireRolePermission membership.role .flagRead with
      | error e => rfl
      | ok _ => rfl

/-- Authorizing a project that stays. -/
theorem resultIn_authorizeProject_kept (hout : s.Outsider B userId) {projectId : UUID}
    (howns : s.ownsProject B projectId = false) (permission : Permission) :
    (authorizeProject (.ofUser userId) projectId permission).resultIn ((s.without B).seen choice)
      = (authorizeProject (.ofUser userId) projectId permission).resultIn (s.seen choice) := by
  rw [resultIn_authorizeProject choice hout, howns]
  rfl

/-- Authorizing an environment that stays. -/
theorem resultIn_authorizeEnvironment_kept (hout : s.Outsider B userId) {environmentId : UUID}
    (howns : s.ownsEnvironment B environmentId = false) (permission : Permission) :
    (authorizeEnvironment (.ofUser userId) environmentId permission).resultIn
        ((s.without B).seen choice)
      = (authorizeEnvironment (.ofUser userId) environmentId permission).resultIn
        (s.seen choice) := by
  rw [resultIn_authorizeEnvironment choice hout, howns]
  rfl

/-- The environment that is authorized is the one that was asked for. -/
theorem find?_of_authorizeEnvironment {principal : Principal} {environmentId : UUID}
    {permission : Permission} {found : EnvironmentRow × ProjectRow × MembershipRow}
    (h : (authorizeEnvironment principal environmentId permission).resultIn (s.seen choice)
      = .ok found) :
    s.environments.find? (fun row => row.id = environmentId) = some found.1 := by
  unfold authorizeEnvironment at h
  rw [resultIn_select_bind] at h
  cases hfound : s.environments.find? (fun row => row.id = environmentId) with
  | none =>
    rw [hfound] at h
    cases h
  | some environment =>
    rw [hfound] at h
    dsimp only at h
    split at h
    · cases h
    · rw [Prog.resultIn_bind] at h
      obtain ⟨project, -, h⟩ := bind_eq_ok.mp h
      cases h
      rfl

/-- The end of `list_flags`. -/
def flagResponses (configs : List FlagConfiguration) : Tx (List FlagResponse) := do
  let flags ← selectAll (fun db =>
    db.flags.filter (fun row => row.id.str ∈ configs.map (fun config => config.flagId)))
  Prog.attempt (configs.mapM (fun config =>
    match flags.find? (fun row => row.id.str = config.flagId) with
    | none => .error (.keyError config.flagId)
    | some flag => response flag config))

/-- And so are their flags. -/
theorem resultIn_flagResponses_without (hs : s.Keys) {projectId environmentId : UUID}
    (howns : s.ownsProject B projectId = false) {configs : List FlagConfiguration}
    (h : (getAllEnvironmentConfigs projectId environmentId).resultIn (s.seen choice)
      = .ok configs) :
    (flagResponses configs).resultIn ((s.without B).seen choice)
      = (flagResponses configs).resultIn (s.seen choice) :=
  resultIn_selectAll_congr (flags_without hs howns h) (fun flags _ => by
    rw [Prog.resultIn_attempt, Prog.resultIn_attempt])

/-! ## Whole requests -/

/-- **What a request of a user names is the organization's**, and it gets to see
that. -/
def ManagementRead.namesOwn (db : Database) (organizationId userId : UUID) :
    ManagementRead → Bool
  | .listFlags _ projectId environmentId => db.ownsProject organizationId projectId
    || (db.mayRead userId projectId && db.ownsEnvironment organizationId environmentId)
  | .getFlag _ flagId environmentId | .flagVersions _ flagId environmentId =>
    db.ownsFlag organizationId flagId && db.shows flagId environmentId
  | .exportConfiguration _ _ environmentId _ => db.ownsEnvironment organizationId environmentId
  | .listOrganizations _ | .listApiKeys _ _ | .listAuditEvents _ _ _ _ => false

/-- **How an answer compares with the answer without the organization**: where the
request names something hidden, the organization is not found, which nobody is told
without it, and otherwise both are the same. -/
def AnswersAs (hidden : Bool) (result alone : Except PyError Answer) : Prop :=
  if hidden then result = .error organizationNotFound ∧ alone ≠ .error organizationNotFound
  else result = alone

/-- Nothing else is told in these words. -/
theorem ne_organizationNotFound {status : ℕ} {code message : String}
    {details : List (String × Json)} (h : code ≠ "organization_not_found") :
    PyError.apiError status code message details ≠ organizationNotFound := by
  intro heq
  exact h (PyError.apiError.inj heq).2.1

/-- `list_flags`. -/
theorem answersAs_listFlags (hs : s.Consistent) (hshares : s.SharesProjects)
    (hout : s.Outsider B userId) (projectId environmentId : UUID) :
    AnswersAs ((ManagementRead.listFlags (.ofUser userId) projectId environmentId).namesOwn s B
        userId)
      ((ManagementRead.listFlags (.ofUser userId) projectId environmentId).program.resultIn
        (s.seen choice))
      ((ManagementRead.listFlags (.ofUser userId) projectId environmentId).program.resultIn
        ((s.without B).seen choice)) := by
  unfold ManagementRead.program ManagementRead.namesOwn listFlags
  dsimp only
  simp only [Prog.resultIn_bind]
  -- a project of the organization is refused before anything else is looked at
  cases hproject : s.ownsProject B projectId with
  | true =>
    rw [resultIn_authorizeProject choice hout, hproject,
      resultIn_authorizeProject_without choice hs.keys hproject]
    exact ⟨rfl, fun h => ne_organizationNotFound (by decide) (Except.error.inj h)⟩
  | false =>
    rw [resultIn_authorizeProject_kept hout hproject, Bool.false_or]
    have hread := isOk_authorizeProject userId choice s projectId
    cases hauthorized : (authorizeProject (.ofUser userId) projectId .flagRead).resultIn
        (s.seen choice) with
    | error e =>
      rw [hauthorized] at hread
      rw [← hread]
      exact rfl
    | ok found =>
      rw [hauthorized] at hread
      rw [← hread]
      -- an environment of it is refused next
      cases henvironment : s.ownsEnvironment B environmentId with
      | true =>
        rw [resultIn_authorizeEnvironment choice hout, henvironment,
          resultIn_authorizeEnvironment_without choice hs.keys henvironment]
        exact ⟨rfl, fun h => ne_organizationNotFound (by decide) (Except.error.inj h)⟩
      | false =>
        rw [resultIn_authorizeEnvironment_kept hout henvironment,
          resultIn_getAll_without hs.keys hshares hproject]
        show _ = _
        cases hauthorizedEnvironment : (authorizeEnvironment (.ofUser userId) environmentId
            .flagRead).resultIn (s.seen choice) with
        | error e => rfl
        | ok found' =>
          cases hall : (getAllEnvironmentConfigs projectId environmentId).resultIn
              (s.seen choice) with
          | error e => rfl
          | ok configs =>
            have hlast := resultIn_flagResponses_without hs.keys hproject hall
            exact congrArg (fun responses => responses >>= fun a => .ok (Answer.flags a))
              hlast.symm

variable (choice) in
/-- **The endpoints on one flag**, up to what they do with the configuration of a flag
the user may read. -/
theorem answersAs_flag (hs : s.Consistent) (hshares : s.SharesProjects)
    (hout : s.Outsider B userId) (flagId environmentId : UUID)
    (k : LoadedConfig → ProjectRow × MembershipRow → Tx Answer)
    (hk : ∀ config found, s.ownsConfig B config.row.id = false →
      (k config found).resultIn ((s.without B).seen choice)
        = (k config found).resultIn (s.seen choice)) :
    AnswersAs (s.ownsFlag B flagId && s.shows flagId environmentId)
      ((getConfigByFlagEnvironment flagId environmentId >>= fun config =>
        authorizeProject (.ofUser userId) config.flag.projectId .flagRead >>= k config).resultIn
          (s.seen choice))
      ((getConfigByFlagEnvironment flagId environmentId >>= fun config =>
        authorizeProject (.ofUser userId) config.flag.projectId .flagRead >>= k config).resultIn
          ((s.without B).seen choice)) := by
  cases howns : s.ownsFlag B flagId with
  | true =>
    rw [resultIn_getConfig_owned hs.keys hout howns, Prog.resultIn_bind,
      resultIn_getConfig_gone howns, Bool.true_and]
    cases s.shows flagId environmentId with
    | true => exact ⟨rfl, fun h => ne_organizationNotFound (by decide) (Except.error.inj h)⟩
    | false => exact rfl
  | false =>
    rw [Bool.false_and]
    show _ = _
    rw [Prog.resultIn_bind, Prog.resultIn_bind,
      resultIn_getConfig_without hs.keys hshares howns]
    cases hconfig : (getConfigByFlagEnvironment flagId environmentId).resultIn
        (s.seen choice) with
    | error e => rfl
    | ok config =>
      -- what was found is of the same project, and stays
      have hkept : s.ownsConfig B config.row.id = false
          ∧ s.ownsProject B config.flag.projectId = false := by
        obtain ⟨environment, hfound⟩ := configOfFlag_of_getConfig hconfig
        obtain ⟨⟨hmem, hflagId, -⟩, ⟨hflag, hid⟩, -⟩ := configOfFlag_eq_some hfound
        refine ⟨(ownsConfig_eq hs.keys hmem).trans (hflagId.symm ▸ howns), ?_⟩
        rw [Database.ownsFlag,
          find?_eq_some_of_mem hs.keys.flagIds hflag (hid.trans hflagId)] at howns
        exact howns
      show (authorizeProject _ _ _ >>= k config).resultIn _
        = (authorizeProject _ _ _ >>= k config).resultIn _
      rw [Prog.resultIn_bind, Prog.resultIn_bind, resultIn_authorizeProject_kept hout hkept.2]
      refine congrArg _ (funext (fun found => ?_))
      exact (hk config found hkept.1).symm

/-- `get_flag`. -/
theorem answersAs_getFlag (hs : s.Consistent) (hshares : s.SharesProjects)
    (hout : s.Outsider B userId) (flagId environmentId : UUID) :
    AnswersAs ((ManagementRead.getFlag (.ofUser userId) flagId environmentId).namesOwn s B userId)
      ((ManagementRead.getFlag (.ofUser userId) flagId environmentId).program.resultIn
        (s.seen choice))
      ((ManagementRead.getFlag (.ofUser userId) flagId environmentId).program.resultIn
        ((s.without B).seen choice)) := by
  have hflag := answersAs_flag choice hs hshares hout flagId environmentId
    (fun config _ => do
      let compiled ← Prog.attempt (compileConfiguration config)
      let result ← Prog.attempt (response config.flag compiled)
      pure (.flags [result]))
    (fun config _ _ => by simp only [Prog.resultIn_bind, Prog.resultIn_attempt]; rfl)
  unfold ManagementRead.program getFlagEndpoint
  simp only [Prog.bind_assoc]
  exact hflag

/-- `flag_versions`. -/
theorem answersAs_flagVersions (hs : s.Consistent) (hshares : s.SharesProjects)
    (hout : s.Outsider B userId) (flagId environmentId : UUID) :
    AnswersAs ((ManagementRead.flagVersions (.ofUser userId) flagId environmentId).namesOwn s B
        userId)
      ((ManagementRead.flagVersions (.ofUser userId) flagId environmentId).program.resultIn
        (s.seen choice))
      ((ManagementRead.flagVersions (.ofUser userId) flagId environmentId).program.resultIn
        ((s.without B).seen choice)) := by
  have hflag := answersAs_flag choice hs hshares hout flagId environmentId
    (fun config _ => do
      let versions ← selectAll (fun db =>
        db.versions.filter (fun row => row.configId = config.row.id))
      pure (.versions (sortedBy (fun row => OrderDual.toDual row.version) versions)))
    (fun config _ hkept => resultIn_selectAll_congr
      (filter_kept _ (fun row _ h => (of_decide_eq_true h).symm ▸ hkept)) (fun _ _ => rfl))
  unfold ManagementRead.program flagVersions
  simp only [Prog.bind_assoc]
  exact hflag

/-- `export_configuration`. -/
theorem answersAs_exportConfiguration (hs : s.Consistent) (hshares : s.SharesProjects)
    (hout : s.Outsider B userId) (projectId environmentId : UUID) (ifNoneMatch : Option String) :
    AnswersAs ((ManagementRead.exportConfiguration (.ofUser userId) projectId environmentId
        ifNoneMatch).namesOwn s B userId)
      ((ManagementRead.exportConfiguration (.ofUser userId) projectId environmentId
        ifNoneMatch).program.resultIn (s.seen choice))
      ((ManagementRead.exportConfiguration (.ofUser userId) projectId environmentId
        ifNoneMatch).program.resultIn ((s.without B).seen choice)) := by
  have hkind : ¬ (Principal.ofUser userId).kind = "SDK" := by
    show ¬ "USER" = "SDK"
    decide
  unfold ManagementRead.program ManagementRead.namesOwn exportConfiguration exportEnvironment
  dsimp only
  rw [if_neg hkind]
  simp only [Prog.resultIn_bind]
  cases henvironment : s.ownsEnvironment B environmentId with
  | true =>
    rw [resultIn_authorizeEnvironment choice hout, henvironment,
      resultIn_authorizeEnvironment_without choice hs.keys henvironment]
    exact ⟨rfl, fun h => ne_organizationNotFound (by decide) (Except.error.inj h)⟩
  | false =>
    rw [resultIn_authorizeEnvironment_kept hout henvironment]
    show _ = _
    cases hauthorized : (authorizeEnvironment (.ofUser userId) environmentId .flagRead).resultIn
        (s.seen choice) with
    | error e => rfl
    | ok found =>
      have hproject : s.ownsProject B found.1.projectId = false := by
        rw [Database.ownsEnvironment, find?_of_authorizeEnvironment hauthorized] at henvironment
        exact henvironment
      show (Prog.resultIn (s.seen choice) (if found.1.projectId ≠ projectId then _ else _) >>= _)
        = (Prog.resultIn ((s.without B).seen choice)
          (if found.1.projectId ≠ projectId then _ else _) >>= _)
      by_cases hsame : found.1.projectId = projectId
      · rw [if_neg (not_not.mpr hsame)]
        split
        · rfl
        · rw [Prog.resultIn_bind, Prog.resultIn_bind,
            resultIn_getAll_without hs.keys hshares (hsame ▸ hproject)]
          rfl
      · rw [if_pos hsame]
        rfl

/-- Another organization's rows are read after it is authorized. -/
theorem resultIn_authorized_rows {α : Type} (hout : s.Outsider B userId) (organizationId : UUID)
    (permission : Permission) {rows : Database → List α} (answer : List α → Answer)
    (hrows : organizationId ≠ B → rows (s.without B) = rows s) :
    (authorizeOrganization (.ofUser userId) organizationId permission >>= fun _ =>
        selectAll rows >>= fun found => pure (answer found)).resultIn (s.seen choice)
      = (authorizeOrganization (.ofUser userId) organizationId permission >>= fun _ =>
        selectAll rows >>= fun found => pure (answer found)).resultIn
          ((s.without B).seen choice) := by
  have hsame : (s.without B).memberships = s.memberships := rfl
  rw [Prog.resultIn_bind (s.seen choice), Prog.resultIn_bind ((s.without B).seen choice),
    resultIn_authorizeOrganization_congr choice hsame]
  by_cases hB : organizationId = B
  · rw [hB, resultIn_authorizeOrganization_outsider choice hout]
    rfl
  · refine congrArg _ (funext (fun membership => ?_))
    exact (resultIn_selectAll_congr (hrows hB) (fun _ _ => rfl)).symm

variable (choice) in
/-- **What a user can tell of an organization**: a request that names something of it
is told that the organization is not found, and any other request is answered as if
there were nothing of it. -/
theorem ManagementRead.answersAs (hs : s.Consistent) (hshares : s.SharesProjects)
    (hout : s.Outsider B userId) {request : ManagementRead}
    (hrequest : request.principal = .ofUser userId) :
    AnswersAs (request.namesOwn s B userId) (request.program.resultIn (s.seen choice))
      (request.program.resultIn ((s.without B).seen choice)) := by
  cases request with
  | listOrganizations principal =>
    obtain rfl : principal = .ofUser userId := hrequest
    exact rfl
  | listFlags principal projectId environmentId =>
    obtain rfl : principal = .ofUser userId := hrequest
    exact answersAs_listFlags hs hshares hout projectId environmentId
  | getFlag principal flagId environmentId =>
    obtain rfl : principal = .ofUser userId := hrequest
    exact answersAs_getFlag hs hshares hout flagId environmentId
  | flagVersions principal flagId environmentId =>
    obtain rfl : principal = .ofUser userId := hrequest
    exact answersAs_flagVersions hs hshares hout flagId environmentId
  | listApiKeys principal organizationId =>
    obtain rfl : principal = .ofUser userId := hrequest
    unfold ManagementRead.program CohortSwitch.listApiKeys
    simp only [Prog.bind_assoc]
    refine resultIn_authorized_rows hout organizationId .keyManage Answer.apiKeys (fun hne => ?_)
    refine filter_filter_of_imp _ (fun row _ h => ?_)
    exact decide_eq_true (fun heq => hne ((of_decide_eq_true h).symm.trans heq))
  | listAuditEvents principal organizationId limit before =>
    obtain rfl : principal = .ofUser userId := hrequest
    unfold ManagementRead.program CohortSwitch.listAuditEvents
    simp only [Prog.bind_assoc]
    refine resultIn_authorized_rows hout organizationId .auditRead
      (fun events => Answer.events ((sortedBy _ events).take limit)) (fun hne => ?_)
    refine filter_filter_of_imp _ (fun row _ h => ?_)
    exact decide_eq_true (fun heq => hne ((of_decide_eq_true h).1.symm.trans heq))
  | exportConfiguration principal projectId environmentId ifNoneMatch =>
    obtain rfl : principal = .ofUser userId := hrequest
    exact answersAs_exportConfiguration hs hshares hout projectId environmentId ifNoneMatch

end Endpoints

/-- **Foreign resources are told from absent ones** exactly where a request names
something that exists, as a resource of the organization, in one of the states and not
in the other. -/
theorem foreign_indistinguishable_iff {s s' : Database} (hs : s.Consistent)
    (hs' : s'.Consistent) (hshares : s.SharesProjects) (hshares' : s'.SharesProjects)
    {organizationId userId : UUID} (hout : s.Outsider organizationId userId)
    (hsame : s.without organizationId = s'.without organizationId) {request : ManagementRead}
    (hrequest : request.principal = .ofUser userId) (choice : Choice) :
    request.program.resultIn (s.seen choice) = request.program.resultIn (s'.seen choice)
      ↔ request.namesOwn s organizationId userId = request.namesOwn s' organizationId userId := by
  have hmemberships : s'.memberships = s.memberships :=
    (congrArg Database.memberships hsame).symm
  have hout' : s'.Outsider organizationId userId := fun row hrow =>
    hout row (hmemberships ▸ hrow)
  have h := ManagementRead.answersAs choice hs hshares hout hrequest
  have h' := ManagementRead.answersAs choice hs' hshares' hout' hrequest
  rw [hsame] at h
  cases hnames : request.namesOwn s organizationId userId with
  | true =>
    rw [hnames] at h
    cases hnames' : request.namesOwn s' organizationId userId with
    | true =>
      rw [hnames'] at h'
      exact iff_of_true (h.1.trans h'.1.symm) rfl
    | false =>
      rw [hnames'] at h'
      refine iff_of_false (fun heq => h.2 ?_) Bool.noConfusion
      exact h'.symm.trans (heq.symm.trans h.1)
  | false =>
    rw [hnames] at h
    cases hnames' : request.namesOwn s' organizationId userId with
    | true =>
      rw [hnames'] at h'
      refine iff_of_false (fun heq => h'.2 ?_) Bool.noConfusion
      exact h.symm.trans (heq.trans h'.1)
    | false =>
      rw [hnames'] at h'
      exact iff_of_true (h.trans h'.symm) rfl

/-- An organization with nothing in it. -/
def vacantState : Database := { Database.empty with organizations := [⟨⟨7⟩, "Acme", "acme"⟩] }

/-- The same organization with a flag. -/
def occupiedState : Database :=
  { vacantState with
    projects := [⟨⟨20⟩, ⟨7⟩, "Web", "web"⟩]
    environments := [⟨⟨30⟩, ⟨20⟩, "production", "Production", 1⟩]
    flags := [⟨⟨40⟩, ⟨20⟩, "banner", "Banner", "", .boolean, none⟩]
    configs := [⟨⟨41⟩, ⟨40⟩, ⟨30⟩, true, "on", 1, "salt"⟩] }

theorem sharesProjects_occupiedState : occupiedState.SharesProjects := by
  unfold Database.SharesProjects
  decide

theorem sharesProjects_vacantState : vacantState.SharesProjects :=
  fun _ hrow => absurd hrow List.not_mem_nil

theorem outsider_occupiedState : occupiedState.Outsider ⟨7⟩ ⟨1⟩ :=
  fun _ hrow => absurd hrow List.not_mem_nil

theorem foreign_indistinguishable_iff_other :
    (ManagementRead.getFlag (.ofUser ⟨1⟩) ⟨40⟩ ⟨31⟩).program.resultIn
        (occupiedState.seen (sampleChoice 0))
      = (ManagementRead.getFlag (.ofUser ⟨1⟩) ⟨40⟩ ⟨31⟩).program.resultIn
        (vacantState.seen (sampleChoice 0)) :=
  (foreign_indistinguishable_iff (by decide) (by decide) sharesProjects_occupiedState
    sharesProjects_vacantState outsider_occupiedState
    (rfl : occupiedState.without ⟨7⟩ = vacantState.without ⟨7⟩) rfl (sampleChoice 0)).mpr
    (by decide)

/-- **A flag of another organization shows**: its organization is what is not found. -/
theorem foreign_flag_shows : ¬ ∀ (s s' : Database), s.Consistent → s'.Consistent →
    s.SharesProjects → s'.SharesProjects → ∀ organizationId userId : UUID,
    s.Outsider organizationId userId → s.without organizationId = s'.without organizationId →
    ∀ request : ManagementRead, request.principal = .ofUser userId → ∀ choice : Choice,
      request.program.resultIn (s.seen choice) = request.program.resultIn (s'.seen choice) := by
  intro hall
  have hsame := hall occupiedState vacantState (by decide) (by decide)
    sharesProjects_occupiedState sharesProjects_vacantState ⟨7⟩ ⟨1⟩ outsider_occupiedState rfl
    (.getFlag (.ofUser ⟨1⟩) ⟨40⟩ ⟨30⟩) rfl (sampleChoice 0)
  have hforeign : (ManagementRead.getFlag (.ofUser ⟨1⟩) ⟨40⟩ ⟨30⟩).program.resultIn
      (occupiedState.seen (sampleChoice 0)) = .error organizationNotFound := rfl
  have habsent : (ManagementRead.getFlag (.ofUser ⟨1⟩) ⟨40⟩ ⟨30⟩).program.resultIn
      (vacantState.seen (sampleChoice 0)) = .error flagNotFound := rfl
  rw [hforeign, habsent] at hsame
  exact ne_organizationNotFound (by decide) (Except.error.inj hsame).symm

end CohortSwitch
