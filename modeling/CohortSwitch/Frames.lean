import CohortSwitch.Dictionaries
import CohortSwitch.JsonText
import CohortSwitch.Service

/-!
# Frames of a stream of events

What a writer publishes after its commit, and what a stream makes of it: a dictionary whose
`event` becomes the name of a frame and whose other items become its data. A frame is two
lines and an empty one. Its data is JSON, which determines where it ends
(`Json.dump_append_inj`), and its name is one of a few, none with a line break in it
(`Request.yields_named`); so a text determines the frames it was made of
(`Frame.flatMap_text_inj`).

A heartbeat is a comment line and no event, and is told from a frame by its first
character. The names have to be traced to the endpoints and to the payloads of scheduled
changes, since a name with a line break in it would end its line too early and
go on as something else.

The dictionary of a message is held as it was before it was dumped and loaded again. What
it has besides the name is what `messageFrame_message` lists: the flag, its version, and the
revision of the environment.
-/

namespace CohortSwitch

/-! ## Events -/

/-- The events the service publishes. -/
def publishedEvents : List String :=
  ["flag.created", "flag.updated", "flag.rollback", "flag.deleted", "rollout.changed"]

/-- The events of an outcome are some of these. -/
def Outcome.Named (outcome : Outcome) : Prop :=
  ∀ n ∈ outcome.notifications, n.event ∈ publishedEvents

/-- Nothing is published. -/
theorem named_nil (responses : List FlagResponse) : Outcome.Named ⟨responses, []⟩ :=
  fun _ hn => absurd hn List.not_mem_nil

/-- The event of an update is the one it was given. -/
theorem yields_named_commitUpdate {project : ProjectRow} {environment : EnvironmentRow}
    {flagKey event : String} (hevent : event ∈ publishedEvents) (result : FlagResponse)
    (pending : List Write) :
    (commitUpdate project environment flagKey event result pending).Yields Outcome.Named :=
  (Prog.yields_true _).bind (fun _ _ n hn => by
    rw [List.mem_singleton.mp hn]
    exact hevent)

/-- The event of a scheduled change is one of these. -/
theorem applyPayload_event {change : ScheduledChangeRow} {payload : FlagUpdate}
    {applied : FlagUpdate × String × String} (h : applyPayload change payload = .ok applied) :
    applied.2.2 ∈ publishedEvents := by
  unfold applyPayload at h
  split at h
  · cases h
    simp [publishedEvents]
  split at h
  · cases h
    simp [publishedEvents]
  split at h
  · obtain ⟨variation, -, h⟩ := bind_eq_ok.mp h
    cases h
    simp [publishedEvents]
  split at h
  · obtain ⟨value, -, h⟩ := bind_eq_ok.mp h
    obtain ⟨percentage, -, h⟩ := bind_eq_ok.mp h
    obtain ⟨_, -, h⟩ := bind_eq_ok.mp h
    obtain ⟨variation, -, h⟩ := bind_eq_ok.mp h
    obtain ⟨fallback, -, h⟩ := bind_eq_ok.mp h
    obtain ⟨first, -, h⟩ := bind_eq_ok.mp h
    obtain ⟨rest, -, h⟩ := bind_eq_ok.mp h
    cases h
    simp [publishedEvents]
  · cases h

/-- A round of the scheduler adds a named event, or none. -/
theorem yields_named_applyChange {batch : Batch} (change : ScheduledChangeRow)
    (h : ∀ n ∈ batch.notifications, n.event ∈ publishedEvents) :
    (applyChange batch change).Yields (fun next =>
      ∀ n ∈ next.notifications, n.event ∈ publishedEvents) := by
  refine (Prog.yields_true _).bind (fun configRow _ => ?_)
  cases configRow with
  | none => exact (Prog.yields_true _).bind (fun _ _ => h)
  | some configRow =>
    refine (Prog.yields_true _).bind (fun config _ => (Prog.yields_true _).bind
      (fun project _ => ?_))
    cases project with
    | none => exact (Prog.yields_true _).bind (fun _ _ => h)
    | some project =>
      refine (Prog.yields_true _).bind (fun compiled _ => (Prog.yields_true _).bind
        (fun current _ => ?_))
      refine (Prog.yields_attempt (fun _ h => h)).bind (fun applied happlied => ?_)
      refine (Prog.yields_true _).bind (fun out _ => (Prog.yields_true _).bind
        (fun _ _ => (Prog.yields_true _).bind (fun chosen _ n hn => ?_)))
      rcases List.mem_append.mp hn with hold | hnew
      · exact h n hold
      · rw [List.mem_singleton.mp hnew]
        exact applyPayload_event happlied

/-- And so does the loop. -/
theorem yields_named_applyChanges {batch : Batch} (changes : List ScheduledChangeRow)
    (h : ∀ n ∈ batch.notifications, n.event ∈ publishedEvents) :
    (applyChanges batch changes).Yields (fun next =>
      ∀ n ∈ next.notifications, n.event ∈ publishedEvents) := by
  induction changes generalizing batch with
  | nil => exact h
  | cons change rest ih =>
    exact (yields_named_applyChange change h).bind (fun next hnext => ih hnext)

/-- **Every event has one of five names.** -/
theorem Request.yields_named (request : Request) :
    request.program.Yields (fun outcome => outcome.Named) := by
  cases request with
  | createOrganization principal requestId payload =>
    show (CohortSwitch.createOrganization principal requestId payload).Yields _
    unfold CohortSwitch.createOrganization
    cases principal.userId with
    | none => exact trivial
    | some userId =>
      exact (Prog.yields_true _).bind (fun _ _ => (Prog.yields_true _).bind (fun _ _ =>
        (Prog.yields_true _).bind (fun _ _ => named_nil _)))
  | createProject principal requestId payload =>
    exact (Prog.yields_true _).bind (fun _ _ => (Prog.yields_true _).bind (fun _ _ =>
      (Prog.yields_true _).bind (fun _ _ => (Prog.yields_true _).bind (fun _ _ => named_nil _))))
  | createEnvironment principal requestId projectId payload =>
    exact (Prog.yields_true _).bind (fun _ _ => (Prog.yields_true _).bind (fun _ _ =>
      (Prog.yields_true _).bind (fun _ _ => (Prog.yields_true _).bind (fun _ _ => named_nil _))))
  | createKey principal requestId payload kind =>
    exact (Prog.yields_true _).bind (fun _ _ => (Prog.yields_true _).bind (fun _ _ => named_nil _))
  | createFeatureFlag principal requestId projectId payload =>
    refine (Prog.yields_true _).bind (fun project _ => (Prog.yields_true _).bind
      (fun environment _ => (Prog.yields_true _).bind (fun out _ => (Prog.yields_true _).bind
        (fun _ _ n hn => ?_))))
    rw [List.mem_singleton.mp hn]
    show "flag.created" ∈ publishedEvents
    decide
  | replaceFlagConfiguration principal requestId flagId payload =>
    refine (Prog.yields_true _).bind (fun found _ => ?_)
    cases found with
    | none => exact trivial
    | some flag =>
      exact (Prog.yields_true _).bind (fun project _ => (Prog.yields_true _).bind
        (fun environment _ => (Prog.yields_true _).bind (fun out _ =>
          yields_named_commitUpdate (by decide) out.1 out.2)))
  | addTargetingRule principal requestId flagId payload =>
    refine (Prog.yields_true _).bind (fun config _ => (Prog.yields_true _).bind
      (fun project _ => (Prog.yields_true _).bind (fun update _ => (Prog.yields_true _).bind
        (fun out _ => yields_named_commitUpdate ?_ out.1 out.2))))
    split <;> decide
  | rollbackFeatureFlag principal requestId flagId targetVersion payload =>
    refine (Prog.yields_true _).bind (fun found _ => ?_)
    cases found with
    | none => exact trivial
    | some flag =>
      exact (Prog.yields_true _).bind (fun project _ => (Prog.yields_true _).bind
        (fun environment _ => (Prog.yields_true _).bind (fun out _ =>
          yields_named_commitUpdate (by decide) out.1 out.2)))
  | archiveFlag principal requestId flagId =>
    refine (Prog.yields_true _).bind (fun found _ => ?_)
    cases found with
    | none => exact trivial
    | some flag =>
      dsimp only
      split
      · exact trivial
      · refine (Prog.yields_true _).bind (fun project _ => (Prog.yields_true _).bind
          (fun configs _ => (Prog.yields_true _).bind (fun chosen _ => (Prog.yields_true _).bind
            (fun touched _ => (Prog.yields_true _).bind (fun _ _ n hn => ?_)))))
        obtain ⟨item, -, rfl⟩ := List.mem_map.mp hn
        show "flag.deleted" ∈ publishedEvents
        decide
  | scheduleChange principal requestId flagId payload =>
    exact (Prog.yields_true _).bind (fun config _ => (Prog.yields_true _).bind (fun project _ =>
      (Prog.yields_true _).bind (fun _ _ => (Prog.yields_true _).bind (fun _ _ =>
        (Prog.yields_true _).bind (fun _ _ => (Prog.yields_true _).bind
          (fun _ _ => named_nil _))))))
  | applyDueChanges =>
    refine (Prog.yields_true _).bind (fun changes _ => ?_)
    refine (yields_named_applyChanges changes (fun _ hn => absurd hn List.not_mem_nil)).bind
      (fun batch hbatch => (Prog.yields_true _).bind (fun _ _ => hbatch))

/-! ## Frames -/

namespace Dict

variable {β : Type}

theorem nodup_without (d : Dict β) (key : String) :
    ((d.items.filter (fun item => item.1 ≠ key)).map Prod.fst).Nodup :=
  d.nodup.sublist (List.filter_sublist.map _)

/-- `d.pop(key, default)`, and what it leaves. -/
def pop (d : Dict β) (key : String) (default : β) : β × Dict β :=
  ((d.get? key).getD default, ⟨d.items.filter (fun item => item.1 ≠ key), d.nodup_without key⟩)

end Dict

/-- **What `invalidate_and_publish` publishes.** A message is held as the dictionary it was
dumped from: that is what its text loads to. -/
def Notification.message (n : Notification) : Dict Json :=
  .ofPairs [("event", .str n.event), ("flag_key", .str n.flagKey),
    ("config_version", .int n.version), ("revision", .int n.revision)]

/-- What is sent at one time. -/
inductive Frame where
  | event (name : String) (data : Dict Json)
  | heartbeat

/-- The text of a frame: `_sse(event, data)`. -/
def Frame.text : Frame → List Char
  | .event name data => "event: ".toList ++ (name.toList ++ '\n' :: ("data: ".toList
      ++ ((Json.obj data.items).dump ++ ['\n', '\n'])))
  | .heartbeat => ": heartbeat\n\n".toList

/-- A frame that is no heartbeat. -/
def Frame.isEvent : Frame → Bool
  | .event _ _ => true
  | .heartbeat => false

/-- The frame a stream opens with. -/
def connectedFrame : Frame :=
  .event "connected" (.ofPairs [("channel", .str "config"), ("retry_ms", .int 3000)])

/-- The frame a stream ends with where Redis fails. -/
def degradedFrame : Frame :=
  .event "degraded" (.ofPairs [("action", .str "refetch_config_snapshot")])

/-- What a stream makes of a message. -/
def messageFrame (data : Dict Json) : Frame :=
  let (event, rest) := data.pop "event" (.str "flag.updated")
  .event (pyStr event) rest

/-- **What a client is told**: the flag, its version and the revision. -/
theorem messageFrame_message (n : Notification) : ∃ data,
    messageFrame n.message = .event n.event data
      ∧ data.items = [("flag_key", .str n.flagKey), ("config_version", .int n.version),
        ("revision", .int n.revision)] := by
  refine ⟨(n.message.pop "event" (.str "flag.updated")).2, rfl, rfl⟩

/-- The name of a frame stands on one line. -/
def Frame.OnLine : Frame → Prop
  | .event name _ => '\n' ∉ name.toList
  | .heartbeat => True

/-- **A frame can be told from what comes after it.** -/
theorem Frame.text_append_inj {f f' : Frame} {rest rest' : List Char} (hf : f.OnLine)
    (hf' : f'.OnLine) (h : f.text ++ rest = f'.text ++ rest') : f = f' ∧ rest = rest' := by
  cases f with
  | heartbeat =>
    cases f' with
    | heartbeat => exact ⟨rfl, List.append_cancel_left h⟩
    | event name' data' => exact absurd (List.cons.inj h).1 (by decide)
  | event name data =>
    cases f' with
    | heartbeat => exact absurd (List.cons.inj h).1 (by decide)
    | event name' data' =>
      unfold Frame.text at h
      simp only [List.append_assoc, List.cons_append] at h
      obtain ⟨hname, hline⟩ := eq_of_append_of_forall (p := (· ≠ '\n'))
        (List.append_cancel_left h) (fun c hc heq => hf (heq ▸ hc)) (fun c hc heq => hf' (heq ▸ hc))
        (fun c hc => by cases hc; simp) (fun c hc => by cases hc; simp)
      have hends : ∀ rest, Json.Ends ('\n' :: rest) := Json.ends_cons (by decide)
      obtain ⟨hdata, hrest⟩ := Json.dump_append_inj _ _ (hends _) (hends _)
        (List.append_cancel_left (List.cons.inj hline).2)
      obtain ⟨rfl⟩ : data = data' := Dict.ext (Json.obj.inj hdata)
      exact ⟨by rw [String.toList_injective hname], (List.cons.inj (List.cons.inj hrest).2).2⟩

/-- **What was sent can be read off its text.** -/
theorem Frame.flatMap_text_inj {frames frames' : List Frame} (hframes : ∀ f ∈ frames, f.OnLine)
    (hframes' : ∀ f ∈ frames', f.OnLine)
    (h : frames.flatMap Frame.text = frames'.flatMap Frame.text) : frames = frames' := by
  have hne : ∀ (f : Frame) (rest : List Char), f.text ++ rest ≠ [] := by
    intro f rest
    cases f <;> exact List.cons_ne_nil _ _
  induction frames generalizing frames' with
  | nil =>
    cases frames' with
    | nil => rfl
    | cons f' rest' => exact absurd h.symm (hne _ _)
  | cons f rest ih =>
    cases frames' with
    | nil => exact absurd h (hne _ _)
    | cons f' rest' =>
      obtain ⟨hf, hrest⟩ := List.forall_mem_cons.mp hframes
      obtain ⟨hf', hrest'⟩ := List.forall_mem_cons.mp hframes'
      obtain ⟨rfl, htail⟩ := Frame.text_append_inj hf hf' h
      rw [ih hrest hrest' htail]

end CohortSwitch
