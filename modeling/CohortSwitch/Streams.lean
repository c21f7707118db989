import CohortSwitch.Evaluation
import CohortSwitch.Frames
import CohortSwitch.Freshness
import CohortSwitch.PubSub
import CohortSwitch.Publications

/-!
# Streams of events

`stream_config` subscribes to the channel of the environment of its key and sends a frame
for each message that comes; where none comes for a while it sends a heartbeat, and where
Redis fails it tells the client to fetch a snapshot and ends. `StreamingWorld` runs any
number of streams beside the service and its cache: whatever a writer publishes reaches the
subscriptions of its channel in the step that publishes it, and each stream goes on in steps
of its own.

`ConfigStream.Ok` is what every stream keeps, so a client is sent what its subscription has
taken, in that order (`streams_follow`).

## Three statements about clients

`streams_follow` says what is sent: the notifications of one environment, in the order in
which they were published. What a notification tells of its flag comes from the commit it
is about; that it was published at all is one more thing that is known of it
(`Publications`).

`fetch_after_event` says what a client can do with it. A version that was told is in the
database, but a load may be answered from an entry, so the statement is about the entries: a
writer has deleted the entry before it published, and what was set since was read after
the commit.

`told_of_text` is about the bytes. The frames can be read off the text, and what
they tell can be read off the frames, so two clients that have read the same text were told
the same.
-/

namespace CohortSwitch

/-! ## Streams -/

/-- How far a stream is. -/
inductive StreamPhase where
  | opening
  | live
  /-- Redis has failed, and the client was told. -/
  | degraded
  | left
deriving DecidableEq

/-- **A stream**: who opened it, its channel and its subscription, and what was sent. -/
structure ConfigStream where
  /-- Who opened it. -/
  principal : Principal
  /-- The channel of the environment of its key. -/
  channel : String
  /-- Its subscription, once it has one. -/
  subscription : Option (Subscription Notification String)
  /-- How far it is. -/
  phase : StreamPhase
  /-- What was sent, in order. -/
  sent : List Frame

/-- What happens to a stream. -/
inductive StreamEvent where
  | subscribe
  | receive
  /-- No message has come for as long as a stream waits. -/
  | wait
  /-- The connection to Redis is lost and made anew by its client library. -/
  | reconnect
  | redisError
  | disconnect
deriving DecidableEq

namespace ConfigStream

/-- **`events`**: one step of a stream after some notifications were published. -/
def step (published : List Notification) (stream : ConfigStream) :
    StreamEvent → Option ConfigStream
  | .subscribe =>
    match stream.phase with
    | .opening => some { stream with
        subscription := some (.new stream.channel published)
        phase := .live
        sent := stream.sent ++ [connectedFrame] }
    | _ => none
  | .receive =>
    match stream.phase with
    | .live => (stream.subscription.bind Subscription.take?).map (fun item => { stream with
        subscription := some item.2
        sent := stream.sent ++ [messageFrame item.1.message] })
    | _ => none
  | .wait =>
    match stream.phase with
    | .live => some { stream with sent := stream.sent ++ [.heartbeat] }
    | _ => none
  | .reconnect =>
    match stream.phase with
    | .live => some { stream with subscription := stream.subscription.map Subscription.lose }
    | _ => none
  | .redisError =>
    match stream.phase with
    | .opening | .live => some { stream with
        phase := .degraded
        sent := stream.sent ++ [degradedFrame] }
    | _ => none
  | .disconnect =>
    match stream.phase with
    | .opening | .live => some { stream with phase := .left }
    | _ => none

/-- What is published reaches the subscription. -/
def deliver (messages : List Notification) (stream : ConfigStream) : ConfigStream :=
  { stream with
    subscription := stream.subscription.map (fun s => s.deliver Notification.channel messages) }

/-- The notifications a stream has received. -/
def received (stream : ConfigStream) : List Notification :=
  (stream.subscription.map Subscription.taken).getD []

/-- **What a client is sent**, but for the heartbeats. -/
def events (stream : ConfigStream) : List Frame :=
  (stream.subscription.map (fun s =>
    connectedFrame :: s.taken.map (fun n => messageFrame n.message))).getD []
  ++ if stream.phase = .degraded then [degradedFrame] else []

/-- The text a client has read. -/
def text (stream : ConfigStream) : List Char := stream.sent.flatMap Frame.text

end ConfigStream

/-- **The service, its cache and the streams.** The notifications are published by the writers
of the cache, and the list of all that were published is theirs. -/
structure StreamingWorld where
  /-- The service and its cache. -/
  cached : CachedService
  /-- The streams, by the order in which they were opened. -/
  streams : List ConfigStream

/-- What happens: a step of the service or its cache, a client that comes, or a step of a
stream. -/
inductive StreamingAction where
  | cached (action : CachedAction)
  /-- A request for `stream_config`. -/
  | request (principal : Principal)
  | stream (id : ℕ) (event : StreamEvent)

namespace StreamingWorld

/-- The service before its first request. -/
def start : StreamingWorld := ⟨.start initial, []⟩

/-- **One step.** -/
def step (cacheTtlSeconds : ℕ) (w : StreamingWorld) : StreamingAction → Option StreamingWorld
  | .cached action =>
    ((configCache cacheTtlSeconds).step service w.cached action).map (fun cached =>
      ⟨cached, w.streams.map
        (ConfigStream.deliver (cached.published.drop w.cached.published.length))⟩)
  | .request principal =>
    some { w with streams := w.streams ++ ((streamConfig principal).toOption.map (fun channel =>
      ⟨principal, channel, none, .opening, []⟩)).toList }
  | .stream id event =>
    w.streams[id]?.bind (fun stream => (stream.step w.cached.published event).map (fun stream' =>
      { w with streams := w.streams.set id stream' }))

/-- **A run.** -/
def run (cacheTtlSeconds : ℕ) (w : StreamingWorld) : List StreamingAction → Option StreamingWorld
  | [] => some w
  | action :: rest => (w.step cacheTtlSeconds action).bind (fun w' => w'.run cacheTtlSeconds rest)

end StreamingWorld

/-- What the service and the cache do in a step. -/
def StreamingAction.cached? : StreamingAction → Option CachedAction
  | .cached action => some action
  | _ => none

/-! ## What every stream keeps -/

/-- **A stream in order.** -/
structure ConfigStream.Ok (published : List Notification) (stream : ConfigStream) : Prop where
  /-- Its channel is the one of its principal. -/
  channel : streamConfig stream.principal = .ok stream.channel
  /-- It has no subscription until it is opened. -/
  opening : stream.phase = .opening → stream.subscription = none
  /-- Its subscription follows what is published to its channel. -/
  follows : ∀ s ∈ stream.subscription,
    s.channel = stream.channel ∧ s.Follows Notification.channel published
  /-- It has sent what its subscription has taken. -/
  sent : stream.sent.filter Frame.isEvent = stream.events

section Streams

variable {published more : List Notification} {stream stream' : ConfigStream}

/-- What is published leaves it in order. -/
theorem ConfigStream.Ok.deliver (h : stream.Ok published) :
    (stream.deliver more).Ok (published ++ more) where
  channel := h.channel
  opening := fun hopening => by
    show stream.subscription.map _ = none
    rw [h.opening hopening]
    rfl
  follows := by
    intro s hs
    obtain ⟨s₀, hs₀, rfl⟩ := Option.map_eq_some_iff.mp hs
    obtain ⟨hchannel, hfollows⟩ := h.follows s₀ hs₀
    exact ⟨hchannel, hfollows.deliver⟩
  sent := by
    rw [show (stream.deliver more).sent = stream.sent from rfl, h.sent]
    unfold ConfigStream.events ConfigStream.deliver
    cases stream.subscription <;> rfl

/-- **One step of a stream** keeps it in order. -/
theorem ConfigStream.Ok.step {event : StreamEvent} (h : stream.Ok published)
    (hstep : stream.step published event = some stream') :
    stream'.Ok published ∧ stream'.principal = stream.principal := by
  obtain ⟨principal, channel, subscription, phase, sent⟩ := stream
  obtain ⟨hchannel, hopening, hfollows, hsent⟩ := h
  have hmore : ∀ frames : List Frame, (sent ++ frames).filter Frame.isEvent
      = sent.filter Frame.isEvent ++ frames.filter Frame.isEvent := fun _ => List.filter_append ..
  -- until Redis fails it has sent a frame for each message it has taken
  have hdone : ∀ s ∈ subscription, ∀ phase' ≠ .degraded,
      ConfigStream.events ⟨principal, channel, subscription, phase', sent⟩
        = connectedFrame :: s.taken.map (fun n => messageFrame n.message) := by
    intro s hs phase' hphase
    unfold ConfigStream.events
    rw [Option.mem_def.mp hs, if_neg hphase, List.append_nil]
    rfl
  cases event with
  | subscribe =>
    cases phase with
    | opening =>
      cases hstep
      obtain rfl : subscription = none := hopening rfl
      refine ⟨⟨hchannel, fun hphase => (by cases hphase), fun s hs => ?_, ?_⟩, rfl⟩
      · cases hs
        exact ⟨rfl, Subscription.follows_new channel published⟩
      · show (sent ++ [connectedFrame]).filter Frame.isEvent = _
        rw [hmore, hsent]
        rfl
    | _ => cases hstep
  | receive =>
    cases phase with
    | live =>
      obtain ⟨item, hitem, rfl⟩ := Option.map_eq_some_iff.mp hstep
      obtain ⟨s, hs, htake⟩ := Option.bind_eq_some_iff.mp hitem
      obtain ⟨hsame, hfollow⟩ := hfollows s hs
      obtain ⟨hchannel', -, -, htaken, -⟩ := Subscription.take?_eq_some htake
      refine ⟨⟨hchannel, fun hphase => (by cases hphase), fun s' hs' => ?_, ?_⟩, rfl⟩
      · cases hs'
        exact ⟨hchannel'.trans hsame, hfollow.take htake⟩
      · show (sent ++ [messageFrame item.1.message]).filter Frame.isEvent
          = connectedFrame :: item.2.taken.map (fun n => messageFrame n.message) ++ []
        rw [hmore, hsent, hdone s hs .live (by decide), htaken, List.map_append, List.append_nil]
        rfl
    | _ => cases hstep
  | wait =>
    cases phase with
    | live =>
      cases hstep
      refine ⟨⟨hchannel, hopening, hfollows, ?_⟩, rfl⟩
      show (sent ++ [Frame.heartbeat]).filter Frame.isEvent = _
      rw [hmore]
      exact (List.append_nil _).trans hsent
    | _ => cases hstep
  | reconnect =>
    cases phase with
    | live =>
      cases hstep
      refine ⟨⟨hchannel, fun hphase => (by cases hphase), fun s' hs' => ?_, ?_⟩, rfl⟩
      · obtain ⟨s, hs, rfl⟩ := Option.map_eq_some_iff.mp hs'
        obtain ⟨hsame, hfollow⟩ := hfollows s hs
        exact ⟨hsame, hfollow.lose⟩
      · rw [hsent]
        cases subscription <;> rfl
    | _ => cases hstep
  | redisError =>
    -- the frame that says so is the last one
    have hfails : ∀ phase', phase' ≠ .degraded →
        sent.filter Frame.isEvent
          = ConfigStream.events ⟨principal, channel, subscription, phase', sent⟩ →
        (sent ++ [degradedFrame]).filter Frame.isEvent = ConfigStream.events
          ⟨principal, channel, subscription, .degraded, sent ++ [degradedFrame]⟩ := by
      intro phase' hphase hsent
      rw [hmore, hsent]
      unfold ConfigStream.events
      rw [if_neg hphase, if_pos rfl, List.append_nil]
      rfl
    cases phase with
    | opening =>
      cases hstep
      exact ⟨⟨hchannel, fun hphase => (by cases hphase), hfollows,
        hfails .opening (by decide) hsent⟩, rfl⟩
    | live =>
      cases hstep
      exact ⟨⟨hchannel, fun hphase => (by cases hphase), hfollows,
        hfails .live (by decide) hsent⟩, rfl⟩
    | _ => cases hstep
  | disconnect =>
    cases phase with
    | opening =>
      cases hstep
      exact ⟨⟨hchannel, fun hphase => (by cases hphase), hfollows, hsent⟩, rfl⟩
    | live =>
      cases hstep
      exact ⟨⟨hchannel, fun hphase => (by cases hphase), hfollows, hsent⟩, rfl⟩
    | _ => cases hstep

end Streams

/-- **The world of the streams is in good order.** -/
structure StreamingWorld.Good (cacheTtlSeconds : ℕ) (w : StreamingWorld) : Prop where
  /-- Whatever is published some commit has published. -/
  publishes : w.cached.Publishes (configCache cacheTtlSeconds)
  /-- Every stream is in order. -/
  streams : ∀ stream ∈ w.streams, stream.Ok w.cached.published

section Runs

variable {cacheTtlSeconds : ℕ} {w w' : StreamingWorld}

/-- Nobody streams at first. -/
theorem StreamingWorld.good_start : StreamingWorld.start.Good cacheTtlSeconds :=
  ⟨CacheAside.CacheWorld.publishes_start initial, fun _ hs => absurd hs List.not_mem_nil⟩

/-- **One step** keeps it in good order, and the service and the cache take a step of their
own or none. -/
theorem StreamingWorld.Good.step {action : StreamingAction} (h : w.Good cacheTtlSeconds)
    (hstep : w.step cacheTtlSeconds action = some w') : w'.Good cacheTtlSeconds
      ∧ (configCache cacheTtlSeconds).run service w.cached action.cached?.toList
        = some w'.cached := by
  cases action with
  | cached action =>
    obtain ⟨cached, hcached, rfl⟩ := Option.map_eq_some_iff.mp hstep
    obtain ⟨hpublishes, published, hpublished⟩ := h.publishes.step hcached
    refine ⟨⟨hpublishes, fun stream hs => ?_⟩, ?_⟩
    · obtain ⟨before, hbefore, rfl⟩ := List.mem_map.mp hs
      show ConfigStream.Ok cached.published _
      rw [← hpublished, List.drop_left]
      exact (h.streams before hbefore).deliver
    · show ((configCache cacheTtlSeconds).step service w.cached action).bind _ = some cached
      rw [hcached]
      rfl
  | request principal =>
    cases hstep
    refine ⟨⟨h.publishes, fun stream hs => ?_⟩, rfl⟩
    rcases List.mem_append.mp hs with hs | hs
    · exact h.streams stream hs
    · obtain ⟨channel, hchannel, rfl⟩ := Option.map_eq_some_iff.mp (Option.mem_toList.mp hs)
      exact ⟨eq_ok_of_toOption hchannel, fun _ => rfl, fun _ hs => (by cases hs), rfl⟩
  | stream id event =>
    obtain ⟨stream, hstream, hstep⟩ := Option.bind_eq_some_iff.mp hstep
    obtain ⟨stream', hstream', rfl⟩ := Option.map_eq_some_iff.mp hstep
    refine ⟨⟨h.publishes, fun other hother => ?_⟩, rfl⟩
    rcases List.mem_or_eq_of_mem_set hother with hold | rfl
    · exact h.streams other hold
    · exact ((h.streams stream (List.mem_of_getElem? hstream)).step hstream').1

/-- **A run** keeps it in good order, and the service and the cache make a run of their
own. -/
theorem StreamingWorld.Good.run {actions : List StreamingAction} (h : w.Good cacheTtlSeconds)
    (hrun : w.run cacheTtlSeconds actions = some w') : w'.Good cacheTtlSeconds
      ∧ (configCache cacheTtlSeconds).run service w.cached
        (actions.filterMap StreamingAction.cached?) = some w'.cached := by
  induction actions generalizing w with
  | nil =>
    cases hrun
    exact ⟨h, rfl⟩
  | cons action rest ih =>
    obtain ⟨w₁, hstep, hrest⟩ := Option.bind_eq_some_iff.mp hrun
    obtain ⟨hgood, hcached⟩ := h.step hstep
    obtain ⟨hgood', hcached'⟩ := ih hgood hrest
    refine ⟨hgood', ?_⟩
    cases hserved : action.cached? with
    | none =>
      rw [hserved] at hcached
      have hsame : w.cached = w₁.cached := Option.some.inj hcached
      rw [List.filterMap_cons_none hserved, hsame]
      exact hcached'
    | some served =>
      rw [hserved] at hcached
      obtain ⟨cached, hone, hnone⟩ := Option.bind_eq_some_iff.mp hcached
      obtain rfl : cached = w₁.cached := Option.some.inj hnone
      rw [List.filterMap_cons_some hserved]
      show ((configCache cacheTtlSeconds).step service w.cached served).bind _ = _
      rw [hone]
      exact hcached'

/-! ## What a client is told -/

/-- A notification is for an environment. -/
def Notification.IsFor (projectId environmentId : UUID) (n : Notification) : Prop :=
  n.projectId = projectId ∧ n.environmentId = environmentId

instance (projectId environmentId : UUID) :
    DecidablePred (Notification.IsFor projectId environmentId) :=
  fun _ => inferInstanceAs (Decidable (_ ∧ _))

/-- The notifications for an environment. -/
def notificationsFor (projectId environmentId : UUID) (notifications : List Notification) :
    List Notification :=
  notifications.filter (fun n => n.IsFor projectId environmentId)

/-- The channel of an environment carries the notifications for it. -/
theorem messagesOn_eventsChannel (projectId environmentId : UUID)
    (notifications : List Notification) :
    Subscription.messagesOn Notification.channel (eventsChannel projectId environmentId)
      notifications = notificationsFor projectId environmentId notifications := by
  refine List.filter_congr (fun n _ => decide_eq_decide.mpr ⟨fun h => ?_, fun h => ?_⟩)
  · exact eventsChannel_injective h
  · show eventsChannel n.projectId n.environmentId = _
    rw [h.1, h.2]

/-- A stream is of the environment of its key. -/
theorem streamConfig_eq_ok {principal : Principal} {channel : String}
    (h : streamConfig principal = .ok channel) : ∃ projectId environmentId,
      keyScope principal "flags:read" = .ok (projectId, environmentId)
        ∧ channel = eventsChannel projectId environmentId := by
  obtain ⟨ids, hids, h⟩ := bind_eq_ok.mp h
  cases h
  exact ⟨ids.1, ids.2, hids, rfl⟩

variable {actions : List StreamingAction}
  (hrun : StreamingWorld.start.run cacheTtlSeconds actions = some w) {stream : ConfigStream}
  (hstream : stream ∈ w.streams)

include hrun hstream

/-- What a stream has received was published. -/
theorem published_of_received {n : Notification} (hn : n ∈ stream.received) :
    n ∈ w.cached.published ∧ n.channel = stream.channel := by
  have hok := (StreamingWorld.good_start.run hrun).1.streams stream hstream
  unfold ConfigStream.received at hn
  cases hsubscription : stream.subscription with
  | none =>
    rw [hsubscription] at hn
    cases hn
  | some s =>
    rw [hsubscription] at hn
    obtain ⟨hchannel, hfollows⟩ := hok.follows s hsubscription
    exact hchannel ▸ hfollows.mem_taken hn

/-- **A stream tells what was published.** Whatever the service, the cache and the other
streams do, a client is sent the opening frame and then one frame for each notification for
the environment of its key that was published since it subscribed: in the order in which they
were published, none twice, and none passed over while the connection to Redis holds. Where
Redis fails it is told last. Each notification is one of a commit, and what it tells of
its flag is so in the state that commit left. -/
theorem streams_follow : ∃ projectId environmentId,
    keyScope stream.principal "flags:read" = .ok (projectId, environmentId)
    ∧ stream.sent.filter Frame.isEvent = stream.events
    ∧ (∀ s ∈ stream.subscription,
      s.taken.Sublist
        (notificationsFor projectId environmentId (w.cached.published.drop s.since))
      ∧ (s.losses = 0 → s.taken
        <+: notificationsFor projectId environmentId (w.cached.published.drop s.since)))
    ∧ ∀ n ∈ stream.received, n.IsFor projectId environmentId
      ∧ ∃ commit ∈ w.cached.commits, n ∈ commit.result.notifications
        ∧ commit.state.Told n := by
  obtain ⟨hgood, hcached⟩ := StreamingWorld.good_start.run hrun
  have hok := hgood.streams stream hstream
  obtain ⟨projectId, environmentId, hscope, hchannel⟩ := streamConfig_eq_ok hok.channel
  refine ⟨projectId, environmentId, hscope, hok.sent, fun s hs => ?_, fun n hn => ?_⟩
  · obtain ⟨hsame, hfollows⟩ := hok.follows s hs
    rw [← messagesOn_eventsChannel, ← hchannel, ← hsame]
    exact ⟨hfollows.taken_sublist, hfollows.taken_prefix⟩
  · obtain ⟨hpublished, hsame⟩ := published_of_received hrun hstream hn
    obtain ⟨commit, hcommit, hfrom⟩ := hgood.publishes.published n hpublished
    have hcache := CacheAside.good_of_run (configCache_sound cacheTtlSeconds)
      (CacheAside.CacheWorld.good_start good_initial) hcached
    exact ⟨eventsChannel_injective (hsame.trans hchannel), commit, hcommit, hfrom.own,
      hcache.notes commit hcommit n (Or.inr hfrom.returned)⟩

/-- **Whoever is told of a version and loads the flag gets that version** or a later one.
Redis may fail at any step, writers may crash, reads may be torn and the stream may have
lost messages before: it is enough that no entry is set after the deletion for a commit that
its read came before. -/
theorem fetch_after_event {actions' : List StreamingAction}
    (hfresh : (configCache cacheTtlSeconds).Meets service CacheAside.StoresFresh (.start initial)
      (actions.filterMap StreamingAction.cached?))
    (hfresh' : (configCache cacheTtlSeconds).Meets service CacheAside.StoresFresh w.cached
      (actions'.filterMap StreamingAction.cached?))
    (hrun' : w.run cacheTtlSeconds actions' = some w') {n : Notification}
    (hn : n ∈ stream.received) {id : ℕ} (hlater : w.cached.loads.length ≤ id)
    {load : CacheAside.Load Database Write Row Choice PyError LoadRequest ConfigAddress
      FlagConfiguration} (hload : w'.cached.loads[id]? = some load)
    (hrequest : load.request = .configuration n.projectId n.environmentId n.flagKey)
    {found : List (ConfigAddress × FlagConfiguration)}
    (hresult : load.phase.result? = some (.ok found)) :
    ∃ c : FlagConfiguration, found = [(n.address, c)] ∧ n.version ≤ c.configVersion := by
  obtain ⟨hgood, hcached⟩ := StreamingWorld.good_start.run hrun
  obtain ⟨-, hcached'⟩ := hgood.run hrun'
  obtain ⟨commit, -, htold, hserved⟩ := CacheAside.fresh_after_publication
    (configCache_sound cacheTtlSeconds) good_initial hfresh hfresh' hcached hcached'
    (published_of_received hrun hstream hn).1
  have hserved := hserved id load (.ok found) hlater hload hresult
  rw [hrequest] at hserved
  have hbetween : LoadedBetween commit.state w'.cached.server.committed False n.address
      (.ok found) := loadedBetween_of_served hserved
  cases hbetween with
  | found c u row flag consistent after before finds =>
    -- an archived flag would not have been found
    rcases htold.cases with harchived | hversion
    · exact absurd finds (not_findsVersion_of_archived consistent after harchived)
    · exact ⟨c, rfl, version_le_of_findsVersion consistent after hversion finds⟩

end Runs

/-! ## Reading a stream -/

/-- What a notification tells: the event, the flag, the version and the revision. -/
def Notification.told (n : Notification) : String × List (String × Json) :=
  (n.event, [("flag_key", .str n.flagKey), ("config_version", .int n.version),
    ("revision", .int n.revision)])

/-- What a frame tells of a flag. -/
def Frame.told? : Frame → Option (String × List (String × Json))
  | .event name data => if name ∈ publishedEvents then some (name, data.items) else none
  | .heartbeat => none

section Texts

variable {cacheTtlSeconds : ℕ} {w : StreamingWorld} {actions : List StreamingAction}
  (hrun : StreamingWorld.start.run cacheTtlSeconds actions = some w) {stream : ConfigStream}
  (hstream : stream ∈ w.streams)

include hrun hstream

/-- Every notification a stream receives has one of the names. -/
theorem event_of_received {n : Notification} (hn : n ∈ stream.received) :
    n.event ∈ publishedEvents := by
  obtain ⟨hgood, hcached⟩ := StreamingWorld.good_start.run hrun
  have hlog : ∀ entry ∈ w.cached.server.log, entry.2.Named :=
    System.run_yields (P := fun _ outcome => outcome.Named) Request.yields_named
      (fun _ h => absurd h List.not_mem_nil) (fun _ h => absurd h List.not_mem_nil)
      (CacheAside.server_of_run hcached)
  obtain ⟨commit, hcommit, hfrom⟩ :=
    hgood.publishes.published n (published_of_received hrun hstream hn).1
  obtain ⟨request, hentry⟩ := hgood.publishes.logged commit hcommit
  exact hlog _ hentry n hfrom.own

/-- **The frames of a stream**: those of its own, whose names are no events of a flag, and
those of the notifications it has received. -/
theorem event_cases {f : Frame} (hf : f ∈ stream.sent) : f = .heartbeat ∨ f = connectedFrame
    ∨ f = degradedFrame ∨ ∃ n ∈ stream.received, f = messageFrame n.message := by
  have hok := (StreamingWorld.good_start.run hrun).1.streams stream hstream
  cases f with
  | heartbeat => exact Or.inl rfl
  | event name data =>
    have hevent : Frame.event name data ∈ stream.events :=
      hok.sent ▸ List.mem_filter.mpr ⟨hf, rfl⟩
    rcases List.mem_append.mp hevent with hevent | hevent
    · unfold ConfigStream.received
      cases hsubscription : stream.subscription with
      | none =>
        rw [hsubscription] at hevent
        cases hevent
      | some s =>
        rw [hsubscription] at hevent
        rcases List.mem_cons.mp hevent with hopening | hevent
        · exact Or.inr (Or.inl hopening)
        · obtain ⟨n, hn, heq⟩ := List.mem_map.mp hevent
          exact Or.inr (Or.inr (Or.inr ⟨n, hn, heq.symm⟩))
    · split at hevent
      · exact Or.inr (Or.inr (Or.inl (List.mem_singleton.mp hevent)))
      · cases hevent

/-- Every frame stands on its lines. -/
theorem onLine_of_sent : ∀ f ∈ stream.sent, f.OnLine := by
  intro f hf
  have hlines : ∀ name ∈ publishedEvents, '\n' ∉ name.toList := by decide
  rcases event_cases hrun hstream hf with rfl | rfl | rfl | ⟨n, hn, rfl⟩
  · exact trivial
  · show '\n' ∉ "connected".toList
    decide
  · show '\n' ∉ "degraded".toList
    decide
  · obtain ⟨data, hframe, -⟩ := messageFrame_message n
    rw [hframe]
    exact hlines _ (event_of_received hrun hstream hn)

/-- What the frames of a stream tell is what it has received. -/
theorem told_of_sent :
    stream.sent.filterMap Frame.told? = stream.received.map Notification.told := by
  have hok := (StreamingWorld.good_start.run hrun).1.streams stream hstream
  have hall : stream.sent.filterMap Frame.told?
      = (stream.sent.filter Frame.isEvent).filterMap Frame.told? := by
    rw [List.filterMap_filter]
    refine List.filterMap_congr (fun f _ => ?_)
    cases f <;> rfl
  have hown : [degradedFrame].filterMap Frame.told? = [] := by decide
  have hlast : (if stream.phase = .degraded then [degradedFrame] else []).filterMap Frame.told?
      = [] := by
    split
    · exact hown
    · rfl
  rw [hall, hok.sent]
  unfold ConfigStream.events
  rw [List.filterMap_append, hlast, List.append_nil]
  have hnames : ∀ n ∈ stream.received, n.event ∈ publishedEvents :=
    fun n => event_of_received hrun hstream
  unfold ConfigStream.received at hnames ⊢
  cases hsubscription : stream.subscription with
  | none => rfl
  | some s =>
    rw [hsubscription] at hnames
    show (s.taken.map (fun n => messageFrame n.message)).filterMap Frame.told? = s.taken.map _
    rw [List.filterMap_map, ← List.filterMap_eq_map]
    refine List.filterMap_congr (fun n hn => ?_)
    obtain ⟨data, hframe, hitems⟩ := messageFrame_message n
    show (messageFrame n.message).told? = some n.told
    rw [hframe]
    show (if n.event ∈ publishedEvents then some (n.event, data.items) else none) = _
    rw [if_pos (hnames n hn), hitems]
    rfl

end Texts

/-- **A text is told from any other.** Two clients that have read the same text, of any two
streams of any two runs, were sent the same frames: the same events, of the same flags with
the same versions and revisions, in the same order. -/
theorem told_of_text {cacheTtlSeconds cacheTtlSeconds' : ℕ} {w w' : StreamingWorld}
    {actions actions' : List StreamingAction}
    (hrun : StreamingWorld.start.run cacheTtlSeconds actions = some w)
    (hrun' : StreamingWorld.start.run cacheTtlSeconds' actions' = some w')
    {stream stream' : ConfigStream} (hstream : stream ∈ w.streams) (hstream' : stream' ∈ w'.streams)
    (htext : stream.text = stream'.text) : stream.sent = stream'.sent
      ∧ stream.received.map Notification.told = stream'.received.map Notification.told := by
  have hsent := Frame.flatMap_text_inj (onLine_of_sent hrun hstream)
    (onLine_of_sent hrun' hstream') htext
  refine ⟨hsent, ?_⟩
  rw [← told_of_sent hrun hstream, ← told_of_sent hrun' hstream', hsent]

/-! ## A client of the sample flag -/

/-- A key of the sample environment that may read. -/
def sampleReader : Principal := ⟨none, some ⟨60⟩, "SDK", some ⟨10⟩, some ⟨20⟩, some ⟨30⟩,
  ["flags:read"]⟩

/-- A client subscribes, the sample flag is created and replaced, and the client receives
both events. -/
def sampleStreaming : List StreamingAction :=
  [.request sampleReader, .stream 0 .subscribe]
  ++ (served sampleFlag).map .cached ++ [.cached (.delete 3), .cached (.publish 3)]
  ++ [.stream 0 .receive, .stream 0 .wait]
  ++ (served sampleReplacement).map .cached ++ [.cached (.delete 4), .cached (.publish 4)]
  ++ [.stream 0 .receive]

/-- The versions the first stream was told of. -/
def sampleReceived (w : StreamingWorld) : Option (List ℕ) :=
  w.streams[0]?.map (fun stream => stream.received.map Notification.version)

theorem streams_follow_sample : ∃ w stream projectId environmentId,
    StreamingWorld.start.run 60 sampleStreaming = some w ∧ stream ∈ w.streams
    ∧ stream.received.map Notification.version = [1, 2]
    ∧ keyScope stream.principal "flags:read" = .ok (projectId, environmentId)
    ∧ stream.sent.filter Frame.isEvent = stream.events
    ∧ ∀ n ∈ stream.received, n.IsFor projectId environmentId := by
  have hfacts : (StreamingWorld.start.run 60 sampleStreaming).any (fun w =>
      decide (sampleReceived w = some [1, 2])) = true := by
    decide +kernel
  obtain ⟨w, hrun, hfacts⟩ := (Option.any_eq_true _ _).mp hfacts
  obtain ⟨stream, hstream, hversions⟩ := Option.map_eq_some_iff.mp (of_decide_eq_true hfacts)
  have hmem := List.mem_of_getElem? hstream
  obtain ⟨projectId, environmentId, hscope, hsent, -, hreceived⟩ := streams_follow hrun hmem
  exact ⟨w, stream, projectId, environmentId, hrun, hmem, hversions, hscope, hsent,
    fun n hn => (hreceived n hn).1⟩

/-- Then the client loads the flag. -/
def sampleFetch : List StreamingAction := (sampleMiss 0).map .cached ++ [.cached (.set 0)]

theorem fetch_after_event_sample : ∃ w w' stream n c,
    StreamingWorld.start.run 60 sampleStreaming = some w ∧ w.run 60 sampleFetch = some w'
    ∧ stream ∈ w.streams ∧ n ∈ stream.received ∧ n.version = 2
    ∧ (w'.cached.loads[0]?.bind (fun load => load.phase.result?)) = some (.ok [(n.address, c)])
    ∧ n.version ≤ c.configVersion := by
  have hfacts : (StreamingWorld.start.run 60 sampleStreaming).any (fun w =>
      decide (w.cached.loads.length = 0)
      && w.streams[0]?.any (fun stream => stream.received.any (fun n =>
        decide (n.version = 2 ∧ n.address = sampleAddress)))
      && (configCache 60).checkMeets service (fun u action =>
        decide (CacheAside.StoresFresh u action)) w.cached
        (sampleFetch.filterMap StreamingAction.cached?)
      && (w.run 60 sampleFetch).any (fun w' =>
        decide (sampleVersions w'.cached 0 = some [2]))) = true := by
    decide +kernel
  have hfresh : (configCache 60).checkMeets service
      (fun u action => decide (CacheAside.StoresFresh u action)) (.start initial)
      (sampleStreaming.filterMap StreamingAction.cached?) = true := by
    decide +kernel
  obtain ⟨w, hrun, hfacts⟩ := (Option.any_eq_true _ _).mp hfacts
  simp only [Bool.and_eq_true, decide_eq_true_eq] at hfacts
  obtain ⟨⟨⟨hloads, hreceived⟩, hfresh'⟩, hrun'⟩ := hfacts
  obtain ⟨stream, hstream, hreceived⟩ := (Option.any_eq_true _ _).mp hreceived
  obtain ⟨n, hn, hnote⟩ := List.any_eq_true.mp hreceived
  obtain ⟨hversion, haddress⟩ := of_decide_eq_true hnote
  obtain ⟨w', hrun', hversions⟩ := (Option.any_eq_true _ _).mp hrun'
  obtain ⟨load, found, hload, hrequest, hresult, -⟩ :=
    exists_of_sampleVersions (of_decide_eq_true hversions)
  have hmem := List.mem_of_getElem? hstream
  have hrequest' : load.request = .configuration n.projectId n.environmentId n.flagKey :=
    hrequest.trans (congrArg (fun a : ConfigAddress =>
      LoadRequest.configuration a.projectId a.environmentId a.flagKey) haddress).symm
  obtain ⟨c, rfl, hle⟩ := fetch_after_event hrun hmem (CacheAside.meets_of_check _ _ hfresh)
    (CacheAside.meets_of_check _ _ hfresh') hrun' hn hloads.le hload hrequest' hresult
  refine ⟨w, w', stream, n, c, hrun, hrun', hmem, hn, hversion, ?_, hle⟩
  rw [hload]
  exact hresult

theorem told_of_text_sample : ∃ w w' stream stream',
    StreamingWorld.start.run 60 sampleStreaming = some w
    ∧ StreamingWorld.start.run 30 (sampleStreaming ++ [.stream 0 .disconnect]) = some w'
    ∧ stream ∈ w.streams ∧ stream' ∈ w'.streams ∧ stream.phase ≠ stream'.phase
    ∧ stream.received.map Notification.told = stream'.received.map Notification.told := by
  have hfacts : (StreamingWorld.start.run 60 sampleStreaming).any (fun w =>
      (StreamingWorld.start.run 30 (sampleStreaming ++ [.stream 0 .disconnect])).any (fun w' =>
        w.streams[0]?.any (fun stream => w'.streams[0]?.any (fun stream' =>
          decide (stream.text = stream'.text ∧ stream.phase ≠ stream'.phase))))) = true := by
    decide +kernel
  obtain ⟨w, hrun, hfacts⟩ := (Option.any_eq_true _ _).mp hfacts
  obtain ⟨w', hrun', hfacts⟩ := (Option.any_eq_true _ _).mp hfacts
  obtain ⟨stream, hstream, hfacts⟩ := (Option.any_eq_true _ _).mp hfacts
  obtain ⟨stream', hstream', hfacts⟩ := (Option.any_eq_true _ _).mp hfacts
  obtain ⟨htext, hphase⟩ := of_decide_eq_true hfacts
  have hmem := List.mem_of_getElem? hstream
  have hmem' := List.mem_of_getElem? hstream'
  exact ⟨w, w', stream, stream', hrun, hrun', hmem, hmem', hphase,
    (told_of_text hrun hrun' hmem hmem' htext).2⟩

end CohortSwitch
