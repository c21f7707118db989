import CohortSwitch.Hashing
import CohortSwitch.Dictionaries
import CohortSwitch.JsonText

/-!
# The cache of the SDK's client

`CohortSwitchClient.evaluate` looks its cache up, asks the server if nothing live is
there, and stores the answer. Calls run between each other's requests, so a call is two
steps here: the lookup, and the answer's arrival. The key of an entry is the SHA-256 of
the flag key, the subject key and the canonical text of the attributes, with a NUL
between them.

## Which calls share a key

The canonical text contains no NUL and determines the attributes but for the order of
their keys, so the last NUL of the hashed text is the one before the attributes. The flag
key and the subject key may contain one themselves, and then a text may come from two pairs
of keys. `cacheText_eq_iff` says just when: the attributes are alike, and the keys are the
same once they are joined.

## What an entry stands for

`Justified` is the invariant of a client in use. It keeps beside the client what the server
has answered, which is no part of the client but of its history: an entry of the cache is
the last answer that came to a call of its key, and ends a time to live after the reading
of the clock at which it came. From this a hit returns something that was given for a call
of the same text, and if no such text is shared by two pairs of keys, for the same call.

`sdk_cache_sound` says that every result was given by the server for the same call not
longer ago than the time to live, in every run in which no pair of keys meets a live entry
of another. `sdk_cache_confuses` is a run in which one does.
-/

namespace CohortSwitch

/-! ## The client -/

/-- **A call of `evaluate`.** The attributes are dictionaries throughout, so the keys of
each object are distinct. -/
structure EvaluateCall where
  /-- `flag_key`. -/
  flagKey : String
  /-- `subject_key`. -/
  subjectKey : String
  /-- `attributes`, where the caller gives any. -/
  attributes : Option (Dict Json)
  /-- No object in them has a key twice. -/
  keyed : ∀ given ∈ attributes, Json.WellKeyed (.obj given.items)

namespace EvaluateCall

/-- `attributes or {}`. -/
def sent (self : EvaluateCall) : Json := .obj (self.attributes.getD .empty).items

/-- The text that the cache key is the hash of. -/
def cacheText (self : EvaluateCall) : String :=
  self.flagKey ++ "\x00" ++ self.subjectKey ++ "\x00" ++ self.sent.canonicalText

/-- `_cache_key`. -/
def cacheKey (self : EvaluateCall) : String := Sha256.hexdigest (encodeUtf8 self.cacheText)

/-- The keys before the attributes. -/
def joinedKeys (self : EvaluateCall) : String := self.flagKey ++ "\x00" ++ self.subjectKey

/-- **Two calls that look alike**: their keys are the same when they are joined, and their
attributes are but for the order of their keys. -/
def Alike (self other : EvaluateCall) : Prop :=
  self.joinedKeys = other.joinedKeys ∧ self.sent.sortKeys = other.sent.sortKeys

/-- What is sent has no key twice. -/
theorem wellKeyed_sent (self : EvaluateCall) : self.sent.WellKeyed := by
  unfold sent
  cases hattributes : self.attributes with
  | none => exact ⟨List.nodup_nil, trivial⟩
  | some given => exact self.keyed given hattributes

end EvaluateCall

/-- `_CacheEntry`. -/
structure SdkCacheEntry (ρ : Type) where
  /-- `expires_at`, a reading of the monotonic clock. -/
  expiresAt : ℚ
  /-- What the server answered. -/
  result : ρ

/-- **A client**, whose results are of the type `ρ`. -/
structure SdkClient (ρ : Type) where
  /-- The time to live in seconds; at zero nothing is cached. -/
  cacheTtl : ℚ
  /-- The entries, by the hash of their calls. -/
  cache : Dict (SdkCacheEntry ρ)

namespace SdkClient

variable {ρ : Type}

/-- `__init__`. -/
def create (cacheTtlSeconds : ℚ) : SdkClient ρ := ⟨max 0 cacheTtlSeconds, .empty⟩

/-- The start of `evaluate`: the result of a live entry. -/
def cached (self : SdkClient ρ) (call : EvaluateCall) (now : ℚ) : Option ρ :=
  match self.cache.get? call.cacheKey with
  | some entry => if now < entry.expiresAt then some entry.result else none
  | none => none

/-- `_prune_cache`. -/
def pruneCache (self : SdkClient ρ) (now : ℚ) : SdkClient ρ :=
  if self.cache.items.length ≤ 10000 then self
  else { self with cache := self.cache.filterValues (fun entry => decide (now < entry.expiresAt)) }

/-- The end of `evaluate`; the clock is read for the entry and again for the pruning. -/
def store (self : SdkClient ρ) (call : EvaluateCall) (result : ρ) (now later : ℚ) :
    SdkClient ρ :=
  if self.cacheTtl = 0 then self
  else
    let entry := ⟨now + self.cacheTtl, result⟩
    { self with cache := self.cache.insert call.cacheKey entry }.pruneCache later

/-- `clear_cache`. -/
def clearCache (self : SdkClient ρ) : SdkClient ρ := { self with cache := .empty }

end SdkClient

/-! ## Runs -/

/-- What was answered to a call, and when. -/
structure Answered (ρ : Type) where
  /-- What was asked. -/
  call : EvaluateCall
  /-- What was answered. -/
  result : ρ
  /-- The reading of the clock then. -/
  time : ℚ

/-- **A client in use**: the calls that wait for the server, the last reading of the clock,
what the server gave, what of it came after the cache was last cleared, and what was
returned. -/
structure SdkUse (ρ : Type) where
  /-- The client as it is. -/
  client : SdkClient ρ
  /-- The calls that found nothing live and wait for the server. -/
  waiting : List EvaluateCall
  /-- The last reading of the clock. -/
  clock : ℚ
  /-- What the server has answered. -/
  given : List (Answered ρ)
  /-- What of it came after the cache was last cleared. -/
  recent : List (Answered ρ)
  /-- What the calls returned, from the cache or from the server. -/
  returned : List (Answered ρ)

/-- What happens to a client: a call of `evaluate` looks the cache up, an answer arrives at the
reading `now`, a request fails, which raises and stores nothing, or the cache is cleared. A call
that waits is named by its place among those that do. -/
inductive SdkEvent (ρ : Type)
  | evaluate (call : EvaluateCall) (now : ℚ)
  | answer (i : ℕ) (result : ρ) (now later : ℚ)
  | fail (i : ℕ)
  | clearCache

namespace SdkUse

variable {ρ : Type}

/-- A client that was just made. -/
def start (cacheTtlSeconds now : ℚ) : SdkUse ρ := ⟨.create cacheTtlSeconds, [], now, [], [], []⟩

/-- **A step of a client in use**, whose clock does not go back. -/
def step (s : SdkUse ρ) : SdkEvent ρ → Option (SdkUse ρ)
  | .evaluate call now =>
    if now < s.clock then none
    else match s.client.cached call now with
      | some result =>
        some { s with clock := now, returned := s.returned ++ [⟨call, result, now⟩] }
      | none => some { s with clock := now, waiting := s.waiting ++ [call] }
  | .answer i result now later =>
    match s.waiting[i]? with
    | some call =>
      if now < s.clock ∨ later < now then none
      else some {
        client := s.client.store call result now later
        waiting := s.waiting.eraseIdx i
        clock := later
        given := s.given ++ [⟨call, result, now⟩]
        recent := s.recent ++ [⟨call, result, now⟩]
        returned := s.returned ++ [⟨call, result, now⟩] }
    | none => none
  | .fail i => some { s with waiting := s.waiting.eraseIdx i }
  | .clearCache => some { s with client := s.client.clearCache, recent := [] }

/-- **The states that some events lead to**, each where `meets` holds of it. -/
inductive Reached (cacheTtlSeconds : ℚ) (meets : SdkUse ρ → SdkEvent ρ → Prop) :
    List (SdkEvent ρ) → SdkUse ρ → Prop
  | start (now : ℚ) : Reached cacheTtlSeconds meets [] (start cacheTtlSeconds now)
  | step {events : List (SdkEvent ρ)} {s s' : SdkUse ρ} {event : SdkEvent ρ}
      (before : Reached cacheTtlSeconds meets events s) (met : meets s event)
      (stepped : s.step event = some s') :
      Reached cacheTtlSeconds meets (events ++ [event]) s'

/-- The calls of some events. -/
def askedCalls (events : List (SdkEvent ρ)) : List EvaluateCall :=
  events.filterMap (fun event => match event with | .evaluate call _ => some call | _ => none)

/-- **SHA-256 does not collide** on the texts of some calls. -/
def CollisionFree (calls : List EvaluateCall) : Prop :=
  ∀ call ∈ calls, ∀ call' ∈ calls, call.cacheKey = call'.cacheKey → call.cacheText = call'.cacheText

/-- A result is one that the server gave to the same call, not longer ago than the time
to live, of which a negative one counts as zero. -/
def GivenFor (cacheTtlSeconds : ℚ) (given : List (Answered ρ)) (returned : Answered ρ) : Prop :=
  ∃ answered ∈ given, answered.call.flagKey = returned.call.flagKey
    ∧ answered.call.subjectKey = returned.call.subjectKey
    ∧ answered.call.sent.eqv returned.call.sent = true
    ∧ answered.result = returned.result
    ∧ answered.time ≤ returned.time ∧ returned.time ≤ answered.time + max 0 cacheTtlSeconds

/-- **The cache is sound**: every result is one that the server gave for it. -/
def CacheSound (cacheTtlSeconds : ℚ) (s : SdkUse ρ) : Prop :=
  ∀ returned ∈ s.returned, GivenFor cacheTtlSeconds s.given returned

/-- **No call is mistaken for another**: the last answer to a call that looks alike, if it
came after the cache was cleared and its time is not over, was to the same keys. -/
def Distinguishes (cacheTtlSeconds : ℚ) (s : SdkUse ρ) : SdkEvent ρ → Prop
  | .evaluate call now => ∀ before answered after, s.recent = before ++ answered :: after →
    answered.call.Alike call → (∀ later ∈ after, ¬ later.call.Alike call) →
    now < answered.time + cacheTtlSeconds →
    answered.call.flagKey = call.flagKey ∧ answered.call.subjectKey = call.subjectKey
  | _ => True

/-! ## The text of a key -/

/-- **Calls have the same text exactly if they look alike.** -/
theorem cacheText_eq_iff {call call' : EvaluateCall} :
    call.cacheText = call'.cacheText ↔ call.Alike call' := by
  have hnul : ∀ a : Json, '\x00' ∉ a.canonicalText.toList := fun a hmem => by
    have hprintable := Json.isPrintable_canonicalText hmem
    revert hprintable
    decide
  unfold EvaluateCall.cacheText
  constructor
  · intro h
    have hlist := congrArg String.toList h
    rw [String.toList_append, String.toList_append (t := call'.sent.canonicalText),
      String.toList_append, String.toList_append (t := "\x00"), List.append_assoc,
      List.append_assoc] at hlist
    obtain ⟨hkeys, hattributes⟩ := eq_of_append_cons (a := '\x00') hlist (hnul _) (hnul _)
    exact ⟨String.toList_inj.mp hkeys,
      Json.dump_injective (String.ofList_injective (String.toList_inj.mp hattributes))⟩
  · rintro ⟨hkeys, hattributes⟩
    unfold EvaluateCall.joinedKeys at hkeys
    rw [hkeys, Json.canonicalText, hattributes]
    rfl

/-! ## What holds of every state -/

variable {cacheTtlSeconds : ℚ} {s : SdkUse ρ} {calls : List EvaluateCall}

/-- **What holds of every state.** An entry is the last answer of the server to a call of its
key, and ends a time to live after it. -/
structure Justified (cacheTtlSeconds : ℚ) (calls : List EvaluateCall) (s : SdkUse ρ) : Prop where
  /-- The time to live is the one of the settings, and not negative. -/
  cacheTtl : s.client.cacheTtl = max 0 cacheTtlSeconds
  /-- A client whose time to live is zero has no entries. -/
  unused : s.client.cacheTtl = 0 → ∀ key, s.client.cache.get? key = none
  /-- An entry is the last answer to a call of its key. -/
  entries : ∀ key entry, s.client.cache.get? key = some entry →
    ∃ before answered after, s.recent = before ++ answered :: after
      ∧ key = answered.call.cacheKey ∧ (∀ later ∈ after, later.call.cacheKey ≠ key)
      ∧ entry.result = answered.result
      ∧ entry.expiresAt = answered.time + max 0 cacheTtlSeconds
  /-- What came since the cache was cleared was given. -/
  recent : s.recent ⊆ s.given
  /-- Nothing was answered in the future. -/
  times : ∀ answered ∈ s.given, answered.time ≤ s.clock
  /-- The calls that wait were made. -/
  waiting : ∀ call ∈ s.waiting, call ∈ calls
  /-- What was answered was asked. -/
  given : ∀ answered ∈ s.given, answered.call ∈ calls
  /-- What was returned was given, and in time. -/
  sound : CacheSound cacheTtlSeconds s

/-- A new client has no entries. -/
theorem justified_start (cacheTtlSeconds now : ℚ) :
    Justified cacheTtlSeconds [] (start cacheTtlSeconds now : SdkUse ρ) where
  cacheTtl := rfl
  unused _ _ := rfl
  entries _ _ h := by cases h
  recent := List.Subset.refl _
  times _ h := absurd h List.not_mem_nil
  waiting _ h := absurd h List.not_mem_nil
  given _ h := absurd h List.not_mem_nil
  sound _ h := absurd h List.not_mem_nil

/-- What the server gave stays given. -/
theorem GivenFor.mono {given given' : List (Answered ρ)} {returned : Answered ρ}
    (h : GivenFor cacheTtlSeconds given returned) (hsub : given ⊆ given') :
    GivenFor cacheTtlSeconds given' returned := by
  obtain ⟨answered, hmem, hrest⟩ := h
  exact ⟨answered, hsub hmem, hrest⟩

/-- **A live entry of a key is an answer to the call**, if no two pairs of keys are mistaken. -/
theorem Justified.cached (h : Justified cacheTtlSeconds calls s) {call : EvaluateCall} {now : ℚ}
    {result : ρ} (hcached : s.client.cached call now = some result) (hclock : s.clock ≤ now)
    (hcalls : call ∈ calls) (hsha : CollisionFree calls)
    (hkeys : Distinguishes cacheTtlSeconds s (.evaluate call now)) :
    GivenFor cacheTtlSeconds s.given ⟨call, result, now⟩ := by
  unfold SdkClient.cached at hcached
  cases hget : s.client.cache.get? call.cacheKey with
  | none =>
    rw [hget] at hcached
    cases hcached
  | some entry =>
    rw [hget] at hcached
    dsimp only at hcached
    split at hcached
    · rename_i hlive
      cases hcached
      obtain ⟨before, answered, after, hrecent, hkey, hlast, hresult, hexpires⟩ :=
        h.entries _ _ hget
      have hmem : answered ∈ s.given :=
        h.recent (hrecent ▸ List.mem_append_right _ List.mem_cons_self)
      -- equal hashes are of equal texts, so the two calls look alike
      have htext := hsha _ (h.given _ hmem) _ hcalls hkey.symm
      have halike := cacheText_eq_iff.mp htext
      have hothers : ∀ later ∈ after, ¬ later.call.Alike call := fun later hlater heq =>
        hlast later hlater (congrArg (fun text => Sha256.hexdigest (encodeUtf8 text))
          (cacheText_eq_iff.mpr heq))
      have heqv := Json.eqv_of_canonicalText answered.call.wellKeyed_sent call.wellKeyed_sent
        (congrArg (fun a => String.ofList (Json.dump a)) halike.2)
      rw [hexpires] at hlive
      have htime := (h.times _ hmem).trans hclock
      -- an entry is live only if the time to live is not negative
      have hpositive : max 0 cacheTtlSeconds = cacheTtlSeconds := by
        refine max_eq_right (not_lt.mp (fun hneg => ?_))
        rw [max_eq_left hneg.le, add_zero] at hlive
        exact absurd hlive (not_lt.mpr htime)
      obtain ⟨hflag, hsubject⟩ :=
        hkeys before answered after hrecent halike hothers (hpositive ▸ hlive)
      exact ⟨answered, hmem, hflag, hsubject, heqv, hresult.symm, htime, hlive.le⟩
    · cases hcached

/-- **An answer is stored over the entry of its key**, unless nothing is stored at all. -/
theorem get?_store {client : SdkClient ρ} {call : EvaluateCall} {result : ρ} {now later : ℚ}
    {key : String} {entry : SdkCacheEntry ρ} (httl : client.cacheTtl ≠ 0)
    (h : (client.store call result now later).cache.get? key = some entry) :
    client.cache.get? key = some entry ∧ key ≠ call.cacheKey
      ∨ key = call.cacheKey ∧ entry = ⟨now + client.cacheTtl, result⟩ := by
  have hinsert : ∀ {entry}, (client.cache.insert call.cacheKey
      ⟨now + client.cacheTtl, result⟩).get? key = some entry →
      client.cache.get? key = some entry ∧ key ≠ call.cacheKey
        ∨ key = call.cacheKey ∧ entry = ⟨now + client.cacheTtl, result⟩ := by
    intro entry hget
    rw [Dict.get?_insert] at hget
    split at hget
    · rename_i hkey
      exact Or.inr ⟨hkey, (Option.some.inj hget).symm⟩
    · rename_i hne
      exact Or.inl ⟨hget, hne⟩
  unfold SdkClient.store at h
  rw [if_neg httl] at h
  unfold SdkClient.pruneCache at h
  dsimp only at h
  split at h
  · exact hinsert h
  · rw [Dict.get?_filterValues, Option.filter_eq_some_iff] at h
    exact hinsert h.1

/-- The time to live stays. -/
theorem cacheTtl_store (client : SdkClient ρ) (call : EvaluateCall) (result : ρ) (now later : ℚ) :
    (client.store call result now later).cacheTtl = client.cacheTtl := by
  unfold SdkClient.store
  split
  · rfl
  · unfold SdkClient.pruneCache
    dsimp only
    split <;> rfl

/-- **What is stored is returned** until its time is over, to every call of its key. -/
theorem cached_store {client : SdkClient ρ} {call call' : EvaluateCall} {result : ρ}
    {now later now' : ℚ} (httl : client.cacheTtl ≠ 0) (hkey : call'.cacheKey = call.cacheKey)
    (hlater : later < now + client.cacheTtl) (hnow : now' < now + client.cacheTtl) :
    (client.store call result now later).cached call' now' = some result := by
  have hget : (client.store call result now later).cache.get? call'.cacheKey
      = some ⟨now + client.cacheTtl, result⟩ := by
    unfold SdkClient.store
    rw [if_neg httl, hkey]
    unfold SdkClient.pruneCache
    dsimp only
    split
    · exact Dict.get?_insert_self _
    · rw [Dict.get?_filterValues, Dict.get?_insert_self, Option.filter_some]
      exact if_pos (decide_eq_true hlater)
  unfold SdkClient.cached
  rw [hget]
  exact if_pos hnow

/-- A call is answered from the cache. -/
theorem Justified.hit (h : Justified cacheTtlSeconds calls s) {call : EvaluateCall} {now : ℚ}
    {result : ρ} (hclock : s.clock ≤ now)
    (hgiven : GivenFor cacheTtlSeconds s.given ⟨call, result, now⟩) :
    Justified cacheTtlSeconds (calls ++ [call])
      { s with clock := now, returned := s.returned ++ [⟨call, result, now⟩] } where
  cacheTtl := h.cacheTtl
  unused := h.unused
  entries := h.entries
  recent := h.recent
  times answered hmem := (h.times answered hmem).trans hclock
  waiting other hmem := List.mem_append_left _ (h.waiting other hmem)
  given answered hmem := List.mem_append_left _ (h.given answered hmem)
  sound returned hmem := by
    rcases List.mem_append.mp hmem with hmem | hmem
    · exact h.sound returned hmem
    · rw [List.mem_singleton.mp hmem]
      exact hgiven

/-- A call waits for the server. -/
theorem Justified.miss (h : Justified cacheTtlSeconds calls s) {call : EvaluateCall} {now : ℚ}
    (hclock : s.clock ≤ now) : Justified cacheTtlSeconds (calls ++ [call])
      { s with clock := now, waiting := s.waiting ++ [call] } where
  cacheTtl := h.cacheTtl
  unused := h.unused
  entries := h.entries
  recent := h.recent
  times answered hmem := (h.times answered hmem).trans hclock
  waiting other hmem := by
    rcases List.mem_append.mp hmem with hmem | hmem
    · exact List.mem_append_left _ (h.waiting other hmem)
    · exact List.mem_append_right _ hmem
  given answered hmem := List.mem_append_left _ (h.given answered hmem)
  sound := h.sound

/-- **The server answers a call.** -/
theorem Justified.answer (h : Justified cacheTtlSeconds calls s) {i : ℕ} {call : EvaluateCall}
    (hcall : s.waiting[i]? = some call) {now later : ℚ} (result : ρ) (hclock : s.clock ≤ now)
    (hlater : now ≤ later) : Justified cacheTtlSeconds calls {
      client := s.client.store call result now later
      waiting := s.waiting.eraseIdx i
      clock := later
      given := s.given ++ [⟨call, result, now⟩]
      recent := s.recent ++ [⟨call, result, now⟩]
      returned := s.returned ++ [⟨call, result, now⟩] } where
  cacheTtl := (cacheTtl_store _ _ _ _ _).trans h.cacheTtl
  unused hzero key := by
    rw [cacheTtl_store] at hzero
    show (s.client.store call result now later).cache.get? key = none
    unfold SdkClient.store
    rw [if_pos hzero]
    exact h.unused hzero key
  entries key entry hget := by
    have hstores : s.client.cacheTtl ≠ 0 := by
      intro hzero
      unfold SdkClient.store at hget
      rw [if_pos hzero, h.unused hzero] at hget
      cases hget
    rcases get?_store hstores hget with ⟨hold, hne⟩ | ⟨hkey, hentry⟩
    · -- an entry of another key: the new answer comes after its own
      obtain ⟨before, answered, after, hrecent, hkey, hlast, hrest⟩ := h.entries key entry hold
      refine ⟨before, answered, after ++ [⟨call, result, now⟩], ?_, hkey, fun later hmem => ?_,
        hrest⟩
      · rw [hrecent, List.append_assoc]
        rfl
      · rcases List.mem_append.mp hmem with hmem | hmem
        · exact hlast later hmem
        · rw [List.mem_singleton.mp hmem]
          exact Ne.symm hne
    · -- the entry of this key: the new answer is the last one
      subst hentry
      exact ⟨s.recent, ⟨call, result, now⟩, [], rfl, hkey,
        fun _ hmem => absurd hmem List.not_mem_nil, rfl, by rw [h.cacheTtl]⟩
  recent := List.append_subset.mpr ⟨fun _ hmem => List.mem_append_left _ (h.recent hmem),
    List.subset_append_right _ _⟩
  times answered hmem := by
    rcases List.mem_append.mp hmem with hmem | hmem
    · exact (h.times answered hmem).trans (hclock.trans hlater)
    · rw [List.mem_singleton.mp hmem]
      exact hlater
  waiting other hmem := h.waiting other (List.mem_of_mem_eraseIdx hmem)
  given answered hmem := by
    rcases List.mem_append.mp hmem with hmem | hmem
    · exact h.given answered hmem
    · rw [List.mem_singleton.mp hmem]
      exact h.waiting call (List.mem_of_getElem? hcall)
  sound returned hmem := by
    rcases List.mem_append.mp hmem with hmem | hmem
    · exact (h.sound returned hmem).mono (List.subset_append_left _ _)
    · rw [List.mem_singleton.mp hmem]
      exact ⟨⟨call, result, now⟩, List.mem_append_right _ (List.mem_singleton_self _), rfl, rfl,
        Json.eqv_self _ call.wellKeyed_sent, rfl, le_rfl,
        le_add_of_nonneg_right (le_max_left 0 cacheTtlSeconds)⟩

/-- **A step keeps what holds of every state.** -/
theorem Justified.step (h : Justified cacheTtlSeconds calls s) {event : SdkEvent ρ}
    {s' : SdkUse ρ} (hsha : CollisionFree (calls ++ askedCalls [event]))
    (met : Distinguishes cacheTtlSeconds s event) (stepped : s.step event = some s') :
    Justified cacheTtlSeconds (calls ++ askedCalls [event]) s' := by
  unfold SdkUse.step at stepped
  cases event with
  | evaluate call now =>
    dsimp only at stepped
    split at stepped
    · cases stepped
    · rename_i hclock
      have hclock := not_lt.mp hclock
      split at stepped
      · rename_i result hcached
        cases stepped
        have hmore : Justified cacheTtlSeconds (calls ++ [call]) s :=
          { h with
            waiting := fun other hmem => List.mem_append_left _ (h.waiting other hmem)
            given := fun answered hmem => List.mem_append_left _ (h.given answered hmem) }
        exact h.hit hclock (hmore.cached hcached hclock
          (List.mem_append_right _ (List.mem_singleton_self _)) hsha met)
      · cases stepped
        exact h.miss hclock
  | answer i result now later =>
    rw [show askedCalls [SdkEvent.answer i result now later] = [] from rfl, List.append_nil]
    dsimp only at stepped
    split at stepped
    · rename_i call hcall
      split at stepped
      · cases stepped
      · rename_i hclock
        obtain ⟨hclock, hlater⟩ := not_or.mp hclock
        cases stepped
        exact h.answer hcall result (not_lt.mp hclock) (not_lt.mp hlater)
    · cases stepped
  | fail i =>
    rw [show askedCalls [(SdkEvent.fail i : SdkEvent ρ)] = [] from rfl, List.append_nil]
    cases stepped
    exact { h with waiting := fun other hmem => h.waiting other (List.mem_of_mem_eraseIdx hmem) }
  | clearCache =>
    rw [show askedCalls [(SdkEvent.clearCache : SdkEvent ρ)] = [] from rfl, List.append_nil]
    cases stepped
    exact { h with
      unused := fun _ _ => rfl
      entries := fun key entry hget => (by cases hget)
      recent := List.nil_subset _ }

/-- **Every state that is reached is justified.** -/
theorem Reached.justified {events : List (SdkEvent ρ)}
    (h : Reached cacheTtlSeconds (Distinguishes cacheTtlSeconds) events s)
    (hsha : CollisionFree (askedCalls events)) :
    Justified cacheTtlSeconds (askedCalls events) s := by
  induction h with
  | start now => exact justified_start cacheTtlSeconds now
  | step before met stepped ih =>
    have happend : ∀ xs ys : List (SdkEvent ρ),
        askedCalls (xs ++ ys) = askedCalls xs ++ askedCalls ys :=
      fun _ _ => List.filterMap_append
    rw [happend] at hsha ⊢
    have hbefore := ih (fun call hcall call' hcall' =>
      hsha call (List.mem_append_left _ hcall) call' (List.mem_append_left _ hcall'))
    exact hbefore.step hsha met stepped

end SdkUse

open SdkUse in
/-- **The SDK's cache is sound in every run in which no two pairs of keys are mistaken for each
other.** -/
theorem sdk_cache_sound {ρ : Type} (cacheTtlSeconds : ℚ) {events : List (SdkEvent ρ)}
    {s : SdkUse ρ} (reached : Reached cacheTtlSeconds (Distinguishes cacheTtlSeconds) events s)
    (hsha : CollisionFree (askedCalls events)) : CacheSound cacheTtlSeconds s :=
  (reached.justified hsha).sound

/-- A call without attributes. -/
def bareCall (flagKey subjectKey : String) : EvaluateCall where
  flagKey := flagKey
  subjectKey := subjectKey
  attributes := none
  keyed := fun _ h => (by cases h)

/-- A call is answered at the second one, and another call at the second two. -/
def twoCalls (first second : EvaluateCall) : List (SdkEvent String) :=
  [.evaluate first 0, .answer 0 "on" 1 1, .evaluate second 2]

open SdkUse in
/-- The second call is answered from the cache if it looks like the first. -/
theorem reached_twoCalls {first second : EvaluateCall} (halike : second.Alike first)
    {meets : SdkUse String → SdkEvent String → Prop}
    (hmeets : ∀ s, ∀ event ∈ twoCalls first second,
      s.recent = [] ∨ s.recent = [⟨first, "on", 1⟩] → meets s event) :
    ∃ s, Reached 30 meets (twoCalls first second) s ∧ s.given = [⟨first, "on", 1⟩]
      ∧ s.returned = [⟨first, "on", 1⟩, ⟨second, "on", 2⟩] := by
  have hkey : second.cacheKey = first.cacheKey :=
    congrArg (fun text => Sha256.hexdigest (encodeUtf8 text)) (cacheText_eq_iff.mpr halike)
  have hstart : Reached 30 meets [] (start 30 0) := .start 0
  have hasked := hstart.step
    (hmeets _ (.evaluate first 0) List.mem_cons_self (Or.inl rfl)) rfl
  have hanswered := hasked.step
    (hmeets _ (.answer 0 "on" 1 1) (List.mem_cons_of_mem _ List.mem_cons_self) (Or.inl rfl)) rfl
  have httl : (SdkClient.create 30 : SdkClient String).cacheTtl = 30 := max_eq_right (by decide)
  have hcached : ((SdkClient.create 30).store first "on" 1 1).cached second 2 = some "on" :=
    cached_store (by rw [httl]; decide) hkey (by rw [httl]; decide +kernel)
      (by rw [httl]; decide +kernel)
  have hstep : ∀ s : SdkUse String, s.clock = 1 → s.client.cached second 2 = some "on" →
      s.step (.evaluate second 2)
        = some { s with clock := 2, returned := s.returned ++ [⟨second, "on", 2⟩] } := by
    intro s hclock hhit
    unfold SdkUse.step
    dsimp only
    rw [hhit, hclock, if_neg (by decide)]
  have hreturned := hanswered.step
    (hmeets _ (.evaluate second 2)
      (List.mem_cons_of_mem _ (List.mem_cons_of_mem _ List.mem_cons_self)) (Or.inr rfl))
    (hstep _ rfl hcached)
  exact ⟨_, hreturned, rfl, rfl⟩

/-- A call looks like itself. -/
theorem alike_self (call : EvaluateCall) : call.Alike call := ⟨rfl, rfl⟩

open SdkUse in
theorem sdk_cache_sound_sample :
    ∃ s, Reached 30 (Distinguishes 30)
        (twoCalls (bareCall "new_checkout" "user_42") (bareCall "new_checkout" "user_42")) s
      ∧ CacheSound 30 s := by
  have hmeets : ∀ s : SdkUse String, ∀ event ∈
      twoCalls (bareCall "new_checkout" "user_42") (bareCall "new_checkout" "user_42"),
      s.recent = [] ∨ s.recent = [⟨bareCall "new_checkout" "user_42", "on", 1⟩] →
        Distinguishes 30 s event := by
    intro s event hevent hrecent
    have hsame : ∀ answered ∈ s.recent, answered.call = bareCall "new_checkout" "user_42" := by
      intro answered hmem
      rcases hrecent with hnil | hone
      · rw [hnil] at hmem
        cases hmem
      · rw [hone] at hmem
        rw [List.mem_singleton.mp hmem]
    have hkeys : ∀ now, Distinguishes 30 s
        (.evaluate (bareCall "new_checkout" "user_42") now) := by
      intro now before answered after heq _ _ _
      rw [hsame answered (heq ▸ List.mem_append_right _ List.mem_cons_self)]
      exact ⟨rfl, rfl⟩
    simp only [twoCalls, List.mem_cons, List.not_mem_nil, or_false] at hevent
    rcases hevent with rfl | rfl | rfl
    · exact hkeys 0
    · trivial
    · exact hkeys 2
  obtain ⟨s, hreached, -, -⟩ := reached_twoCalls (alike_self _) hmeets
  refine ⟨s, hreached, sdk_cache_sound 30 hreached (fun call hcall call' hcall' _ => ?_)⟩
  have hcalls : ∀ call ∈ askedCalls (twoCalls (bareCall "new_checkout" "user_42")
      (bareCall "new_checkout" "user_42")), call = bareCall "new_checkout" "user_42" := by
    intro call hcall
    rcases List.mem_cons.mp hcall with heq | hmem
    · exact heq
    · exact List.mem_singleton.mp hmem
  rw [hcalls call hcall, hcalls call' hcall']

open SdkUse in
/-- **Two calls with other keys may get one result**: a NUL in the subject key of the first
stands where the flag key of the second goes on. -/
theorem sdk_cache_confuses : ¬ ∀ (cacheTtlSeconds : ℚ) (events : List (SdkEvent String))
    (s : SdkUse String), Reached cacheTtlSeconds (fun _ _ => True) events s →
      CollisionFree (askedCalls events) → CacheSound cacheTtlSeconds s := by
  intro h
  have halike : (bareCall "new_checkout\x00eu" "user_42").Alike
      (bareCall "new_checkout" "eu\x00user_42") := ⟨by decide, rfl⟩
  obtain ⟨s, hreached, hgiven, hreturned⟩ :=
    @reached_twoCalls _ _ halike (fun _ _ => True) (fun _ _ _ _ => trivial)
  have hsha : CollisionFree (askedCalls (twoCalls (bareCall "new_checkout" "eu\x00user_42")
      (bareCall "new_checkout\x00eu" "user_42"))) := by
    have htext : ∀ call ∈ askedCalls (twoCalls (bareCall "new_checkout" "eu\x00user_42")
        (bareCall "new_checkout\x00eu" "user_42")),
        call.cacheText = (bareCall "new_checkout" "eu\x00user_42").cacheText := by
      intro call hcall
      rcases List.mem_cons.mp hcall with rfl | hmem
      · rfl
      · rw [List.mem_singleton.mp hmem]
        exact cacheText_eq_iff.mpr halike
    intro call hcall call' hcall' _
    rw [htext call hcall, htext call' hcall']
  have hsound := h 30 _ s hreached hsha
  obtain ⟨answered, hmem, hflag, -⟩ := hsound ⟨bareCall "new_checkout\x00eu" "user_42", "on", 2⟩
    (hreturned ▸ List.mem_cons_of_mem _ List.mem_cons_self)
  rw [hgiven] at hmem
  rw [List.mem_singleton.mp hmem] at hflag
  revert hflag
  decide

end CohortSwitch
