import Mathlib.Data.List.Basic

/-!
# Publish and subscribe

Messages are published to channels, and a subscription gets those of its channel that are
published after it was made. They wait in the order they came until its subscriber takes
them. When the connection of a subscription is lost and made anew, what waited is gone, and
so is what is published meanwhile.

## The construction

What was published is one list for all channels, and only grows. A subscription does not
hold a part of it but a queue of its own, as the broker keeps one for each connection:
`deliver` puts new messages of its channel at the end of the queue, `take?` takes the first
one, and `lose` empties it. Beside these it keeps two things nobody needs to run it: how many
messages had been published when it was made, and how often the connection was lost. They are
there to say what it has missed.

## What a subscription keeps

`Subscription.Follows` compares the queue with the list. What was taken and what waits are
together a subsequence of the messages of the channel since it was made: in the order in which
they were published, each at most once. While the connection was never lost they are all of
them. Every operation keeps this (`Follows.deliver`, `Follows.take`, `Follows.lose`), so it
holds along any run of a system in which subscriptions are made with `new`.

Two consequences are what subscribers rely on. What was taken is in the order of publication
(`Follows.taken_sublist`), and if the connection holds nothing is passed over: what was taken
is then an initial part of the list (`Follows.taken_prefix`).
-/

namespace CohortSwitch

variable {M C : Type}

/-- **A subscription**: its channel, how many messages had been published when it was made, what
its subscriber has taken, what waits, and how often the connection was lost. -/
structure Subscription (M C : Type) where
  /-- The channel it was made for. -/
  channel : C
  /-- How many messages had been published when it was made. -/
  since : ℕ
  /-- What its subscriber has taken, in order. -/
  taken : List M
  /-- The queue of what came and was not taken. -/
  waiting : List M
  /-- How often the connection was lost. -/
  losses : ℕ

namespace Subscription

section Steps

variable [DecidableEq C] (channelOf : M → C)

/-- The messages of a channel. -/
def messagesOn (channel : C) (messages : List M) : List M :=
  messages.filter (fun message => channelOf message = channel)

/-- What is published later comes later on its channel. -/
theorem messagesOn_append (channel : C) (messages more : List M) :
    messagesOn channelOf channel (messages ++ more)
      = messagesOn channelOf channel messages ++ messagesOn channelOf channel more :=
  List.filter_append ..

/-- A message of a channel was published to it. -/
theorem mem_messagesOn {channel : C} {messages : List M} {message : M} :
    message ∈ messagesOn channelOf channel messages
      ↔ message ∈ messages ∧ channelOf message = channel := by
  unfold messagesOn
  rw [List.mem_filter, decide_eq_true_eq]

/-- A subscription after some messages were published. -/
def new (channel : C) (published : List M) : Subscription M C :=
  ⟨channel, published.length, [], [], 0⟩

/-- What is published reaches the subscriptions of its channel. -/
def deliver (s : Subscription M C) (messages : List M) : Subscription M C :=
  { s with waiting := s.waiting ++ messagesOn channelOf s.channel messages }

/-- The subscriber takes the next message, if one waits. -/
def take? (s : Subscription M C) : Option (M × Subscription M C) :=
  match s.waiting with
  | [] => none
  | message :: rest =>
    some (message, { s with taken := s.taken ++ [message], waiting := rest })

/-- The connection is lost and made anew, some messages later. -/
def lose (s : Subscription M C) : Subscription M C :=
  { s with waiting := [], losses := s.losses + 1 }

/-- **What a subscription has of what was published.** -/
structure Follows (published : List M) (s : Subscription M C) : Prop where
  /-- It was made when no more had been published than now. -/
  since_le : s.since ≤ published.length
  /-- It has messages of its channel, in order and each at most once. -/
  order : (s.taken ++ s.waiting).Sublist
    (messagesOn channelOf s.channel (published.drop s.since))
  /-- And all of them, while the connection was not lost. -/
  whole : s.losses = 0 →
    s.taken ++ s.waiting = messagesOn channelOf s.channel (published.drop s.since)

variable {channelOf} {published more : List M} {s s' : Subscription M C} {message : M}

/-- A new subscription has nothing, and nothing was published since. -/
theorem follows_new (channel : C) (published : List M) :
    Follows channelOf published (new channel published) := by
  have hnone : messagesOn channelOf channel (published.drop published.length) = [] := by
    rw [List.drop_length]
    rfl
  exact ⟨Nat.le_refl _, List.nil_sublist _, fun _ => hnone.symm⟩

/-- **It follows what is published**: what is new goes to the end of the queue. -/
theorem Follows.deliver (h : Follows channelOf published s) :
    Follows channelOf (published ++ more) (s.deliver channelOf more) := by
  have hdrop : messagesOn channelOf s.channel ((published ++ more).drop s.since)
      = messagesOn channelOf s.channel (published.drop s.since)
        ++ messagesOn channelOf s.channel more := by
    rw [List.drop_append_of_le_length h.since_le, messagesOn_append]
  refine ⟨?_, ?_, fun hlosses => ?_⟩
  · rw [List.length_append]
    exact Nat.le_trans h.since_le (Nat.le_add_right _ _)
  · show (s.taken ++ (s.waiting ++ _)).Sublist (messagesOn _ _ _)
    rw [← List.append_assoc]
    exact hdrop ▸ h.order.append_right _
  · show s.taken ++ (s.waiting ++ _) = messagesOn _ _ _
    rw [← List.append_assoc, h.whole hlosses]
    exact hdrop.symm

omit [DecidableEq C] in
/-- A message is taken from the front of the queue. -/
theorem take?_eq_some (h : s.take? = some (message, s')) :
    s'.channel = s.channel ∧ s'.since = s.since ∧ s'.losses = s.losses
      ∧ s'.taken = s.taken ++ [message] ∧ s.waiting = message :: s'.waiting := by
  obtain ⟨channel, since, taken, waiting, losses⟩ := s
  cases waiting with
  | nil => cases h
  | cons first rest =>
    cases h
    exact ⟨rfl, rfl, rfl, rfl, rfl⟩

/-- A message that is taken was next; what was taken and what waits are the same together. -/
theorem Follows.take (h : Follows channelOf published s) (htake : s.take? = some (message, s')) :
    Follows channelOf published s' := by
  obtain ⟨hchannel, hsince, hlosses, htaken, hwaiting⟩ := take?_eq_some htake
  have hsame : s'.taken ++ s'.waiting = s.taken ++ s.waiting := by
    rw [htaken, hwaiting, List.append_assoc]
    rfl
  refine ⟨hsince ▸ h.since_le, ?_, fun hnone => ?_⟩
  · rw [hsame, hchannel, hsince]
    exact h.order
  · rw [hsame, hchannel, hsince]
    exact h.whole (hlosses ▸ hnone)

/-- What waited is gone, and the rest is still in order. -/
theorem Follows.lose (h : Follows channelOf published s) : Follows channelOf published s.lose := by
  refine ⟨h.since_le, ?_, fun hnone => absurd hnone (Nat.succ_ne_zero _)⟩
  show (s.taken ++ []).Sublist _
  rw [List.append_nil]
  exact (List.sublist_append_left _ _).trans h.order

/-- What was taken is in the order in which it was published. -/
theorem Follows.taken_sublist (h : Follows channelOf published s) :
    s.taken.Sublist (messagesOn channelOf s.channel (published.drop s.since)) :=
  (List.sublist_append_left _ _).trans h.order

/-- **Nothing is passed over** while the connection holds. -/
theorem Follows.taken_prefix (h : Follows channelOf published s) (hlosses : s.losses = 0) :
    s.taken <+: messagesOn channelOf s.channel (published.drop s.since) :=
  ⟨s.waiting, h.whole hlosses⟩

/-- What was taken was published to the channel. -/
theorem Follows.mem_taken (h : Follows channelOf published s) (hmessage : message ∈ s.taken) :
    message ∈ published ∧ channelOf message = s.channel := by
  obtain ⟨hmem, hchannel⟩ :=
    (mem_messagesOn channelOf).mp (h.taken_sublist.subset hmessage)
  exact ⟨List.mem_of_mem_drop hmem, hchannel⟩

end Steps

end Subscription

end CohortSwitch
