import CohortSwitch.Engine

/-!
# Progressive rollouts only grow

A progressive rollout serves its variation to the buckets below the percentage of the latest
stage that is active. As time passes the active stages become more, and the latest of them
later. Where no later stage has a smaller percentage, a bucket that has got the variation keeps
it (`progressive_grows`). Stages with one timestamp may have any percentages: the one that
stands first counts as long as none is later (`latestActive_of_le`).

Python's `max` returns the first of several greatest items, and so does `List.argmax`. A stage
that counts at a later time and was active before is the first greatest of more stages, and
therefore of those that were active before (`argmax_filter`). So either the same stage counts at
both times, or the one that counts later has become active in between and is strictly later,
which is where the assumption on the percentages applies.
-/

namespace CohortSwitch

/-! ## The latest of some items -/

/-- **The first greatest item is the one of any part that it is in.** -/
theorem argmax_filter {α β : Type} [LinearOrder β] {f : α → β} {p : α → Bool} {xs : List α}
    {m : α} (h : xs.argmax f = some m) (hm : p m = true) : (xs.filter p).argmax f = some m := by
  induction xs using List.reverseRecOn generalizing m with
  | nil => cases h
  | append_singleton xs a ih =>
    rw [List.argmax_concat] at h
    rw [List.filter_append]
    cases hmax : xs.argmax f with
    | none =>
      rw [hmax] at h
      cases h
      rw [List.argmax_eq_none.mp hmax, List.filter_cons_of_pos hm]
      rfl
    | some c =>
      rw [hmax] at h
      dsimp only at h
      split at h
      · -- the last item is greater than all before it
        rename_i hlt
        cases h
        rw [List.filter_cons_of_pos hm, List.filter_nil, List.argmax_concat]
        cases hrest : (xs.filter p).argmax f with
        | none => rfl
        | some c' =>
          have hmem := List.mem_of_mem_filter (List.argmax_mem hrest)
          exact if_pos ((List.le_of_mem_argmax hmem hmax).trans_lt hlt)
      · rename_i hge
        cases h
        by_cases ha : p a = true
        · rw [List.filter_cons_of_pos ha, List.filter_nil, List.argmax_concat, ih hmax hm]
          exact if_neg hge
        · rw [List.filter_cons_of_neg ha, List.filter_nil, List.append_nil]
          exact ih hmax hm

/-! ## The stages -/

section Stages

variable {stages : List ProgressiveStage} {now later : Instant} {current : ProgressiveStage}

/-- A stage that counts is active. -/
theorem active_of_latestActive (h : latestActive stages now = some current) :
    current ∈ stages ∧ current.activateAt ≤ now := by
  obtain ⟨hmem, hactive⟩ := List.mem_filter.mp (List.argmax_mem h)
  exact ⟨hmem, of_decide_eq_true hactive⟩

/-- No active stage is later. -/
theorem le_latestActive (h : latestActive stages now = some current) {stage : ProgressiveStage}
    (hstage : stage ∈ stages) (hactive : stage.activateAt ≤ now) :
    stage.activateAt ≤ current.activateAt :=
  List.le_of_mem_argmax (List.mem_filter.mpr ⟨hstage, decide_eq_true hactive⟩) h

/-- **A stage counts until a later one is active**: the stage that counts at some time has
counted ever since it was active. -/
theorem latestActive_of_le (hle : now ≤ later) (h : latestActive stages later = some current)
    (hactive : current.activateAt ≤ now) : latestActive stages now = some current := by
  unfold latestActive at h ⊢
  have hfilter : stages.filter (fun stage => decide (stage.activateAt ≤ now))
      = (stages.filter (fun stage => decide (stage.activateAt ≤ later))).filter
        (fun stage => decide (stage.activateAt ≤ now)) := by
    rw [List.filter_filter]
    refine List.filter_congr (fun stage _ => ?_)
    by_cases hnow : stage.activateAt ≤ now
    · simp [hnow, hnow.trans hle]
    · simp [hnow]
  rw [hfilter]
  exact argmax_filter h (decide_eq_true hactive)

/-- Once a stage is active, one always is. -/
theorem exists_latestActive (hle : now ≤ later) (h : latestActive stages now = some current) :
    ∃ next, latestActive stages later = some next := by
  obtain ⟨hmem, hactive⟩ := active_of_latestActive h
  cases hnext : latestActive stages later with
  | some next => exact ⟨next, rfl⟩
  | none =>
    have hnone := List.argmax_eq_none.mp hnext
    have hmem' : current ∈ stages.filter (fun stage => decide (stage.activateAt ≤ later)) :=
      List.mem_filter.mpr ⟨hmem, decide_eq_true (hactive.trans hle)⟩
    rw [hnone] at hmem'
    cases hmem'

end Stages

/-- **A rollout that grows**: all stages serve one variation with one fallback, and no later
stage has a smaller percentage. -/
structure Growing (stages : List ProgressiveStage) (variation fallback : String) : Prop where
  /-- All stages serve the same two variations. -/
  serves : ∀ stage ∈ stages, stage.variation = variation ∧ stage.fallbackVariation = fallback
  /-- A later stage serves no fewer buckets. -/
  percentages : ∀ stage ∈ stages, ∀ later ∈ stages, stage.activateAt < later.activateAt →
    stage.percentageBasisPoints ≤ later.percentageBasisPoints

instance (stages : List ProgressiveStage) (variation fallback : String) :
    Decidable (Growing stages variation fallback) :=
  decidable_of_iff (_ ∧ _) ⟨fun h => ⟨h.1, h.2⟩, fun h => ⟨h.serves, h.percentages⟩⟩

section Growth

variable {stages : List ProgressiveStage} {variation fallback : String} {bucket : ℕ}
  {now later : Instant}

/-- What is served, by the stage that counts. -/
theorem Growing.progressiveVariation_eq (h : Growing stages variation fallback) (hne : stages ≠ [])
    (bucket : ℕ) (now : Instant) :
    progressiveVariation stages bucket now = .ok (match latestActive stages now with
      | some current => if bucket < current.percentageBasisPoints then variation else fallback
      | none => fallback) := by
  cases hactive : latestActive stages now with
  | some current =>
    obtain ⟨hvariation, hfallback⟩ := h.serves current (active_of_latestActive hactive).1
    rw [progressiveVariation_of_active hactive, ← hvariation, ← hfallback]
    rfl
  | none =>
    cases hmin : stages.argmin ProgressiveStage.activateAt with
    | none => exact absurd (List.argmin_eq_none.mp hmin) hne
    | some first =>
      rw [progressiveVariation_of_inactive hactive hmin, (h.serves first (List.argmin_mem hmin)).2]

/-- **Progressive rollouts only grow.** -/
theorem progressive_grows (hne : stages ≠ []) (h : Growing stages variation fallback)
    (hle : now ≤ later) (hnow : progressiveVariation stages bucket now = .ok variation) :
    progressiveVariation stages bucket later = .ok variation := by
  rw [h.progressiveVariation_eq hne] at hnow ⊢
  congr 1
  by_cases hsame : fallback = variation
  · subst hsame
    split <;> simp
  cases hcurrent : latestActive stages now with
  | none =>
    rw [hcurrent] at hnow
    exact absurd (Except.ok.inj hnow) hsame
  | some current =>
    rw [hcurrent] at hnow
    have hbucket : bucket < current.percentageBasisPoints := by
      by_contra hge
      exact hsame ((if_neg hge).symm.trans (Except.ok.inj hnow))
    obtain ⟨next, hnext⟩ := exists_latestActive hle hcurrent
    obtain ⟨hmem, hactive⟩ := active_of_latestActive hcurrent
    obtain ⟨hmemNext, -⟩ := active_of_latestActive hnext
    rw [hnext]
    refine if_pos (hbucket.trans_le ?_)
    -- the stage that counts later is a later one, or it has counted all along
    rcases (le_latestActive hnext hmem (hactive.trans hle)).lt_or_eq with hlt | heq
    · exact h.percentages current hmem next hmemNext hlt
    · have hsameStage := latestActive_of_le hle hnext (heq ▸ hactive)
      rw [hcurrent] at hsameStage
      rw [Option.some.inj hsameStage]

end Growth

/-- Three stages, of which the two that come first in time have one timestamp. -/
def growingStages : List ProgressiveStage :=
  [⟨9000, "on", "off", 20, by decide⟩, ⟨1000, "on", "off", 10, by decide⟩,
    ⟨500, "on", "off", 10, by decide⟩]

theorem progressive_grows_sample : progressiveVariation growingStages 700 10 = .ok "on"
    ∧ progressiveVariation growingStages 700 20 = .ok "on" := by
  have hgrowing : Growing growingStages "on" "off" := by decide
  exact ⟨rfl, progressive_grows (by decide) hgrowing (by decide : (10 : Instant) ≤ 20) rfl⟩

end CohortSwitch
