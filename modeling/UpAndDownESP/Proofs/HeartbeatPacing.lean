import UpAndDownESP.Lib.Pacing
import UpAndDownESP.System.Pacing

namespace UpAndDownESP.Proofs.HeartbeatPacing
open Pacing

/-- `pdMS_TO_TICKS(heartbeat_interval_ms)` where it does not overflow. -/
def intervalTicks (s : Endpoint) : Nat := s.protoConfig.heartbeatIntervalMs.toNat * 100 / 1000

/-- At every wake-up a heartbeat is sent just when the interval has passed since the last
wake-up that sent one, or since the start; so no two are closer than that. -/
structure WellPaced (s : Endpoint) (start : Nat) (acts : List PacedAct) : Prop where
  exact : ∀ before t after, acts = before ++ .wake t :: after →
    let p := pacedRun s start before
    let q := pacedRun s start (before ++ [.wake t])
    if intervalTicks s ≤ t - p.heartbeats.getLastD start then
      q.endpoint = sendHeartbeat p.endpoint ∧ q.heartbeats = p.heartbeats ++ [t]
    else q.endpoint = p.endpoint ∧ q.heartbeats = p.heartbeats
  apart : List.IsChain (fun a b => a + intervalTicks s ≤ b)
    (start :: (pacedRun s start acts).heartbeats)

/-- The tick count measures anything shorter than a turn of it. -/
theorem tickCount_measures :
    MeasuresTurn xTaskGetTickCount (fun now last => (now - last).toNat) (2 ^ 32) := by
  intro a b hle hlt
  simp only [xTaskGetTickCount, UInt32.toNat_sub, UInt32.toNat_ofNat']
  omega

theorem heartbeatDue_iff {ms : UInt32} (hms : 0 < ms) (hconv : ms.toNat * 100 < 2 ^ 32)
    (now last : UInt32) :
    heartbeatDue ms now last = true ↔ ms.toNat * 100 / 1000 ≤ (now - last).toNat := by
  have hticks : (pdMsToTicks ms).toNat = ms.toNat * 100 / 1000 := by
    have hrate : configTickRateHz.toNat = 100 := rfl
    have hthousand : (1000 : UInt32).toNat = 1000 := rfl
    rw [pdMsToTicks, UInt32.toNat_div, UInt32.toNat_mul, hrate, hthousand, Nat.mod_eq_of_lt hconv]
  simp only [heartbeatDue, hms, decide_true, Bool.true_and, decide_eq_true_eq,
    UInt32.le_iff_toNat_le, hticks]

/-- What the task remembers is the true time of its last heartbeat, as the tick count had
it. -/
structure Tracks (s : Endpoint) (start : Nat) (acts : List PacedAct) (p : Paced) : Prop where
  config : p.endpoint.protoConfig = s.protoConfig
  last : p.lastHeartbeatTime =
    xTaskGetTickCount (lastFire (intervalTicks s) start (wakeTimes acts))
  heartbeats : p.heartbeats = fires (intervalTicks s) start (wakeTimes acts)

theorem wakeTimes_wake (acts : List PacedAct) (t : Nat) :
    wakeTimes (acts ++ [.wake t]) = wakeTimes acts ++ [t] := by
  simp [wakeTimes]

theorem wakeTimes_other (acts : List PacedAct) (a : Act) :
    wakeTimes (acts ++ [.other a]) = wakeTimes acts := by
  simp [wakeTimes]

section
variable {s : Endpoint} {start : Nat} {acts : List PacedAct}
  (hms : 0 < s.protoConfig.heartbeatIntervalMs)
  (hconv : s.protoConfig.heartbeatIntervalMs.toNat * 100 < 2 ^ 32)
include hms hconv

/-- The test made on waking is the test on true times. -/
theorem Tracks.due_iff (h : Tracks s start acts p)
    (hs : Spaced (2 ^ 32 - intervalTicks s) start (wakeTimes acts ++ [t])) :
    heartbeatDue p.endpoint.protoConfig.heartbeatIntervalMs (xTaskGetTickCount t)
        p.lastHeartbeatTime = true ↔
      intervalTicks s ≤ t - lastFire (intervalTicks s) start (wakeTimes acts) := by
  have helapsed := elapsed_since_fire _ _ _ tickCount_measures hs
  rw [h.config, h.last, heartbeatDue_iff hms hconv, ← helapsed]
  rfl

theorem Tracks.wake (h : Tracks s start acts p)
    (hs : Spaced (2 ^ 32 - intervalTicks s) start (wakeTimes acts ++ [t])) :
    Tracks s start (acts ++ [.wake t]) (pacedStep p (.wake t)) := by
  have hdue := h.due_iff hms hconv hs
  have hfires := fires_snoc (intervalTicks s) start (wakeTimes acts) t
  have hlast := lastFire_snoc (intervalTicks s) start (wakeTimes acts) t
  rw [← wakeTimes_wake] at hfires hlast
  by_cases hd : intervalTicks s ≤ t - lastFire (intervalTicks s) start (wakeTimes acts)
  · rw [if_pos hd] at hfires hlast
    rw [pacedStep_due (hdue.mpr hd)]
    exact ⟨h.config, by rw [hlast], by rw [hfires, h.heartbeats]⟩
  · rw [if_neg hd] at hfires hlast
    rw [pacedStep_early (mt hdue.mp hd)]
    refine ⟨h.config, by rw [hlast, h.last], ?_⟩
    rw [hfires, List.append_nil, h.heartbeats]

omit hms hconv in
theorem Tracks.other (h : Tracks s start acts p) (a : Act) :
    Tracks s start (acts ++ [.other a]) (pacedStep p (.other a)) := by
  constructor
  · exact (step_protoConfig _ _).trans h.config
  · rw [wakeTimes_other]
    exact h.last
  · rw [wakeTimes_other]
    exact h.heartbeats

theorem tracks_run (hs : Spaced (2 ^ 32 - intervalTicks s) start (wakeTimes acts)) :
    Tracks s start acts (pacedRun s start acts) := by
  induction acts using List.reverseRecOn with
  | nil => exact ⟨rfl, rfl, rfl⟩
  | append_singleton acts a ih =>
    rw [pacedRun, Runs.run_append]
    cases a with
    | wake t =>
      rw [wakeTimes_wake] at hs
      exact (ih (spaced_snoc.mp hs).1).wake hms hconv hs
    | other a =>
      rw [wakeTimes_other] at hs
      exact (ih hs).other a

/-- Heartbeat pacing survives the wraparound of the tick count, whatever the other tasks
do in between. -/
theorem heartbeats_paced
    (hs : Spaced (2 ^ 32 - intervalTicks s) start (wakeTimes acts)) :
    WellPaced s start acts := by
  constructor
  · intro before t after he
    have hwakes : wakeTimes acts = (wakeTimes before ++ [t]) ++ wakeTimes after := by
      rw [he]
      simp [wakeTimes]
    have hpre : Spaced (2 ^ 32 - intervalTicks s) start (wakeTimes before ++ [t]) := by
      rw [hwakes, Spaced, ← List.cons_append] at hs
      exact hs.left_of_append
    have htracks := tracks_run hms hconv (spaced_snoc.mp hpre).1
    have hdue := htracks.due_iff hms hconv hpre
    have hq : pacedRun s start (before ++ [.wake t]) =
        pacedStep (pacedRun s start before) (.wake t) := Runs.run_append _ _ _ _
    simp only [hq]
    rw [htracks.heartbeats]
    change if intervalTicks s ≤ t - lastFire _ start (wakeTimes before) then _ else _
    by_cases hd : intervalTicks s ≤ t - lastFire (intervalTicks s) start (wakeTimes before)
    · rw [if_pos hd, pacedStep_due (hdue.mpr hd), htracks.heartbeats]
      exact ⟨rfl, rfl⟩
    · rw [if_neg hd, pacedStep_early (mt hdue.mp hd), htracks.heartbeats]
      exact ⟨rfl, rfl⟩
  · rw [(tracks_run hms hconv hs).heartbeats]
    exact fires_apart hs

end

/-- Started 500 ticks before the count wraps, the task sends its first heartbeat when it
wakes 500 ticks after that. -/
theorem paced_across_wrap :
    WellPaced (boot fun _ => 0) (2 ^ 32 - 500) [.wake (2 ^ 32 + 200), .wake (2 ^ 32 + 500)] :=
  heartbeats_paced (by decide) (by decide) (by unfold Spaced; decide)

end UpAndDownESP.Proofs.HeartbeatPacing
