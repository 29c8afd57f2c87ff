import Mathlib.Data.List.Induction
import Mathlib.Data.List.TakeWhile
import UpAndDownESP.Comm.Wifi

namespace UpAndDownESP.Proofs.WifiStatus

/-- The disconnections since the last GOT_IP, or since the start. -/
def dropsSince (events : List WifiEvent) : Nat :=
  (events.reverse.takeWhile (· ≠ .gotIp)).count .staDisconnected

/-- The status bits say what has happened. -/
structure Truthful (w : Wifi) (events : List WifiEvent) : Prop where
  connected : wifiIsConnected w = true ↔ .gotIp ∈ events ∧ dropsSince events = 0
  failed : w.has wifiFailBit = true ↔ maxRetry < dropsSince events
  apart : ¬ (w.has wifiConnectedBit = true ∧ w.has wifiFailBit = true)

/-! ### Counting disconnections -/

theorem dropsSince_gotIp (events : List WifiEvent) : dropsSince (events ++ [.gotIp]) = 0 := by
  simp [dropsSince]

theorem dropsSince_disconnected (events : List WifiEvent) :
    dropsSince (events ++ [.staDisconnected]) = dropsSince events + 1 := by
  simp [dropsSince]

theorem dropsSince_other (events : List WifiEvent) {e : WifiEvent} (hip : e ≠ .gotIp)
    (hdrop : e ≠ .staDisconnected) : dropsSince (events ++ [e]) = dropsSince events := by
  simp [dropsSince, hip, hdrop]

/-- Some disconnection exceeded the retries. -/
def GaveUp (events : List WifiEvent) : Prop :=
  ∃ before, before <+: events ∧ maxRetry < dropsSince before

theorem gaveUp_snoc (events : List WifiEvent) (e : WifiEvent) :
    GaveUp (events ++ [e]) ↔ GaveUp events ∨ maxRetry < dropsSince (events ++ [e]) := by
  constructor
  · intro h
    obtain ⟨before, hpre, hdrops⟩ := h
    rcases List.prefix_concat_iff.mp hpre with he | hpre
    · exact Or.inr (he ▸ hdrops)
    · exact Or.inl ⟨before, hpre, hdrops⟩
  · intro h
    rcases h with ⟨before, hpre, hdrops⟩ | hdrops
    · exact ⟨before, hpre.trans (List.prefix_append _ _), hdrops⟩
    · exact ⟨_, List.prefix_refl _, hdrops⟩

/-- What the statics hold after these events: no bit is ever cleared. -/
structure Tracks (w : Wifi) (events : List WifiEvent) : Prop where
  connected : w.has wifiConnectedBit = true ↔ .gotIp ∈ events
  failed : w.has wifiFailBit = true ↔ GaveUp events
  retries : w.sRetryNum = min (dropsSince events) maxRetry

theorem Tracks.step (h : Tracks w events) (e : WifiEvent) :
    Tracks (wifiEventHandler w e) (events ++ [e]) := by
  have hr := h.retries
  have hconnected : (wifiEventHandler w e).has wifiConnectedBit = true ↔ .gotIp ∈ events ++ [e] := by
    rw [handler_connected, Bool.or_eq_true, h.connected, List.mem_append, List.mem_singleton,
      beq_iff_eq]
    exact or_congr_right eq_comm
  refine ⟨hconnected, ?_, ?_⟩
  · rw [handler_failed, gaveUp_snoc, Bool.or_eq_true, h.failed]
    refine or_congr_right' fun hno => ?_
    simp only [Bool.and_eq_true, beq_iff_eq, decide_eq_true_eq]
    by_cases hdrop : e = .staDisconnected
    · subst hdrop
      rw [dropsSince_disconnected]
      simp only [true_and]
      omega
    · have hquiet : ¬ maxRetry < dropsSince (events ++ [e]) := by
        by_cases hip : e = .gotIp
        · subst hip
          rw [dropsSince_gotIp]
          exact Nat.not_lt_zero _
        · rw [dropsSince_other events hip hdrop]
          exact fun hlt => hno ⟨events, List.prefix_refl _, hlt⟩
      exact ⟨fun hd => absurd hd.1 hdrop, fun hlt => absurd hlt hquiet⟩
  · cases e with
    | gotIp =>
      rw [dropsSince_gotIp]
      rfl
    | staDisconnected =>
      rw [dropsSince_disconnected]
      simp only [wifiEventHandler]
      split
      · change w.sRetryNum + 1 = _
        omega
      · change w.sRetryNum = _
        omega
    | staStart | other =>
      rw [dropsSince_other events (by decide) (by decide)]
      exact hr

theorem tracks_after (events : List WifiEvent) : Tracks (wifiAfter events) events := by
  induction events using List.reverseRecOn with
  | nil =>
    refine ⟨by decide, ⟨fun h => absurd h (by decide), ?_⟩, rfl⟩
    rintro ⟨before, hpre, hdrops⟩
    rw [List.prefix_nil.mp hpre] at hdrops
    cases hdrops
  | append_singleton events e ih =>
    rw [wifiAfter, Runs.run_append]
    exact ih.step e

/-- Without a GOT_IP the disconnections only add up. -/
theorem gaveUp_offline (h : .gotIp ∉ events) :
    GaveUp events ↔ maxRetry < dropsSince events := by
  have hall : ∀ es : List WifiEvent, .gotIp ∉ es → dropsSince es = es.count .staDisconnected := by
    intro es hes
    have hself : es.reverse.takeWhile (· ≠ .gotIp) = es.reverse := by
      apply List.takeWhile_eq_self_iff.mpr
      intro e he
      have : e ≠ .gotIp := fun heq => hes (heq ▸ List.mem_reverse.mp he)
      simpa using this
    rw [dropsSince, hself, List.count_reverse]
  constructor
  · rintro ⟨before, hpre, hdrops⟩
    rw [hall before fun hin => h (hpre.subset hin)] at hdrops
    rw [hall events h]
    exact Nat.lt_of_lt_of_le hdrops (hpre.sublist.count_le _)
  · intro hdrops
    exact ⟨events, List.prefix_refl _, hdrops⟩

/-- The status bits tell the truth just when there has been no GOT_IP yet, or no
disconnection since the last one and never more of them than the retries without a GOT_IP
in between. -/
theorem status_truthful_iff (events : List WifiEvent) :
    Truthful (wifiAfter events) events ↔
      .gotIp ∉ events ∨
        dropsSince events = 0 ∧ ∀ before, before <+: events → dropsSince before ≤ maxRetry := by
  have ht := tracks_after events
  have hquiet : (∀ before, before <+: events → dropsSince before ≤ maxRetry) ↔ ¬ GaveUp events := by
    simp [GaveUp]
  rw [hquiet]
  by_cases hip : .gotIp ∈ events
  · rw [or_iff_right (not_not_intro hip)]
    constructor
    · intro h
      have hzero := (h.connected.mp (ht.connected.mpr hip)).2
      refine ⟨hzero, fun hgave => ?_⟩
      exact h.apart ⟨ht.connected.mpr hip, ht.failed.mpr hgave⟩
    · rintro ⟨hzero, hno⟩
      refine ⟨⟨fun _ => ⟨hip, hzero⟩, fun _ => ht.connected.mpr hip⟩, ?_, fun hboth => ?_⟩
      · rw [ht.failed, hzero]
        exact ⟨fun hgave => absurd hgave hno, fun hlt => absurd hlt (by decide)⟩
      · exact hno (ht.failed.mp hboth.2)
  · refine ⟨fun _ => Or.inl hip, fun _ => ⟨?_, ?_, ?_⟩⟩
    · rw [wifiIsConnected, ht.connected]
      exact ⟨fun hin => absurd hin hip, fun h => h.1⟩
    · rw [ht.failed, gaveUp_offline hip]
    · exact fun hboth => hip (ht.connected.mp hboth.1)

/-- After a GOT_IP and a disconnection the station still counts as connected. -/
theorem lost_ap_unnoticed :
    ¬ Truthful (wifiAfter [.gotIp, .staDisconnected]) [.gotIp, .staDisconnected] := by
  intro h
  exact absurd (h.connected.mp (by decide)).2 (by decide)

end UpAndDownESP.Proofs.WifiStatus
