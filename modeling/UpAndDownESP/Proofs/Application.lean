import UpAndDownESP.Spec.Session

namespace UpAndDownESP.Proofs.Application
open Table

/-- A relation between applications that every callback of `max_comm.c` keeps. -/
structure Kept (R : App → App → Prop) : Prop where
  response : ∀ {a b} resp, R a b → R (onCmdResponse resp a) (onCmdResponse resp b)
  timeout : ∀ {a b}, R a b → R (onCmdTimeout a) (onCmdTimeout b)
  event : ∀ {a b} evt, R a b → R (onStateEvent evt a) (onStateEvent evt b)
  heartbeat : ∀ {a b} data len, R a b → R (onHeartbeat data len a) (onHeartbeat data len b)
  heartbeatTimeout : ∀ {a b}, R a b → R (onHeartbeatTimeout a) (onHeartbeatTimeout b)

section
variable {R : App → App → Prop} (h : Kept R) {a b : App}
include h

theorem Kept.fn (l : Listener) (msg : TfMsg) (hab : R a b) :
    R ((callbacks protoCfg).fn l msg a).2 ((callbacks protoCfg).fn l msg b).2 := by
  cases l with
  | genericListener => exact hab
  | heartbeatResponseListener =>
    simp only [callbacks, heartbeatResponseListener, protoCfg]
    cases msg.data with
    | none => exact hab
    | some data => exact h.heartbeat data msg.len hab
  | cmdResponseListener =>
    simp only [callbacks, cmdResponseListener, protoCfg]
    cases msg.data with
    | none => exact hab
    | some data =>
      dsimp only
      split
      · exact hab
      · exact h.response _ hab
  | eventListener =>
    simp only [callbacks, eventListener, protoCfg]
    cases msg.data with
    | none => exact hab
    | some data =>
      dsimp only
      split
      · exact hab
      · exact h.event _ hab

theorem Kept.expire (q : PendingQuery) (hab : R a b) :
    R (expire (callbacks protoCfg) a q) (expire (callbacks protoCfg) b q) := by
  unfold Table.expire
  split
  · exact hab
  · rename_i g _
    cases g with
    | heartbeatTimeoutListener => exact h.heartbeatTimeout hab
    | cmdTimeoutListener => exact h.timeout hab

theorem Kept.expire_all (qs : List PendingQuery) (hab : R a b) :
    R (qs.foldl (Table.expire (callbacks protoCfg)) a)
      (qs.foldl (Table.expire (callbacks protoCfg)) b) :=
  Runs.related (Table.expire (callbacks protoCfg)) (fun _ _ q hs => h.expire q hs) hab qs

end

/-- What the callbacks are made of, and all they look at. -/
structure Respects (R : App → App → Prop) : Prop where
  connected : ∀ {a b}, R a b → a.max32655Connected = b.max32655Connected
  called : ∀ {a b} c, R a b → R (a.called c) (b.called c)
  publish : ∀ {a b} payload, R a b → R (a.publish payload) (b.publish payload)
  link : ∀ {a b} up, R a b →
    R { a with max32655Connected := up } { b with max32655Connected := up }

theorem Respects.kept {R : App → App → Prop} (h : Respects R) : Kept R where
  response resp hab := by
    unfold onCmdResponse
    split
    · exact h.publish _ (h.called _ hab)
    · split <;> exact h.publish _ (h.called _ hab)
  timeout hab := h.publish _ (h.called _ hab)
  event evt hab := h.publish _ (h.called _ hab)
  heartbeat {a b} data len hab := by
    have hc := h.called (.onHeartbeat (data.take len.toNat)) hab
    have ha := h.connected hab
    cases hb : b.max32655Connected with
    | false =>
      simp only [onHeartbeat, App.called_connected, ha, hb, Bool.not_false, if_true]
      exact h.publish _ (h.link true hc)
    | true =>
      simp only [onHeartbeat, App.called_connected, ha, hb, Bool.not_true, Bool.false_eq_true,
        if_false]
      exact hc
  heartbeatTimeout {a b} hab := by
    have hc := h.called .onHeartbeatTimeout hab
    have ha := h.connected hab
    cases hb : b.max32655Connected with
    | false =>
      simp only [onHeartbeatTimeout, App.called_connected, ha, hb, Bool.false_eq_true, if_false]
      exact hc
    | true =>
      simp only [onHeartbeatTimeout, App.called_connected, ha, hb, if_true]
      exact h.publish _ (h.link false hc)

end UpAndDownESP.Proofs.Application
