import UpAndDownESP.Lib.Runs

namespace UpAndDownESP

/-! The WiFi station of `wifi_util.c`. -/

abbrev EventBits := UInt32

def wifiConnectedBit : EventBits := 0x01
def wifiFailBit : EventBits := 0x02

def maxRetry : Nat := 10

/-- The statics, with the bits of the event group, and how often `esp_wifi_connect` has
been called. -/
structure Wifi where
  sWifiEventGroup : EventBits
  sRetryNum : Nat
  connectCalls : Nat

inductive WifiEvent where
  | staStart
  | staDisconnected
  | gotIp
  | other
  deriving DecidableEq

def xEventGroupSetBits (bits : EventBits) (w : Wifi) : Wifi :=
  { w with sWifiEventGroup := w.sWifiEventGroup ||| bits }

/-- Whether one of the bits is set in the event group. -/
def Wifi.has (w : Wifi) (bits : EventBits) : Bool := w.sWifiEventGroup &&& bits != 0

def espWifiConnect (w : Wifi) : Wifi := { w with connectCalls := w.connectCalls + 1 }

def wifiEventHandler (w : Wifi) : WifiEvent → Wifi
  | .staStart => espWifiConnect w
  | .staDisconnected =>
    if w.sRetryNum < maxRetry then
      let w := espWifiConnect w
      { w with sRetryNum := w.sRetryNum + 1 }
    else xEventGroupSetBits wifiFailBit w
  | .gotIp => xEventGroupSetBits wifiConnectedBit { w with sRetryNum := 0 }
  | .other => w

/-- `wifi_init` up to its registering of the handler: the event group is made. -/
def wifiInit (w : Wifi) : Wifi := { w with sWifiEventGroup := 0 }

def wifiIsConnected (w : Wifi) : Bool := w.has wifiConnectedBit

/-- The station after `wifi_init` has made the event group and these events came. -/
def wifiAfter (events : List WifiEvent) : Wifi :=
  Runs.run wifiEventHandler
    (wifiInit { sWifiEventGroup := 0, sRetryNum := 0, connectCalls := 0 }) events

/-! What the events do to the two bits: nothing clears one. -/

theorem has_setBits (w : Wifi) (set bits : EventBits) :
    (xEventGroupSetBits set w).has bits = (w.has bits || set &&& bits != 0) := by
  have hdistrib : (w.sWifiEventGroup ||| set) &&& bits =
      w.sWifiEventGroup &&& bits ||| set &&& bits := by
    apply UInt32.toNat_inj.mp
    simp only [UInt32.toNat_and, UInt32.toNat_or]
    exact Nat.and_or_distrib_right _ _ _
  rw [Bool.eq_iff_iff]
  simp only [Wifi.has, xEventGroupSetBits, hdistrib, bne_iff_ne, Bool.or_eq_true, ne_eq,
    UInt32.or_eq_zero_iff, not_and_or]

theorem handler_connected (w : Wifi) (e : WifiEvent) :
    (wifiEventHandler w e).has wifiConnectedBit = (w.has wifiConnectedBit || e == .gotIp) := by
  have hapart : wifiFailBit &&& wifiConnectedBit = 0 := by decide
  have hself : wifiConnectedBit ≠ 0 := by decide
  cases e with
  | gotIp => simp [wifiEventHandler, has_setBits, hself]
  | staDisconnected =>
    simp only [wifiEventHandler]
    split
    · exact (Bool.or_false _).symm
    · rw [has_setBits, hapart]
      rfl
  | staStart | other => exact (Bool.or_false _).symm

theorem handler_failed (w : Wifi) (e : WifiEvent) :
    (wifiEventHandler w e).has wifiFailBit =
      (w.has wifiFailBit || e == .staDisconnected && maxRetry ≤ w.sRetryNum) := by
  have hapart : wifiConnectedBit &&& wifiFailBit = 0 := by decide
  have hself : wifiFailBit ≠ 0 := by decide
  cases e with
  | gotIp =>
    simp only [wifiEventHandler, has_setBits, hapart]
    rfl
  | staDisconnected =>
    simp only [wifiEventHandler]
    split
    · rename_i hlt
      have hle : ¬ maxRetry ≤ w.sRetryNum := Nat.not_le_of_lt hlt
      simp [hle, Wifi.has, espWifiConnect]
    · rename_i hlt
      have hle : maxRetry ≤ w.sRetryNum := Nat.le_of_not_lt hlt
      simp [has_setBits, hself, hle]
  | staStart | other => exact (Bool.or_false _).symm

end UpAndDownESP
