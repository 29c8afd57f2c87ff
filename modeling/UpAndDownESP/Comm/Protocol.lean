import UpAndDownESP.TinyFrame.Parser
import UpAndDownESP.TinyFrame.Compose
import UpAndDownESP.Comm.Messages
import UpAndDownESP.Comm.CString

namespace UpAndDownESP

/-- The listener functions of `tf_transport.c` and `protocol_handler.c`. -/
inductive Listener where
  | genericListener
  | heartbeatResponseListener
  | cmdResponseListener
  | eventListener
  deriving DecidableEq

inductive TimeoutListener where
  | heartbeatTimeoutListener
  | cmdTimeoutListener
  deriving DecidableEq

/-- `protocol_config_t`, its callbacks acting on the application's state. -/
structure ProtocolConfig (σ : Type) where
  onCmdResponse : Option (CmdResponse → σ → σ)
  onCmdTimeout : Option (σ → σ)
  onStateEvent : Option (StateEvent → σ → σ)
  onHeartbeat : Option (List UInt8 → UInt16 → σ → σ)
  onHeartbeatTimeout : Option (σ → σ)
  heartbeatIntervalMs : UInt32
  heartbeatTimeoutTicks : Nat
  cmdTimeoutTicks : Nat

/-- What goes out of the protocol layer: the `TF_WriteImpl` calls, and the calls of
the sending functions with what they returned. -/
inductive WireEvent where
  | write (buff : List UInt8)
  | transport (msgType : UInt8) (data : List UInt8) (ok : Bool)
  | command (cmd : CmdRequest) (ok : Bool)
  deriving DecidableEq

/-- The state of the transport and protocol layers, guarded by `tf_mutex`, together
with the state of the application that their callbacks act on. -/
structure Handler (σ : Type) where
  tf : TinyFrame Listener TimeoutListener
  protoConfig : ProtocolConfig σ
  heartbeatCounter : UInt32
  wire : List WireEvent
  app : σ

variable {σ : Type}

/-! ### Listeners -/

def genericListener (_msg : TfMsg) (a : σ) : TfResult × σ := (.stay, a)

def heartbeatResponseListener (cfg : ProtocolConfig σ) (msg : TfMsg) (a : σ) : TfResult × σ :=
  match cfg.onHeartbeat, msg.data with
  | some f, some data => (.close, f data msg.len a)
  | _, _ => (.close, a)

def heartbeatTimeoutListener (cfg : ProtocolConfig σ) (a : σ) : σ :=
  match cfg.onHeartbeatTimeout with
  | some f => f a
  | none => a

def cmdResponseListener (cfg : ProtocolConfig σ) (msg : TfMsg) (a : σ) : TfResult × σ :=
  match msg.data with
  | none => (.close, a)
  | some data =>
    if msg.len.toNat < sizeofCmdResponse then (.close, a)
    else match cfg.onCmdResponse with
      | some f => (.close, f (CmdResponse.ofBytes data) a)
      | none => (.close, a)

def cmdTimeoutListener (cfg : ProtocolConfig σ) (a : σ) : σ :=
  match cfg.onCmdTimeout with
  | some f => f a
  | none => a

def eventListener (cfg : ProtocolConfig σ) (msg : TfMsg) (a : σ) : TfResult × σ :=
  match msg.data with
  | none => (.stay, a)
  | some data =>
    if msg.len.toNat < sizeofStateEvent then (.stay, a)
    else match cfg.onStateEvent with
      | some f => (.stay, f (StateEvent.ofBytes data) a)
      | none => (.stay, a)

def callbacks (cfg : ProtocolConfig σ) : Callbacks Listener TimeoutListener σ where
  fn
    | .genericListener => genericListener
    | .heartbeatResponseListener => heartbeatResponseListener cfg
    | .cmdResponseListener => cmdResponseListener cfg
    | .eventListener => eventListener cfg
  fnTimeout
    | .heartbeatTimeoutListener => heartbeatTimeoutListener cfg
    | .cmdTimeoutListener => cmdTimeoutListener cfg

/-! ### `tf_transport.c` -/

/-- The two halves of a turn of `tf_task`: the bytes read, then housekeeping. -/
def uartRead (rx : List UInt8) (s : Handler σ) : Handler σ :=
  let (tf, app) := tfAccept (callbacks s.protoConfig) s.tf rx s.app
  { s with tf := tf, app := app }

def transportTick (s : Handler σ) : Handler σ :=
  let (tf, app) := tfTick (callbacks s.protoConfig) s.tf s.app
  { s with tf := tf, app := app }

/-- One turn of `tf_task` under `tf_mutex`; `rx` is what `uart_read_bytes` returned. -/
def tfTask (rx : List UInt8) (s : Handler σ) : Handler σ :=
  transportTick (if 0 < rx.length then uartRead rx s else s)

def tfTransportInit (s : Handler σ) : Handler σ :=
  { s with
    tf := (tfAddGenericListener (tfInitStatic Listener TimeoutListener .master) .genericListener).2 }

def tfTransportAddListener (msgType : UInt8) (callback : Listener) (s : Handler σ) :
    Bool × Handler σ :=
  let (result, tf) := tfAddTypeListener s.tf msgType callback
  (result, { s with tf := tf })

/-- Take over the outcome of a TinyFrame sending function. -/
def Handler.sent (s : Handler σ) (msgType : UInt8) (data : List UInt8)
    (r : Bool × TinyFrame Listener TimeoutListener × List (List UInt8)) : Bool × Handler σ :=
  (r.1, { s with
    tf := r.2.1
    wire := s.wire ++ (r.2.2.map WireEvent.write ++ [.transport msgType data r.1]) })

def tfTransportSend (msgType : UInt8) (data : Option (List UInt8)) (len : UInt16) (s : Handler σ) :
    Bool × Handler σ :=
  s.sent msgType ((data.getD []).take len.toNat) (tfSendSimple s.tf msgType data len)

def tfTransportQuery (msgType : UInt8) (data : Option (List UInt8)) (len : UInt16)
    (onResponse : Option Listener) (onTimeout : Option TimeoutListener) (timeoutTicks : Nat)
    (s : Handler σ) : Bool × Handler σ :=
  s.sent msgType ((data.getD []).take len.toNat)
    (tfQuerySimple s.tf msgType data len onResponse onTimeout timeoutTicks)

def tfTransportRespond (originalMsg : TfMsg) (data : Option (List UInt8)) (len : UInt16)
    (s : Handler σ) : Bool × Handler σ :=
  s.sent originalMsg.type ((data.getD []).take len.toNat)
    (tfRespond s.tf { originalMsg with data := data, len := len })

/-! ### `protocol_handler.c` -/

/-- The text of heartbeat `n`. -/
def heartbeatText (n : UInt32) : List UInt8 := ascii "HB " ++ decimal n.toNat

/-- The query of `send_heartbeat`: `snprintf` into 32 bytes, with the text's own length. -/
def queryHeartbeat (msg : List UInt8) (s : Handler σ) : Handler σ :=
  (tfTransportQuery msgTypeHeartbeat (some (msg.take 31 ++ [0])) (UInt16.ofNat msg.length)
    (some .heartbeatResponseListener) (some .heartbeatTimeoutListener)
    s.protoConfig.heartbeatTimeoutTicks s).2

/-- The counter goes up before the query takes `tf_mutex`. -/
def sendHeartbeat (s : Handler σ) : Handler σ :=
  let msg := heartbeatText s.heartbeatCounter
  queryHeartbeat msg { s with heartbeatCounter := s.heartbeatCounter + 1 }

/-- `CONFIG_FREERTOS_HZ`. -/
def configTickRateHz : UInt32 := 100

/-- `pdMS_TO_TICKS`, in 32-bit arithmetic. -/
def pdMsToTicks (ms : UInt32) : UInt32 := ms * configTickRateHz / 1000

/-- The test `protocol_task` makes when it wakes; the difference of the tick counts is
taken modulo 2^32. -/
def heartbeatDue (intervalMs now lastHeartbeatTime : UInt32) : Bool :=
  0 < intervalMs && pdMsToTicks intervalMs ≤ now - lastHeartbeatTime

/-- One turn of the loop of `protocol_task` after its delay: the new
`last_heartbeat_time`, and what became of the endpoint. -/
def protocolTaskTurn (now lastHeartbeatTime : UInt32) (s : Handler σ) : UInt32 × Handler σ :=
  if heartbeatDue s.protoConfig.heartbeatIntervalMs now lastHeartbeatTime then
    (now, sendHeartbeat s)
  else (lastHeartbeatTime, s)

def protocolInit (config : Option (ProtocolConfig σ)) (s : Handler σ) : Handler σ :=
  let s := match config with
    | some config => { s with protoConfig := config }
    | none => s
  (tfTransportAddListener msgTypeEvent .eventListener s).2

def protocolSendCmd (cmd : CmdRequest) (s : Handler σ) : Bool × Handler σ :=
  let (ok, s) := tfTransportQuery msgTypeCmd (some cmd.bytes) 18 (some .cmdResponseListener)
    (some .cmdTimeoutListener) s.protoConfig.cmdTimeoutTicks s
  (ok, { s with wire := s.wire ++ [.command cmd ok] })

def protocolSendEstop (data : List UInt8) (len : UInt16) (s : Handler σ) : Bool × Handler σ :=
  tfTransportSend msgTypeEstop (some data) len s

end UpAndDownESP
