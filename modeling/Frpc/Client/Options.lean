import Frpc.Client.Machine
import Frpc.Lib.Writes

/-! # The options of a client

`client/option.go`: the option record of a client and its builders, each of which writes its
argument into the record and returns the client. `ConnTimeout` is the exception: it writes
`readTimeout`. So `Connect`, which dials with `connTimeout` and puts `readTimeout` on the connection
as its deadline, sees the value of a `ConnTimeout` call in the wrong place. A sequence of builder
calls is last-write-wins exactly if each of its `ConnTimeout` calls finds its argument in both
fields (`Harmless`). -/

namespace Frpc.Client.Options

open Frpc.Basic Frpc.Client.Machine Frpc.Lib.Writes Frpc.Protocol.Headers

/-- `time.Duration` and `time.Time`, in nanoseconds. -/
abbrev Duration := ℤ

/-- `10 * time.Second` -/
def tenSeconds : Duration := 10000000000

/-- `type option struct`, with `T` for `tls.Config` and `B` for the values a block can be. -/
structure OptionRecord (T B : Type) extends ClientOption where
  readTimeout : Duration
  writeTimeout : Duration
  connTimeout : Duration
  heartbeat : Bool
  heartbeatInterval : Duration
  rpcPath : Bytes
  retries : ℤ
  tlsConfig : Option T
  block : Option B

/-- The builders, by what they are meant to set. -/
inductive Field
  | serialize
  | compress
  | readTimeout
  | writeTimeout
  | connTimeout
  | heartbeat
  | rpcPath
  | retries
  | withBlock
  | withTls
deriving DecidableEq

/-- The argument of a builder. -/
abbrev Field.Val (T B : Type) : Field → Type
  | .serialize => SerializeType
  | .compress => CompressType
  | .readTimeout | .writeTimeout | .connTimeout => Duration
  | .heartbeat => Bool × Duration
  | .rpcPath => Bytes
  | .retries => ℤ
  | .withBlock => Option B
  | .withTls => Option T

variable {T B : Type}

/-- The option of a builder. -/
def get : (f : Field) → OptionRecord T B → f.Val T B
  | .serialize, o => o.serializeType
  | .compress, o => o.compressType
  | .readTimeout, o => o.readTimeout
  | .writeTimeout, o => o.writeTimeout
  | .connTimeout, o => o.connTimeout
  | .heartbeat, o => (o.heartbeat, o.heartbeatInterval)
  | .rpcPath, o => o.rpcPath
  | .retries, o => o.retries
  | .withBlock, o => o.block
  | .withTls, o => o.tlsConfig

namespace Builder

variable (o : OptionRecord T B)

def serialize (serializeType : SerializeType) : OptionRecord T B := { o with serializeType }

def compress (compressType : CompressType) : OptionRecord T B := { o with compressType }

def readTimeout (timeout : Duration) : OptionRecord T B := { o with readTimeout := timeout }

def writeTimeout (timeout : Duration) : OptionRecord T B := { o with writeTimeout := timeout }

/-- `ConnTimeout`, which writes `c.option.readTimeout`. -/
def connTimeout (timeout : Duration) : OptionRecord T B := { o with readTimeout := timeout }

def heartbeat (isHearBeat : Bool) (interval : Duration) : OptionRecord T B :=
  { o with heartbeat := isHearBeat, heartbeatInterval := interval }

def rpcPath (path : Bytes) : OptionRecord T B := { o with rpcPath := path }

def retries (retries : ℤ) : OptionRecord T B := { o with retries }

def withBlock (kc : Option B) : OptionRecord T B := { o with block := kc }

def withTls (tls : Option T) : OptionRecord T B := { o with tlsConfig := tls }

end Builder

/-- The call of a builder. -/
def build : (f : Field) → f.Val T B → OptionRecord T B → OptionRecord T B
  | .serialize, v, o => Builder.serialize o v
  | .compress, v, o => Builder.compress o v
  | .readTimeout, v, o => Builder.readTimeout o v
  | .writeTimeout, v, o => Builder.writeTimeout o v
  | .connTimeout, v, o => Builder.connTimeout o v
  | .heartbeat, v, o => Builder.heartbeat o v.1 v.2
  | .rpcPath, v, o => Builder.rpcPath o v
  | .retries, v, o => Builder.retries o v
  | .withBlock, v, o => Builder.withBlock o v
  | .withTls, v, o => Builder.withTls o v

/-- The option record with its builders. -/
def options (T B : Type) : Fields (OptionRecord T B) (Field.Val T B) := ⟨get, build⟩

/-- `&Client{}` -/
def zero (T B : Type) : OptionRecord T B where
  serializeType := SerializeType.json
  compressType := CompressType.none
  readTimeout := 0
  writeTimeout := 0
  connTimeout := 0
  heartbeat := false
  heartbeatInterval := 0
  rpcPath := []
  retries := 0
  tlsConfig := none
  block := none

/-- The builder calls of `NewClient`. -/
def newClientCalls (T B : Type) : List (Call (Field.Val T B)) :=
  [⟨.connTimeout, tenSeconds⟩, ⟨.serialize, SerializeType.msgPack⟩, ⟨.compress, CompressType.none⟩,
    ⟨.retries, 3⟩]

/-- The options of `NewClient()`. -/
def newClient (T B : Type) : OptionRecord T B := (options T B).run (newClientCalls T B) (zero T B)

/-! ### What `Connect` makes of the options -/

/-- The `network` argument of `Connect`: `direct` stands for every other name. -/
inductive Network
  | http
  | kcp
  | quic
  | direct

/-- How a connection is dialled. -/
inductive Dial (T B : Type)
  | http (path : Bytes) (timeout : Duration)
  | kcp (block : Option B)
  | quic (tlsConf : T)
  | direct (timeout : Duration)

/-- `core.DefaultRPCPath` -/
def defaultRPCPath : Bytes := str "/_fprc_"

/-- `newHttpConn`, `newKcpConn`, `newQuicConn` and `newDirectConn`, up to the dialling. `insecure`
is the configuration that `newQuicConn` uses when there is none; `newKcpConn` panics when there is
no block. -/
def dial (insecure : T) (o : OptionRecord T B) : Network → Dial T B
  | .http => .http (if o.rpcPath = [] then defaultRPCPath else o.rpcPath) o.connTimeout
  | .kcp => .kcp o.block
  | .quic => .quic (o.tlsConfig.getD insecure)
  | .direct => .direct o.connTimeout

/-- A connection that `Connect` has set up. -/
structure Connected (T B : Type) where
  dialled : Dial T B
  readDeadline : Option Duration
  writeDeadline : Option Duration
  heartbeat : Bool

/-- `if timeout != 0 { conn.SetDeadline(time.Now().Add(timeout)) }` -/
def deadline (now timeout : Duration) : Option Duration :=
  if timeout ≠ 0 then some (now + timeout) else none

/-- `Connect` when the dialling succeeds, at the time `now`. -/
def connect (insecure : T) (o : OptionRecord T B) (network : Network) (now : Duration) :
    Connected T B where
  dialled := dial insecure o network
  readDeadline := deadline now o.readTimeout
  writeDeadline := deadline now o.writeTimeout
  heartbeat := o.heartbeat && decide (0 < o.heartbeatInterval)

/-- The time limit of the dialling, where there is one. -/
def Dial.timeout : Dial T B → Option Duration
  | .http _ timeout | .direct timeout => some timeout
  | .kcp _ | .quic _ => none

/-! ### Sequences of builder calls -/

/-- The call changes nothing but the option it is meant to set: a `ConnTimeout` call finds its
argument in both timeouts. -/
def Harmless (o : OptionRecord T B) : Call (Field.Val T B) → Prop
  | ⟨.connTimeout, timeout⟩ => o.connTimeout = timeout ∧ o.readTimeout = timeout
  | _ => True

/-- Every builder but `ConnTimeout` sets its own option and no other. -/
theorem proper_of_ne {c : Call (Field.Val T B)} (hc : c.1 ≠ .connTimeout) (o : OptionRecord T B) :
    (options T B).Proper o c := by
  obtain ⟨f, v⟩ := c
  refine ⟨?_, fun g hg => ?_⟩
  · cases f <;> first | exact absurd rfl hc | rfl
  · cases f <;> first | exact absurd rfl hc | (cases g <;> first | exact absurd rfl hg | rfl)

theorem proper_iff_harmless (o : OptionRecord T B) (c : Call (Field.Val T B)) :
    (options T B).Proper o c ↔ Harmless o c := by
  by_cases hc : c.1 = .connTimeout
  · obtain ⟨f, timeout⟩ := c
    subst hc
    constructor
    · rintro ⟨hown, hother⟩
      have hread : timeout = o.readTimeout := hother .readTimeout nofun
      exact ⟨hown, hread.symm⟩
    · rintro ⟨hconn, hread⟩
      -- the call writes what is there already
      have hsame : (options T B).call o ⟨.connTimeout, timeout⟩ = o := by
        show Builder.connTimeout o timeout = o
        unfold Builder.connTimeout
        rw [← hread]
      rw [Fields.Proper, hsame]
      exact ⟨hconn, fun _ _ => rfl⟩
  · refine iff_of_true (proper_of_ne hc o) ?_
    obtain ⟨f, v⟩ := c
    cases f <;> first | exact absurd rfl hc | trivial

/-- **The builders of a client.** For every option record and every sequence of builder calls, each
option is what the last call of its own builder gave, after every one of the calls, exactly if all
of them are harmless. `Connect` then dials with the last `ConnTimeout` and has the deadline of the
last `ReadTimeout`. -/
theorem builders_last_write_wins (o : OptionRecord T B) (calls : List (Call (Field.Val T B))) :
    ((∀ made, made <+: calls → (options T B).LastWriteWins o made) ↔
        (options T B).Each Harmless o calls) ∧
      ((options T B).Each Harmless o calls → ∀ insecure now network,
        (connect insecure ((options T B).run calls o) network now).readDeadline =
            deadline now (last .readTimeout calls o.readTimeout) ∧
          ∀ timeout, (connect insecure ((options T B).run calls o) network now).dialled.timeout =
            some timeout → timeout = last .connTimeout calls o.connTimeout) := by
  have hiff : (∀ made, made <+: calls → (options T B).LastWriteWins o made) ↔
      (options T B).Each Harmless o calls :=
    Fields.lastWriteWins_iff.trans (Fields.each_congr fun t c _ => proper_iff_harmless t c)
  refine ⟨hiff, fun hall insecure now network => ?_⟩
  have hlast : (options T B).LastWriteWins o calls := hiff.mpr hall calls (List.prefix_refl calls)
  have hread : ((options T B).run calls o).readTimeout = last .readTimeout calls o.readTimeout :=
    hlast .readTimeout
  have hconn : ((options T B).run calls o).connTimeout = last .connTimeout calls o.connTimeout :=
    hlast .connTimeout
  refine ⟨?_, fun timeout ht => ?_⟩
  · unfold connect
    rw [hread]
  · rw [← hconn]
    cases network with
    | http => exact (Option.some.inj ht).symm
    | direct => exact (Option.some.inj ht).symm
    | kcp => cases ht
    | quic => cases ht

/-- `NewClient` asks for ten seconds to connect: its clients dial without a limit, and every
connection of theirs is cut off ten seconds after it was made. -/
theorem newClient_timeouts :
    last .connTimeout (newClientCalls Unit Unit) (zero Unit Unit).connTimeout = tenSeconds ∧
      (connect () (newClient Unit Unit) .direct 0).dialled.timeout = some 0 ∧
      (connect () (newClient Unit Unit) .direct 0).readDeadline = some tenSeconds ∧
      ¬ (options Unit Unit).LastWriteWins (zero Unit Unit) (newClientCalls Unit Unit) := by
  refine ⟨rfl, rfl, rfl, fun hlast => ?_⟩
  have hconn : (0 : ℤ) = tenSeconds := hlast .connTimeout
  exact absurd hconn (by decide)

/-- A chain on a record whose two timeouts agree, with a `ConnTimeout` for what they hold. -/
theorem builders_last_write_wins_retries :
    (options Unit Unit).LastWriteWins { zero Unit Unit with connTimeout := 5, readTimeout := 5 }
      [⟨.retries, 3⟩, ⟨.connTimeout, 5⟩, ⟨.heartbeat, (true, 7)⟩, ⟨.readTimeout, 9⟩] := by
  refine (builders_last_write_wins _ _).1.mpr ?_ _ (List.prefix_refl _)
  exact And.intro trivial (And.intro ⟨rfl, rfl⟩ (And.intro trivial (And.intro trivial trivial)))

end Frpc.Client.Options
