import Frpc.Client.Answers
import Frpc.Server.Machine

/-! # Client and server

A client connection and the server side of it, with the two byte streams between them. Bytes arrive
in order and in pieces of any size. The client and the server keep everything they have written;
`up` and `down` count how much of it has arrived.

`Atomic` says that no write fails, which makes every frame one block in its stream; then each frame
that the server decodes is a request of a call, and each frame that the client decodes is the
response of a handler (`linked_of_reach`). -/

namespace Frpc.System.Machine

open Frpc.Basic Frpc.Codecs Frpc.Protocol.Wire Frpc.Client.Answers
open Frpc.Client.Machine (ClientOption)
open Frpc.Server.Machine (Config)

/-- Both sides of a connection. -/
structure State (V : Type) where
  client : Client.Machine.State V
  server : Server.Machine.State V
  up : ℕ
  down : ℕ

/-- The steps. -/
inductive Label (V : Type) where
  /-- A step of the client. -/
  | client (l : Client.Machine.Label V)
  /-- A step of the server. -/
  | server (l : Server.Machine.Label V)
  /-- At most `n` bytes of the client arrive. -/
  | toServer (n : ℕ)
  /-- At most `n` bytes of the server arrive. -/
  | toClient (n : ℕ)

variable {V T : Type} {env : Env V} {opt : ClientOption} {srv : Config V T}

/-- One step of the system. The client gets no bytes but those of the server. -/
def step (env : Env V) (opt : ClientOption) (srv : Config V T) (s : State V) :
    Label V → Option (State V)
  | .client (.net _) => none
  | .client l => (Client.Machine.step env opt s.client l).map fun c => { s with client := c }
  | .server l => (Server.Machine.step env srv s.server l).map fun t => { s with server := t }
  | .toServer n =>
    let data := (s.client.out.drop s.up).take n
    some { s with
      server := { s.server with inp := s.server.inp ++ data }
      up := s.up + data.length }
  | .toClient n =>
    let data := (s.server.out.drop s.down).take n
    (Client.Machine.step env opt s.client (.net data)).map fun c =>
      { s with client := c, down := s.down + data.length }

/-- A new connection. -/
def init : State V := ⟨Client.Machine.init, Server.Machine.init, 0, 0⟩

/-- The steps of a connection on which every write delivers a frame of less than `2 ^ 32` bytes as
one block, and that the client leaves alone in the sense of `Quiet`. -/
def Atomic (s : State V) : Label V → Prop
  | .client l =>
    Quiet l ∧ ∀ c order f req, l = .act c (.write order) → s.client.flights c = some f →
      f.send = .ready req → (frame req order).length < 2 ^ 32
  | .server (.write k order) => ∀ h res, s.server.handlers[k]? = some h → h.pc = .ready res →
      (frame res order).length < 2 ^ 32
  | .server (.writeErr _ _ _) => False
  | _ => True

/-- The step function, inverted. -/
inductive Effect (env : Env V) (opt : ClientOption) (srv : Config V T) (s : State V) :
    Label V → State V → Prop
  | client {l : Client.Machine.Label V} {c : Client.Machine.State V} (hnet : ∀ data, l ≠ .net data)
      (hs : Client.Machine.step env opt s.client l = some c) :
      Effect env opt srv s (.client l) { s with client := c }
  | server {l : Server.Machine.Label V} {t : Server.Machine.State V}
      (hs : Server.Machine.step env srv s.server l = some t) :
      Effect env opt srv s (.server l) { s with server := t }
  | toServer {n : ℕ} {data rest : Bytes} (hdata : s.client.out.drop s.up = data ++ rest) :
      Effect env opt srv s (.toServer n)
        { s with server := { s.server with inp := s.server.inp ++ data }, up := s.up + data.length }
  | toClient {n : ℕ} {data rest : Bytes} {c : Client.Machine.State V}
      (hdata : s.server.out.drop s.down = data ++ rest)
      (hs : Client.Machine.step env opt s.client (.net data) = some c) :
      Effect env opt srv s (.toClient n) { s with client := c, down := s.down + data.length }

variable {s s' : State V} {l : Label V}

theorem effect_of_step (h : step env opt srv s l = some s') : Effect env opt srv s l s' := by
  cases l with
  | client l =>
    cases l with
    | net data => cases h
    | _ =>
      obtain ⟨c, hc, rfl⟩ := Option.map_eq_some_iff.mp h
      exact .client (by intro data; simp) hc
  | server l =>
    obtain ⟨t, ht, rfl⟩ := Option.map_eq_some_iff.mp h
    exact .server ht
  | toServer n =>
    cases h
    exact .toServer (List.take_append_drop n _).symm
  | toClient n =>
    obtain ⟨c, hc, rfl⟩ := Option.map_eq_some_iff.mp h
    exact .toClient (List.take_append_drop n _).symm hc

end Frpc.System.Machine
