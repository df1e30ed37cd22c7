import Frpc.Lib.Runs
import Frpc.Protocol.Cuts
import Frpc.Server.Machine

/-! # The requests that are handled

The loop of `serveConn` reads in one goroutine, and the requests are handled and answered in others.
Whatever these do, and whatever bytes come in: the requests that have a goroutine are the first of
those that the loop alone decodes (`decodeRequests`), and they are all of them when the loop was
left (`handles_decoded`). So what is known of the loop on a stream that breaks off holds of the
connection, too. -/

namespace Frpc.Server.Reading

open Frpc.Basic Frpc.Codecs Frpc.Lib.Runs Frpc.Lib.Slices Frpc.Protocol.Messages Frpc.Protocol.Wire
open Frpc.Protocol.RoundTrip Frpc.Protocol.Streams Frpc.Protocol.Cuts Frpc.Server.Machine

variable {V T : Type}

/-- The condition on the steps: the connection breaks with the error `fail`. -/
def Breaks (fail : Error) (_ : State V) : Label V → Prop
  | .decode _ err => err = fail
  | _ => True

/-- What is left of the requests, `reqs`, is what the loop will decode. -/
structure Reads (maxLen : ℤ) (fail : Error) (reqs : List Message) (s : State V)
    (rest : List Message) : Prop where
  handled : s.handlers.map Handler.req ++ rest = reqs
  reading : s.returned = false →
    ∃ n err, decodeRequests maxLen n ⟨s.inp, fail⟩ = .ok (rest, some err)
  returned : s.returned = true → rest = []

section Decode

variable {maxLen : ℤ} {fail : Error} {d : Bytes}

theorem fail_of_decode {msg m : Message} {r : Reader}
    (h : msg.decode maxLen ⟨d, fail⟩ = .ok (m, r, none)) :
    r = ⟨r.data, fail⟩ := by
  obtain ⟨body, hd, v, rest, hd', hv, hmax⟩ := bodyRead_of_decode h
  simp only [Message.decode, readFrame_ok hd' hv hmax] at h
  obtain ⟨⟨m', err⟩, -, heq⟩ := bind_eq_ok.mp h
  cases heq
  rfl

theorem decode_pooled {b : UInt8} {m : Message} {r r' : Reader} :
    (pooled b).decode maxLen r = .ok (m, r', none) ↔
      newMessage.decode maxLen r = .ok (m, r', none) := by
  have hsame : ∀ m₀ : Message, { m₀ with metadata := m₀.metadata.or (pooled b).metadata } = m₀ := by
    intro m₀
    rw [show (pooled b).metadata = none from rfl, Option.or_none]
  rw [decode_reuse]
  constructor
  · rintro ⟨m₀, hm₀, rfl⟩
    rw [hsame]
    exact hm₀
  · intro hm
    exact ⟨m, hm, (hsame m).symm⟩

theorem decodeRequests_cases {n : ℕ} {r : Reader} {reqs : List Message} {err : Error}
    (h : decodeRequests maxLen n r = .ok (reqs, some err)) :
    (reqs = [] ∧ ∀ m r', newMessage.decode maxLen r ≠ .ok (m, r', none)) ∨
      ∃ n' m r' reqs', newMessage.decode maxLen r = .ok (m, r', none) ∧ reqs = m :: reqs' ∧
        decodeRequests maxLen n' r' = .ok (reqs', some err) := by
  cases n with
  | zero => cases h
  | succ n =>
    rw [decodeRequests] at h
    split at h
    · cases h
    · rename_i hdecode
      cases h
      left
      refine ⟨rfl, fun m r' hm => ?_⟩
      rw [hdecode] at hm
      cases hm
    · rename_i m r' hdecode
      split at h
      · cases h
      · rename_i reqs' err' hrest
        cases h
        right
        exact ⟨n, m, r', reqs', hdecode, rfl, hrest⟩

end Decode

variable {env : Env V} {srv : Config V T} {fail : Error} {reqs rest : List Message} {s s' : State V}
  {l : Label V}

theorem Reads.decode (h : Reads srv.maxMessageLength fail reqs s rest) (hopen : s.returned = false)
    (b : UInt8) :
    ∃ rest', Reads srv.maxMessageLength fail reqs (stepDecode srv s b fail) rest' := by
  obtain ⟨n, err, hloop⟩ := h.reading hopen
  rcases decodeRequests_cases hloop with ⟨rfl, hnone⟩ | ⟨n', m, r, rest', hdecode, rfl, hrest⟩
  · -- the loop alone is left here, and so is this one
    refine ⟨[], ?_⟩
    unfold stepDecode
    split
    · exact ⟨h.handled, by rintro ⟨⟩, fun _ => rfl⟩
    · exact ⟨h.handled, by rintro ⟨⟩, fun _ => rfl⟩
    · rename_i hdec
      exact absurd (decode_pooled.mp hdec) (hnone _ _)
  · refine ⟨rest', ?_⟩
    rw [fail_of_decode hdecode] at hrest
    rw [stepDecode, decode_pooled.mpr hdecode]
    refine ⟨?_, fun _ => ⟨n', err, hrest⟩, fun hreturned => ?_⟩
    · rw [List.map_append, List.append_assoc]
      exact h.handled
    · exact absurd (hopen.symm.trans hreturned) (by decide)

theorem Reads.set (h : Reads srv.maxMessageLength fail reqs s rest) {k : ℕ} {x : Handler V}
    (y : Handler V) (out : Bytes) (hk : s.handlers[k]? = some x) (hreq : y.req = x.req) :
    Reads srv.maxMessageLength fail reqs { s with out, handlers := s.handlers.set k y } rest := by
  have hk' : (s.handlers.map Handler.req)[k]? = some y.req := by
    rw [List.getElem?_map, hk, hreq]
    rfl
  obtain ⟨hlt, heq⟩ := List.getElem?_eq_some_iff.mp hk'
  refine ⟨?_, h.reading, h.returned⟩
  dsimp only
  rw [List.map_set, ← heq, List.set_getElem_self]
  exact h.handled

theorem Reads.step (h : Reads srv.maxMessageLength fail reqs s rest) (hok : Breaks fail s l)
    (hstep : step env srv s l = some s') :
    ∃ rest', Reads srv.maxMessageLength fail reqs s' rest' := by
  cases l with
  | decode b err =>
    obtain rfl : err = fail := hok
    simp only [Machine.step] at hstep
    split_ifs at hstep with hret
    cases hstep
    exact h.decode (by simpa using hret) b
  | handle k b method =>
    cases effect_of_step hstep with
    | handle hk hpc => exact ⟨rest, h.set _ s.out hk rfl⟩
  | write k order =>
    cases effect_of_step hstep with
    | write hk hpc horder => exact ⟨rest, h.set _ _ hk rfl⟩
  | writeErr k order n =>
    cases effect_of_step hstep with
    | writeErr hk hpc horder => exact ⟨rest, h.set _ _ hk rfl⟩
  | close =>
    cases hstep
    exact ⟨rest, h.handled, h.reading, h.returned⟩

/-- **The requests of a connection.** In every run, whatever the goroutines of the requests do, the
requests that have been decoded are the first of those that the loop alone decodes, and all of them
when the loop was left. -/
theorem handles_decoded {inp : Bytes} {n : ℕ} {err : Error}
    (hloop : decodeRequests srv.maxMessageLength n ⟨inp, fail⟩ = .ok (reqs, some err))
    (hs : Reach (step env srv) (Breaks fail) { init with inp } s) :
    s.handlers.map Handler.req <+: reqs ∧
      (s.returned = true → s.handlers.map Handler.req = reqs) := by
  have hreads : ∃ rest, Reads srv.maxMessageLength fail reqs s rest := by
    refine hs.invariant (P := fun s => ∃ rest, Reads srv.maxMessageLength fail reqs s rest) ?_ ?_
    · exact ⟨reqs, rfl, fun _ => ⟨n, err, hloop⟩, by rintro ⟨⟩⟩
    · rintro t u l - ⟨rest, h⟩ hok hstep
      exact h.step hok hstep
  obtain ⟨rest, hhandled, -, hreturned⟩ := hreads
  refine ⟨⟨rest, hhandled⟩, fun hret => ?_⟩
  rw [hreturned hret, List.append_nil] at hhandled
  exact hhandled

end Frpc.Server.Reading
