import Frpc.Client.Correlation
import Frpc.Protocol.Streams

/-! # What the reader examines

`handleResponse` decodes every frame into the same message. `examineAll` says what it then gets to
see, as a function of the frames alone: in every run the messages it has examined are the first of
that list (`examined_of_reach`), and the whole list is examined in some run (`reach_examineAll`).
The list consists of the frames as they are decoded alone exactly when no one-way request of the
server that has metadata is followed by a frame without (`examineAll_eq_map_norm`). -/

namespace Frpc.Client.Reader

open Frpc.Basic Frpc.Codecs Frpc.Lib.Runs Frpc.Protocol.Headers Frpc.Protocol.Messages
open Frpc.Protocol.Wire Frpc.Protocol.RoundTrip Frpc.Protocol.Streams
open Frpc.Client.Machine Frpc.Client.Steps Frpc.Client.Correlation

variable {V : Type} {env : Env V} {opt : ClientOption}

/-! ### The messages, as a function of the frames -/

/-- The frame of `m` decoded into `res`. -/
def decodeInto (res m : Message) : Message :=
  { norm m with metadata := (norm m).metadata.or res.metadata }

/-- What one round of `handleResponse` leaves in its message: only the branch for one-way requests
of the server goes on without `Reset`. -/
def afterRound (res : Message) : Message := if isServerMessage res then res else res.reset

/-- What `handleResponse` examines when the frames of `ms` come in. -/
def examineAll (res : Message) : List Message → List Message
  | [] => []
  | m :: ms => decodeInto res m :: examineAll (afterRound (decodeInto res m)) ms

/-- `b` gets the metadata of `a` when it is decoded next. -/
def Leaks (a b : Message) : Prop := isServerMessage a = true ∧ a.meta0 ≠ ∅ ∧ b.meta0 = ∅

theorem length_examineAll :
    ∀ (ms : List Message) (res : Message), (examineAll res ms).length = ms.length
  | [], _ => rfl
  | _ :: ms, _ => congrArg Nat.succ (length_examineAll ms _)

theorem isServerMessage_norm (m : Message) : isServerMessage (norm m) = isServerMessage m := rfl

theorem decodeInto_eq_norm {res m : Message} :
    decodeInto res m = norm m ↔ (m.meta0 = ∅ → res.metadata = none) := by
  have hmeta : decodeInto res m = norm m ↔
      (norm m).metadata.or res.metadata = (norm m).metadata := by
    constructor
    · intro h
      exact congrArg Message.metadata h
    · intro h
      rw [decodeInto, h]
  rw [hmeta, Protocol.RoundTrip.norm]
  by_cases h : m.meta0 = ∅
  · simp [h]
  · simp [h]

/-- What a frame that was decoded alone leaves for the next one. -/
theorem afterRound_norm (m : Message) :
    (afterRound (norm m)).metadata = none ↔ ¬ (isServerMessage m = true ∧ m.meta0 ≠ ∅) := by
  unfold afterRound
  rw [isServerMessage_norm]
  by_cases hpush : isServerMessage m = true
  · rw [if_pos hpush, Protocol.RoundTrip.norm]
    by_cases h : m.meta0 = ∅
    · simp [h]
    · simp [h, hpush]
  · simp [hpush, Message.reset]

/-- **The frames are examined as they are** exactly when none leaks into the next one. -/
theorem examineAll_eq_map_norm : ∀ (ms : List Message) (res : Message),
    examineAll res ms = ms.map norm ↔
      (∀ m ∈ ms.head?, m.meta0 = ∅ → res.metadata = none) ∧ ms.IsChain fun a b => ¬ Leaks a b
  | [], res => by simp [examineAll]
  | m :: ms, res => by
    rw [examineAll, List.map_cons, List.cons.injEq, decodeInto_eq_norm, List.isChain_cons]
    have hhead : (∀ m' ∈ (m :: ms).head?, m'.meta0 = ∅ → res.metadata = none) ↔
        (m.meta0 = ∅ → res.metadata = none) := by simp
    rw [hhead]
    refine and_congr_right fun hm => ?_
    rw [decodeInto_eq_norm.mpr hm, examineAll_eq_map_norm ms]
    refine and_congr_left' (forall₂_congr fun b _ => ?_)
    rw [afterRound_norm, Leaks]
    tauto

/-! ### What can be observed of the reader -/

/-- Bytes that arrive, and messages that are examined. -/
inductive Event where
  | arrive (data : Bytes)
  | examine (m : Message)

/-- What a step shows of the reader. -/
def observe (_ : State V) : Label V → State V → List Event
  | .net data, _ => [.arrive data]
  | .read _, s' =>
    match s'.reader with
    | .loop => [.examine s'.res]
    | .holding _ _ => [.examine s'.res]
    | _ => []
  | _, _ => []

/-- All bytes that have arrived. -/
def arrived : List Event → Bytes
  | [] => []
  | .arrive data :: es => data ++ arrived es
  | .examine _ :: es => arrived es

/-- All messages that were examined. -/
def examined : List Event → List Message
  | [] => []
  | .arrive _ :: es => examined es
  | .examine m :: es => m :: examined es

@[simp] theorem arrived_append (es es' : List Event) :
    arrived (es ++ es') = arrived es ++ arrived es' := by
  induction es with
  | nil => rfl
  | cons e es ih => cases e <;> simp [arrived, ih]

@[simp] theorem examined_append (es es' : List Event) :
    examined (es ++ es') = examined es ++ examined es' := by
  induction es with
  | nil => rfl
  | cons e es ih => cases e <;> simp [examined, ih]

/-- A frame that `Decode` takes: with its metadata in some order, shorter than `2 ^ 32` bytes and
within `MaxMessageLength`. -/
structure Valid (env : Env V) (x : Message × MetaOrder) : Prop where
  order : x.2.toFinmap = x.1.meta0
  short : (bodyOf x.1 x.2).length < 2 ^ 32
  allowed : ¬ (env.maxMessageLength > 0 ∧ ((bodyOf x.1 x.2).length : ℤ) > env.maxMessageLength)

/-! ### Every run -/

section Runs

variable {fs : List (Message × MetaOrder)} {x : State V × List Event} {s' : State V} {l : Label V}

/-- Some frames have been read; with the message `res`, the rest will be examined as `examineAll`
says. -/
def Follows (fs : List (Message × MetaOrder)) (x : State V × List Event) (res : Message) : Prop :=
  ∃ done rest, fs = done ++ rest ∧ arrived x.2 = bytesOf done ++ x.1.inp ∧
    examined x.2 ++ examineAll res (rest.map (·.1)) = examineAll newMessage (fs.map (·.1))

theorem Follows.examined {res : Message} (h : Follows fs x res) :
    examined x.2 <+: examineAll newMessage (fs.map (·.1)) := by
  obtain ⟨done, rest, -, -, hex⟩ := h
  exact ⟨_, hex⟩

/-- **One frame is read**, as `examineAll` says. -/
theorem Follows.read (hfs : ∀ y ∈ fs, Valid env y) (hpre : arrived x.2 <+: bytesOf fs)
    {res res' : Message} {err : Error} {r : Reader} (h : Follows fs x res)
    (hdec : res.decode env.maxMessageLength ⟨x.1.inp, err⟩ = .ok (res', r, none))
    (hs : s'.inp = r.data) :
    Follows fs (s', x.2 ++ [.examine res']) (afterRound res') := by
  obtain ⟨done, rest, rfl, harr, hex⟩ := h
  obtain ⟨u, hu⟩ : x.1.inp <+: bytesOf rest := by
    rw [harr, bytesOf_append] at hpre
    exact (List.prefix_append_right_inj _).mp hpre
  cases rest with
  | nil =>
    have hnil : x.1.inp = [] := (List.append_eq_nil_iff.mp hu).1
    exact absurd hnil (ne_nil_of_decode hdec)
  | cons y rest =>
    have hy : Valid env y := hfs y (by simp)
    obtain ⟨rfl, hinp, -⟩ := decode_front hy.order hy.short hu hdec
    refine ⟨done ++ [y], rest, by simp, ?_, ?_⟩
    · rw [arrived_append, harr, hinp, hs]
      simp [arrived, bytesOf]
    · rw [examined_append, ← hex]
      simp [Reader.examined, examineAll, decodeInto]

/-- The invariant of the reader: in front of `Decode`, and after the `Reset` that the `switch` ends
with, it follows the frames. -/
structure Keeping (fs : List (Message × MetaOrder)) (x : State V × List Event) : Prop where
  loop : x.1.reader = .loop → Follows fs x x.1.res
  holding : ∀ {t fr}, x.1.reader = .holding t fr → Follows fs x x.1.res.reset
  examined : examined x.2 <+: examineAll newMessage (fs.map (·.1))

theorem Keeping.init : Keeping fs ((Machine.init : State V), []) where
  loop _ := ⟨[], fs, rfl, rfl, rfl⟩
  holding h := by cases h
  examined := ⟨_, rfl⟩

theorem Keeping.congr (hk : Keeping fs x) (hr : s'.reader = x.1.reader) (hres : s'.res = x.1.res)
    (hinp : s'.inp = x.1.inp) : Keeping fs (s', x.2 ++ []) := by
  rw [List.append_nil]
  refine ⟨fun h => ?_, fun h => ?_, hk.examined⟩
  · obtain ⟨done, rest, hfs, harr, hex⟩ := hk.loop (hr.symm.trans h)
    exact ⟨done, rest, hfs, by rw [hinp]; exact harr, by rw [hres]; exact hex⟩
  · obtain ⟨done, rest, hfs, harr, hex⟩ := hk.holding (hr.symm.trans h)
    exact ⟨done, rest, hfs, by rw [hinp]; exact harr, by rw [hres]; exact hex⟩

theorem Keeping.stop (hk : Keeping fs x) (hloop : s'.reader ≠ .loop)
    (hhold : ∀ t fr, s'.reader ≠ .holding t fr) : Keeping fs (s', x.2 ++ []) := by
  rw [List.append_nil]
  exact ⟨fun h => absurd h hloop, fun h => absurd h (hhold _ _), hk.examined⟩

theorem Follows.arrive {res : Message} {data : Bytes} (h : Follows fs x res)
    (hinp : s'.inp = x.1.inp ++ data) : Follows fs (s', x.2 ++ [.arrive data]) res := by
  obtain ⟨done, rest, hfs, harr, hex⟩ := h
  refine ⟨done, rest, hfs, ?_, ?_⟩
  · rw [arrived_append, harr, hinp]
    simp [arrived]
  · rw [← hex, examined_append]
    simp [Reader.examined]

theorem flightEffect_reader {s : State V} {c : CallId} {f : Flight V} {a : Action}
    (h : FlightEffect env opt s c f a s') :
    s'.reader = s.reader ∧ s'.res = s.res ∧ s'.inp = s.inp := by
  cases h <;> exact ⟨rfl, rfl, rfl⟩

theorem Keeping.step (hfs : ∀ y ∈ fs, Valid env y) (hpre : arrived x.2 <+: bytesOf fs)
    (hk : Keeping fs x) (h : Effect env opt x.1 l s') :
    Keeping fs (s', x.2 ++ observe x.1 l s') := by
  cases h with
  | refuse => exact hk.congr rfl rfl rfl
  | register => exact hk.congr rfl rfl rfl
  | act hf ha =>
    obtain ⟨hr, hres, hinp⟩ := flightEffect_reader ha
    exact hk.congr hr hres hinp
  | readCrash => exact hk.stop (by simp) (by simp)
  | readErr => exact hk.stop (by simp) (by simp)
  | @readPush err res r hpc hdec hpush =>
    have hinp : ({ x.1 with res := res, inp := r.data, reader := .loop } : State V).inp =
        r.data := rfl
    have hf := (hk.loop hpc).read hfs hpre hdec hinp
    rw [afterRound, if_pos hpush] at hf
    exact ⟨fun _ => hf, fun h => (by cases h), hf.examined⟩
  | @read err res r hpc hdec hpush =>
    have hinp : ({ x.1 with
        res := res
        inp := r.data
        pending := x.1.pending.erase res.header.seq
        reader := .holding (x.1.pending.lookup res.header.seq)
          (decodeAlone env ⟨x.1.inp, err⟩) } : State V).inp = r.data := rfl
    have hf := (hk.loop hpc).read hfs hpre hdec hinp
    rw [afterRound, if_neg (by rw [hpush]; simp)] at hf
    exact ⟨fun h => (by cases h), fun _ => hf, hf.examined⟩
  | respondNone hpc =>
    have hf := hk.holding hpc
    refine ⟨fun _ => ?_, fun h => (by cases h), ?_⟩
    · exact (List.append_nil x.2).symm ▸ hf
    · exact (List.append_nil x.2).symm ▸ hf.examined
  | @respond d f fr hpc =>
    have hf := hk.holding hpc
    refine ⟨fun _ => ?_, fun h => ?_, ?_⟩
    · exact (List.append_nil x.2).symm ▸ hf
    · cases herr : (handleCall env x.1.res f.call).2 with
      | none => rw [show _ = ReaderPc.next _ from rfl, herr] at h; cases h
      | some e => rw [show _ = ReaderPc.next _ from rfl, herr] at h; cases h
    · exact (List.append_nil x.2).symm ▸ hf.examined
  | exit => exact hk.stop (by simp) (by simp)
  | close => exact hk.congr rfl rfl rfl
  | connClose => exact hk.congr rfl rfl rfl
  | closeClient => exact hk.congr rfl rfl rfl
  | net =>
    refine ⟨fun h => (hk.loop h).arrive rfl, fun h => (hk.holding h).arrive rfl, ?_⟩
    simpa [observe, Reader.examined] using hk.examined

/-- **Every run.** While the bytes that arrive are those of `fs`, what was examined are the first
messages of `examineAll`. -/
theorem examined_of_reach (hfs : ∀ y ∈ fs, Valid env y)
    (h : Reach (logged (step env opt) observe) Any (init, []) x)
    (hpre : arrived x.2 <+: bytesOf fs) :
    examined x.2 <+: examineAll newMessage (fs.map (·.1)) := by
  suffices hk : arrived x.2 <+: bytesOf fs → Keeping fs x from (hk hpre).examined
  refine h.invariant (P := fun x => arrived x.2 <+: bytesOf fs → Keeping fs x) (fun _ => .init) ?_
  intro y z l _ ih _ hs hpre
  obtain ⟨s', hs', rfl⟩ := logged_eq_some.mp hs
  have hpre' : arrived y.2 <+: bytesOf fs := by
    rw [arrived_append] at hpre
    exact (List.prefix_append _ _).trans hpre
  exact (ih hpre').step hfs hpre' (effect_of_step hs')

end Runs

/-! ### A run that examines everything -/

variable (opt) in
/-- **One frame in a run without calls**: it is read, and if it is not a one-way request, `Reset`
follows. -/
theorem reach_frame {x : State V × List Event} {y : Message × MetaOrder} {rest : Bytes}
    (hy : Valid env y)
    (hr : x.1.reader = .loop) (hp : x.1.pending = ∅) (hinp : x.1.inp = frame y.1 y.2 ++ rest) :
    ∃ z, Reach (logged (step env opt) observe) Any x z ∧ z.1.reader = .loop ∧ z.1.pending = ∅ ∧
      z.1.inp = rest ∧ z.1.res = afterRound (decodeInto x.1.res y.1) ∧
      z.2 = x.2 ++ [.examine (decodeInto x.1.res y.1)] := by
  obtain ⟨s, log⟩ := x
  dsimp only at hr hp hinp
  have hdec : s.res.decode env.maxMessageLength ⟨s.inp, .eof⟩ =
      .ok (decodeInto s.res y.1, ⟨rest, .eof⟩, none) := by
    rw [hinp]
    exact decode_frame hy.order hy.short hy.allowed s.res rest .eof
  have hread : step env opt s (.read .eof) = some (stepRead env s .eof) := by
    rw [step_eq_move (by rw [hr]; simp), move, hr]
  unfold stepRead at hread
  simp only [hdec] at hread
  split_ifs at hread with hpush
  · refine ⟨_, Reach.next .refl (logged_eq_some.mpr ⟨_, hread, rfl⟩), rfl, hp, rfl, ?_, rfl⟩
    rw [afterRound, if_pos hpush]
  · rw [hp] at hread
    have hresp : step env opt { s with
        res := decodeInto s.res y.1
        inp := rest
        pending := (∅ : AList fun _ : UInt64 => CallId).erase (decodeInto s.res y.1).header.seq
        reader := .holding
          ((∅ : AList fun _ : UInt64 => CallId).lookup (decodeInto s.res y.1).header.seq)
          (decodeAlone env ⟨s.inp, .eof⟩) } .respond = some { s with
        res := (decodeInto s.res y.1).reset
        inp := rest
        pending := ∅
        reader := .loop } := rfl
    refine ⟨_, (Reach.next .refl (logged_eq_some.mpr ⟨_, hread, rfl⟩)).next
      (logged_eq_some.mpr ⟨_, hresp, rfl⟩), rfl, rfl, rfl, ?_, ?_⟩
    · rw [afterRound, if_neg hpush]
    · exact List.append_nil _

variable (opt) in
theorem reach_frames : ∀ (fs : List (Message × MetaOrder)) (x : State V × List Event),
    (∀ y ∈ fs, Valid env y) → x.1.reader = .loop → x.1.pending = ∅ → x.1.inp = bytesOf fs →
      ∃ z, Reach (logged (step env opt) observe) Any x z ∧ arrived z.2 = arrived x.2 ∧
        examined z.2 = examined x.2 ++ examineAll x.1.res (fs.map (·.1))
  | [], x, _, _, _, _ => ⟨x, .refl, rfl, (List.append_nil _).symm⟩
  | y :: fs, x, hfs, hr, hp, hinp => by
    obtain ⟨z, hz, hr', hp', hinp', hres, hlog⟩ := reach_frame opt (hfs y (by simp)) hr hp hinp
    obtain ⟨w, hw, harr, hex⟩ :=
      reach_frames fs z (fun y' h' => hfs y' (by simp [h'])) hr' hp' hinp'
    refine ⟨w, hz.trans hw, ?_, ?_⟩
    · rw [harr, hlog, arrived_append]
      exact List.append_nil _
    · rw [hex, hlog, examined_append, List.append_assoc, hres]
      rfl

variable (opt) in
theorem reach_examineAll {fs : List (Message × MetaOrder)} (hfs : ∀ y ∈ fs, Valid env y) :
    ∃ x, Reach (logged (step env opt) observe) Any (init, []) x ∧ arrived x.2 = bytesOf fs ∧
      examined x.2 = examineAll newMessage (fs.map (·.1)) := by
  have hnet : logged (step env opt) observe (init, []) (.net (bytesOf fs)) =
      some ({ init with inp := bytesOf fs }, [.arrive (bytesOf fs)]) := rfl
  obtain ⟨z, hz, harr, hex⟩ := reach_frames opt fs
    ({ init with inp := bytesOf fs }, [.arrive (bytesOf fs)]) hfs rfl rfl rfl
  refine ⟨z, (Reach.next .refl hnet).trans hz, ?_, hex⟩
  rw [harr]
  exact List.append_nil _

/-- **No state leaks between frames** exactly when no one-way request of the server that has
metadata is directly followed by a frame without metadata: only then are, in every run on which
these frames arrive, the messages that `handleResponse` examines the frames as they are decoded into
a new message. -/
theorem frames_examined_alone_iff (env : Env V) (opt : ClientOption)
    (fs : List (Message × MetaOrder)) (hfs : ∀ y ∈ fs, Valid env y) :
    (∀ s log, Reach (logged (step env opt) observe) Any (init, []) (s, log) →
      arrived log <+: bytesOf fs →
      examined log <+: fs.map fun y => decodeAlone env ⟨frame y.1 y.2, .eof⟩) ↔
      (fs.map (·.1)).IsChain fun a b => ¬ Leaks a b := by
  have halone : (fs.map fun y => decodeAlone env ⟨frame y.1 y.2, .eof⟩) =
      (fs.map (·.1)).map norm := by
    rw [List.map_map]
    refine List.map_congr_left fun y hy => ?_
    have hv := hfs y hy
    have hdec := decode_frame hv.order hv.short hv.allowed newMessage [] .eof
    rw [List.append_nil] at hdec
    rw [decodeAlone, hdec]
    exact congrArg (fun md => { norm y.1 with metadata := md }) (Option.or_none ..)
  have hiff : examineAll newMessage (fs.map (·.1)) = (fs.map (·.1)).map norm ↔
      (fs.map (·.1)).IsChain fun a b => ¬ Leaks a b :=
    (examineAll_eq_map_norm _ newMessage).trans (and_iff_right fun _ _ _ => rfl)
  rw [halone, ← hiff]
  constructor
  · intro h
    obtain ⟨x, hx, harr, hex⟩ := reach_examineAll opt hfs
    have hle := h x.1 x.2 hx (by rw [harr])
    rw [hex] at hle
    refine hle.eq_of_length ?_
    simp only [length_examineAll, List.length_map]
  · intro h s log hx hpre
    rw [← h]
    exact examined_of_reach hfs hx hpre

/-- Two one-way requests of the server with metadata, and no frame without metadata behind them. -/
theorem frames_examined_alone_pushes :
    ¬ Leaks pushFrame pushFrame ∧ ∀ s log,
      Reach (logged (step quoteEnv jsonOption) observe) Any (init, []) (s, log) →
      arrived log <+: bytesOf [(pushFrame, AList.singleton [107] [118]),
        (pushFrame, AList.singleton [107] [118])] →
      examined log <+: [(pushFrame, AList.singleton [107] [118]),
        (pushFrame, AList.singleton [107] [118])].map fun y =>
          decodeAlone quoteEnv ⟨frame y.1 y.2, .eof⟩ := by
  have hvalid : Valid quoteEnv (pushFrame, AList.singleton [107] [118]) :=
    ⟨rfl, by decide, by decide⟩
  have hkept : ¬ Leaks pushFrame pushFrame := fun h => h.2.1 h.2.2
  refine ⟨hkept, (frames_examined_alone_iff quoteEnv jsonOption _ ?_).mpr ?_⟩
  · simpa using hvalid
  · simpa using hkept

/-- A one-way request of the server with metadata, then a response without: the response is examined
with the metadata of the request. -/
theorem response_examined_with_push_metadata :
    ∃ s log, Reach (logged (step quoteEnv jsonOption) observe) Any (init, []) (s, log) ∧
      arrived log = bytesOf [(pushFrame, AList.singleton [107] [118]), (emptyResponse 0, ∅)] ∧
      (examined log).map (·.metadata) =
        [some (Finmap.singleton [107] [118]), some (Finmap.singleton [107] [118])] ∧
      (decodeAlone quoteEnv ⟨frame (emptyResponse 0) ∅, .eof⟩).metadata = none :=
  ⟨_, _, reach_of_exec
    [.net (bytesOf [(pushFrame, AList.singleton [107] [118]), (emptyResponse 0, ∅)]),
    .read .eof, .read .eof] rfl, rfl, rfl, rfl⟩

end Frpc.Client.Reader
