import Frpc.Registry.Outcomes
import Frpc.Server.Methods

/-! # Registering a service

`RegisterWithMeta` registers a service in three places: in the registry that is configured, with the
controllers, and in the service map. It goes on whatever the registry answers, and returns the error
of the service map only. So after an error the service may be stored in the registry, where clients
find it, and after `nil` it may be missing there. What the service map does depends on the name and
on the methods of the receiver, what the registry does on the name and on the answers of its store;
registration is all or nothing exactly if the two come out the same (`registration_all_or_nothing`).
The `Register` of the controllers touches neither and has no part here. -/

namespace Frpc.Server.Registration

open Frpc.Basic Frpc.Lib.Tables Frpc.Lib.Trees Frpc.Server.Machine Frpc.Server.Methods
open Frpc.Registry Frpc.Registry.Outcomes

/-- `type service struct`; of the receiver only its type is there. -/
structure Service where
  name : Bytes
  typ : Typ
  method : MethodMap

/-- The service map and the registry of a server. No service has the empty name. -/
structure State where
  serviceMap : Bytes → Option Service
  serviceMap_nil : serviceMap [] = none
  registry : Option ServerRegistry

/-- `s.serviceMap[name] = service` -/
def State.setService (s : State) (name : Bytes) (hname : name ≠ []) (service : Service) : State :=
  { s with
    serviceMap := Function.update s.serviceMap name (some service)
    serviceMap_nil := by rw [Function.update_of_ne (Ne.symm hname), s.serviceMap_nil] }

/-- `register`, with `useName` set, as its only caller does: the server and the error. Without a
receiver it panics; the scan of the methods may have no end. -/
def register (prog : Program) (fuel : ℕ) (s : State) (rcvr : Option Typ) (name : Bytes) :
    Option (State × Option Error) := do
  let typ ← rcvr
  if hname : name = [] then
    return (s, some
      (.other (str "frpc.Register: no service name for type " ++ prog.typeString typ)))
  else
    let method ← suitableMethods prog fuel typ
    if method.entries.length = 0 then
      return (s, some (.other
        (str "frpc.Register: type " ++ name ++ str " has no exported methods of suitable type")))
    else return (s.setService name hname ⟨name, typ, method⟩, none)

/-- `RegisterWithMeta` -/
def registerWithMeta (prog : Program) (env : Etcd.Env) (fuel : ℕ) (s : State) (rcvr : Option Typ)
    (name metadata : Bytes) (a : Answers) : Option (State × Option Error) :=
  -- the error of the registry is dropped
  let s := { s with registry := s.registry.map fun reg => (reg.register env name metadata a).1 }
  register prog fuel s rcvr name

/-! ### All or nothing -/

/-- What a registration with this outcome should have done: nothing if there is an error, and
otherwise all of it, if there is a registry. -/
structure AllOrNothing (s s' : State) (typ : Typ) (name metadata : Bytes) (err : Option Error) :
    Prop where
  nothing : err ≠ none → s'.serviceMap = s.serviceMap ∧
    ∀ reg, s.registry = some reg → ∃ reg', s'.registry = some reg' ∧ reg.Same reg'
  all : err = none → ∀ reg, s.registry = some reg →
    (∃ service, s'.serviceMap name = some service ∧ service.typ = typ) ∧
      ∃ reg', s'.registry = some reg' ∧ reg'.Stored name metadata

/-- The service map refuses the service: it has no name, or its receiver no suitable method. -/
def Refused (prog : Program) (fuel : ℕ) (typ : Typ) (name : Bytes) : Prop :=
  name = [] ∨ ∃ method, suitableMethods prog fuel typ = some method ∧ method.entries = []

/-- The registry comes out as the service map: where that refuses the service, no request of the
registry has changed anything; otherwise none was answered with an error, or the node is there
nevertheless. -/
def Agrees (prog : Program) (env : Etcd.Env) (fuel : ℕ) (typ : Typ) (name metadata : Bytes)
    (a : Answers) (reg : ServerRegistry) : Prop :=
  (Refused prog fuel typ name → reg.Untouched env name metadata a) ∧
    (¬ Refused prog fuel typ name → reg.Accepts env name metadata a ∨ reg.Keeps env name metadata a)

/-! ### The service map -/

/-- The part of a server that serves requests. -/
def State.toConfig {V : Type} (s : State) (new : Typ → V) (maxMessageLength : ℤ) :
    Config V Typ where
  serviceMap name := (s.serviceMap name).map fun service mname =>
    (service.method.lookup mname).map MethodType.toMachine
  new := new
  maxMessageLength := maxMessageLength
  serviceMap_nil := by rw [s.serviceMap_nil, Option.map_none]

section Registering

variable {prog : Program} {env : Etcd.Env} {fuel : ℕ} {s s' : State} {typ : Typ}
  {name metadata : Bytes} {a : Answers} {err : Option Error}

/-- What `register` does: nothing but return an error, or put the service into the map. -/
theorem register_cases (h : register prog fuel s (some typ) name = some (s', err)) :
    (err ≠ none ∧ s' = s ∧ Refused prog fuel typ name) ∨
      (err = none ∧ ¬ Refused prog fuel typ name ∧
        ∃ hname method, suitableMethods prog fuel typ = some method ∧
          s' = s.setService name hname ⟨name, typ, method⟩) := by
  simp only [register, Option.bind_eq_bind, Option.bind_some] at h
  split_ifs at h with hname
  · cases h
    exact Or.inl ⟨nofun, rfl, Or.inl hname⟩
  · obtain ⟨method, hmethod, h⟩ := Option.bind_eq_some_iff.mp h
    split_ifs at h with hlen
    · cases h
      exact Or.inl ⟨nofun, rfl, Or.inr ⟨method, hmethod, List.eq_nil_of_length_eq_zero hlen⟩⟩
    · cases h
      refine Or.inr ⟨rfl, ?_, hname, method, hmethod, rfl⟩
      rintro (hnil | ⟨method', hmethod', hempty⟩)
      · exact hname hnil
      · cases hmethod.symm.trans hmethod'
        exact hlen (by rw [hempty]; rfl)

/-- What `RegisterWithMeta` has registered without an error is found by the requests. -/
theorem findMethod_registered {V : Type} (new : Typ → V) (maxMessageLength : ℤ)
    (h : registerWithMeta prog env fuel s (some typ) name metadata a = some (s', none))
    {method : MethodMap}
    (hmethod : suitableMethods prog fuel typ = some method) {mname : Bytes} {mtype : MethodType}
    (hm : method.lookup mname = some mtype) :
    findMethod (s'.toConfig new maxMessageLength) name mname = .ok mtype.toMachine := by
  rcases register_cases h with ⟨hne, -⟩ | ⟨-, -, hname, method', hmethod', rfl⟩
  · exact absurd rfl hne
  · rw [hmethod, Option.some.injEq] at hmethod'
    subst hmethod'
    simp only [findMethod, State.toConfig, State.setService, Function.update_self,
      Option.map_some, hm]

/-- **Registration is all or nothing** exactly if the registry, where there is one, comes out as the
service map: for every server, receiver, name, metadata, and answers of the store. -/
theorem registration_all_or_nothing
    (h : registerWithMeta prog env fuel s (some typ) name metadata a = some (s', err)) :
    AllOrNothing s s' typ name metadata err ↔
      ∀ reg, s.registry = some reg → Agrees prog env fuel typ name metadata a reg := by
  rcases register_cases h with ⟨herr, rfl, href⟩ | ⟨rfl, href, hname, method, -, rfl⟩
  · -- the service map refuses the service
    constructor
    · intro hall reg hreg
      refine ⟨fun _ => ?_, fun hno => absurd href hno⟩
      obtain ⟨reg', hreg', hsame⟩ := (hall.nothing herr).2 reg hreg
      rw [hreg] at hreg'
      cases hreg'
      exact (same_iff env name metadata a reg).mp hsame
    · intro hagrees
      refine ⟨fun _ => ⟨rfl, fun reg hreg => ?_⟩, fun hnil => absurd hnil herr⟩
      refine ⟨(reg.register env name metadata a).1, congrArg (Option.map _) hreg, ?_⟩
      exact (same_iff env name metadata a reg).mpr ((hagrees reg hreg).1 href)
  · -- it has it now
    constructor
    · intro hall reg hreg
      refine ⟨fun hyes => absurd hyes href, fun _ => ?_⟩
      obtain ⟨-, reg', hreg', hstored⟩ := hall.all rfl reg hreg
      have hmap : some (reg.register env name metadata a).1 = some reg' :=
        (congrArg (Option.map _) hreg).symm.trans hreg'
      cases hmap
      exact (stored_iff env name metadata a reg).mp hstored
    · intro hagrees
      refine ⟨fun hne => absurd rfl hne, fun _ reg hreg => ⟨?_, ?_⟩⟩
      · exact ⟨⟨name, typ, method⟩, Function.update_self _ _ _, rfl⟩
      · refine ⟨(reg.register env name metadata a).1, congrArg (Option.map _) hreg, ?_⟩
        exact (stored_iff env name metadata a reg).mpr ((hagrees reg hreg).2 href)

end Registering

/-- A server with a register for `base` in an empty Consul. -/
def empty : State :=
  ⟨fun _ => none, rfl, some (.consul ⟨str "tcp@a", str "base", [], ∅, 1, true, false⟩ ∅)⟩

/-- The store does what it is asked. -/
def fine : Answers := ⟨none, none, none, ⟨true, true, none⟩⟩

/-- `*Arith`, whose method takes a context of the type `ctxType`, is registered with the metadata
`m`. -/
def registerArith (ctxType : Typ) (name : Bytes) (a : Answers) : Option (State × Option Error) :=
  registerWithMeta (arith ctxType) Etcd.plainEnv 1 empty (some (.ptr (.named 3))) name [109] a

/-- `*Arith` is registered as `Arith`, and is refused without a name. -/
theorem registration_all_or_nothing_arith :
    (∃ s', registerArith (.named 0) (str "Arith") fine = some (s', none) ∧
        AllOrNothing empty s' (.ptr (.named 3)) (str "Arith") [109] none) ∧
      ∃ s' err, registerArith (.named 0) [] fine = some (s', some err) ∧
        AllOrNothing empty s' (.ptr (.named 3)) [] [109] (some err) := by
  constructor
  · have h : registerArith (.named 0) (str "Arith") fine = some (_, none) := rfl
    refine ⟨_, h, (registration_all_or_nothing h).mpr fun reg hreg => ?_⟩
    cases hreg
    refine ⟨fun href => absurd href ?_, fun _ => Or.inl ⟨⟨rfl, Or.inl rfl, rfl, nofun⟩, ?_⟩⟩
    · rintro (hname | ⟨method, hmethod, hempty⟩)
      · exact absurd hname (by decide)
      · cases hmethod
        cases hempty
    · rintro (⟨-, hren⟩ | hput)
      · cases hren
      · exact hput rfl
  · have h : registerArith (.named 0) [] fine = some (_, some _) := rfl
    refine ⟨_, _, h, (registration_all_or_nothing h).mpr fun reg hreg => ?_⟩
    cases hreg
    refine ⟨fun _ => ⟨Or.inl rfl, fun hreach => ?_⟩, fun hno => absurd (Or.inl rfl) hno⟩
    cases hreach.named

/-- A receiver without suitable methods: there is an error, and the node is stored. A store that
locks the node and refuses its metadata: there is no error, and the node has none. -/
theorem registration_half_done :
    (∃ s' reg err, registerArith (.named 4) (str "Arith") fine = some (s', some err) ∧
        s'.registry = some reg ∧ reg.Stored (str "Arith") [109] ∧
        ¬ AllOrNothing empty s' (.ptr (.named 3)) (str "Arith") [109] (some err)) ∧
      ∃ s' reg, registerArith (.named 0) (str "Arith")
        { fine with put₃ := ⟨true, true, some .eof⟩ } =
          some (s', none) ∧
        s'.registry = some reg ∧ reg.Stored (str "Arith") [] ∧ ¬ reg.Stored (str "Arith") [109] ∧
        ¬ AllOrNothing empty s' (.ptr (.named 3)) (str "Arith") [109] none := by
  constructor
  · refine ⟨_, _, _, rfl, rfl, by exact rfl, fun hall => ?_⟩
    obtain ⟨reg', hreg', hsame⟩ := (hall.nothing nofun).2 _ rfl
    cases hreg'
    cases hsame.1
  · refine ⟨_, _, rfl, rfl, by exact rfl, fun hstored => ?_, fun hall => ?_⟩
    · cases hstored
    · obtain ⟨-, reg', hreg', hstored⟩ := hall.all rfl _ rfl
      cases hreg'
      cases hstored

end Frpc.Server.Registration
