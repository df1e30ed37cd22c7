import Frpc.Lib.GoTypes
import Frpc.Server.Machine
import Mathlib.Data.List.AList

/-! # The methods of a service

`suitableMethods` looks at the types of a method when a service is registered; `handleRequest` and
`service.call` build the arguments from these types when a request comes, and call the method by
reflection. The two agree about the receiver, the argument and the reply. They do not agree about
the context: a method is accepted if the type it declares implements `context.Context`, and gets a
`*context.valueCtx`, which need not be assignable to that type. The call of such a method panics for
every request (`accepted_callable_iff`). -/

namespace Frpc.Server.Methods

open Frpc.Basic Frpc.Lib.GoTypes Frpc.Server.Machine

/-- `reflect.Type` -/
abbrev Typ := GoType Bytes

/-- `reflect.Method`: the receiver is the first of `ins`. -/
structure Method where
  name : Bytes
  pkgPath : Bytes
  ins : List Typ
  outs : List Typ

/-- A program: its types, with `isExported` of names and `String()` of types, the types that the
server knows, and the methods of every type. -/
structure Program extends Types Bytes where
  isExported : Bytes → Bool
  typeString : Typ → Bytes
  typeOfContext : Typ
  typeOfError : Typ
  /-- The struct behind the contexts that `context.WithValue` returns. -/
  valueCtx : Typ
  valueCtx_implements : toTypes.implements (.ptr valueCtx) typeOfContext = true
  method : Typ → List Method
  receiver : ∀ typ, ∀ m ∈ method typ, m.ins.head? = some typ

/-- `type methodType struct`, without the counter of the calls. -/
structure MethodType where
  method : Method
  argType : Typ
  replyType : Typ

/-- What `handleRequest` reads of a `methodType`. -/
def MethodType.toMachine (mtype : MethodType) : Machine.MethodType Typ :=
  ⟨mtype.argType, mtype.replyType⟩

variable (prog : Program)

/-! ### Registration -/

/-- `isExportedOrBuiltinType`. The loop goes through the pointers; a type such as `type P *P` has no
end of them, so the loop is cut off. -/
def isExportedOrBuiltinType : ℕ → Typ → Option Bool
  | fuel, t =>
    match prog.elem t, fuel with
    | some _, 0 => none
    | some e, fuel + 1 => isExportedOrBuiltinType fuel e
    | none, _ => some ((prog.name t).any prog.isExported || (prog.pkgPath t).isNone)

/-- The body of the loop of `suitableMethods`: the entry for a method, unless it is passed over. -/
def suitableMethod (fuel : ℕ) (method : Method) : Option (Option MethodType) :=
  if method.pkgPath ≠ [] then some none
  else
    match method.ins with
    | [_, ctxType, argType, replyType] =>
      if !prog.implements ctxType prog.typeOfContext then some none
      else do
        if !(← isExportedOrBuiltinType prog fuel argType) then return none
        else if prog.kind replyType ≠ .ptr then return none
        else if !(← isExportedOrBuiltinType prog fuel replyType) then return none
        else
          match method.outs with
          | [returnType] =>
            if returnType ≠ prog.typeOfError then return none
            else return some ⟨method, argType, replyType⟩
          | _ => return none
    | _ => some none

/-- `map[string]*methodType` -/
abbrev MethodMap := AList fun _ : Bytes => MethodType

/-- The loop of `suitableMethods`. -/
def addMethods (fuel : ℕ) : List Method → MethodMap → Option MethodMap
  | [], methods => some methods
  | method :: rest, methods => do
    match ← suitableMethod prog fuel method with
    | some mtype => addMethods fuel rest (methods.insert method.name mtype)
    | none => addMethods fuel rest methods

/-- `suitableMethods` -/
def suitableMethods (fuel : ℕ) (typ : Typ) : Option MethodMap :=
  addMethods prog fuel (prog.method typ) ∅

/-! ### Requests -/

/-- The type of the argument: `reflect.New(argType.Elem())` for a pointer,
`reflect.New(argType).Elem()` for any other type. -/
def newArg (argType : Typ) : Typ := (prog.elem argType).elim argType .ptr

/-- The type of the reply: `reflect.New(replyType.Elem())`, which panics if there is no `Elem`. -/
def newReply (replyType : Typ) : Option Typ := (prog.elem replyType).map .ptr

/-- The text of the panic in which `function.Call` ends because of its arguments. -/
def callPanic (ins args : List Typ) : Option Bytes :=
  if args.length < ins.length then some (str "reflect: Call with too few input arguments")
  else if ins.length < args.length then some (str "reflect: Call with too many input arguments")
  else
    (args.zip ins).findSome? fun (xt, targ) =>
      if prog.assignableTo xt targ then none
      else some (str "reflect: Call using " ++ prog.typeString xt ++ str " as type " ++
        prog.typeString targ)

/-- The call of a method on a receiver of the type `typ`, from `replyv = reflect.New(…)` on: how the
method ends, if it would end as `exit` says when it is entered. `none` is a panic that nobody
recovers. -/
def invoke (typ : Typ) (mtype : MethodType) (exit : MethodExit) : Option MethodExit := do
  let replyv ← newReply prog mtype.replyType
  match callPanic prog mtype.method.ins
    [typ, .ptr prog.valueCtx, newArg prog mtype.argType, replyv] with
  | some text => return .panicked text
  | none => return exit

/-! ### What is accepted -/

variable {prog}

/-- **An accepted method** has four parameters; the second implements `context.Context`, the last is
a pointer. -/
theorem suitableMethod_eq_some {fuel : ℕ} {m : Method} {mtype : MethodType}
    (h : suitableMethod prog fuel m = some (some mtype)) :
    mtype.method = m ∧ ∃ rcvr ctxType, m.ins = [rcvr, ctxType, mtype.argType, mtype.replyType] ∧
      prog.implements ctxType prog.typeOfContext = true ∧ (prog.elem mtype.replyType).isSome := by
  unfold suitableMethod at h
  by_cases hpkg : m.pkgPath ≠ []
  · rw [if_pos hpkg] at h
    cases h
  rw [if_neg hpkg] at h
  split at h
  · rename_i rcvr ctxType argType replyType hins
    by_cases hctx : (!prog.implements ctxType prog.typeOfContext) = true
    · rw [if_pos hctx] at h
      cases h
    rw [if_neg hctx] at h
    obtain ⟨argOk, -, h⟩ := Option.bind_eq_some_iff.mp h
    by_cases harg : (!argOk) = true
    · rw [if_pos harg] at h
      cases h
    rw [if_neg harg] at h
    by_cases hptr : prog.kind replyType ≠ .ptr
    · rw [if_pos hptr] at h
      cases h
    rw [if_neg hptr] at h
    obtain ⟨replyOk, -, h⟩ := Option.bind_eq_some_iff.mp h
    by_cases hreply : (!replyOk) = true
    · rw [if_pos hreply] at h
      cases h
    rw [if_neg hreply] at h
    split at h
    · split_ifs at h
      · cases h
      · cases h
        refine ⟨rfl, rcvr, ctxType, hins, by simpa using hctx, ?_⟩
        exact Types.kind_eq_ptr.mp (not_not.mp hptr)
    · cases h
  · cases h

/-- The entries of the table come from methods that are accepted. -/
theorem addMethods_lookup {fuel : ℕ} {ms : List Method} {methods methods' : MethodMap}
    (h : addMethods prog fuel ms methods = some methods') {name : Bytes} {mtype : MethodType}
    (hm : methods'.lookup name = some mtype) :
    methods.lookup name = some mtype ∨
      ∃ m ∈ ms, suitableMethod prog fuel m = some (some mtype) := by
  induction ms generalizing methods with
  | nil =>
    cases h
    exact Or.inl hm
  | cons m ms ih =>
    obtain ⟨entry, hentry, hrest⟩ := Option.bind_eq_some_iff.mp h
    cases entry with
    | none =>
      rcases ih hrest with hold | ⟨m', hm', hs⟩
      · exact Or.inl hold
      · exact Or.inr ⟨m', List.mem_cons_of_mem m hm', hs⟩
    | some mtype' =>
      rcases ih hrest with hold | ⟨m', hm', hs⟩
      · by_cases hname : name = m.name
        · subst hname
          rw [AList.lookup_insert, Option.some.injEq] at hold
          exact Or.inr ⟨m, List.mem_cons_self, hold ▸ hentry⟩
        · rw [AList.lookup_insert_ne hname] at hold
          exact Or.inl hold
      · exact Or.inr ⟨m', List.mem_cons_of_mem m hm', hs⟩

theorem suitableMethods_lookup {fuel : ℕ} {typ : Typ} {methods : MethodMap}
    (h : suitableMethods prog fuel typ = some methods) {name : Bytes} {mtype : MethodType}
    (hm : methods.lookup name = some mtype) :
    ∃ m ∈ prog.method typ, suitableMethod prog fuel m = some (some mtype) := by
  rcases addMethods_lookup h hm with hold | hnew
  · cases hold
  · exact hnew

/-! ### What is called -/

theorem assignableTo_newArg (argType : Typ) :
    prog.assignableTo (newArg prog argType) argType = true := by
  unfold newArg
  cases helem : prog.elem argType with
  | none => exact Types.assignableTo_self argType
  | some e => exact Types.assignableTo_of_elem helem

theorem callPanic_eq {typ ctxType argType replyType e : Typ} (he : prog.elem replyType = some e) :
    callPanic prog [typ, ctxType, argType, replyType]
        [typ, .ptr prog.valueCtx, newArg prog argType, .ptr e] =
      if prog.assignableTo (.ptr prog.valueCtx) ctxType then none
      else some (str "reflect: Call using " ++ prog.typeString (.ptr prog.valueCtx) ++
        str " as type " ++
        prog.typeString ctxType) := by
  have hrcvr : prog.assignableTo typ typ = true := Types.assignableTo_self typ
  have harg : prog.assignableTo (newArg prog argType) argType = true := assignableTo_newArg argType
  have hreply : prog.assignableTo (.ptr e) replyType = true := Types.assignableTo_of_elem he
  unfold callPanic
  simp only [List.length_cons, List.length_nil, lt_irrefl, if_false, List.zip_cons_cons,
    List.zip_nil_right, List.findSome?_cons, List.findSome?_nil, hrcvr, harg, hreply, if_true]
  split_ifs <;> rfl

/-- The call of an accepted method: it is entered if it takes the context, and otherwise `reflect`
panics. -/
theorem invoke_eq {typ ctxType e : Typ} {mtype : MethodType}
    (hins : mtype.method.ins = [typ, ctxType, mtype.argType, mtype.replyType])
    (he : prog.elem mtype.replyType = some e) (exit : MethodExit) :
    invoke prog typ mtype exit =
      if prog.assignableTo (.ptr prog.valueCtx) ctxType then some exit
      else some (.panicked (str "reflect: Call using " ++ prog.typeString (.ptr prog.valueCtx) ++
        str " as type " ++ prog.typeString ctxType)) := by
  unfold invoke newReply
  rw [he, hins, Option.map_some]
  show (match callPanic prog _ _ with | some text => _ | none => _) = _
  rw [callPanic_eq he]
  split_ifs <;> rfl

/-- **A method that declares `context.Context` is entered**, if it is accepted. -/
theorem invoke_of_context {fuel : ℕ} {m : Method} {mtype : MethodType} {typ : Typ}
    (hs : suitableMethod prog fuel m = some (some mtype))
    (hm : m.ins = [typ, prog.typeOfContext, mtype.argType, mtype.replyType]) (exit : MethodExit) :
    invoke prog typ mtype exit = some exit := by
  obtain ⟨rfl, -, -, -, -, hreply⟩ := suitableMethod_eq_some hs
  obtain ⟨e, he⟩ := Option.isSome_iff_exists.mp hreply
  have htakes : prog.assignableTo (.ptr prog.valueCtx) prog.typeOfContext = true :=
    (Types.assignableTo_ptr _ _).mpr (Or.inr prog.valueCtx_implements)
  rw [invoke_eq hm he, if_pos htakes]

/-- **Accepted methods and the context.** For every type and every method in its table, the method
is entered, whatever it does then, exactly if its context parameter is an interface that
`*context.valueCtx` implements, or is a name of `*context.valueCtx`; otherwise every call of it ends
in a panic of `reflect`. -/
theorem accepted_callable_iff {fuel : ℕ} {typ : Typ} {methods : MethodMap}
    (h : suitableMethods prog fuel typ = some methods) {name : Bytes} {mtype : MethodType}
    (hm : methods.lookup name = some mtype) :
    ∃ ctxType, mtype.method.ins = [typ, ctxType, mtype.argType, mtype.replyType] ∧
      prog.implements ctxType prog.typeOfContext = true ∧
      ((∀ exit, invoke prog typ mtype exit = some exit) ↔
        prog.implements (.ptr prog.valueCtx) ctxType = true ∨
          prog.underlying ctxType = .ptr prog.valueCtx) ∧
      ((∀ exit, invoke prog typ mtype exit = some exit) ∨
        ∀ exit, invoke prog typ mtype exit = some (.panicked (str "reflect: Call using " ++
          prog.typeString (.ptr prog.valueCtx) ++ str " as type " ++
            prog.typeString ctxType))) := by
  obtain ⟨m, hmem, hs⟩ := suitableMethods_lookup h hm
  obtain ⟨rfl, rcvr, ctxType, hins, hctx, hreply⟩ := suitableMethod_eq_some hs
  obtain ⟨e, he⟩ := Option.isSome_iff_exists.mp hreply
  obtain rfl : rcvr = typ := by
    have hhead := prog.receiver typ _ hmem
    rw [hins] at hhead
    exact Option.some.inj hhead
  have hinvoke := invoke_eq hins he
  have hassign : prog.assignableTo (.ptr prog.valueCtx) ctxType = true ↔
      prog.underlying ctxType = .ptr prog.valueCtx ∨
        prog.implements (.ptr prog.valueCtx) ctxType = true :=
    Types.assignableTo_ptr _ _
  refine ⟨ctxType, hins, hctx, ?_, ?_⟩
  · rw [or_comm, ← hassign]
    constructor
    · intro hall
      by_contra hno
      have hexit := hall (.returned none)
      rw [hinvoke, if_neg hno] at hexit
      cases hexit
    · intro hyes exit
      rw [hinvoke, if_pos hyes]
  · by_cases hyes : prog.assignableTo (.ptr prog.valueCtx) ctxType = true
    · exact Or.inl fun exit => by rw [hinvoke, if_pos hyes]
    · exact Or.inr fun exit => by rw [hinvoke, if_neg hyes]

/-! ### A program -/

/-- The methods of `context.Context`. -/
def contextMethods : List (MethodSig Bytes) :=
  [⟨str "Deadline", 0⟩, ⟨str "Done", 1⟩, ⟨str "Err", 2⟩, ⟨str "Value", 3⟩]

/-- `context.Context`, `context.valueCtx`, `main.MyCtx`, which embeds a `context.Context`,
`main.Arith`, `main.Args`, `main.Reply`, and `error`. -/
def arithDecl : ℕ → Decl Bytes
  | 0 => ⟨str "Context", some (str "context"), .interface contextMethods, nofun⟩
  | 1 => ⟨str "valueCtx", some (str "context"), .literal 25 1, nofun⟩
  | 2 => ⟨str "MyCtx", some (str "main"), .literal 25 2, nofun⟩
  | 3 => ⟨str "Arith", some (str "main"), .literal 25 3, nofun⟩
  | 4 => ⟨str "Args", some (str "main"), .literal 25 4, nofun⟩
  | 5 => ⟨str "Reply", some (str "main"), .literal 25 5, nofun⟩
  | _ => ⟨str "error", none, .interface [⟨str "Error", 4⟩], nofun⟩

/-- `*Arith`, with the method `Mul(ctx ctxType, args Args, reply *Reply) error`. -/
def arith (ctxType : Typ) : Program where
  decl := arithDecl
  methodSet := fun t =>
    match t with
    | .ptr (.named 1) | .named 2 | .ptr (.named 2) => contextMethods
    | _ => []
  isExported := fun name => name.head?.any fun b => 65 ≤ b && b ≤ 90
  typeString := fun t =>
    match t with
    | .ptr (.named 1) => str "*context.valueCtx"
    | .ptr (.named 2) => str "*main.MyCtx"
    | _ => []
  typeOfContext := .named 0
  typeOfError := .named 6
  valueCtx := .named 1
  valueCtx_implements := rfl
  method := fun typ => [⟨str "Mul", [], [typ, ctxType, .named 4, .ptr (.named 5)], [.named 6]⟩]
  receiver := by
    intro typ m hm
    rw [List.mem_singleton.mp hm]
    rfl

/-- The entry of `Mul`. -/
def mul (ctxType : Typ) : MethodType :=
  ⟨⟨str "Mul", [], [.ptr (.named 3), ctxType, .named 4, .ptr (.named 5)], [.named 6]⟩, .named 4,
    .ptr (.named 5)⟩

/-- The table of `*Arith`. -/
def arithMethods (ctxType : Typ) : MethodMap := AList.insert (str "Mul") (mul ctxType) ∅

/-- With `ctx context.Context` the method is entered. -/
theorem accepted_callable_iff_context :
    suitableMethods (arith (.named 0)) 1 (.ptr (.named 3)) = some (arithMethods (.named 0)) ∧
      ∀ exit, invoke (arith (.named 0)) (.ptr (.named 3)) (mul (.named 0)) exit = some exit := by
  have htable : suitableMethods (arith (.named 0)) 1 (.ptr (.named 3)) =
      some (arithMethods (.named 0)) := rfl
  have hlookup : (arithMethods (.named 0)).lookup (str "Mul") = some (mul (.named 0)) :=
    AList.lookup_insert _
  obtain ⟨ctxType, hins, -, hiff, -⟩ := accepted_callable_iff htable hlookup
  have hctx : GoType.named 0 = ctxType := by
    injection hins with _ hins
    injection hins
  refine ⟨htable, hiff.mpr ?_⟩
  rw [← hctx]
  exact Or.inl rfl

/-- With `ctx *MyCtx` the method is accepted, and every request for it is answered with the panic of
the call. -/
theorem accepted_not_callable :
    ∃ methods, suitableMethods (arith (.ptr (.named 2))) 1 (.ptr (.named 3)) = some methods ∧
      methods.lookup (str "Mul") = some (mul (.ptr (.named 2))) ∧
      ∀ exit, (invoke (arith (.ptr (.named 2))) (.ptr (.named 3)) (mul (.ptr (.named 2))) exit).map
        serviceCall =
        some
          (some (.other
          (str "internal error: reflect: Call using *context.valueCtx as type *main.MyCtx"))) :=
  ⟨arithMethods (.ptr (.named 2)), rfl, AList.lookup_insert _, fun _ => rfl⟩

end Frpc.Server.Methods
